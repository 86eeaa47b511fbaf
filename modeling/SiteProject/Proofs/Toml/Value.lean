import SiteProject.Proofs.Toml.Line
import SiteProject.Toml.Document

namespace SiteProject.Toml

variable {s : Text} {read : Text → Option (Value × Text)}

/-- Of the readers of values only that of strings takes a quote. -/
theorem simpleValue?_of_quote {q : Char} (hq : q = '"' ∨ q = '\x27') (s : Text) :
    simpleValue? (q :: s) = (Quoted.read? (q :: s)).map fun p => (.string p.1, p.2) := by
  have hdigit : q.isDigit = false := by rcases hq with rfl | rfl <;> decide
  have htime : Time.read? (q :: s) = none := by
    simp [Time.read?, Time.date?, Time.time?, Time.number?, hdigit]
  have hword {c : Char} {w : Text} (hc : c ≠ '"' ∧ c ≠ '\x27') : Text.after? (c :: w) (q :: s) = none := by
    rw [Text.after?, if_neg]
    rintro rfl
    exact hq.elim hc.1 hc.2
  have hsign : sign (q :: s) = (false, q :: s) := by rcases hq with rfl | rfl <;> rfl
  have hdecimal : decimal? (q :: s) = none := by
    rcases hq with rfl | rfl <;> simp [decimal?, digits?]
  have hfloat : float? (q :: s) = none := by
    simp [float?, hsign, hdecimal, unbounded?, hword]
  have hinteger : integer? (q :: s) = none := by
    rcases hq with rfl | rfl <;> simp [integer?, hsign, hdecimal]
  simp [simpleValue?, htime, hword, hfloat, hinteger]

theorem stays_simpleValue? : Stays simpleValue? := by
  intro s p h t
  by_cases hq : s.head? = some '"' ∨ s.head? = some '\x27'
  · obtain ⟨q, s, rfl⟩ : ∃ q u, s = q :: u := by
      cases s with
      | nil => simp at hq
      | cons q u => exact ⟨q, u, rfl⟩
    simp only [List.head?_cons, Option.some.injEq] at hq
    rw [simpleValue?_of_quote hq] at h
    obtain ⟨p, hp, rfl⟩ := Option.map_eq_some_iff.1 h
    rw [List.cons_append, simpleValue?_of_quote hq, ← List.cons_append, Quoted.stays_read? hp t]
    rfl
  · have hnone (u : Text) (hu : u.head? = some '"' ∨ u.head? = some '\x27' → False) : Quoted.read? u = none :=
      Quoted.read?_of_head? (not_or.1 hu)
    have hnone' : Quoted.read? (s ++ '\n' :: t) = none := by
      refine hnone _ fun hu => ?_
      cases s with
      | nil => simp at hu
      | cons c s => exact hq hu
    simp only [simpleValue?, hnone s hq, Option.map_none, Option.none_or] at h
    simp only [simpleValue?, hnone', Option.map_none, Option.none_or]
    rw [after?_append_line (by decide), after?_append_line (by decide), Time.read?_append_line,
      float?_append_line, integer?_append_line, ← Option.map_or, ← Option.map_or]
    have hmap (v : Value) (o : Option Text) : (o.map (· ++ '\n' :: t)).map (fun s => (v, s)) =
        (o.map fun s => (v, s)).map (withLines t) := by
      cases o <;> rfl
    rw [hmap, hmap, hmap, ← Option.map_or, ← Option.map_or, h, Option.map_some]

theorem stays_keyPart? : Stays keyPart? := by
  intro s p h t
  unfold keyPart? at h
  have hword := takeWhile_append_line (p := isBareKeyChar) (by decide) s t
  have hrest := dropWhile_append_line (p := isBareKeyChar) (by decide) s t
  cases hw : s.takeWhile isBareKeyChar with
  | nil =>
    rw [hw] at h
    rw [keyPart?, hword, hw]
    exact Quoted.stays_line? h t
  | cons c w =>
    rw [hw] at h
    obtain rfl := Option.some.inj h
    rw [keyPart?, hword, hw, hrest]
    rfl

theorem stays_key? (budget : Nat) : Stays (key? budget) := by
  induction budget with
  | zero => exact fun h => nomatch h
  | succ budget ih =>
    intro s p h t
    obtain ⟨⟨part, r⟩, hpart, h⟩ := Option.bind_eq_some_iff.1 h
    have hkey := stays_keyPart? hpart t
    dsimp only at h
    rw [key?, skipSpace_append_line, hkey]
    simp only [Option.bind_eq_bind, Option.bind_some, withLines, skipSpace_append_line]
    split at h
    · next u hu =>
      obtain ⟨⟨parts, v⟩, hparts, h⟩ := Option.bind_eq_some_iff.1 h
      obtain rfl := Option.some.inj h
      simp only [hu, List.cons_append, ih hparts t, Option.bind_some, withLines]
      rfl
    · next hu =>
      obtain rfl := Option.some.inj h
      split
      · next v hv => exact (append_line_ne (w := ['.']) (by decide) hu t v hv).elim
      · rfl

theorem stays_pair? (hread : Stays read) : Stays (pair? read) := by
  intro s p h t
  obtain ⟨⟨key, r₁⟩, h₁, h⟩ := Option.bind_eq_some_iff.1 h
  obtain ⟨r₂, h₂, h⟩ := Option.bind_eq_some_iff.1 h
  obtain ⟨⟨v, r₃⟩, h₃, h⟩ := Option.bind_eq_some_iff.1 h
  obtain rfl := Option.some.inj h
  rw [pair?, stays_key? _ h₁ t]
  simp only [Option.bind_eq_bind, Option.bind_some, withLines, after?_append_line (w := ['=']) (by decide),
    h₂, Option.map_some, skipSpace_append_line, hread h₃ t]
  rfl

/-- An element, and what a comma or a bracket behind it leads to. -/
theorem elements?_succ {n : Nat} {c : Char} {u : Text} (hskip : skipLines false s = c :: u) (hc : c ≠ ']') :
    elements? read (n + 1) s = (read (c :: u)).bind fun p =>
      match skipLines false p.2 with
      | ',' :: r => (elements? read n r).bind fun q => some (p.1 :: q.1, q.2)
      | ']' :: r => some ([p.1], r)
      | _ => none := by
  rw [elements?, hskip]
  split
  · next heq => exact absurd (List.cons.inj heq).1 hc
  · rfl

/-- The elements of an array are also read with more lines behind, and with more fuel. -/
theorem elements?_append_line (hread : Stays read) (hnil : read [] = none) {n m : Nat}
    {p : List Value × Text} (h : elements? read n s = some p) (hle : n ≤ m) (t : Text) :
    elements? read m (s ++ '\n' :: t) = some (withLines t p) := by
  induction n generalizing m s p with
  | zero => cases h
  | succ n ih =>
    obtain ⟨m, rfl⟩ := Nat.exists_eq_add_one_of_ne_zero (n := m) (by omega)
    cases hskip : skipLines false s with
    | nil => simp [elements?, hskip, hnil] at h
    | cons c u =>
      have hskip' : skipLines false (s ++ '\n' :: t) = c :: (u ++ '\n' :: t) := skipLines_append hskip _
      by_cases hc : c = ']'
      · subst hc
        rw [elements?, hskip] at h
        obtain rfl := Option.some.inj h
        rw [elements?, hskip']
        rfl
      · rw [elements?_succ hskip hc] at h
        obtain ⟨⟨v, r⟩, hv, h⟩ := Option.bind_eq_some_iff.1 h
        have hv' : read (c :: (u ++ '\n' :: t)) = some (withLines t (v, r)) := hread hv t
        rw [elements?_succ hskip' hc, hv', Option.bind_some, withLines]
        dsimp only at h ⊢
        split at h
        · next w hw =>
          obtain ⟨⟨vs, q⟩, hvs, h⟩ := Option.bind_eq_some_iff.1 h
          obtain rfl := Option.some.inj h
          simp only [skipLines_append hw, List.cons_append, ih hvs (by omega : n ≤ m), Option.bind_some]
          rfl
        · next w hw =>
          obtain rfl := Option.some.inj h
          simp only [skipLines_append hw, List.cons_append]
          rfl
        · cases h

/-- The pairs of a table in braces are also read with more lines behind, and with more fuel. -/
theorem pairs?_append_line (hread : Stays read) {n m : Nat} {p : List (List Text × Value) × Text}
    (h : pairs? read n s = some p) (hle : n ≤ m) (t : Text) :
    pairs? read m (s ++ '\n' :: t) = some (withLines t p) := by
  induction n generalizing m s p with
  | zero => cases h
  | succ n ih =>
    obtain ⟨m, rfl⟩ := Nat.exists_eq_add_one_of_ne_zero (n := m) (by omega)
    obtain ⟨⟨first, r⟩, hfirst, h⟩ := Option.bind_eq_some_iff.1 h
    dsimp only at h
    rw [pairs?, stays_pair? hread hfirst t]
    simp only [Option.bind_eq_bind, Option.bind_some, withLines, skipSpace_append_line]
    split at h
    · next w heq =>
      obtain ⟨⟨ps, q⟩, hps, h⟩ := Option.bind_eq_some_iff.1 h
      obtain rfl := Option.some.inj h
      simp only [heq, List.cons_append, ih hps (by omega : n ≤ m), Option.bind_some]
      rfl
    · next w heq =>
      obtain rfl := Option.some.inj h
      simp only [heq, List.cons_append]
      rfl
    · cases h

theorem stays_braces? (hread : Stays read) : Stays (braces? read) := by
  intro s p h t
  rw [braces?] at h ⊢
  rw [skipSpace_append_line]
  split at h
  · next r heq =>
    obtain rfl := Option.some.inj h
    simp only [heq, List.cons_append]
    rfl
  · next hclose =>
    obtain ⟨⟨ps, r⟩, hps, h⟩ := Option.bind_eq_some_iff.1 h
    obtain ⟨es, hes, h⟩ := Option.bind_eq_some_iff.1 h
    obtain rfl := Option.some.inj h
    split
    · next heq => exact (append_line_ne (w := ['\x7d']) (by decide) hclose t _ heq).elim
    · have hlength : (skipSpace s).length ≤ (skipSpace s ++ '\n' :: t).length := by simp
      simp only [pairs?_append_line hread hps hlength t, Option.bind_eq_bind, Option.bind_some, withLines,
        hes]
      rfl

theorem value?_nil (depth : Nat) : value? depth [] = none := by
  have hsimple : simpleValue? [] = none := by decide
  cases depth <;> exact hsimple

/-- A value is read on its line: more lines behind change nothing. -/
theorem stays_value? (depth : Nat) : Stays (value? depth) := by
  induction depth with
  | zero => exact stays_simpleValue?
  | succ depth ih =>
    intro s p h t
    unfold value? at h
    split at h
    · next s =>
      obtain ⟨⟨vs, r⟩, hvs, rfl⟩ := Option.map_eq_some_iff.1 h
      have hlength : s.length ≤ (s ++ '\n' :: t).length := by simp
      rw [List.cons_append, value?, elements?_append_line ih (value?_nil depth) hvs hlength]
      rfl
    · next s => exact stays_braces? ih h t
    · next harray hbraces =>
      rw [value?]
      · exact stays_simpleValue? h t
      · exact append_line_ne (w := ['[']) (by decide) harray t
      · exact append_line_ne (w := ['\x7b']) (by decide) hbraces t

end SiteProject.Toml
