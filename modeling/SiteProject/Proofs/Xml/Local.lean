import SiteProject.Proofs.Text.Cut
import SiteProject.Proofs.Xml.Allowed

namespace SiteProject

namespace Text

/-- Whether a text starts with a word is decided within a beginning that is as long. -/
theorem startsWith_append {w x : Text} (h : w.length ≤ x.length) (r : Text) :
    startsWith w (x ++ r) = startsWith w x := by
  induction w generalizing x with
  | nil => rfl
  | cons c w ih =>
    cases x with
    | nil => simp at h
    | cons d x =>
      have ih := ih (x := x) (by simpa using h)
      simp only [startsWith, List.cons_append, after?] at ih ⊢
      split
      · exact ih
      · rfl

/-- It is also decided within a beginning that has a character which the word does not have. -/
theorem startsWith_append_cons {w x : Text} {c : Char} (hc : c ∉ w) (r r' : Text) :
    startsWith w (x ++ c :: r) = startsWith w (x ++ c :: r') := by
  induction w generalizing x with
  | nil => rfl
  | cons d w ih =>
    obtain ⟨hd, hw⟩ := List.ne_and_not_mem_of_not_mem_cons hc
    cases x with
    | nil =>
      simp only [startsWith, List.nil_append, after?, if_neg hd.symm]
    | cons e x =>
      have ih := ih (x := x) hw
      simp only [startsWith, List.cons_append, after?] at ih ⊢
      split
      · exact ih
      · rfl

theorem cut?_append {w s a r : Text} (h : cut? w s = some (a, r)) (r' : Text) :
    cut? w (a ++ w ++ r') = some (a, r') := by
  have hs := append_of_cut? h
  subst hs
  induction a with
  | nil =>
    have hstart : after? w (w ++ r') = some r' := after?_append w r'
    rw [List.nil_append]
    cases hw : w ++ r' with
    | nil =>
      rw [hw] at hstart
      rw [cut?, hstart]
      rfl
    | cons c t =>
      rw [hw] at hstart
      rw [cut?, hstart]
  | cons c a ih =>
    have hlength : w.length ≤ (c :: a ++ w).length := by simp; omega
    rw [List.cons_append, List.cons_append, cut?] at h ⊢
    split at h
    · simp at h
    · next hn =>
      have hnone : after? w (c :: (a ++ w ++ r')) = none := by
        have hstart := (startsWith_append hlength r').trans (startsWith_append hlength r).symm
        simp only [startsWith, List.cons_append] at hstart
        rwa [hn, Option.isSome_none, Option.isSome_eq_false_iff, Option.isNone_iff_eq_none] at hstart
      have hcut : cut? w (a ++ w ++ r) = some (a, r) := by
        simpa [Option.map_eq_some_iff, Prod.ext_iff] using h
      rw [hnone, ih hcut]
      rfl

theorem head?_dropWhile_any {p : Char → Bool} (s : Text) : (s.dropWhile p).head?.any p = false := by
  cases h : s.dropWhile p with
  | nil => rfl
  | cons c t =>
    have hc := List.head_dropWhile_not p (l := s) (by simp [h])
    simpa [h] using hc

/-- A class is dropped in the same way before any rest, where not all of the text is dropped. -/
theorem dropWhile_append {p : Char → Bool} {a b x : Text} (hne : x ≠ [])
    (h : (a ++ b).dropWhile p = x ++ b) (r : Text) : (a ++ r).dropWhile p = x ++ r := by
  have hsplit : a = (a ++ b).takeWhile p ++ x := by
    have hall := List.takeWhile_append_dropWhile (p := p) (l := a ++ b)
    rw [h, ← List.append_assoc] at hall
    exact (List.append_cancel_right hall).symm
  have htake : ∀ c ∈ (a ++ b).takeWhile p, p c = true := List.all_eq_true.1 List.all_takeWhile
  have hhead : (x ++ r).head?.any p = false := by
    have hany := head?_dropWhile_any (p := p) (a ++ b)
    obtain ⟨c, x, rfl⟩ := List.exists_cons_of_ne_nil hne
    rwa [h] at hany
  rw [hsplit, List.append_assoc, dropWhile_append_of_head? htake hhead]

end Text

namespace Xml

/-- The reader has passed over some text and looked at what comes next: before a rest that begins in the
same way it does the same. -/
def Peeks {β : Type} (read : Text → Option β) (result : Text → β) (s r : Text) : Prop :=
  ∃ x, s = x ++ r ∧ ∀ r', r'.head? = r.head? → read (x ++ r') = some (result r')

/-- The reader has passed over some text and looked no further: it does the same before any rest. -/
def Stops {β : Type} (read : Text → Option β) (result : Text → β) (s r : Text) : Prop :=
  ∃ x, x ≠ [] ∧ s = x ++ r ∧ ∀ r', read (x ++ r') = some (result r')

section Readers

variable {β γ : Type} {read : Text → Option β} {result : Text → β} {s t r : Text}

theorem head?_append_eq {r r' : Text} (h : r'.head? = r.head?) (y : Text) :
    (y ++ r').head? = (y ++ r).head? := by
  cases y with
  | nil => exact h
  | cons c y => rfl

theorem Stops.peeks (h : Stops read result s r) : Peeks read result s r := by
  obtain ⟨x, -, hs, hx⟩ := h
  exact ⟨x, hs, fun r' _ => hx r'⟩

/-- What the second reader passes over is what comes next for the first. -/
theorem Peeks.bind (g : β → Option γ) {result' : Text → γ} (h : Peeks read result s t)
    (h' : Peeks (fun u => g (result u)) result' t r) : Peeks (fun s => (read s).bind g) result' s r := by
  obtain ⟨x, rfl, hx⟩ := h
  obtain ⟨y, rfl, hy⟩ := h'
  refine ⟨x ++ y, by rw [List.append_assoc], fun r' hr' => ?_⟩
  dsimp only
  rw [List.append_assoc, hx _ (head?_append_eq hr' y), Option.bind_some]
  exact hy r' hr'

theorem Peeks.bind_stops (g : β → Option γ) {result' : Text → γ} (h : Peeks read result s t)
    (h' : Stops (fun u => g (result u)) result' t r) : Stops (fun s => (read s).bind g) result' s r := by
  obtain ⟨x, rfl, hx⟩ := h
  obtain ⟨y, hne, rfl, hy⟩ := h'
  obtain ⟨c, y, rfl⟩ := List.exists_cons_of_ne_nil hne
  refine ⟨x ++ c :: y, by simp, by rw [List.append_assoc], fun r' => ?_⟩
  dsimp only
  rw [List.append_assoc, hx (c :: y ++ r') rfl, Option.bind_some]
  exact hy r'

theorem Stops.bind_some (g : β → Option γ) {result' : Text → γ} (h : Stops read result s r)
    (hg : ∀ u, g (result u) = some (result' u)) : Stops (fun s => (read s).bind g) result' s r := by
  obtain ⟨x, hne, hs, hx⟩ := h
  refine ⟨x, hne, hs, fun r' => ?_⟩
  dsimp only
  rw [hx r', Option.bind_some, hg]

theorem Stops.map (h : Stops read result s r) (f : β → γ) :
    Stops (fun s => (read s).map f) (fun r => f (result r)) s r := by
  simp only [Option.map_eq_bind]
  exact h.bind_some _ fun _ => rfl

/-- A first character, and what is read after it. -/
theorem Stops.cons {read' : Text → Option β} {c : Char} (h : Stops read result s r)
    (hread : ∀ u, read' (c :: u) = read u) : Stops read' result (c :: s) r := by
  obtain ⟨x, -, rfl, hx⟩ := h
  exact ⟨c :: x, List.cons_ne_nil c x, rfl, fun r' => (hread _).trans (hx r')⟩

theorem Stops.of_after? {w : Text} (hw : w ≠ []) (h : Text.after? w s = some r) :
    Stops (Text.after? w) (fun r => r) s r :=
  ⟨w, hw, Text.after?_eq_some.1 h, Text.after?_append w⟩

theorem Stops.of_cut? {w a : Text} (hw : w ≠ []) (h : Text.cut? w s = some (a, r)) :
    Stops (Text.cut? w) (fun r => (a, r)) s r :=
  ⟨a ++ w, by simp [hw], Text.append_of_cut? h, Text.cut?_append h⟩

end Readers

/-- The characters of a class are passed over. -/
theorem peeks_dropWhile (p : Char → Bool) (s : Text) :
    Peeks (fun s => some (s.takeWhile p, s.dropWhile p)) (fun r => (s.takeWhile p, r)) s (s.dropWhile p) := by
  refine ⟨s.takeWhile p, List.takeWhile_append_dropWhile.symm, fun r' hr' => ?_⟩
  have htake : ∀ c ∈ s.takeWhile p, p c = true := List.all_eq_true.1 List.all_takeWhile
  have hhead : r'.head?.any p = false := by rw [hr', Text.head?_dropWhile_any]
  dsimp only
  rw [Text.takeWhile_append_of_head? htake hhead, Text.dropWhile_append_of_head? htake hhead]

theorem peeks_skipSpace (s : Text) :
    Peeks (fun s => some (skipSpace s)) (fun r => r) s (skipSpace s) := by
  obtain ⟨x, hs, hx⟩ := peeks_dropWhile isSpace s
  exact ⟨x, hs, fun r' hr' => congrArg (Option.map Prod.snd) (hx r' hr')⟩

theorem stops_after?_skipSpace {w s r : Text} (hw : w ≠ []) (h : Text.after? w (skipSpace s) = some r) :
    Stops (fun s => Text.after? w (skipSpace s)) (fun r => r) s r :=
  (peeks_skipSpace s).bind_stops (Text.after? w) (Stops.of_after? hw h)

theorem Name.peeks_read? {n : Name} {s r : Text} (h : Name.read? s = some (n, r)) :
    Peeks Name.read? (fun r => (n, r)) s r := by
  have hword (s r' : Text) (hr' : r'.head? = (s.dropWhile isNameChar).head?) :
      (s.takeWhile isNameChar ++ r').takeWhile isNameChar = s.takeWhile isNameChar ∧
        (s.takeWhile isNameChar ++ r').dropWhile isNameChar = r' := by
    have htake : ∀ c ∈ s.takeWhile isNameChar, isNameChar c = true := List.all_eq_true.1 List.all_takeWhile
    have hhead : r'.head?.any isNameChar = false := by rw [hr', Text.head?_dropWhile_any]
    exact ⟨Text.takeWhile_append_of_head? htake hhead, Text.dropWhile_append_of_head? htake hhead⟩
  have hs : s.takeWhile isNameChar ++ s.dropWhile isNameChar = s := List.takeWhile_append_dropWhile
  unfold Name.read? at h
  dsimp only at h
  split at h
  · next u hu =>
    simp only [Option.ite_none_right_eq_some, Option.some.injEq, Prod.mk.injEq] at h
    obtain ⟨hname, rfl, rfl⟩ := h
    refine ⟨s.takeWhile isNameChar ++ ':' :: u.takeWhile isNameChar, ?_, fun r' hr' => ?_⟩
    · rw [List.append_assoc, List.cons_append, List.takeWhile_append_dropWhile, ← hu, hs]
    · obtain ⟨htake, hdrop⟩ := hword s (':' :: (u.takeWhile isNameChar ++ r')) (by rw [hu]; rfl)
      obtain ⟨htake', hdrop'⟩ := hword u r' hr'
      rw [List.append_assoc, List.cons_append, Name.read?, htake, hdrop]
      simp only [htake', hdrop', hname, if_true]
  · next hcolon =>
    simp only [Option.ite_none_right_eq_some, Option.some.injEq, Prod.mk.injEq] at h
    obtain ⟨hname, rfl, rfl⟩ := h
    refine ⟨s.takeWhile isNameChar, hs.symm, fun r' hr' => ?_⟩
    obtain ⟨htake, hdrop⟩ := hword s r' hr'
    rw [Name.read?, htake, hdrop]
    dsimp only
    split
    · next u =>
      obtain ⟨v, hv⟩ : ∃ v, s.dropWhile isNameChar = ':' :: v := by
        cases hd : s.dropWhile isNameChar with
        | nil => simp [hd] at hr'
        | cons c v =>
          obtain rfl : ':' = c := by simpa [hd] using hr'
          exact ⟨v, rfl⟩
      exact absurd hv (hcolon v)
    · rw [if_pos hname]

theorem Name.peeks_skip? {s r : Text} (h : Name.skip? s = some r) : Peeks Name.skip? (fun r => r) s r := by
  cases s with
  | nil => simp [Name.skip?] at h
  | cons c s =>
    simp only [Name.skip?, Option.ite_none_right_eq_some, Option.some.injEq] at h
    obtain ⟨hc, rfl⟩ := h
    obtain ⟨x, hs, hx⟩ := peeks_dropWhile (fun d => isNameChar d || d == ':') s
    refine ⟨c :: x, by rw [List.cons_append, ← hs], fun r' hr' => ?_⟩
    rw [List.cons_append, Name.skip?, if_pos hc]
    exact congrArg (Option.map Prod.snd) (hx r' hr')

/-- The value of an attribute, from its quote on. -/
def value? (name : Name) : Text → Option ((Name × Text) × Text)
  | q :: s =>
    let value := s.takeWhile fun c => c != q && c != '<'
    if (q == '"' || q == '\x27') && value.all isAllowed then
      (Text.after? [q] (s.dropWhile fun c => c != q && c != '<')).map ((name, value), ·)
    else none
  | [] => none

theorem rawAttribute?_eq (s : Text) :
    rawAttribute? s = (Name.read? s).bind fun p =>
      (Text.after? ['='] (skipSpace p.2)).bind fun s => value? p.1 (skipSpace s) := rfl

theorem stops_value? {name : Name} {a : Name × Text} {s r : Text} (h : value? name s = some (a, r)) :
    Stops (value? name) (fun r => (a, r)) s r := by
  cases s with
  | nil => simp [value?] at h
  | cons q s =>
    simp only [value?, Option.ite_none_right_eq_some, Option.map_eq_some_iff, Prod.mk.injEq] at h
    obtain ⟨hq, r', hr', rfl, rfl⟩ := h
    have hclose := (Stops.of_after? (List.cons_ne_nil q []) hr').map
      ((name, s.takeWhile fun c => c != q && c != '<'), ·)
    have hvalue := (peeks_dropWhile (fun c => c != q && c != '<') s).bind_stops (fun p =>
      if (q == '"' || q == '\x27') && p.1.all isAllowed then (Text.after? [q] p.2).map ((name, p.1), ·)
      else none) (by simpa only [hq, if_true] using hclose)
    exact hvalue.cons fun _ => rfl

theorem stops_rawAttribute? {a : Name × Text} {s r : Text} (h : rawAttribute? s = some (a, r)) :
    Stops rawAttribute? (fun r => (a, r)) s r := by
  simp only [rawAttribute?_eq, Option.bind_eq_some_iff, Prod.exists] at h
  obtain ⟨name, s₁, h₁, s₂, h₂, h₃⟩ := h
  have hvalue := (peeks_skipSpace s₂).bind_stops (value? name) (stops_value? h₃)
  have hequals := (stops_after?_skipSpace (by decide) h₂).peeks.bind_stops
    (fun u => value? name (skipSpace u)) hvalue
  exact (Name.peeks_read? h₁).bind_stops _ hequals

theorem Name.exists_cons_of_read? {n : Name} {s r : Text} (h : Name.read? s = some (n, r)) :
    ∃ c t, s = c :: t ∧ (isNameChar c = true ∨ c = ':') := by
  cases s with
  | nil => cases h
  | cons c t =>
    refine ⟨c, t, rfl, Decidable.or_iff_not_imp_left.2 fun hc => ?_⟩
    have htake : (c :: t).takeWhile isNameChar = [] := List.takeWhile_cons_of_neg hc
    have hdrop : (c :: t).dropWhile isNameChar = c :: t := List.dropWhile_cons_of_neg hc
    unfold Name.read? at h
    rw [htake, hdrop] at h
    split at h
    · next he => exact (List.cons.inj he).1
    · cases h

theorem attributes?_of_closed {s r : Text} (h : skipSpace s = '/' :: '>' :: r) :
    attributes? s = some (([], true), r) := by
  rw [attributes?, h]
  rfl

theorem attributes?_of_open {s r : Text} (h : skipSpace s = '>' :: r) :
    attributes? s = some (([], false), r) := by
  rw [attributes?, h]
  rfl

theorem attributes?_of_rawAttribute? {s r value : Text} {name : Name} {ws : List Written}
    (hspace : s.head?.any isSpace = true) (h : rawAttribute? (skipSpace s) = some ((name, value), r))
    (hws : written? value = some ws) :
    attributes? s = (attributes? r).map fun p => ((⟨name, attributeValue ws⟩ :: p.1.1, p.1.2), p.2) := by
  have hname (c : Char) {t : Text} (hc : skipSpace s = c :: t) : isNameChar c = true ∨ c = ':' := by
    rw [rawAttribute?_eq, Option.bind_eq_some_iff] at h
    obtain ⟨p, hp, -⟩ := h
    obtain ⟨d, u, hd, hd'⟩ := Name.exists_cons_of_read? hp
    rw [hc] at hd
    rwa [(List.cons.inj hd).1]
  rw [attributes?]
  split
  · next he => exact absurd (hname '/' he) (by decide)
  · next he => exact absurd (hname '>' he) (by decide)
  · rw [if_pos hspace]
    split
    · next hn =>
      rw [h] at hn
      cases hn
    · next name' value' r' he =>
      rw [h] at he
      obtain ⟨⟨rfl, rfl⟩, rfl⟩ : (name = name' ∧ value = value') ∧ r = r' := by simpa using he
      rw [hws]
      cases attributes? r with
      | none => rfl
      | some p => rfl

theorem stops_attributes? {p : List Attribute × Bool} {s r : Text} (h : attributes? s = some (p, r)) :
    Stops attributes? (fun r => (p, r)) s r := by
  fun_induction attributes? s generalizing p r with
  | case1 s r' hs =>
    obtain ⟨rfl, rfl⟩ := Prod.mk.inj (Option.some.inj h)
    obtain ⟨x, hx, hskip⟩ := peeks_skipSpace s
    rw [hs] at hx hskip
    refine ⟨x ++ ['/', '>'], by simp, by rw [hx, List.append_assoc]; rfl, fun u => ?_⟩
    rw [List.append_assoc]
    exact attributes?_of_closed (Option.some.inj (hskip _ rfl))
  | case2 s r' hs =>
    obtain ⟨rfl, rfl⟩ := Prod.mk.inj (Option.some.inj h)
    obtain ⟨x, hx, hskip⟩ := peeks_skipSpace s
    rw [hs] at hx hskip
    refine ⟨x ++ ['>'], by simp, by rw [hx, List.append_assoc]; rfl, fun u => ?_⟩
    rw [List.append_assoc]
    exact attributes?_of_open (Option.some.inj (hskip _ rfl))
  | case3 => cases h
  | case4 s hspace name value r' hr _ _ ih =>
    simp only [Option.bind_eq_bind, Option.bind_eq_some_iff, Prod.exists] at h
    obtain ⟨ws, hws, as, closed, r'', hrest, h⟩ := h
    obtain ⟨rfl, rfl⟩ := Prod.mk.inj (Option.some.inj h)
    obtain ⟨x, hx, hskip⟩ := peeks_skipSpace s
    obtain ⟨y, -, hy, hraw⟩ := stops_rawAttribute? hr
    obtain ⟨z, hne, rfl, hread⟩ := ih hrest
    obtain ⟨c, z, rfl⟩ := List.exists_cons_of_ne_nil hne
    refine ⟨x ++ (y ++ c :: z), by simp, by rw [hx, hy]; simp only [List.append_assoc], fun u => ?_⟩
    simp only [List.append_assoc]
    have hhead (v : Text) : (y ++ (c :: z ++ v)).head? = (skipSpace s).head? := by
      rw [hy]
      exact head?_append_eq (by rfl) y
    have hskip' : skipSpace (x ++ (y ++ (c :: z ++ u))) = y ++ (c :: z ++ u) :=
      Option.some.inj (hskip _ (hhead u))
    have hspace' : (x ++ (y ++ (c :: z ++ u))).head?.any isSpace = true := by
      rw [head?_append_eq (hhead u) x, ← hx]
      exact hspace
    rw [attributes?_of_rawAttribute? hspace' (hskip' ▸ hraw _) hws, hread u]
    rfl
  | case5 => cases h

namespace Token

theorem stops_comment? {s r : Text} (h : comment? s = some r) : Stops comment? (fun r => r) s r := by
  simp only [comment?, Option.bind_eq_bind, Option.bind_eq_some_iff, Option.ite_none_right_eq_some,
    Prod.exists, Option.some.injEq] at h
  obtain ⟨inner, s₁, h₁, hinner, rfl⟩ := h
  exact (Stops.of_cut? (by decide) h₁).bind_some _ fun u => if_pos hinner

theorem stops_instruction? {s r : Text} (h : instruction? s = some r) :
    Stops instruction? (fun r => r) s r := by
  simp only [instruction?, Option.bind_eq_bind, Option.bind_eq_some_iff, Option.ite_none_left_eq_some,
    Option.ite_none_right_eq_some, Prod.exists, Option.some.injEq] at h
  obtain ⟨hxml, s₁, h₁, inner, s₂, h₂, hinner, rfl⟩ := h
  have hlead := (Name.peeks_skip? h₁).bind (fun s => some (skipSpace s)) (peeks_skipSpace s₁)
  obtain ⟨x, rfl, hlead⟩ := hlead
  rw [Text.append_of_cut? h₂] at hxml hlead
  refine ⟨x ++ (inner ++ ['?', '>']), by simp, by rw [List.append_assoc, ← Text.append_of_cut? h₂],
    fun r' => ?_⟩
  have hdecl : Text.startsWith ['x', 'm', 'l', ' '] (x ++ (inner ++ ['?', '>']) ++ r') = false := by
    have hsame := Text.startsWith_append_cons (c := '?') (x := x ++ inner) (w := ['x', 'm', 'l', ' '])
      (by decide) ('>' :: r') ('>' :: s₂)
    simpa using hsame.trans (by simpa using hxml)
  have hnext : (inner ++ ['?', '>'] ++ r').head? = (inner ++ ['?', '>'] ++ s₂).head? := by
    rw [List.append_assoc, List.append_assoc]
    exact head?_append_eq (by rfl) inner
  obtain ⟨u, hu, hskip⟩ := Option.bind_eq_some_iff.1 (hlead _ hnext)
  rw [List.append_assoc] at hdecl ⊢
  simp only [instruction?, hdecl, hu, Option.some.inj hskip, Text.cut?_append h₂ r', hinner,
    Option.bind_eq_bind, Option.bind_some, if_true]
  rfl

theorem stops_cdata? {t s r : Text} (h : cdata? s = some (t, r)) : Stops cdata? (fun r => (t, r)) s r := by
  simp only [cdata?, Option.bind_eq_bind, Option.bind_eq_some_iff, Option.ite_none_right_eq_some,
    Prod.exists, Option.some.injEq, Prod.mk.injEq] at h
  obtain ⟨inner, s₁, h₁, hinner, rfl, rfl⟩ := h
  exact (Stops.of_cut? (by decide) h₁).bind_some _ fun u => if_pos hinner

theorem stops_closing? {n : Name} {s r : Text} (h : closing? s = some (n, r)) :
    Stops closing? (fun r => (n, r)) s r := by
  simp only [closing?, Option.bind_eq_bind, Option.bind_eq_some_iff, Prod.exists] at h
  obtain ⟨name, s₁, h₁, s₂, h₂, h⟩ := h
  obtain ⟨rfl, rfl⟩ := Prod.mk.inj (Option.some.inj h)
  exact (Name.peeks_read? h₁).bind_stops _
    ((stops_after?_skipSpace (by decide) h₂).bind_some _ fun _ => rfl)

theorem stops_opening? {p : Name × List Attribute × Bool} {s r : Text} (h : opening? s = some (p, r)) :
    Stops opening? (fun r => (p, r)) s r := by
  simp only [opening?, Option.bind_eq_bind, Option.bind_eq_some_iff, Prod.exists] at h
  obtain ⟨name, s₁, h₁, as, closed, s₂, h₂, h⟩ := h
  obtain ⟨rfl, rfl⟩ := Prod.mk.inj (Option.some.inj h)
  exact (Name.peeks_read? h₁).bind_stops _ ((stops_attributes? h₂).bind_some _ fun _ => rfl)

theorem peeks_chars? {t s r : Text} (h : chars? s = some (t, r)) :
    r.head?.any (· != '<') = false ∧
      ∃ x, s = x ++ r ∧ ∀ r', r'.head?.any (· != '<') = false → chars? (x ++ r') = some (t, r') := by
  simp only [chars?, Option.ite_none_right_eq_some, Option.map_eq_some_iff, Prod.mk.injEq] at h
  obtain ⟨hraw, ws, hws, rfl, rfl⟩ := h
  have htake : ∀ c ∈ s.takeWhile (· != '<'), (c != '<') = true := List.all_eq_true.1 List.all_takeWhile
  refine ⟨Text.head?_dropWhile_any s, s.takeWhile (· != '<'), List.takeWhile_append_dropWhile.symm,
    fun r' hr' => ?_⟩
  rw [chars?, Text.takeWhile_append_of_head? htake hr', Text.dropWhile_append_of_head? htake hr', hws,
    if_pos hraw]
  rfl

theorem markup?_comment (s : Text) : markup? (commentOpen ++ s) = (comment? s).map (aside, ·) := rfl

theorem markup?_cdata (s : Text) :
    markup? (cdataOpen ++ s) = (cdata? s).map fun p => (chars p.1, p.2) := rfl

theorem stops_markup? {t : Token} {s r : Text} (h : markup? s = some (t, r)) :
    Stops markup? (fun r => (t, r)) s r := by
  have hword {w u r : Text} {read : Text → Option (Token × Text)} (hu : Text.after? w s = some u)
      (hread : ∀ v, markup? (w ++ v) = read v) (hstops : Stops read (fun r => (t, r)) u r) :
      Stops markup? (fun r => (t, r)) s r := by
    obtain ⟨x, hne, rfl, hx⟩ := hstops
    refine ⟨w ++ x, by simp [hne], by rw [Text.after?_eq_some.1 hu, List.append_assoc], fun r' => ?_⟩
    rw [List.append_assoc, hread, hx]
  unfold markup? at h
  split at h
  · obtain ⟨r', hr', he⟩ := Option.map_eq_some_iff.1 h
    obtain ⟨rfl, rfl⟩ := Prod.mk.inj he
    exact ((stops_instruction? hr').map (aside, ·)).cons fun _ => rfl
  · obtain ⟨⟨n, r'⟩, hr', he⟩ := Option.map_eq_some_iff.1 h
    obtain ⟨rfl, rfl⟩ := Prod.mk.inj he
    exact ((stops_closing? hr').map fun p => (closing p.1, p.2)).cons fun _ => rfl
  · split at h
    · next u _ hu =>
      obtain ⟨r', hr', he⟩ := Option.map_eq_some_iff.1 h
      obtain ⟨rfl, rfl⟩ := Prod.mk.inj he
      exact hword hu markup?_comment ((stops_comment? hr').map (aside, ·))
    · next u _ hu =>
      obtain ⟨⟨v, r'⟩, hr', he⟩ := Option.map_eq_some_iff.1 h
      obtain ⟨rfl, rfl⟩ := Prod.mk.inj he
      exact hword hu markup?_cdata ((stops_cdata? hr').map fun p => (chars p.1, p.2))
    · cases h
  · next hinstruction hclosing hcomment =>
    obtain ⟨⟨p, r'⟩, hr', he⟩ := Option.map_eq_some_iff.1 h
    obtain ⟨rfl, rfl⟩ := Prod.mk.inj he
    obtain ⟨x, hne, rfl, hx⟩ := stops_opening? hr'
    obtain ⟨c, x, rfl⟩ := List.exists_cons_of_ne_nil hne
    refine ⟨c :: x, hne, rfl, fun u => ?_⟩
    unfold markup?
    split
    · next he => exact absurd (by rw [(List.cons.inj he).1]; rfl) (hinstruction (x ++ r'))
    · next he => exact absurd (by rw [(List.cons.inj he).1]; rfl) (hclosing (x ++ r'))
    · next he => exact absurd (by rw [(List.cons.inj he).1]; rfl) (hcomment (x ++ r'))
    · rw [hx u]
      rfl

/-- A token is read in the same way before any rest that begins with other markup; a tag, a comment or the
like before any rest at all. -/
theorem local_read? {t : Token} {s r : Text} (h : read? s = some (t, r)) :
    ∃ x, x ≠ [] ∧ s = x ++ r ∧
      ∀ r', r'.head? = r.head? ∨ r'.head? = some '<' → read? (x ++ r') = some (t, r') := by
  cases s with
  | nil => cases h
  | cons c s =>
    rw [read?] at h
    split at h
    · next hc =>
      subst hc
      obtain ⟨x, -, rfl, hx⟩ := stops_markup? h
      exact ⟨'<' :: x, by simp, rfl, fun r' _ => hx r'⟩
    · next hc =>
      obtain ⟨⟨v, r'⟩, hr', he⟩ := Option.map_eq_some_iff.1 h
      obtain ⟨rfl, rfl⟩ := Prod.mk.inj he
      obtain ⟨hr, x, hx, hread⟩ := peeks_chars? hr'
      obtain ⟨x, rfl⟩ : ∃ y, x = c :: y := by
        cases x with
        | nil =>
          rw [List.nil_append] at hx
          rw [← hx] at hr
          simp [hc] at hr
        | cons d y => exact ⟨y, by rw [(List.cons.inj hx).1]⟩
      refine ⟨c :: x, by simp, hx, fun u hu => ?_⟩
      have hhead : u.head?.any (· != '<') = false := by
        rcases hu with hu | hu
        · rw [hu, hr]
        · rw [hu]
          rfl
      have hchars := hread u hhead
      rw [List.cons_append] at hchars ⊢
      rw [read?, if_neg hc, hchars]
      rfl

end Token

end Xml
end SiteProject
