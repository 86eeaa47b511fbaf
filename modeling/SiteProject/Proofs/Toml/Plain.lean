import Mathlib.Data.List.Forall2
import Mathlib.Data.List.TakeWhile
import SiteProject.Proofs.Toml.Value
import SiteProject.Text.Lines

namespace SiteProject.Toml

/-- A key without quotes. -/
def IsBare (k : Text) : Prop := k ≠ [] ∧ ∀ c ∈ k, isBareKeyChar c = true

instance : DecidablePred IsBare := fun k =>
  decidable_of_iff (k ≠ [] ∧ k.all isBareKeyChar = true) (and_congr_right fun _ => List.all_eq_true)

/-- What a line says. -/
inductive Line
  | empty
  | header (name : Text)
  | pair (key : Text) (v : Value)

namespace Line

/-- The ways to write a line. -/
inductive Written : Line → Text → Prop
  | empty {s : Text} (hs : IsRest s) : Written .empty s
  | header {lead a name b rest : Text} (hlead : ∀ c ∈ lead, isSpace c = true)
      (ha : ∀ c ∈ a, isSpace c = true) (hname : IsBare name) (hb : ∀ c ∈ b, isSpace c = true)
      (hrest : IsRest rest) : Written (.header name) (lead ++ '[' :: (a ++ (name ++ (b ++ ']' :: rest))))
  /-- The value is what a reader finds behind the equals sign, with no more than a comment after it. -/
  | pair {lead key gap s rest : Text} {v : Value} (hlead : ∀ c ∈ lead, isSpace c = true)
      (hkey : IsBare key) (hgap : ∀ c ∈ gap, isSpace c = true)
      (hv : value? (nestingLimit - 1) (skipSpace s) = some (v, rest)) (hrest : IsRest rest) :
      Written (.pair key v) (lead ++ (key ++ (gap ++ '=' :: s)))

def statement? : Line → Option Statement
  | empty => none
  | header name => some (.table [name])
  | pair key v => some (.pair [key] v)

/-- The name that is written on the line. -/
def name? : Line → Option Text
  | empty => none
  | header name => some name
  | pair key _ => some key

/-- The section that is open after the line. -/
def opens (open? : Option Text) : Line → Option Text
  | header name => some name
  | _ => open?

end Line

/-- The text of these lines, of which the last may have no line end. -/
inductive IsText : List Text → Text → Prop
  | nil : IsText [] []
  | last (l : Text) : IsText [l] l
  | cons {l s : Text} {ls : List Text} (h : IsText ls s) : IsText (l :: ls) (l ++ '\n' :: s)

theorem isText_plainLineEnds (s : Text) : IsText (Text.lines s) (plainLineEnds s) := by
  fun_induction Text.lines s with
  | case1 => exact .nil
  | case2 s ih => exact .cons (l := []) ih
  | case3 s ih => exact .cons (l := []) ih
  | case4 c s hline hreturn hnil ih =>
    rw [hnil] at ih
    rw [plainLineEnds]
    · generalize plainLineEnds s = r at ih
      cases ih
      exact .last [c]
    · exact hreturn
  | case5 c s hline hreturn l ls hls ih =>
    rw [hls] at ih
    rw [plainLineEnds]
    · generalize plainLineEnds s = r at ih
      cases ih with
      | last => exact .last (c :: l)
      | cons h => exact .cons h
    · exact hreturn

/-- What may stand behind a line, and what follows its end. -/
inductive Behind : Text → Text → Prop
  | none : Behind [] []
  | lines (t : Text) : Behind ('\n' :: t) t

variable {s t u : Text}

theorem Behind.endLine? (h : Behind t u) (hs : IsRest s) : endLine? (s ++ t) = some u := by
  cases h with
  | none => rw [List.append_nil, endLine?_of_isRest hs]
  | lines => exact endLine?_append_line hs u

theorem Behind.value? {depth : Nat} {v : Value} {r : Text} (h : Behind t u)
    (hv : value? depth (skipSpace s) = some (v, r)) :
    value? depth (skipSpace (s ++ t)) = some (v, r ++ t) := by
  cases h with
  | none => rw [List.append_nil, List.append_nil, hv]
  | lines =>
    rw [skipSpace_append_line]
    exact stays_value? depth hv u

theorem skipSpace_append {a : Text} (ha : ∀ c ∈ a, isSpace c = true) (hs : s.head?.any isSpace = false) :
    skipSpace (a ++ s) = s :=
  Text.dropWhile_append_of_head? ha hs

theorem skipLines_skipSpace (s : Text) : skipLines false (skipSpace s) = skipLines false s := by
  induction s with
  | nil => rfl
  | cons c s ih =>
    by_cases hc : isSpace c = true
    · have hline : c ≠ '\n' := by rintro rfl; cases hc
      have hsign : c ≠ '#' := by rintro rfl; cases hc
      rw [skipSpace, List.dropWhile_cons_of_pos hc, skipLines, if_neg hline, if_neg (by simp), if_neg hsign,
        if_pos hc]
      exact ih
    · rw [skipSpace, List.dropWhile_cons_of_neg hc]

theorem skipLines_comment (hs : ∀ c ∈ s, isPlain c = true) (h : Behind t u) :
    skipLines true (s ++ t) = skipLines false u := by
  induction s with
  | nil => cases h <;> rfl
  | cons c s ih =>
    obtain ⟨hc, hs⟩ := List.forall_mem_cons.1 hs
    have hline : c ≠ '\n' := by rintro rfl; exact absurd hc (by decide)
    rw [List.cons_append, skipLines, if_neg hline, if_pos rfl, if_pos hc, ih hs]

/-- An empty line is passed over. -/
theorem skipLines_rest (hs : IsRest s) (h : Behind t u) : skipLines false (s ++ t) = skipLines false u := by
  have hskip : skipLines false (s ++ t) = skipLines false (skipSpace s ++ t) := by
    cases h with
    | none => rw [List.append_nil, List.append_nil, skipLines_skipSpace]
    | lines => rw [← skipSpace_append_line, skipLines_skipSpace]
  rw [hskip]
  unfold IsRest skipComment at hs
  split at hs
  · next r hr =>
    rw [hr]
    exact skipLines_comment (List.dropWhile_eq_nil_iff.1 hs) h
  · rw [hs]
    cases h <;> rfl

theorem IsBare.exists_cons {k : Text} (h : IsBare k) : ∃ c r, k = c :: r ∧ isBareKeyChar c = true := by
  obtain ⟨hne, hall⟩ := h
  obtain ⟨c, r, rfl⟩ := List.exists_cons_of_ne_nil hne
  exact ⟨c, r, rfl, hall c (by simp)⟩

theorem isSpace_of_isBareKeyChar {c : Char} (h : isBareKeyChar c = true) : isSpace c = false := by
  rw [Bool.eq_false_iff]
  intro hs
  rcases Bool.or_eq_true_iff.1 hs with hs | hs
  · rw [beq_iff_eq.1 hs] at h
    cases h
  · rw [beq_iff_eq.1 hs] at h
    cases h

/-- A bare key is read as one part, in space or not. -/
theorem key?_bare {a k : Text} {n : Nat} (ha : ∀ c ∈ a, isSpace c = true) (hk : IsBare k)
    (hs : s.head?.any isBareKeyChar = false) (hdot : ∀ r, skipSpace s = '.' :: r → False) :
    key? (n + 1) (a ++ (k ++ s)) = some ([k], skipSpace s) := by
  have hstart : (k ++ s).head?.any isSpace = false := by
    obtain ⟨c, r, rfl, hc⟩ := hk.exists_cons
    exact isSpace_of_isBareKeyChar hc
  have hpart : keyPart? (k ++ s) = some (k, s) := by
    rw [keyPart?, Text.takeWhile_append_of_head? hk.2 hs, Text.dropWhile_append_of_head? hk.2 hs]
    obtain ⟨c, r, rfl, -⟩ := hk.exists_cons
    rfl
  rw [key?, skipSpace_append ha hstart, hpart]
  simp only [Option.bind_eq_bind, Option.bind_some]
  rfl

/-- What stands between a key and the sign behind it. -/
theorem key?_before {a k b : Text} {q : Char} {n : Nat} (ha : ∀ c ∈ a, isSpace c = true) (hk : IsBare k)
    (hb : ∀ c ∈ b, isSpace c = true) (hq : q = ']' ∨ q = '=') (s : Text) :
    key? (n + 1) (a ++ (k ++ (b ++ q :: s))) = some ([k], q :: s) := by
  have hq' : isBareKeyChar q = false ∧ isSpace q = false ∧ q ≠ '.' := by rcases hq with rfl | rfl <;> decide
  have hskip : skipSpace (b ++ q :: s) = q :: s := skipSpace_append hb hq'.2.1
  rw [key?_bare ha hk, hskip]
  · cases b with
    | nil => exact hq'.1
    | cons c b =>
      have hc : isSpace c = true := hb c (by simp)
      cases hbare : isBareKeyChar c with
      | false => exact hbare
      | true => simp [isSpace_of_isBareKeyChar hbare] at hc
  · rw [hskip]
    exact fun r h => hq'.2.2 (List.cons.inj h).1

/-- A bracket begins neither space nor a bare key. -/
theorem ne_open {a k : Text} (ha : ∀ c ∈ a, isSpace c = true) (hk : IsBare k) (s r : Text) :
    a ++ (k ++ s) = '[' :: r → False := by
  intro he
  cases a with
  | nil =>
    obtain ⟨c, k, rfl, hc⟩ := hk.exists_cons
    obtain rfl := (List.cons.inj he).1
    cases hc
  | cons c a =>
    have hc := ha c (by simp)
    obtain rfl := (List.cons.inj he).1
    cases hc

/-- A line that says something is read as its statement. -/
theorem Line.Written.exists_statement? {l : Line} {st : Statement} (hl : l.Written s)
    (hst : l.statement? = some st) (h : Behind t u) :
    ∃ c r, skipLines false (s ++ t) = c :: r ∧ Toml.statement? (c :: r) = some (st, u) := by
  cases hl with
  | empty => cases hst
  | @header lead a name b rest hlead ha hname hb hrest =>
    obtain rfl := Option.some.inj hst
    refine ⟨'[', a ++ (name ++ (b ++ ']' :: (rest ++ t))), ?_, ?_⟩
    · simp only [List.append_assoc, List.cons_append]
      rw [← skipLines_skipSpace, skipSpace_append hlead rfl]
      rfl
    · have hkey := key?_before (n := 78) ha hname hb (.inl rfl) (rest ++ t)
      rw [Toml.statement?, nestingLimit, hkey]
      · simp only [Option.bind_eq_bind, Option.bind_some, Text.after?, if_true, h.endLine? hrest]
        rfl
      · exact fun r => ne_open ha hname _ r
  | @pair lead key gap text rest v hlead hkey hgap hv hrest =>
    obtain rfl := Option.some.inj hst
    have hvalue := h.value? hv
    have hpair := key?_before (a := []) (n := 78) (by simp) hkey hgap (.inr rfl) (text ++ t)
    obtain ⟨c, r, rfl, hc⟩ := hkey.exists_cons
    refine ⟨c, r ++ (gap ++ '=' :: (text ++ t)), ?_, ?_⟩
    · have hline : c ≠ '\n' := by rintro rfl; cases hc
      have hsign : c ≠ '#' := by rintro rfl; cases hc
      have hspace := isSpace_of_isBareKeyChar hc
      simp only [List.append_assoc, List.cons_append]
      rw [← skipLines_skipSpace, skipSpace_append hlead (by exact hspace), skipLines, if_neg hline,
        if_neg (by simp), if_neg hsign, if_neg (by simp [hspace])]
    · have hopen : c ≠ '[' := by rintro rfl; cases hc
      rw [List.nil_append, List.cons_append] at hpair
      rw [Toml.statement?]
      · rw [pair?, nestingLimit, hpair]
        simp only [Option.bind_eq_bind, Option.bind_some, Text.after?, if_true]
        rw [nestingLimit] at hvalue
        simp only [hvalue, Option.bind_some, Option.pure_def, h.endLine? hrest]
      · exact fun _ h => hopen (List.cons.inj h).1
      · exact fun _ h => hopen (List.cons.inj h).1

theorem Behind.length_lt (h : Behind t u) (hs : s ++ t ≠ []) : u.length < (s ++ t).length := by
  cases h with
  | none =>
    rw [List.length_nil]
    exact List.length_pos_of_ne_nil hs
  | lines =>
    rw [List.length_append, List.length_cons]
    omega

/-- A line puts its statement in front of those that stand behind it. -/
theorem statements?_line {l : Line} (hl : l.Written s) (h : Behind t u) {sts : List Statement}
    (hu : ∀ n, u.length ≤ n → statements? n u = some sts) {n : Nat} (hn : (s ++ t).length ≤ n) :
    statements? n (s ++ t) = some (l.statement?.toList ++ sts) := by
  cases hst : l.statement? with
  | none =>
    have hrest : IsRest s := by
      cases hl with
      | empty hs => exact hs
      | header => cases hst
      | pair => cases hst
    have hlength : u.length ≤ n := by
      cases h with
      | none => exact Nat.zero_le n
      | lines => simp at hn; omega
    have hn := hu n hlength
    rw [Option.toList_none, List.nil_append, ← hn]
    cases n <;> simp only [statements?, skipLines_rest hrest h]
  | some st =>
    obtain ⟨c, r, hskip, hread⟩ := hl.exists_statement? hst h
    have hne : s ++ t ≠ [] := by
      intro he
      rw [he] at hskip
      cases hskip
    have hlength := h.length_lt hne
    obtain ⟨n, rfl⟩ := Nat.exists_eq_add_one_of_ne_zero (n := n) (by omega)
    rw [statements?, hskip]
    simp only [hread, Option.bind_eq_bind, Option.bind_some, hu n (by omega)]
    rfl

/-- The statements of a plain document are those of its lines. -/
theorem statements?_of_written {ls : List Line} {ts : List Text} (hls : List.Forall₂ Line.Written ls ts)
    (hs : IsText ts s) {n : Nat} (hn : s.length ≤ n) :
    statements? n s = some (ls.flatMap fun l => l.statement?.toList) := by
  have hnil (n : Nat) : statements? n [] = some [] := by cases n <;> rfl
  induction hs generalizing ls n with
  | nil =>
    cases hls
    exact hnil n
  | last l =>
    obtain _ | ⟨hl, hls⟩ := hls
    cases hls
    rw [← List.append_nil l] at hn ⊢
    exact statements?_line hl .none (fun n _ => hnil n) hn
  | cons hs ih =>
    obtain _ | ⟨hl, hls⟩ := hls
    exact statements?_line hl (.lines _) (fun n hn => ih hls hn) hn

theorem parse?_of_written {ls : List Line}
    (hls : List.Forall₂ Line.Written ls (Text.lines (withoutMark s))) :
    parse? s = ((ls.flatMap fun l => l.statement?.toList).foldlM Draft.add? {}).map Draft.entries := by
  rw [parse?]
  simp only [statements?_of_written hls (isText_plainLineEnds _) (Nat.le_refl _), Option.bind_eq_bind,
    Option.bind_some]
  cases (ls.flatMap fun l => l.statement?.toList).foldlM Draft.add? {} <;> rfl

/-- Of the tables a value is one in braces. -/
theorem ne_implied_of_value? {depth : Nat} {v : Value} {r : Text} (h : value? depth s = some (v, r))
    (es : Entries) : v ≠ .table .implied es := by
  have hsimple (h : simpleValue? s = some (v, r)) : v ≠ .table .implied es := by
    rintro rfl
    simp [simpleValue?, Option.or_eq_some_iff] at h
  cases depth with
  | zero => exact hsimple h
  | succ depth =>
    unfold value? at h
    split at h
    · obtain ⟨p, -, hp⟩ := Option.map_eq_some_iff.1 h
      rintro rfl
      cases hp
    · unfold braces? at h
      split at h
      · rintro rfl
        cases h
      · obtain ⟨p, -, h⟩ := Option.bind_eq_some_iff.1 h
        obtain ⟨es', -, h⟩ := Option.bind_eq_some_iff.1 h
        rintro rfl
        cases h
    · exact hsimple h

namespace Entries

variable {k : Text} {v w : Value} {es es' : Entries}

/-- No entry has the key. -/
def Lacks (k : Text) (es : Entries) : Prop := ∀ e ∈ es, e.1 ≠ k

theorem alter_of_lacks (h : Lacks k es) (f : Option Value → Option Value) :
    alter k f es = (f none).map fun v => es ++ [(k, v)] := by
  induction es with
  | nil => rfl
  | cons e es ih =>
    obtain ⟨he, hes⟩ := List.forall_mem_cons.1 h
    rw [alter, if_neg he, ih hes, Option.map_map]
    rfl

theorem alter_append (h : Lacks k es) (f : Option Value → Option Value) :
    alter k f (es ++ [(k, w)]) = (f (some w)).map fun v => es ++ [(k, v)] := by
  induction es with
  | nil => rw [List.nil_append, alter, if_pos rfl]; rfl
  | cons e es ih =>
    obtain ⟨he, hes⟩ := List.forall_mem_cons.1 h
    rw [List.cons_append, alter, if_neg he, ih hes, Option.map_map]
    rfl

theorem add_eq_some (h : add k v es = some es') : Lacks k es ∧ es' = es ++ [(k, v)] := by
  suffices hlacks : Lacks k es by
    rw [add, alter_of_lacks hlacks] at h
    exact ⟨hlacks, (Option.some.inj h).symm⟩
  rw [add] at h
  induction es generalizing es' with
  | nil => exact List.forall_mem_nil _
  | cons e es ih =>
    rw [alter] at h
    split at h
    · cases h
    · next he =>
      obtain ⟨es'', hes, -⟩ := Option.map_eq_some_iff.1 h
      exact List.forall_mem_cons.2 ⟨he, ih hes⟩

/-- A section is opened once, where none is there on the way to another. -/
theorem openTable_eq_some (h : openTable k es = some es')
    (himplied : ∀ e ∈ es, ∀ sub, e.2 ≠ .table .implied sub) :
    Lacks k es ∧ es' = es ++ [(k, .table .header [])] := by
  rw [openTable, get?] at h
  cases hfind : es.find? fun e => e.1 == k with
  | none =>
    rw [hfind] at h
    have hlacks : Lacks k es := fun e he => by simpa using List.find?_eq_none.1 hfind e he
    exact ⟨hlacks, (Option.some.inj h).symm⟩
  | some e =>
    rw [hfind, Option.map_some] at h
    split at h
    · next heq => cases heq
    · next sub heq => exact absurd (Option.some.inj heq) (himplied e (List.mem_of_find?_eq_some hfind) sub)
    · cases h

end Entries

namespace Draft

variable {d d' : Draft} {k name : Text} {v : Value} {es sub : Entries}

/-- A draft of sections one after the other, with the name of the open one, if there is one. -/
structure Flat (d : Draft) (section? : Option Text) : Prop where
  header : d.header = section?.toList
  last : ∀ name ∈ section?, ∃ es sub, d.entries = es ++ [(name, .table .header sub)] ∧ Entries.Lacks name es
  values : ∀ e ∈ d.entries, ∀ sub, e.2 ≠ .table .implied sub

theorem flat_empty : Flat {} none where
  header := rfl
  last := nofun
  values := nofun

/-- A value before the first section is a new entry. -/
theorem Flat.add?_pair_root (hd : d.Flat none) (h : d.add? (.pair [k] v) = some d')
    (hv : ∀ sub, v ≠ .table .implied sub) : d'.Flat none ∧ d'.entries = d.entries ++ [(k, v)] := by
  obtain ⟨es, hes, h⟩ := Option.bind_eq_some_iff.1 h
  obtain rfl := Option.some.inj h
  rw [hd.header] at hes
  have hadd : Entries.add k v d.entries = some es := hes
  obtain ⟨-, rfl⟩ := Entries.add_eq_some hadd
  refine ⟨⟨hd.header, nofun, fun e he => ?_⟩, rfl⟩
  rcases List.mem_append.1 he with he | he
  · exact hd.values e he
  · obtain rfl := List.mem_singleton.1 he
    exact hv

/-- A value in a section is a new entry of the section. -/
theorem Flat.add?_pair_section (hd : d.Flat (some name)) (h : d.add? (.pair [k] v) = some d') :
    d'.Flat (some name) ∧ ∃ es sub, d.entries = es ++ [(name, .table .header sub)] ∧
      d'.entries = es ++ [(name, .table .header (sub ++ [(k, v)]))] := by
  obtain ⟨es', hes, h⟩ := Option.bind_eq_some_iff.1 h
  obtain rfl := Option.some.inj h
  obtain ⟨es, sub, hentries, hlacks⟩ := hd.last name rfl
  have hset : Entries.setAt [name] [k] v (es ++ [(name, .table .header sub)]) =
      (Entries.add k v sub).map fun sub => es ++ [(name, .table .header sub)] := by
    rw [Entries.setAt, Entries.changeAt, Entries.alter_append hlacks]
    dsimp only
    rw [if_neg (by simp), Option.map_map]
    rfl
  rw [hd.header, hentries, Option.toList_some, hset] at hes
  obtain ⟨sub', hadd, rfl⟩ := Option.map_eq_some_iff.1 hes
  obtain ⟨-, rfl⟩ := Entries.add_eq_some hadd
  refine ⟨⟨hd.header, ?_, fun e he => ?_⟩, es, sub, hentries, rfl⟩
  · rintro _ ⟨⟩
    exact ⟨es, sub ++ [(k, v)], rfl, hlacks⟩
  · rcases List.mem_append.1 he with he | he
    · exact hd.values e (hentries ▸ List.mem_append_left _ he)
    · obtain rfl := List.mem_singleton.1 he
      exact nofun

/-- A header opens a new section at the end. -/
theorem Flat.add?_table {section? : Option Text} (hd : d.Flat section?)
    (h : d.add? (.table [name]) = some d') :
    d'.Flat (some name) ∧ d'.entries = d.entries ++ [(name, .table .header [])] := by
  obtain ⟨es, hes, h⟩ := Option.bind_eq_some_iff.1 h
  obtain rfl := Option.some.inj h
  have hopen : Entries.openTable name d.entries = some es := hes
  obtain ⟨hlacks, rfl⟩ := Entries.openTable_eq_some hopen hd.values
  refine ⟨⟨rfl, ?_, fun e he => ?_⟩, rfl⟩
  · rintro _ ⟨⟩
    exact ⟨d.entries, [], rfl, hlacks⟩
  · rcases List.mem_append.1 he with he | he
    · exact hd.values e he
    · obtain rfl := List.mem_singleton.1 he
      exact nofun

end Draft

end SiteProject.Toml
