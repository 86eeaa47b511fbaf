import SiteProject.Proofs.Solution.Grammar
import SiteProject.Solution.Layout
import SiteProject.Text.Lines

namespace SiteProject.Solution

namespace Entry

theorem closing_eq : closing = 'E' :: "ndProject".toList := by decide

theorem not_isWord_of_body? {s b r : Text} (h : body? s = some (b, r)) :
    r.head?.any isWord = false := by
  induction s generalizing b with
  | nil => simp [body?] at h
  | cons c s ih =>
    rw [body?] at h
    split at h
    · next r' hr =>
      obtain ⟨-, rfl⟩ := Prod.mk.inj (Option.some.inj h)
      simpa using (Option.filter_eq_some_iff.1 hr).2
    · simp only [Option.map_eq_some_iff, Prod.mk.injEq, Prod.exists] at h
      obtain ⟨b', r', hb, -, rfl⟩ := h
      exact ih hb

theorem afterClosing?_append {r : Text} (hr : r.head?.any isWord = false) :
    afterClosing? (closing ++ r) = some r := by
  rw [afterClosing?, Text.after?_append, Option.filter_some, hr]
  rfl

theorem body?_closing {r : Text} (hr : r.head?.any isWord = false) :
    body? (closing ++ r) = some ([], r) := by
  have ha := afterClosing?_append hr
  rw [closing_eq, List.cons_append] at ha
  rw [closing_eq, List.cons_append, body?, ha]

/-- A closing word that starts before another one ends in the text up to the end of that one. -/
theorem afterClosing?_eq_none {c : Char} {b r r' : Text}
    (h : afterClosing? (c :: (b ++ closing ++ r)) = none) :
    afterClosing? (c :: (b ++ closing ++ r')) = none := by
  refine Option.eq_none_iff_forall_ne_some.2 fun q hq => ?_
  obtain ⟨ha, hw⟩ := Option.filter_eq_some_iff.1 hq
  have hp : closing ++ q = (c :: b ++ closing) ++ r' := by
    simpa using (Text.after?_eq_some.1 ha).symm
  rcases List.append_eq_append_iff.1 hp with ⟨t, ht, rfl⟩ | ⟨t, ht, -⟩
  · have hne : t ≠ [] := by
      intro e
      have hl := congrArg List.length ht
      simp only [e, List.length_append, List.length_cons, List.length_nil] at hl
      omega
    obtain ⟨d, t, rfl⟩ := List.exists_cons_of_ne_nil hne
    have hs : afterClosing? (c :: (b ++ closing ++ r)) = some (d :: t ++ r) := by
      rw [← List.cons_append, ← List.cons_append, ht, List.append_assoc]
      exact afterClosing?_append (by simpa using hw)
    rw [hs] at h
    exact absurd h (by simp)
  · have hl := congrArg List.length ht
    simp only [List.length_append, List.length_cons] at hl
    omega

/-- The end of an entry stays where it is when other text follows. -/
theorem body?_of_body? {b r r' : Text} (h : body? (b ++ closing ++ r) = some (b, r))
    (hr : r'.head?.any isWord = false) : body? (b ++ closing ++ r') = some (b, r') := by
  induction b with
  | nil => exact body?_closing hr
  | cons c b ih =>
    rw [List.cons_append, List.cons_append, body?] at h ⊢
    split at h
    · simp at h
    · next hn =>
      obtain ⟨⟨b', q⟩, hb, he⟩ := Option.map_eq_some_iff.1 h
      obtain ⟨rfl, rfl⟩ : b' = b ∧ q = r := by simpa using he
      rw [afterClosing?_eq_none hn, ih hb]
      rfl

/-- A closing word right after a line ending. -/
theorem body?_lineEnding (ending : Text.LineEnding) {r : Text} (hr : r.head?.any isWord = false) :
    body? (ending.text ++ closing ++ r) = some (ending.text, r) := by
  have step {c : Char} {b s : Text} (hc : c ≠ 'E') (hs : body? s = some (b, r)) :
      body? (c :: s) = some (c :: b, r) := by
    have hn : afterClosing? (c :: s) = none := by
      rw [afterClosing?, closing_eq, Text.after?, if_neg (Ne.symm hc)]
      rfl
    rw [body?, hn, hs]
    rfl
  cases ending with
  | lf => exact step (by decide) (body?_closing hr)
  | crlf => exact step (by decide) (step (by decide) (body?_closing hr))

end Entry

theorem layoutAfter_of_isWord {before : Option Char} {c : Char} {s : Text}
    (h : before.any Entry.isWord = true) :
    layoutAfter before (c :: s) = .other c :: layoutAfter (some c) s := by
  rw [layoutAfter, if_pos h]

theorem layoutAfter_of_read?_eq_none {before : Option Char} {c : Char} {s : Text}
    (hr : Header.read? (c :: s) = none) :
    layoutAfter before (c :: s) = .other c :: layoutAfter (some c) s := by
  rw [layoutAfter]
  split
  · rfl
  · split
    · rfl
    · next h => simp [hr] at h

theorem layoutAfter_of_body?_eq_none {before : Option Char} {s r : Text} {h : Header}
    (hb : before.any Entry.isWord = false) (hr : Header.read? s = some (h, r))
    (hn : Entry.body? r = none) : layoutAfter before s = s.map .other := by
  cases s with
  | nil => rw [layoutAfter]; rfl
  | cons c s =>
    rw [layoutAfter, if_neg (by simp [hb])]
    split
    · next h' => simp [hr] at h'
    · next h' r' he =>
      obtain ⟨rfl, rfl⟩ : h' = h ∧ r' = r := by simpa [hr, eq_comm] using he
      split
      · rfl
      · next h'' => simp [hn] at h''

theorem layoutAfter_of_body? {before : Option Char} {s r b t : Text} {h : Header}
    (hb : before.any Entry.isWord = false) (hr : Header.read? s = some (h, r))
    (hc : Entry.body? r = some (b, t)) :
    layoutAfter before s = .entry ⟨h, b⟩ :: layoutAfter (some 't') t := by
  cases s with
  | nil =>
    have hl := Header.length_lt_of_read? hr
    simp at hl
  | cons c s =>
    rw [layoutAfter, if_neg (by simp [hb])]
    split
    · next h' => simp [hr] at h'
    · next h' r' he =>
      obtain ⟨rfl, rfl⟩ : h' = h ∧ r' = r := by simpa [hr, eq_comm] using he
      split
      · next h'' => simp [hc] at h''
      · next b' t' he' =>
        obtain ⟨rfl, rfl⟩ : b' = b ∧ t' = t := by simpa [hc, eq_comm] using he'
        rfl

theorem wellFormed_of_mem_layoutAfter {before : Option Char} {s : Text} {e : Entry}
    (h : Piece.entry e ∈ layoutAfter before s) : e.header.WellFormed := by
  fun_induction layoutAfter before s with
  | case1 => simp at h
  | case2 before c s hb ih => exact ih (by simpa using h)
  | case3 before c s hb hn ih => exact ih (by simpa using h)
  | case4 before c s hb header r hr hn => simp at h
  | case5 before c s hb header r hr b t hc ih =>
    rcases List.mem_cons.1 h with h | h
    · rw [Piece.entry.inj h]
      exact Header.wellFormed_of_read? hr
    · exact ih h

/-- The texts around the entries: before the first, between neighbours and after the last. -/
def gaps : List Piece → List Text
  | [] => [[]]
  | .other c :: ps =>
    match gaps ps with
    | [] => [[c]]
    | g :: gs => (c :: g) :: gs
  | .entry _ :: ps => [] :: gaps ps

/-- Gaps with texts between them, in turn. -/
def weave : List Text → List Text → Text
  | [], ts => ts.flatten
  | g :: gs, [] => g ++ gs.flatten
  | g :: gs, t :: ts => g ++ t ++ weave gs ts

theorem exists_gaps_eq_cons (ps : List Piece) : ∃ g gs, gaps ps = g :: gs := by
  cases ps with
  | nil => exact ⟨[], [], rfl⟩
  | cons p ps =>
    cases p with
    | entry e => exact ⟨[], gaps ps, rfl⟩
    | other c =>
      rw [gaps]
      split
      · exact ⟨[c], [], rfl⟩
      · next g gs _ => exact ⟨c :: g, gs, rfl⟩

theorem length_gaps (ps : List Piece) : (gaps ps).length = (ps.filterMap Piece.entry?).length + 1 := by
  induction ps with
  | nil => rfl
  | cons p ps ih =>
    cases p with
    | entry e => simp [gaps, Piece.entry?, ih]
    | other c =>
      obtain ⟨g, gs, hg⟩ := exists_gaps_eq_cons ps
      rw [hg] at ih
      simpa [gaps, hg, List.filterMap_cons, Piece.entry?] using ih

/-- Between its gaps a text has whatever its entries are written as. -/
theorem weave_gaps {f : Piece → Text} (hf : ∀ c, f (.other c) = [c]) (ps : List Piece) :
    weave (gaps ps) ((ps.filterMap Piece.entry?).map fun e => f (.entry e)) = ps.flatMap f := by
  induction ps with
  | nil => rfl
  | cons p ps ih =>
    cases p with
    | entry e => simpa [gaps, weave, List.filterMap_cons, Piece.entry?] using ih
    | other c =>
      obtain ⟨g, gs, hg⟩ := exists_gaps_eq_cons ps
      have hw (ts : List Text) : weave ((c :: g) :: gs) ts = c :: weave (g :: gs) ts := by
        cases ts <;> rfl
      rw [hg] at ih
      simp only [gaps, hg, List.filterMap_cons, Piece.entry?, List.flatMap_cons, hw, ih, hf]
      rfl

end SiteProject.Solution
