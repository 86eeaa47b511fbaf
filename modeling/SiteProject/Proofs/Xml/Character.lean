import SiteProject.Xml.Character

namespace SiteProject.Xml

namespace Written

/-- The character that is meant. -/
def char : Written → Char
  | plain c => c
  | referenced c => c

end Written

/-- How a character is read that was escaped. -/
def mark (c : Char) : Written := if escapeChar c = [c] then .plain c else .referenced c

theorem char_mark (c : Char) : (mark c).char = c := by
  rw [mark]
  split <;> rfl

/-- The text is read as these characters, whatever follows it. -/
def Spells (w : Text) (ws : List Written) : Prop :=
  ∀ s, written? (w ++ s) = (written? s).map (ws ++ ·)

theorem written?_cons_of_ne {c : Char} (hc : c ≠ '&') (s : Text) :
    written? (c :: s) = (written? s).map (.plain c :: ·) := by
  rw [written?, if_neg hc]

theorem written?_ampersand {c : Char} {s r : Text} (h : reference? s = some (c, r)) :
    written? ('&' :: s) = (written? r).map (.referenced c :: ·) := by
  rw [written?, if_pos rfl]
  split
  · next hn => simp [hn] at h
  · next d r' hr =>
    obtain ⟨rfl, rfl⟩ : d = c ∧ r' = r := by simpa [hr] using h
    rfl

namespace Spells

theorem nil : Spells [] [] := by
  intro s
  simp

theorem append {w v : Text} {ws vs : List Written} (hw : Spells w ws) (hv : Spells v vs) :
    Spells (w ++ v) (ws ++ vs) := by
  intro s
  rw [List.append_assoc, hw, hv, Option.map_map]
  congr 1
  funext us
  simp

theorem written? {w : Text} {ws : List Written} (h : Spells w ws) : written? w = some ws := by
  have hn : Xml.written? [] = some [] := by rw [Xml.written?]
  have hs := h []
  rw [List.append_nil, hn] at hs
  simpa using hs

end Spells

theorem spells_plain {w : Text} (h : '&' ∉ w) : Spells w (w.map .plain) := by
  intro s
  induction w with
  | nil => simp
  | cons c w ih =>
    have hc : c ≠ '&' := fun e => h (by simp [e])
    rw [List.cons_append, written?_cons_of_ne hc, ih fun hm => h (by simp [hm]), Option.map_map]
    rfl

theorem reference?_named {p : Text × Char} (hp : p ∈ namedReferences) (s : Text) :
    reference? (p.1 ++ s) = some (p.2, s) := by
  simp only [namedReferences, List.mem_cons, List.not_mem_nil, or_false] at hp
  rcases hp with rfl | rfl | rfl | rfl | rfl <;> rfl

/-- A character is kept, or replaced with the reference that stands for it. -/
theorem escapeChar_cases (c : Char) :
    (escapeChar c = [c] ∧ ∀ p ∈ namedReferences, c ≠ p.2) ∨
      ∃ p ∈ namedReferences, c = p.2 ∧ escapeChar c = '&' :: p.1 := by
  by_cases h : ∃ p ∈ namedReferences, c = p.2
  · obtain ⟨p, hp, rfl⟩ := h
    have hall : ∀ p ∈ namedReferences, escapeChar p.2 = '&' :: p.1 := by decide
    exact .inr ⟨p, hp, rfl, hall p hp⟩
  · have hne : ∀ p ∈ namedReferences, c ≠ p.2 := fun p hp e => h ⟨p, hp, e⟩
    refine .inl ⟨?_, hne⟩
    simp only [namedReferences, List.mem_cons, List.not_mem_nil, or_false, forall_eq_or_imp,
      forall_eq] at hne
    unfold escapeChar
    split <;> simp_all

theorem spells_escapeChar (c : Char) : Spells (escapeChar c) [mark c] := by
  intro s
  rw [mark]
  rcases escapeChar_cases c with ⟨h, hne⟩ | ⟨p, hp, rfl, h⟩
  · rw [if_pos h, h]
    exact written?_cons_of_ne (hne ("amp;".toList, '&') (by decide)) s
  · have hlong : '&' :: p.1 ≠ [p.2] := by
      have hall : ∀ p ∈ namedReferences, '&' :: p.1 ≠ [p.2] := by decide
      exact hall p hp
    rw [h, if_neg hlong]
    exact written?_ampersand (reference?_named hp s)

/-- Escaped text is read as the characters it was made from. -/
theorem spells_escape (t : Text) : Spells (escape t) (t.map mark) := by
  induction t with
  | nil => exact Spells.nil
  | cons c t ih => exact (spells_escapeChar c).append ih

theorem map_char_mark (t : Text) : (t.map mark).map Written.char = t := by
  induction t with
  | nil => rfl
  | cons c t ih => rw [List.map_cons, List.map_cons, char_mark, ih]

theorem map_char_plain (t : Text) : (t.map Written.plain).map Written.char = t := by
  rw [List.map_map]
  exact List.map_id t

/-- Character data without carriage returns is kept. -/
theorem content_eq {ws : List Written} (h : ∀ w ∈ ws, w.char ≠ '\r') (b : Bool) :
    content b ws = ws.map Written.char := by
  fun_induction content b ws <;> simp_all [Written.char]

/-- A value without tabs and line breaks is kept. -/
theorem attributeValue_eq {ws : List Written}
    (h : ∀ w ∈ ws, w.char ≠ '\t' ∧ w.char ≠ '\n' ∧ w.char ≠ '\r') :
    attributeValue ws = ws.map Written.char := by
  fun_induction attributeValue ws <;> simp_all [Written.char]

/-- References hold no slash, so a path may be escaped before or after its slashes are turned. -/
theorem escapePath_eq (s : Text) : escapePath s = escape (Text.replace '/' '\\' s) := by
  have turn (c : Char) : (escapeChar c).map (fun x => if x = '/' then '\\' else x) =
      escapeChar (if c = '/' then '\\' else c) := by
    rcases escapeChar_cases c with ⟨h, -⟩ | ⟨p, hp, rfl, h⟩
    · rw [h]
      by_cases hc : c = '/'
      · subst hc
        rfl
      · rw [if_neg hc, h, List.map_singleton, if_neg hc]
    · have hall : ∀ p ∈ namedReferences, p.2 ≠ '/' ∧
          ('&' :: p.1).map (fun x => if x = '/' then '\\' else x) = '&' :: p.1 := by decide
      rw [if_neg (hall p hp).1, h, (hall p hp).2]
  induction s with
  | nil => rfl
  | cons c s ih =>
    rw [escapePath, Text.replace, escape] at *
    rw [List.flatMap_cons, List.map_append, turn, ih]
    rfl

/-- Escaped text marks nothing up and ends no value. -/
theorem notMem_escape {d : Char} (hd : d ∈ ['<', '>', '"', '\'']) (t : Text) : d ∉ escape t := by
  intro hm
  obtain ⟨c, -, hc⟩ := List.mem_flatMap.1 hm
  have hmark : (∃ p ∈ namedReferences, d = p.2) ∧ ∀ p ∈ namedReferences, d ∉ '&' :: p.1 := by
    simp only [List.mem_cons, List.not_mem_nil, or_false] at hd
    rcases hd with rfl | rfl | rfl | rfl <;> decide
  rcases escapeChar_cases c with ⟨h, hne⟩ | ⟨p, hp, rfl, h⟩
  · obtain ⟨p, hp, he⟩ := hmark.1
    rw [h, List.mem_singleton] at hc
    exact hne p hp (hc.symm.trans he)
  · rw [h] at hc
    exact hmark.2 p hp hc

theorem all_isAllowed_escape (t : Text) : (escape t).all isAllowed = t.all isAllowed := by
  have hone (c : Char) : (escapeChar c).all isAllowed = isAllowed c := by
    rcases escapeChar_cases c with ⟨h, -⟩ | ⟨p, hp, rfl, h⟩
    · rw [h, List.all_cons, List.all_nil, Bool.and_true]
    · have hall : ∀ p ∈ namedReferences, ('&' :: p.1).all isAllowed = isAllowed p.2 := by decide
      rw [h, hall p hp]
  induction t with
  | nil => rfl
  | cons c t ih =>
    rw [escape] at *
    rw [List.flatMap_cons, List.all_append, hone, ih, List.all_cons]

end SiteProject.Xml
