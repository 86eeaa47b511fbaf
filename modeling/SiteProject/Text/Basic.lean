namespace SiteProject

/-- Text is taken apart and put together character by character. -/
abbrev Text := List Char

namespace Text

/-- What follows `lead` in a text that starts with it. -/
def after? : Text → Text → Option Text
  | [], s => some s
  | _ :: _, [] => none
  | c :: lead, d :: s => if c = d then after? lead s else none

theorem after?_eq_some {lead s r : Text} : after? lead s = some r ↔ s = lead ++ r := by
  induction lead generalizing s with
  | nil => simp [after?, eq_comm]
  | cons c lead ih =>
    cases s with
    | nil => simp [after?]
    | cons d s =>
      by_cases h : c = d
      · subst h
        simp [after?, ih]
      · simp [after?, h, Ne.symm h]

@[simp]
theorem after?_append (lead r : Text) : after? lead (lead ++ r) = some r :=
  after?_eq_some.2 rfl

def startsWith (lead s : Text) : Bool := (after? lead s).isSome

/-- The text before the first occurrence of `word`, and the text after it. -/
def cut? (word : Text) : Text → Option (Text × Text)
  | [] => (after? word []).map ([], ·)
  | c :: s =>
    match after? word (c :: s) with
    | some r => some ([], r)
    | none => (cut? word s).map fun p => (c :: p.1, p.2)

theorem append_of_cut? {word s a r : Text} (h : cut? word s = some (a, r)) :
    s = a ++ word ++ r := by
  induction s generalizing a with
  | nil =>
    simp only [cut?, Option.map_eq_some_iff, Prod.mk.injEq] at h
    obtain ⟨r', hr, ha, rfl⟩ := h
    simpa [← ha] using after?_eq_some.1 hr
  | cons c s ih =>
    rw [cut?] at h
    split at h
    · next r' hr =>
      simp only [Option.some.injEq, Prod.mk.injEq] at h
      obtain ⟨ha, rfl⟩ := h
      simpa [← ha] using after?_eq_some.1 hr
    · simp only [Option.map_eq_some_iff, Prod.mk.injEq] at h
      obtain ⟨⟨a', r'⟩, hp, ha, rfl⟩ := h
      simp [← ha, ih hp]

/-- Whether `word` occurs somewhere in the text. -/
def contains (word s : Text) : Bool := (cut? word s).isSome

/-- The non-empty list of texts between the separators; `[]` gives one empty text. -/
def split (sep : Char → Bool) : Text → List Text
  | [] => [[]]
  | c :: s =>
    if sep c then [] :: split sep s
    else
      match split sep s with
      | [] => [[c]]
      | w :: ws => (c :: w) :: ws

theorem split_ne_nil (sep : Char → Bool) (s : Text) : split sep s ≠ [] := by
  cases s with
  | nil => simp [split]
  | cons c s =>
    rw [split]
    split
    · simp
    · split <;> simp

theorem split_of_forall {sep : Char → Bool} {s : Text} (h : ∀ c ∈ s, sep c = false) :
    split sep s = [s] := by
  induction s with
  | nil => rfl
  | cons c s ih =>
    have hc : sep c = false := h c (by simp)
    have hs := ih fun d hd => h d (by simp [hd])
    simp [split, hc, hs]

theorem split_append_cons {sep : Char → Bool} {s : Text} (h : ∀ c ∈ s, sep c = false) {d : Char}
    (hd : sep d = true) (t : Text) : split sep (s ++ d :: t) = s :: split sep t := by
  induction s with
  | nil => simp [split, hd]
  | cons c s ih =>
    have hc : sep c = false := h c (by simp)
    have hs := ih fun e he => h e (by simp [he])
    simp [split, hc, hs]

theorem forall_mem_split {sep : Char → Bool} {s w : Text} (hw : w ∈ split sep s) :
    ∀ c ∈ w, c ∈ s ∧ sep c = false := by
  induction s generalizing w with
  | nil =>
    simp [split] at hw
    simp [hw]
  | cons c s ih =>
    rw [split] at hw
    split at hw
    · next hc =>
      rcases List.mem_cons.1 hw with rfl | hw
      · simp
      · exact fun d hd => ⟨by simp [(ih hw d hd).1], (ih hw d hd).2⟩
    · next hc =>
      split at hw
      · next hs => exact absurd hs (split_ne_nil sep s)
      · next v vs hs =>
        rcases List.mem_cons.1 hw with rfl | hw
        · intro d hd
          rcases List.mem_cons.1 hd with rfl | hd
          · exact ⟨by simp, by simpa using hc⟩
          · have := ih (w := v) (by simp [hs]) d hd
            exact ⟨by simp [this.1], this.2⟩
        · have hw' : w ∈ split sep s := by simp [hs, hw]
          exact fun d hd => ⟨by simp [(ih hw' d hd).1], (ih hw' d hd).2⟩

/-- The words with `sep` between them. -/
def join (sep : Text) : List Text → Text
  | [] => []
  | [w] => w
  | w :: v :: ws => w ++ sep ++ join sep (v :: ws)

@[simp]
theorem join_nil (sep : Text) : join sep [] = [] := rfl

@[simp]
theorem join_singleton (sep w : Text) : join sep [w] = w := rfl

theorem join_cons {sep w : Text} {ws : List Text} (h : ws ≠ []) :
    join sep (w :: ws) = w ++ sep ++ join sep ws := by
  cases ws with
  | nil => exact absurd rfl h
  | cons v ws => rfl

/-- Splitting at a character undoes joining with it. -/
theorem split_join {c : Char} {ws : List Text} (hne : ws ≠ []) (h : ∀ w ∈ ws, c ∉ w) :
    split (· == c) (join [c] ws) = ws := by
  induction ws with
  | nil => exact absurd rfl hne
  | cons w ws ih =>
    have hw : ∀ d ∈ w, (d == c) = false := by
      intro d hd
      have : d ≠ c := fun e => h w (by simp) (e ▸ hd)
      simpa using this
    cases ws with
    | nil => simpa using split_of_forall hw
    | cons v ws =>
      have ht := ih (by simp) fun u hu => h u (by simp [hu])
      rw [join_cons (by simp)]
      simp only [List.append_assoc, List.singleton_append]
      rw [split_append_cons hw (by simp), ht]

/-- Every `c` becomes `d`. -/
def replace (c d : Char) (s : Text) : Text := s.map fun x => if x = c then d else x

/-- Drops the longest tail of characters in the class. -/
def dropTail (p : Char → Bool) (s : Text) : Text := (s.reverse.dropWhile p).reverse

theorem dropTail_append (p : Char → Bool) (s : Text) :
    ∃ t, s = dropTail p s ++ t ∧ ∀ c ∈ t, p c = true := by
  refine ⟨(s.reverse.takeWhile p).reverse, ?_, ?_⟩
  · rw [dropTail, ← List.reverse_append, List.takeWhile_append_dropWhile, List.reverse_reverse]
  · intro c hc
    exact (List.all_eq_true.1 (List.all_takeWhile (p := p) (l := s.reverse))) c (by simpa using hc)

/-- The order by code points; a text comes before its continuations. -/
def le : Text → Text → Bool
  | [], _ => true
  | _ :: _, [] => false
  | c :: s, d :: t => if c = d then le s t else c.toNat < d.toNat

/-- A count written in decimal digits. -/
def ofNat (n : Nat) : Text := Nat.toDigits 10 n

end Text
end SiteProject
