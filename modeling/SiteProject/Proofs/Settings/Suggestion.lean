import SiteProject.Proofs.Settings.Distance

namespace SiteProject

namespace Text.Utf8

theorem encode_injective {s t : Text} (h : encode s = encode t) : s = t := by
  apply String.ofList_injective
  rw [← String.toByteArray_inj, String.toByteArray_ofList, String.toByteArray_ofList]
  exact congrArg List.toByteArray h

end Text.Utf8

namespace Settings

/-- The edit distance of two texts, by their bytes. -/
def byteDistance (s t : Text) : Nat := distance (Text.Utf8.encode s) (Text.Utf8.encode t)

theorem byteDistance_eq_zero_iff {s t : Text} : byteDistance s t = 0 ↔ s = t := by
  rw [byteDistance, distance_eq_zero_iff]
  exact ⟨Text.Utf8.encode_injective, congrArg Text.Utf8.encode⟩

/-- No word of the list is nearer to the key, and every word before it is farther away. -/
def FirstNearest (key : Text) (ws : List Text) (w : Text) : Prop :=
  ∃ before after, ws = before ++ w :: after ∧
    (∀ v ∈ before, byteDistance key w < byteDistance key v) ∧
    ∀ v ∈ after, byteDistance key w ≤ byteDistance key v

variable {key v w : Text} {ws : List Text}

theorem FirstNearest.mem (h : FirstNearest key ws w) : w ∈ ws := by
  obtain ⟨before, after, rfl, -, -⟩ := h
  simp

theorem FirstNearest.le (h : FirstNearest key ws w) (hv : v ∈ ws) :
    byteDistance key w ≤ byteDistance key v := by
  obtain ⟨before, after, rfl, hbefore, hafter⟩ := h
  rcases List.mem_append.1 hv with hv | hv
  · exact Nat.le_of_lt (hbefore v hv)
  · rcases List.mem_cons.1 hv with rfl | hv
    · exact Nat.le_refl _
    · exact hafter v hv

theorem FirstNearest.unique (h : FirstNearest key ws v) (h' : FirstNearest key ws w) : v = w := by
  have heq := Nat.le_antisymm (h.le h'.mem) (h'.le h.mem)
  obtain ⟨before, after, hws, hbefore, -⟩ := h
  obtain ⟨before', after', hws', hbefore', -⟩ := h'
  rw [hws] at hws'
  rcases List.append_eq_append_iff.1 hws' with ⟨_ | ⟨u, us⟩, rfl, hu⟩ | ⟨_ | ⟨u, us⟩, rfl, hu⟩
  · exact (List.cons.inj hu).1
  · obtain ⟨rfl, -⟩ := List.cons.inj hu
    have hlt := hbefore' v (by simp)
    omega
  · exact (List.cons.inj hu).1.symm
  · obtain ⟨rfl, -⟩ := List.cons.inj hu
    have hlt := hbefore w (by simp)
    omega

theorem nearest?_concat (key : Text) (ws : List Text) (w : Text) :
    nearest? key (ws ++ [w]) = nearer key (nearest? key ws) w :=
  List.foldl_concat ..

theorem nearer_ne_none (best : Option (Text × Nat)) : nearer key best w ≠ none := by
  cases best with
  | none => simp [nearer]
  | some p =>
    simp only [nearer]
    split <;> simp

theorem nearest?_ne_none (hws : ws ≠ []) : nearest? key ws ≠ none := by
  induction ws using List.reverseRecOn with
  | nil => exact absurd rfl hws
  | append_singleton ws w _ =>
    rw [nearest?_concat]
    exact nearer_ne_none _

theorem nearest?_eq_none (h : nearest? key ws = none) : ws = [] :=
  Decidable.byContradiction fun hws => nearest?_ne_none hws h

/-- The best of the words so far is kept unless the next one is nearer, by induction from the last word on. -/
theorem firstNearest_of_nearest? {d : Nat} (h : nearest? key ws = some (w, d)) :
    d = byteDistance key w ∧ FirstNearest key ws w := by
  induction ws using List.reverseRecOn generalizing w d with
  | nil => cases h
  | append_singleton ws u ih =>
    rw [nearest?_concat] at h
    cases hn : nearest? key ws with
    | none =>
      rw [hn] at h
      obtain ⟨rfl, rfl⟩ := Prod.mk.inj (Option.some.inj h)
      obtain rfl := nearest?_eq_none hn
      exact ⟨rfl, [], [], rfl, by simp, by simp⟩
    | some p =>
      obtain ⟨v, e⟩ := p
      obtain ⟨rfl, hfirst⟩ := ih hn
      rw [hn, nearer] at h
      split at h
      · next hlt =>
        obtain ⟨rfl, rfl⟩ := Prod.mk.inj (Option.some.inj h)
        refine ⟨rfl, ws, [], rfl, fun x hx => ?_, by simp⟩
        exact Nat.lt_of_lt_of_le hlt (hfirst.le hx)
      · next hle =>
        obtain ⟨rfl, rfl⟩ := Prod.mk.inj (Option.some.inj h)
        obtain ⟨before, after, rfl, hbefore, hafter⟩ := hfirst
        refine ⟨rfl, before, after ++ [u], by simp, hbefore, fun x hx => ?_⟩
        rcases List.mem_append.1 hx with hx | hx
        · exact hafter x hx
        · rw [List.mem_singleton.1 hx]
          exact Nat.le_of_not_lt hle

/-- The words that may be suggested. -/
def suggestions : List Text := knownWords.map String.toList

theorem exists_firstNearest (key : Text) :
    ∃ w, FirstNearest key suggestions w ∧
      suggest? key = if byteDistance key w ≤ 2 then some w else none := by
  have hne : nearest? key suggestions ≠ none := nearest?_ne_none (by decide)
  obtain ⟨⟨w, d⟩, h⟩ := Option.ne_none_iff_exists'.1 hne
  obtain ⟨rfl, hfirst⟩ := firstNearest_of_nearest? h
  refine ⟨w, hfirst, ?_⟩
  have hs : suggest? key = ((some (w, byteDistance key w)).filter fun p => p.2 ≤ 2).map Prod.fst := by
    rw [← h]
    rfl
  rw [hs, Option.filter]
  by_cases hd : byteDistance key w ≤ 2 <;> simp [hd]

theorem suggest?_eq_some_iff :
    suggest? key = some w ↔ FirstNearest key suggestions w ∧ byteDistance key w ≤ 2 := by
  obtain ⟨v, hv, hs⟩ := exists_firstNearest key
  rw [hs]
  constructor
  · intro h
    split at h
    · next hd => exact Option.some.inj h ▸ ⟨hv, hd⟩
    · cases h
  · rintro ⟨hw, hd⟩
    obtain rfl := hv.unique hw
    rw [if_pos hd]

theorem suggest?_eq_none_iff :
    suggest? key = none ↔ ∀ w ∈ suggestions, 2 < byteDistance key w := by
  obtain ⟨v, hv, hs⟩ := exists_firstNearest key
  rw [hs, ite_eq_right_iff]
  constructor
  · intro h w hw
    refine Nat.lt_of_not_le fun hd => ?_
    cases h (Nat.le_trans (hv.le hw) hd)
  · intro h hd
    have hlt := h v hv.mem
    omega

/-- Of two texts, the edit distance on bytes is the least number of bytes to put in, take out or replace so
that the one becomes the other. It is a distance. A key is answered by the first of the known words
that are nearest to it, if that is at most two edits away, and else by none. -/
theorem suggest?_by_distance (s t u key : Text) :
    IsLeast {n | Edits n (Text.Utf8.encode s) (Text.Utf8.encode t)} (byteDistance s t) ∧
      byteDistance s t = byteDistance t s ∧
      (byteDistance s t = 0 ↔ s = t) ∧
      byteDistance s u ≤ byteDistance s t + byteDistance t u ∧
      (∀ w, suggest? key = some w ↔
        FirstNearest key (["convert", "out_dir", "mode", "output", "color"].map String.toList) w ∧
          byteDistance key w ≤ 2) ∧
      (suggest? key = none ↔
        ∀ w ∈ ["convert", "out_dir", "mode", "output", "color"].map String.toList,
          2 < byteDistance key w) :=
  ⟨isLeast_distance _ _, distance_comm _ _, byteDistance_eq_zero_iff, distance_triangle _ _ _,
    fun _ => suggest?_eq_some_iff, suggest?_eq_none_iff⟩

/-- Two edits lead to `out_dir`, and two to `output`. -/
example : suggest? "out_dt".toList = some "out_dir".toList := by decide +kernel

end Settings
end SiteProject
