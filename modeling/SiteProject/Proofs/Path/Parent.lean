import Mathlib.Data.List.DropRight
import SiteProject.Proofs.Path.Spelling

namespace SiteProject

namespace Part

/-- A step that is taken back, or that stays at the root, adds nothing to the steps so far. -/
theorem push_cases (done : List Part) (p : Part) :
    push done p = p :: done ∨ (push done p).length ≤ done.length := by
  unfold push
  split <;> simp

theorem length_foldl_push_le (done ps : List Part) :
    (ps.foldl push done).length ≤ done.length + ps.length := by
  induction ps generalizing done with
  | nil => simp
  | cons p ps ih =>
    have hpush : (push done p).length ≤ done.length + 1 := by
      rcases push_cases done p with h | h
      · rw [h, List.length_cons]
      · omega
    have h := ih (push done p)
    rw [List.foldl_cons, List.length_cons]
    omega

/-- The steps before the last one of settled steps are settled. -/
theorem settle_of_settle_concat {ps : List Part} {z : Part} (h : settle (ps ++ [z]) = ps ++ [z]) :
    settle ps = ps := by
  have hpush : push (ps.foldl push []) z = z :: ps.reverse := by
    have h := congrArg List.reverse h
    rw [settle, List.reverse_reverse, List.foldl_append, List.reverse_concat] at h
    exact h
  have hlength : (ps.foldl push []).length ≤ ps.length := by
    simpa using length_foldl_push_le [] ps
  rcases push_cases (ps.foldl push []) z with hcons | hle
  · rw [hcons] at hpush
    rw [settle, (List.cons.inj hpush).2, List.reverse_reverse]
  · -- too few steps would be left
    rw [hpush, List.length_cons, List.length_reverse] at hle
    omega

end Part

namespace Path

theorem ofSegment?_eq_none_iff {w : Text} : Part.ofSegment? w = none ↔ isIdle w = true := by
  unfold Part.ofSegment? isIdle
  split
  · next h => simpa using h
  · next h =>
    rw [not_or] at h
    split <;> simp [h]

theorem filterMap_rdropWhile_isIdle (ws : List Text) :
    (ws.rdropWhile isIdle).filterMap Part.ofSegment? = ws.filterMap Part.ofSegment? := by
  induction ws using List.reverseRecOn with
  | nil => rfl
  | append_singleton ws w ih =>
    rw [List.rdropWhile_concat]
    split
    · next h =>
      rw [ih, List.filterMap_append, List.filterMap_cons, ofSegment?_eq_none_iff.2 h]
      simp
    · rfl

/-- The first step of a path, by the first of its segments. -/
def leading (w : Text) : List Part :=
  if w = [] then [.root] else if w = ['.'] then [.here] else (Part.ofSegment? w).toList

theorem exists_leading (w : Text) : ∃ z, leading w = [z] := by
  unfold leading
  split
  · exact ⟨_, rfl⟩
  · next hw =>
    split
    · exact ⟨_, rfl⟩
    · next hd =>
      cases hz : Part.ofSegment? w with
      | none =>
        have hi := ofSegment?_eq_none_iff.1 hz
        simp [isIdle, hw, hd] at hi
      | some z => exact ⟨z, rfl⟩

/-- The first segment is empty where the text starts with a slash. -/
theorem isAbsolute_iff_of_split {p : Path} {w : Text} {ws : List Text} (hne : p.text ≠ [])
    (h : Text.split (· == '/') p.text = w :: ws) : p.isAbsolute = true ↔ w = [] := by
  obtain ⟨t⟩ := p
  cases t with
  | nil => simp at hne
  | cons c s =>
    by_cases hc : c = '/'
    · simp [Text.split, hc] at h
      simp [isAbsolute, hc, h]
    · simp only [Text.split, beq_iff_eq, hc, if_false] at h
      have hw : w ≠ [] := by
        rintro rfl
        split at h <;> simp at h
      simp [isAbsolute, hc, hw]

theorem parts_of_split {p : Path} {w : Text} {ws : List Text} (hne : p.text ≠ [])
    (h : Text.split (· == '/') p.text = w :: ws) :
    p.parts = leading w ++ ws.filterMap Part.ofSegment? := by
  have hroot := isAbsolute_iff_of_split hne h
  rw [parts_eq, steps, h, List.head?_cons, leading, List.filterMap_cons]
  by_cases hw : w = []
  · simp [hroot.2 hw, hw, Part.ofSegment?]
  · have ha : p.isAbsolute = false := Bool.eq_false_iff.2 fun ha => hw (hroot.1 ha)
    by_cases hd : w = ['.']
    · simp [ha, hd, Part.ofSegment?]
    · cases Part.ofSegment? w <;> simp [ha, hw, hd]

theorem text_ne_nil_of_split {p : Path} {w : Text} {ws : List Text}
    (h : Text.split (· == '/') p.text = w :: ws) (hne : w ≠ [] ∨ ws ≠ []) : p.text ≠ [] := by
  intro he
  rw [he] at h
  obtain ⟨rfl, rfl⟩ := List.cons.inj h
  simp at hne

/-- The last segment that is not idle names a step, and the idle ones around it name none. -/
theorem exists_concat_of_rdropWhile {ws : List Text} (hne : ws.rdropWhile isIdle ≠ []) :
    ∃ us x z, ws.rdropWhile isIdle = us ++ [x] ∧
      ws.filterMap Part.ofSegment? = (us.rdropWhile isIdle).filterMap Part.ofSegment? ++ [z] := by
  obtain ⟨us, x, hx⟩ := (List.eq_nil_or_concat (ws.rdropWhile isIdle)).resolve_left hne
  rw [List.concat_eq_append] at hx
  have hstep : isIdle x = false := by
    have hlast := List.rdropWhile_last_not isIdle ws hne
    simpa [hx] using hlast
  obtain ⟨z, hz⟩ : ∃ z, Part.ofSegment? x = some z := by
    apply Option.ne_none_iff_exists'.1
    intro hn
    simp [ofSegment?_eq_none_iff.1 hn] at hstep
  refine ⟨us, x, z, hx, ?_⟩
  rw [← filterMap_rdropWhile_isIdle ws, hx, List.filterMap_append, filterMap_rdropWhile_isIdle]
  simp [hz]

theorem parent?_eq {p : Path} {w : Text} {ws : List Text}
    (h : Text.split (· == '/') p.text = w :: ws) :
    p.parent? = match ws.rdropWhile isIdle with
      | [] => if w.isEmpty then none else some ⟨[]⟩
      | v :: vs =>
        let kept := w :: (v :: vs).dropLast.rdropWhile isIdle
        if kept == [[]] then some ⟨['/']⟩ else some ⟨Text.join ['/'] kept⟩ := by
  rw [parent?, h]
  rfl

/-- The steps of the segments that a parent keeps. -/
theorem parts_of_kept {w : Text} {us : List Text} (h : ∀ u ∈ w :: us, '/' ∉ u) :
    (if w :: us == [[]] then (⟨['/']⟩ : Path) else ⟨Text.join ['/'] (w :: us)⟩).parts =
      leading w ++ us.filterMap Part.ofSegment? := by
  split
  · next hroot =>
    obtain ⟨rfl, rfl⟩ := List.cons.inj (beq_iff_eq.1 hroot)
    rfl
  · next hroot =>
    apply parts_of_split
    · intro hj
      cases us with
      | nil => simp_all
      | cons u us => simp [Text.join] at hj
    · exact Text.split_join (by simp) h

theorem parts_of_parent? {p q : Path} (h : p.parent? = some q) : ∃ z, p.parts = q.parts ++ [z] := by
  obtain ⟨w, ws, hs⟩ := List.exists_cons_of_ne_nil (Text.split_ne_nil (· == '/') p.text)
  have hslash : ∀ u ∈ w :: ws, '/' ∉ u := by
    intro u hu hc
    rw [← hs] at hu
    exact absurd (Text.forall_mem_split hu _ hc).2 (by simp)
  rw [parent?_eq hs] at h
  split at h
  · -- there is one segment, which is the step
    next hnil =>
    split at h
    · cases h
    · next hw =>
      obtain rfl := Option.some.inj h
      have hne := text_ne_nil_of_split hs (.inl (by simpa using hw))
      have hidle := filterMap_rdropWhile_isIdle ws
      obtain ⟨z, hz⟩ := exists_leading w
      rw [hnil] at hidle
      exact ⟨z, by rw [parts_of_split hne hs, ← hidle, hz]; rfl⟩
  · -- the last segment that is not idle is the step
    next v vs hlast =>
    have hstays : ws.rdropWhile isIdle ≠ [] := by simp [hlast]
    obtain ⟨us, x, z, hx, hsteps⟩ := exists_concat_of_rdropWhile hstays
    have hne : p.text ≠ [] := by
      apply text_ne_nil_of_split hs
      right
      rintro rfl
      simp at hlast
    have hkept : ∀ u ∈ w :: us.rdropWhile isIdle, '/' ∉ u := by
      intro u hu
      apply hslash u
      rcases List.mem_cons.1 hu with rfl | hu
      · exact List.mem_cons_self
      · have hu : u ∈ us ++ [x] := List.mem_append_left _ ((List.rdropWhile_prefix _ _).subset hu)
        rw [← hx] at hu
        exact List.mem_cons_of_mem _ ((List.rdropWhile_prefix _ _).subset hu)
    rw [← hlast, hx, List.dropLast_concat] at h
    have hq : q = if w :: us.rdropWhile isIdle == [[]] then ⟨['/']⟩
        else ⟨Text.join ['/'] (w :: us.rdropWhile isIdle)⟩ := by
      dsimp only at h
      rw [← apply_ite some] at h
      exact (Option.some.inj h).symm
    exact ⟨z, by rw [parts_of_split hne hs, hsteps, hq, parts_of_kept hkept, List.append_assoc]⟩

/-- Only the root and the empty path have no parent. -/
theorem length_parts_of_parent? {p : Path} (h : p.parent? = none) : p.parts.length ≤ 1 := by
  obtain ⟨w, ws, hs⟩ := List.exists_cons_of_ne_nil (Text.split_ne_nil (· == '/') p.text)
  rw [parent?_eq hs] at h
  split at h
  · next hnil =>
    have hidle := filterMap_rdropWhile_isIdle ws
    rw [hnil] at hidle
    by_cases hne : p.text = []
    · rw [show p = ⟨[]⟩ from congrArg Path.mk hne]
      decide
    · obtain ⟨z, hz⟩ := exists_leading w
      rw [parts_of_split hne hs, ← hidle, hz]
      simp
  · dsimp only at h
    split at h <;> cases h

end Path
end SiteProject
