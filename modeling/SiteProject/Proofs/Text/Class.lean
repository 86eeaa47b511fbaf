import SiteProject.Reference.Hints

namespace SiteProject

namespace Text

variable {p : Char → Bool}

theorem all_replace {c d : Char} (hc : p c = true) (hd : p d = true) (s : Text) :
    (replace c d s).all p = s.all p := by
  rw [replace, List.all_map]
  congr 1
  funext x
  by_cases hx : x = c
  · simp [hx, hc, hd]
  · simp [hx]

theorem all_dropTail {q : Char → Bool} (h : ∀ c, q c = true → p c = true) (s : Text) :
    (dropTail q s).all p = s.all p := by
  obtain ⟨t, hs, ht⟩ := dropTail_append q s
  have hall : t.all p = true := List.all_eq_true.2 fun c hc => h c (ht c hc)
  have happend := congrArg (fun t => List.all t p) hs
  rw [List.all_append, hall, Bool.and_true] at happend
  exact happend.symm

theorem all_join {sep : Text} (hsep : sep.all p = true) (ws : List Text) :
    (join sep ws).all p = ws.all fun w => w.all p := by
  induction ws with
  | nil => rfl
  | cons w ws ih =>
    cases ws with
    | nil => simp
    | cons v ws =>
      rw [join_cons (by simp), List.all_append, List.all_append, hsep, ih, Bool.and_true]
      rfl

end Text

namespace Declared

variable {p : Char → Bool}

theorem all_trimSeparators (hslash : p '/' = true) (hback : p '\\' = true) (t : Text) :
    (trimSeparators t).all p = t.all p := by
  refine Text.all_dropTail (fun c hc => ?_) t
  simp only [isSeparator, Bool.or_eq_true, beq_iff_eq] at hc
  rcases hc with rfl | rfl
  · exact hslash
  · exact hback

theorem all_join (hslash : p '/' = true) (hback : p '\\' = true) (hdot : p '.' = true)
    (folder : Text) (segments : List Text) :
    (join folder segments).all p = (folder.all p && segments.all fun w => w.all p) := by
  have hsep : ['\\'].all p = true := by simp [hback]
  have hhead : (Text.dropTail (· == '\\') (Text.replace '/' '\\' folder)).all p = folder.all p := by
    rw [Text.all_dropTail (fun c hc => by rw [eq_of_beq hc]; exact hback),
      Text.all_replace hslash hback]
  rw [join]
  split
  · next h =>
    simp only [Bool.or_eq_true, List.isEmpty_iff, beq_iff_eq] at h
    have hfolder : folder.all p = true := by
      rw [← hhead]
      rcases h with h | h
      · rw [h]; rfl
      · rw [h]; simp [hdot]
    rw [Text.all_join hsep, hfolder, Bool.true_and]
  · rw [Text.all_join hsep, List.all_cons, hhead]

end Declared

theorem Reference.all_binHint {p : Char → Bool} (hslash : p '/' = true) (hback : p '\\' = true)
    (hdot : p '.' = true) (hbin : "Bin".toList.all p = true) (folder dll : Text) :
    (binHint folder dll).all p = (folder.all p && dll.all p) := by
  rw [binHint, Declared.all_join hslash hback hdot, List.all_cons, hbin, List.all_cons, List.all_nil,
    Bool.and_true, Bool.true_and]

end SiteProject
