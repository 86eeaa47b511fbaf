import SiteProject.Proofs.Path.Rooted
import SiteProject.Reference.Placement
import SiteProject.Reference.Resolution

namespace SiteProject

open SiteProject.Part (IsName settle)

namespace Declared

open SiteProject.Path (steps)

theorem steps_toNative_append (a b : Text) {c : Char} (hc : isSeparator c = true) :
    steps (toNative (a ++ c :: b)).text = steps (toNative a).text ++ steps (toNative b).text := by
  simp only [steps_toNative, Text.split_append_sep a hc, List.filterMap_append]

theorem steps_toNative_name {n : Text} (hn : IsName n) (hb : '\\' ∉ n) :
    steps (toNative n).text = [.name n] := by
  have hs : ∀ c ∈ n, isSeparator c = false := by
    intro c hc
    have h₁ : c ≠ '/' := fun e => hn.2.1 (e ▸ hc)
    have h₂ : c ≠ '\\' := fun e => hb (e ▸ hc)
    simp [isSeparator, h₁, h₂]
  rw [steps_toNative, Text.split_of_forall hs, List.filterMap_cons, Part.ofSegment?_of_isName hn]
  rfl

theorem steps_toNative_words (ws : List Text) :
    steps (toNative (Text.join ['\\'] ws)).text = ws.flatMap fun w => steps (toNative w).text := by
  induction ws with
  | nil => rfl
  | cons w ws ih =>
    by_cases hne : ws = []
    · simp [hne]
    · rw [Text.join_cons hne, List.append_assoc, List.singleton_append,
        steps_toNative_append w _ (by decide), ih, List.flatMap_cons]

theorem steps_toNative_of_forall {t : Text} (h : ∀ c ∈ t, isSeparator c = true) :
    steps (toNative t).text = [] := by
  induction t with
  | nil => rfl
  | cons c t ih =>
    rw [List.forall_mem_cons] at h
    exact (steps_toNative_append [] t h.1).trans (ih h.2)

theorem steps_toNative_dropTail {p : Char → Bool} (hp : ∀ c, p c = true → isSeparator c = true) (t : Text) :
    steps (toNative (Text.dropTail p t)).text = steps (toNative t).text := by
  obtain ⟨u, ht, hu⟩ := Text.dropTail_append p t
  cases u with
  | nil => rw [← List.append_nil (Text.dropTail p t), ← ht]
  | cons c u =>
    rw [List.forall_mem_cons] at hu
    have h := steps_toNative_append (Text.dropTail p t) u (hp c hu.1)
    rw [← ht, steps_toNative_of_forall fun d hd => hp d (hu.2 d hd), List.append_nil] at h
    exact h.symm

theorem steps_toNative_replace (t : Text) :
    steps (toNative (Text.replace '/' '\\' t)).text = steps (toNative t).text := by
  have hs : Text.split isSeparator (Text.replace '/' '\\' t) = Text.split isSeparator t := by
    induction t with
    | nil => rfl
    | cons c t ih =>
      have hr : Text.replace '/' '\\' (c :: t) =
        (if c = '/' then '\\' else c) :: Text.replace '/' '\\' t := rfl
      rw [hr]
      by_cases hc : c = '/'
      · simp [Text.split, hc, isSeparator, ih]
      · simp [Text.split, hc, ih]
  rw [steps_toNative, steps_toNative, hs]

/-- Segments below a folder are taken after the folder's steps. -/
theorem steps_toNative_join (folder : Text) (ws : List Text) :
    steps (toNative (join folder ws)).text =
      steps (toNative folder).text ++ ws.flatMap fun w => steps (toNative w).text := by
  have hh : steps (toNative (Text.dropTail (· == '\\') (Text.replace '/' '\\' folder))).text =
      steps (toNative folder).text := by
    have hseparator : ∀ c, (c == '\\') = true → isSeparator c = true := fun c hc => by simp_all [isSeparator]
    rw [steps_toNative_dropTail hseparator, steps_toNative_replace]
  unfold join
  generalize Text.dropTail (· == '\\') (Text.replace '/' '\\' folder) = head at hh
  rw [← hh]
  simp only
  split
  · next he =>
    have hn : steps (toNative head).text = [] := by
      rcases Bool.or_eq_true_iff.1 he with he | he
      · rw [List.isEmpty_iff.1 he]
        rfl
      · rw [beq_iff_eq.1 he]
        rfl
    rw [hn, List.nil_append, steps_toNative_words]
  · rw [steps_toNative_words, List.flatMap_cons]

theorem head?_join {folder w : Text} (ws : List Text) (hf : folder.head?.any isSeparator = false)
    (hw : w.head?.any isSeparator = false) (hne : w ≠ []) :
    (join folder (w :: ws)).head?.any isSeparator = false := by
  unfold join
  simp only
  split
  · rwa [Text.head?_join_cons hne]
  · next he =>
    rw [Bool.or_eq_true_iff, not_or] at he
    have hd : Text.dropTail (· == '\\') (Text.replace '/' '\\' folder) ≠ [] := by
      simpa using he.1
    obtain ⟨u, ht, -⟩ := Text.dropTail_append (· == '\\') (Text.replace '/' '\\' folder)
    rw [Text.head?_join_cons hd]
    obtain ⟨c, s, hc⟩ := List.exists_cons_of_ne_nil hd
    rw [hc] at ht ⊢
    cases folder with
    | nil => simp [Text.replace] at ht
    | cons x xs =>
      have hx : isSeparator x = false := by simpa using hf
      have hxs : x ≠ '/' := fun e => by simp [e, isSeparator] at hx
      have hcx : x = c := by
        simp only [Text.replace, List.map_cons, if_neg hxs, List.cons_append] at ht
        exact (List.cons.inj ht).1
      simpa [← hcx] using hx

end Declared

namespace Reference

/-- From the folder of the project the hint leads to the binary in the `Bin` folder of the site. -/
theorem normalize_join_binHint {folder site : Path} {dll : Text} (hf : folder.isAbsolute = true)
    (hs : site.Rooted) (hsb : site.Avoids '\\') (hd : IsName dll) (hdb : '\\' ∉ dll) :
    (folder.join (Declared.toNative (binHint (Declared.relative folder site) dll))).normalize =
      binary site ["Bin"] dll := by
  have hbin : IsName "Bin".toList := by decide
  obtain ⟨ha, he⟩ := Declared.settle_append_relative hf hs.isAbsolute hsb
  rw [Declared.isAbsolute_toNative] at ha
  have habs : (Declared.toNative (binHint (Declared.relative folder site) dll)).isAbsolute = false := by
    rw [Declared.isAbsolute_toNative]
    exact Declared.head?_join [dll] ha (by decide) hbin.1
  have hsteps : Path.steps (Declared.toNative (binHint (Declared.relative folder site) dll)).text =
      Path.steps (Declared.toNative (Declared.relative folder site)).text ++
        [.name "Bin".toList, .name dll] := by
    rw [binHint, Declared.steps_toNative_join, List.flatMap_cons, List.flatMap_singleton,
      Declared.steps_toNative_name hbin (by decide), Declared.steps_toNative_name hd hdb]
    rfl
  have hb : (site.joinText "Bin".toList).Rooted := hs.joinText hbin
  have hr : (binary site ["Bin"] dll).Rooted := hb.joinText hd
  have hp : (binary site ["Bin"] dll).parts = site.parts ++ [.name "Bin".toList, .name dll] := by
    have h := hb.parts_joinText hd
    rw [hs.parts_joinText hbin, List.append_assoc] at h
    exact h
  have hset := Path.settled_settle_parts site
  have hset' := hset
  rw [← he] at hset'
  calc (folder.join (Declared.toNative (binHint (Declared.relative folder site) dll))).normalize
    _ = Path.ofParts (settle (settle folder.parts ++
          (Path.steps (Declared.toNative (Declared.relative folder site)).text ++
            [.name "Bin".toList, .name dll]))) := by rw [Path.normalize_join folder habs, hsteps]
    _ = Path.ofParts (settle (settle site.parts ++ [.name "Bin".toList, .name dll])) := by
      rw [← List.append_assoc, ← Part.settle_append hset', he]
    _ = (binary site ["Bin"] dll).normalize := by rw [Part.settle_append hset, ← hp]; rfl
    _ = binary site ["Bin"] dll := hr.normalize_eq

theorem get?_foldl_insert {ps : List Placed} {dll : Text} (h : ∀ p ∈ ps, p.dll ≠ dll) (hs : Hints) :
    (ps.foldl (fun h p => h.insert p.dll p.hint) hs).get? dll = hs.get? dll := by
  induction ps generalizing hs with
  | nil => rfl
  | cons p ps ih =>
    rw [List.foldl_cons, ih fun q hq => h q (by simp [hq]), Hints.get?_insert,
      if_neg (h p (by simp))]

/-- What was placed last for a name is its hint. -/
theorem get?_ofPlaced (before : List Placed) {after : List Placed} {p : Placed}
    (h : ∀ q ∈ after, q.dll ≠ p.dll) :
    (Hints.ofPlaced (before ++ p :: after)).get? p.dll = some p.hint := by
  rw [Hints.ofPlaced, List.foldl_append, List.foldl_cons, get?_foldl_insert h, Hints.get?_insert,
    if_pos rfl]

theorem isSome_get?_foldl_insert (ps : List Placed) {dll : Text} {hs : Hints}
    (h : (hs.get? dll).isSome = true) :
    ((ps.foldl (fun h p => h.insert p.dll p.hint) hs).get? dll).isSome = true := by
  induction ps generalizing hs with
  | nil => exact h
  | cons p ps ih =>
    apply ih
    rw [Hints.get?_insert]
    split
    · rfl
    · exact h

theorem isSome_get?_ofPlaced {ps : List Placed} {p : Placed} (h : p ∈ ps) :
    ((Hints.ofPlaced ps).get? p.dll).isSome = true := by
  obtain ⟨before, after, rfl⟩ := List.append_of_mem h
  rw [Hints.ofPlaced, List.foldl_append, List.foldl_cons]
  apply isSome_get?_foldl_insert
  rw [Hints.get?_insert, if_pos rfl]
  rfl

end Reference
end SiteProject
