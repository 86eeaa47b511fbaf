import SiteProject.Path.Declared
import SiteProject.Proofs.Path.Spelling

namespace SiteProject

open SiteProject.Part (IsName IsStep Settled settle)

namespace Path

/-- No part of the path has the character. -/
def Avoids (c : Char) (p : Path) : Prop := ∀ q ∈ p.parts, c ∉ q.text

instance (c : Char) (p : Path) : Decidable (p.Avoids c) :=
  inferInstanceAs (Decidable (∀ q ∈ p.parts, c ∉ q.text))

theorem avoids_of_notMem {c : Char} {p : Path} (hs : c ≠ '/') (hd : c ≠ '.') (h : c ∉ p.text) :
    p.Avoids c := by
  intro q hq hc
  rcases mem_steps_of_mem_parts hq with rfl | rfl | hq
  · exact hs (by simpa [Part.text] using hc)
  · exact hd (by simpa [Part.text] using hc)
  · exact h (mem_of_mem_steps hq hc)

theorem Avoids.join {c : Char} {p q : Path} (hs : c ≠ '/') (hd : c ≠ '.') (hp : p.Avoids c)
    (hq : c ∉ q.text) : (p.join q).Avoids c := by
  intro r hr hc
  rcases mem_parts_join hr with rfl | rfl | hr | hr
  · exact hs (by simpa [Part.text] using hc)
  · exact hd (by simpa [Part.text] using hc)
  · exact hp r hr hc
  · exact hq (mem_of_mem_steps hr hc)

theorem isAbsolute_join_of_isAbsolute {p : Path} (hp : p.isAbsolute = true) (q : Path) :
    (p.join q).isAbsolute = true := by
  by_cases hq : q.isAbsolute = true
  · rwa [Path.join, if_pos hq]
  · rw [isAbsolute_join p (by simpa using hq), hp]

/-- Between absolute paths the way consists of steps, and it leads from the one to the other. -/
theorem relative_of_isAbsolute {folder target : Path} (hf : folder.isAbsolute = true)
    (ht : target.isAbsolute = true) :
    ∃ qs, (∀ q ∈ qs, IsStep q ∧ (q = .up ∨ q ∈ target.parts)) ∧
      folder.relative target = ofParts qs ∧
      settle (settle folder.parts ++ qs) = settle target.parts := by
  obtain ⟨as, ha⟩ := settle_parts_of_isAbsolute hf
  obtain ⟨bs, hb⟩ := settle_parts_of_isAbsolute ht
  obtain ⟨k, cs, hcs, hq⟩ := Part.between_names as bs
  refine ⟨Part.between (as.map .name) (bs.map .name), ?_, ?_, ?_⟩
  · intro q hm
    rw [hq, List.mem_append] at hm
    rcases hm with hm | hm
    · have hu := List.eq_of_mem_replicate hm
      exact ⟨.inl hu, .inl hu⟩
    · obtain ⟨n, hn, rfl⟩ := List.mem_map.1 hm
      have hs : Part.name n ∈ settle target.parts := by
        rw [hb]
        exact List.mem_cons_of_mem _ (List.mem_map_of_mem (hcs.subset hn))
      exact ⟨.inr ⟨n, isName_of_mem_settle hs, rfl⟩, .inr (Part.mem_of_mem_settle hs)⟩
  · rw [relative, parts_normalize, parts_normalize, ha, hb]
    rfl
  · have hw := Part.foldl_push_between as bs [.root]
    rw [ha, hb, settle, List.cons_append, List.foldl_cons, List.foldl_append, Part.foldl_push_names]
    exact (congrArg List.reverse hw).trans (by simp)

end Path

namespace Declared

open SiteProject.Path

theorem split_replace {t : Text} (ht : '\\' ∉ t) :
    Text.split isSeparator (Text.replace '/' '\\' t) = Text.split (· == '/') t := by
  induction t with
  | nil => rfl
  | cons c t ih =>
    have hc : c ≠ '\\' := fun e => ht (by simp [e])
    have hr : Text.replace '/' '\\' (c :: t) =
      (if c = '/' then '\\' else c) :: Text.replace '/' '\\' t := rfl
    have ih := ih fun h => ht (by simp [h])
    rw [hr]
    by_cases hs : c = '/'
    · simp [Text.split, hs, isSeparator, ih]
    · simp [Text.split, hs, hc, isSeparator, ih]

/-- Either slash separates the steps of a declared path. -/
theorem steps_toNative (t : Text) :
    steps (toNative t).text = (Text.split isSeparator t).filterMap Part.ofSegment? := by
  have hw : ∀ w ∈ (Text.split isSeparator t).filter (· != []), '/' ∉ w := by
    intro w hw hc
    have h := (Text.forall_mem_split (List.mem_filter.1 hw).1 _ hc).2
    simp [isSeparator] at h
  have hj : steps (Text.join ['/'] ((Text.split isSeparator t).filter (· != []))) =
      (Text.split isSeparator t).filterMap Part.ofSegment? := by
    have hf : ∀ ws : List Text,
        (ws.filter (· != [])).filterMap Part.ofSegment? = ws.filterMap Part.ofSegment? := by
      intro ws
      induction ws with
      | nil => rfl
      | cons w ws ih =>
        by_cases hw : w = []
        · simp [hw, ih, Part.ofSegment?]
        · simp [hw, ih, List.filterMap_cons]
    by_cases hne : (Text.split isSeparator t).filter (· != []) = []
    · rw [← hf, hne]
      rfl
    · rw [steps, Text.split_join hne hw, hf]
  unfold toNative
  split
  · split
    · exact (steps_slash _).trans hj
    · exact hj
  · exact hj

/-- A declared path is absolute where it starts with a separator. -/
theorem isAbsolute_toNative (t : Text) : (toNative t).isAbsolute = t.head?.any isSeparator := by
  have hw : ∀ w ∈ (Text.split isSeparator t).filter (· != []), w.head? ≠ some '/' ∧ w ≠ [] := by
    intro w hw
    refine ⟨fun hc => ?_, by simpa using (List.mem_filter.1 hw).2⟩
    have hs := (Text.forall_mem_split (List.mem_filter.1 hw).1 _ (List.mem_of_mem_head? hc)).2
    simp [isSeparator] at hs
  have hj : (Text.join ['/'] ((Text.split isSeparator t).filter (· != []))).head? ≠ some '/' := by
    generalize (Text.split isSeparator t).filter (· != []) = ws at hw
    cases ws with
    | nil => simp
    | cons w ws =>
      obtain ⟨hd, hne⟩ := hw w (by simp)
      rwa [Text.head?_join_cons hne]
  unfold toNative
  split
  · next c s =>
    split
    · next hc => exact hc.symm
    · next hc => exact (isAbsolute_of_head? hj).trans (by simpa using hc)
  · exact isAbsolute_of_head? hj

/-- Steps written with backslashes are read back. -/
theorem toNative_ofNative {qs : List Part} (hq : ∀ q ∈ qs, IsStep q) (hb : ∀ q ∈ qs, '\\' ∉ q.text) :
    (toNative (ofNative (ofParts qs))).isAbsolute = false ∧
      steps (toNative (ofNative (ofParts qs))).text = qs := by
  rw [ofParts_of_relative hq]
  cases qs with
  | nil => decide
  | cons q qs =>
    have hne : Text.join ['/'] ((q :: qs).map Part.text) ≠ [] := by
      intro h
      have hs := steps_join_text hq
      rw [h] at hs
      simp at hs
    have hc : '\\' ∉ Text.join ['/'] ((q :: qs).map Part.text) := by
      intro hc
      rcases Text.mem_join hc with hc | ⟨w, hw, hc⟩
      · simp at hc
      · obtain ⟨p, hp, rfl⟩ := List.mem_map.1 hw
        exact hb p hp hc
    have ho : ofNative ⟨Text.join ['/'] ((q :: qs).map Part.text)⟩ =
        Text.replace '/' '\\' (Text.join ['/'] ((q :: qs).map Part.text)) := by
      rw [ofNative, isEmpty, List.isEmpty_eq_false_iff.2 hne]
      rfl
    constructor
    · rw [ho, isAbsolute_toNative]
      have hh := head?_join_text hq
      obtain ⟨c, s, hs⟩ := List.exists_cons_of_ne_nil hne
      rw [hs] at hh hc ⊢
      have h₁ : c ≠ '/' := by simpa using hh
      have h₂ : c ≠ '\\' := fun e => hc (by simp [e])
      simp [Text.replace, isSeparator, h₁, h₂]
    · rw [ho, steps_toNative, split_replace hc]
      exact steps_join_text hq

theorem ofNative_ne_nil (p : Path) : ofNative p ≠ [] := by
  unfold ofNative
  split
  · simp
  · next h => simpa [Text.replace, isEmpty] using h

theorem relative_ne_nil (folder target : Path) : relative folder target ≠ [] :=
  ofNative_ne_nil _

/-- The way has the characters of its target, of steps up and of separators. -/
theorem notMem_relative {c : Char} {folder target : Path} (hc : c ∉ ['/', '\\', '.'])
    (ht : target.Avoids c) : c ∉ relative folder target := by
  simp only [List.mem_cons, List.not_mem_nil, or_false, not_or] at hc
  obtain ⟨hs, hb, hd⟩ := hc
  intro h
  have hr : c ∈ (folder.relative target).text := by
    unfold relative ofNative at h
    split at h
    · exact absurd (by simpa using h) hd
    · obtain ⟨x, hx, he⟩ := List.mem_map.1 h
      split at he
      · exact absurd he.symm hb
      · exact he ▸ hx
  rcases mem_text_ofParts hr with h | ⟨q, hq, hc⟩
  · exact hs h
  · rcases Part.mem_of_mem_between hq with rfl | hq
    · exact hd (by simpa [Part.text] using hc)
    · rw [parts_normalize] at hq
      exact ht q (Part.mem_of_mem_settle hq) hc

/-- The path of a declared text has its characters but for the separators. -/
theorem mem_toNative {c : Char} {t : Text} (h : c ∈ (toNative t).text) :
    c = '/' ∨ c ∈ t ∧ isSeparator c = false := by
  have hj : c ∈ Text.join ['/'] ((Text.split isSeparator t).filter (· != [])) →
      c = '/' ∨ c ∈ t ∧ isSeparator c = false := by
    intro hc
    rcases Text.mem_join hc with hc | ⟨w, hw, hc⟩
    · exact .inl (by simpa using hc)
    · exact .inr (Text.forall_mem_split (List.mem_filter.1 hw).1 c hc)
  unfold toNative at h
  split at h
  · split at h
    · exact (List.mem_cons.1 h).elim .inl hj
    · exact hj h
  · exact hj h

theorem notMem_toNative {c : Char} {t : Text} (hs : c ≠ '/') (h : c ∉ t) : c ∉ (toNative t).text := by
  intro hc
  rcases mem_toNative hc with hc | ⟨hc, -⟩
  · exact hs hc
  · exact h hc

theorem backslash_notMem_toNative (t : Text) : '\\' ∉ (toNative t).text := by
  intro hc
  rcases mem_toNative hc with hc | ⟨-, hc⟩
  · exact absurd hc (by decide)
  · exact absurd hc (by decide)

/-- The declared way from a folder to a place is relative, and it leads from the one to the other. -/
theorem settle_append_relative {folder target : Path} (hf : folder.isAbsolute = true)
    (ht : target.isAbsolute = true) (hb : target.Avoids '\\') :
    (toNative (relative folder target)).isAbsolute = false ∧
      settle (settle folder.parts ++ steps (toNative (relative folder target)).text) =
        settle target.parts := by
  obtain ⟨qs, hq, hr, hs⟩ := relative_of_isAbsolute hf ht
  have hbq : ∀ q ∈ qs, '\\' ∉ q.text := by
    intro q hm
    rcases (hq q hm).2 with rfl | hm
    · decide
    · exact hb q hm
  obtain ⟨ha, hn⟩ := toNative_ofNative (fun q hm => (hq q hm).1) hbq
  rw [relative, hr]
  refine ⟨ha, ?_⟩
  rw [hn, hs]

/-- From a folder, the declared way to a place leads to that place. -/
theorem normalize_join_relative {folder target : Path} (hf : folder.isAbsolute = true)
    (ht : target.isAbsolute = true) (hb : target.Avoids '\\') :
    (folder.join (toNative (relative folder target))).normalize = target.normalize := by
  obtain ⟨ha, hs⟩ := settle_append_relative hf ht hb
  rw [normalize_join folder ha, hs]
  rfl

end Declared
end SiteProject
