import SiteProject.Proofs.Path.Way

namespace SiteProject.Path

open SiteProject.Part (IsName IsStep Settled settle)

/-- The root and names below it, plainly written. -/
def Rooted (p : Path) : Prop :=
  ∃ ns : List Text, (∀ n ∈ ns, IsName n) ∧ p = ofParts (.root :: ns.map .name)

theorem rooted_normalize {p : Path} (hp : p.isAbsolute = true) : p.normalize.Rooted := by
  obtain ⟨ns, hs⟩ := settle_parts_of_isAbsolute hp
  refine ⟨ns, fun n hn => ?_, by rw [normalize, hs]⟩
  have hm : Part.name n ∈ settle p.parts := by
    rw [hs]
    exact List.mem_cons_of_mem _ (List.mem_map_of_mem hn)
  exact isName_of_mem_settle hm

namespace Rooted

variable {p : Path} {n : Text}

theorem isAbsolute (hp : p.Rooted) : p.isAbsolute = true := by
  obtain ⟨ns, -, rfl⟩ := hp
  rfl

theorem parts_eq {ns : List Text} (hns : ∀ n ∈ ns, IsName n) :
    (ofParts (.root :: ns.map .name)).parts = .root :: ns.map .name := by
  refine parts_ofParts (Part.settled_root ns) fun n h => ?_
  obtain ⟨m, hm, he⟩ := List.mem_map.1 ((List.mem_cons.1 h).resolve_left (by simp))
  exact Part.name.inj he ▸ hns m hm

theorem normalize_eq (hp : p.Rooted) : p.normalize = p := by
  obtain ⟨ns, hns, rfl⟩ := hp
  rw [normalize, parts_eq hns, Part.settle_of_settled (Part.settled_root ns)]

/-- They are the same where their parts are. -/
theorem eq_of_parts {q : Path} (hp : p.Rooted) (hq : q.Rooted) (h : p.parts = q.parts) : p = q := by
  rw [← hp.normalize_eq, ← hq.normalize_eq, normalize, normalize, h]

theorem getLast?_join {ns : List Text} (h : ∀ n ∈ ns, IsName n) :
    (Text.join ['/'] ns).getLast? ≠ some '/' := by
  rcases List.eq_nil_or_concat ns with rfl | ⟨ms, m, rfl⟩
  · simp
  · rw [List.concat_eq_append] at h ⊢
    have hm := h m (by simp)
    obtain ⟨t, c, hc⟩ := (List.eq_nil_or_concat m).resolve_left hm.1
    rw [List.concat_eq_append] at hc
    have hne : c ≠ '/' := fun e => hm.2.1 (by simp [hc, e])
    by_cases hms : ms = []
    · rw [hms, List.nil_append, Text.join_singleton, hc, List.getLast?_concat]
      simpa using hne
    · rw [Text.join_concat hms, hc, ← List.append_assoc, List.getLast?_concat]
      simpa using hne

theorem joinText_eq {ns : List Text} (hns : ∀ m ∈ ns, IsName m) (hn : IsName n) :
    (ofParts (.root :: ns.map .name)).joinText n = ofParts (.root :: (ns ++ [n]).map .name) := by
  have ht : ∀ ms : List Text, (ms.map Part.name).map Part.text = ms := by
    intro ms
    rw [List.map_map]
    exact List.map_id ms
  have ha : Path.isAbsolute ⟨n⟩ = false := by
    refine isAbsolute_of_head? fun h => ?_
    exact hn.2.1 (List.mem_of_mem_head? h)
  rw [joinText, join, ha]
  simp only [ofParts, ht, isEmpty, List.isEmpty_cons, Bool.false_or, Bool.false_eq_true, if_false]
  by_cases he : ns = []
  · subst he
    rfl
  · have hl : ('/' :: Text.join ['/'] ns).getLast? ≠ some '/' := by
      obtain ⟨c, s, hc⟩ := List.exists_cons_of_ne_nil (Text.join_ne_nil he fun m hm => (hns m hm).1)
      have hg := getLast?_join hns
      rw [hc] at hg ⊢
      rwa [List.getLast?_cons_cons]
    rw [Text.join_concat he]
    simp [hl]

theorem joinText (hp : p.Rooted) (hn : IsName n) : (p.joinText n).Rooted := by
  obtain ⟨ns, hns, rfl⟩ := hp
  have hall := List.forall_mem_append.2 ⟨hns, List.forall_mem_singleton.2 hn⟩
  exact ⟨ns ++ [n], hall, joinText_eq hns hn⟩

theorem parts_joinText (hp : p.Rooted) (hn : IsName n) :
    (p.joinText n).parts = p.parts ++ [.name n] := by
  obtain ⟨ns, hns, rfl⟩ := hp
  have hall := List.forall_mem_append.2 ⟨hns, List.forall_mem_singleton.2 hn⟩
  rw [joinText_eq hns hn, parts_eq hall, parts_eq hns]
  simp

end Rooted

theorem isAbsolute_normalize {p : Path} (hp : p.isAbsolute = true) : p.normalize.isAbsolute = true :=
  (rooted_normalize hp).isAbsolute

theorem isAbsolute_joinText {p : Path} (hp : p.isAbsolute = true) (t : Text) :
    (p.joinText t).isAbsolute = true :=
  isAbsolute_join_of_isAbsolute hp ⟨t⟩

theorem isAbsolute_of_parent? {p q : Path} (hp : p.isAbsolute = true) (h : p.parent? = some q) :
    q.isAbsolute = true := by
  obtain ⟨t⟩ := p
  obtain ⟨s, rfl⟩ : ∃ s, t = '/' :: s := by
    cases t with
    | nil => simp [isAbsolute] at hp
    | cons c s => exact ⟨s, by simpa [isAbsolute] using hp⟩
  have hs : Text.split (· == '/') ('/' :: s) = [] :: Text.split (· == '/') s := by simp [Text.split]
  simp only [parent?, hs] at h
  split at h
  · simp at h
  · split at h
    · exact Option.some.inj h ▸ rfl
    · next v vs _ hk =>
      rw [← Option.some.inj h]
      generalize (((v :: vs).dropLast.reverse.dropWhile isIdle).reverse) = us at hk
      cases us with
      | nil => simp at hk
      | cons u us => rfl

end SiteProject.Path
