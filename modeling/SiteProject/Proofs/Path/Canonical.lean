import SiteProject.Proofs.Path.Below
import SiteProject.Proofs.Path.Relative

namespace SiteProject

namespace Part

theorem Settled.here_notMem {ps : List Part} (h : Settled ps) : here ∉ ps := by
  obtain ⟨base, ns, rfl, rfl | ⟨k, rfl⟩⟩ := h
  · simp
  · simp [List.mem_replicate]

theorem Settled.ups_first {ps : List Part} (h : Settled ps) :
    ∃ k qs, ps = List.replicate k up ++ qs ∧ up ∉ qs := by
  obtain ⟨base, ns, rfl, rfl | ⟨k, rfl⟩⟩ := h
  · exact ⟨0, root :: ns.map name, rfl, by simp⟩
  · exact ⟨k, ns.map name, rfl, by simp⟩

end Part

namespace Path

open SiteProject.Part (IsStep settle)

/-- No step is without effect. Steps up come first, and only where a path is relative. -/
structure Canonical (p : Path) : Prop where
  here_notMem : .here ∉ p.parts
  ups_first : ∃ k ps, p.parts = List.replicate k .up ++ ps ∧ .up ∉ ps
  relative_of_up : .up ∈ p.parts → p.isAbsolute = false

theorem isAbsolute_normalize_eq (p : Path) : p.normalize.isAbsolute = p.isAbsolute := by
  cases hp : p.isAbsolute with
  | true => exact isAbsolute_normalize hp
  | false =>
    have hsteps : ∀ q ∈ settle p.parts, IsStep q := fun q hq => isStep_of_mem_settle hp hq
    rw [normalize, ofParts_of_relative hsteps]
    exact isAbsolute_of_head? (head?_join_text hsteps)

theorem normalize_normalize (p : Path) : p.normalize.normalize = p.normalize := by
  rw [normalize, settle_parts_normalize, parts_normalize, normalize]

theorem canonical_normalize (p : Path) : p.normalize.Canonical where
  here_notMem := by
    rw [parts_normalize]
    exact (settled_settle_parts p).here_notMem
  ups_first := by
    rw [parts_normalize]
    exact (settled_settle_parts p).ups_first
  relative_of_up := by
    intro hu
    rw [isAbsolute_normalize_eq, Bool.eq_false_iff]
    intro ha
    -- what starts at the root has only names below it
    obtain ⟨ns, hns⟩ := settle_parts_of_isAbsolute ha
    rw [parts_normalize, hns] at hu
    simp at hu

theorem normalize_join_normalize (p q : Path) : (p.normalize.join q).normalize = (p.join q).normalize := by
  cases hq : q.isAbsolute with
  | true => rw [join, join, if_pos hq, if_pos hq]
  | false =>
    rw [normalize_join p.normalize hq, normalize_join p hq, settle_parts_normalize, parts_normalize]

/-- A normalized path is in canonical form and starts at the root exactly where the path does. Normalizing
it again changes nothing, and whatever is joined to it leads to the place that it leads to from the path
itself. -/
theorem normalize_is_canonical (p : Path) :
    p.normalize.Canonical ∧ p.normalize.isAbsolute = p.isAbsolute ∧
      p.normalize.normalize = p.normalize ∧
      ∀ q : Path, (p.join q).normalize = (p.normalize.join q).normalize := by
  refine ⟨canonical_normalize p, isAbsolute_normalize_eq p, normalize_normalize p, ?_⟩
  intro q
  exact (normalize_join_normalize p q).symm

/-- A step up takes back a name; where none is left it stays, and so do those that are joined to it. -/
example : (Path.mk "../a/./../..//".toList).normalize = ⟨"../..".toList⟩ ∧
    ((Path.mk "../a/./../..//".toList).join ⟨"../b".toList⟩).normalize = ⟨"../../../b".toList⟩ := by
  decide

end Path
end SiteProject
