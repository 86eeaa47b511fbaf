import SiteProject.Proofs.Disk.Parallel

namespace SiteProject

structure Watched (σ : Type) where
  disk : σ
  acts : List Act

namespace Watched

variable {σ α ε : Type} {allowed : Act → Prop}

/-- An operation of the disk below, with what it is asked to change. -/
def through (x : StateM σ α) (asked : List Act) : StateM (Watched σ) α := fun w =>
  let (a, s) := (x.run w.disk).run
  (a, ⟨s, w.acts ++ asked⟩)

/-- The watched disk is in the state of the other one, and was asked for allowed changes only. -/
def Follows (allowed : Act → Prop) (w : Watched σ) (s : σ) : Prop :=
  w.disk = s ∧ ∀ a ∈ w.acts, allowed a

theorem parallel_through (x : StateM σ α) {asked : List Act} (h : ∀ a ∈ asked, allowed a) :
    Parallel (Follows allowed) (through x asked) x := by
  rintro w s ⟨rfl, hw⟩
  have hall : ∀ a ∈ w.acts ++ asked, allowed a := by
    intro a ha
    rcases List.mem_append.1 ha with ha | ha
    · exact hw a ha
    · exact h a ha
  exact ⟨(x.run w.disk).run.1, ⟨(x.run w.disk).run.2, w.acts ++ asked⟩, (x.run w.disk).run.2, rfl, rfl,
    rfl, hall⟩

/-- A program that asks for allowed changes only does the same on the watched disk, and the record has
nothing else. -/
theorem run_of_parallel {x : ExceptT ε (StateM (Watched σ)) α} {y : ExceptT ε (StateM σ) α}
    (h : Parallel (Follows allowed) x.run y.run) (s : σ) :
    ∃ acts, (x.run.run ⟨s, []⟩).run = ((y.run.run s).run.1, ⟨(y.run.run s).run.2, acts⟩) ∧
      ∀ a ∈ acts, allowed a := by
  obtain ⟨a, w, s', hx, hy, rfl, hacts⟩ := h ⟨s, []⟩ s ⟨rfl, by simp⟩
  exact ⟨w.acts, by rw [hx, hy], hacts⟩

variable [Disk (StateM σ)]

instance : Disk (StateM (Watched σ)) where
  exists? p := through (Disk.exists? p) []
  isFile? p := through (Disk.isFile? p) []
  readText p := ExceptT.mk (through (Disk.readText p).run [])
  writeText p t := ExceptT.mk (through (Disk.writeText p t).run [.written p])
  makeFolders p := ExceptT.mk (through (Disk.makeFolders p).run [.made p])
  copyFile source p := ExceptT.mk (through (Disk.copyFile source p).run [.copied p])

theorem agree_follows : Agree allowed (Follows (σ := σ) allowed) where
  exists? _ := parallel_through _ (by simp)
  readText _ := parallel_through _ (by simp)
  makeFolders _ h := parallel_through _ (List.forall_mem_singleton.2 h)
  writeText _ _ h := parallel_through _ (List.forall_mem_singleton.2 h)
  copyFile _ _ h := parallel_through _ (List.forall_mem_singleton.2 h)

end Watched
end SiteProject
