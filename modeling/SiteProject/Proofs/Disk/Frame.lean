import SiteProject.Proofs.Disk.Parallel
import SiteProject.Proofs.Disk.Run

namespace SiteProject.MemoryDisk

variable {d d' d₁ d₂ : MemoryDisk} {p q : Path}

theorem faults_addFolder (d : MemoryDisk) (p : Path) : (d.addFolder p).faults = d.faults := by
  unfold addFolder
  split <;> rfl

theorem hasFolder_addFolder (d : MemoryDisk) (p q : Path) :
    (d.addFolder p).hasFolder q = (d.hasFolder q || p.same q) := by
  unfold addFolder
  split
  · next h =>
    by_cases hq : p.same q = true
    · obtain ⟨f, hf, hs⟩ := List.any_eq_true.1 h
      have hfq : f.same q = true := by
        rw [Path.same, beq_iff_eq] at *
        exact hs.trans hq
      have hd : d.hasFolder q = true := List.any_eq_true.2 ⟨f, hf, hfq⟩
      simp [hd]
    · simp [hq]
  · simp [hasFolder]

theorem fault?_congr (h : d'.faults = d.faults) (o : Operation) (p : Path) :
    d'.fault? o p = d.fault? o p := by
  rw [fault?, fault?, h]

/-- The second disk differs from the first only where changes are allowed. -/
structure Framed (allowed : Act → Prop) (d d' : MemoryDisk) : Prop where
  faults : d'.faults = d.faults
  file? (p : Path) : d'.file? p = d.file? p ∨
    ∃ q, (allowed (.written q) ∨ allowed (.copied q)) ∧ q.same p = true
  hasFolder (p : Path) : d'.hasFolder p = d.hasFolder p ∨ ∃ q, allowed (.made q) ∧ q.same p = true

section Framed

variable {allowed allowed' : Act → Prop}

theorem Framed.refl (allowed : Act → Prop) (d : MemoryDisk) : Framed allowed d d :=
  ⟨rfl, fun _ => .inl rfl, fun _ => .inl rfl⟩

theorem Framed.trans (h₁ : Framed allowed d d₁) (h₂ : Framed allowed d₁ d₂) : Framed allowed d d₂ where
  faults := h₂.faults.trans h₁.faults
  file? p := by
    rcases h₂.file? p with h | h
    · rw [h]
      exact h₁.file? p
    · exact .inr h
  hasFolder p := by
    rcases h₂.hasFolder p with h | h
    · rw [h]
      exact h₁.hasFolder p
    · exact .inr h

theorem Framed.mono (hall : ∀ a, allowed a → allowed' a) (h : Framed allowed d d') :
    Framed allowed' d d' where
  faults := h.faults
  file? p := (h.file? p).imp_right fun ⟨q, hq, hs⟩ => ⟨q, hq.imp (hall _) (hall _), hs⟩
  hasFolder p := (h.hasFolder p).imp_right fun ⟨q, hq, hs⟩ => ⟨q, hall _ hq, hs⟩

theorem framed_addFolder (h : allowed (.made p)) (d : MemoryDisk) : Framed allowed d (d.addFolder p) where
  faults := faults_addFolder d p
  file? q := .inl (file?_addFolder d p q)
  hasFolder q := by
    rw [hasFolder_addFolder]
    by_cases hq : p.same q = true
    · exact .inr ⟨p, h, hq⟩
    · simp [hq]

theorem framed_put (h : allowed (.written p) ∨ allowed (.copied p)) (d : MemoryDisk) (t : Text) :
    Framed allowed d (d.put p t) where
  faults := rfl
  file? q := by
    rw [file?_put]
    by_cases hq : p.same q = true
    · exact .inr ⟨p, h, hq⟩
    · simp [hq]
  hasFolder _ := .inl rfl

end Framed

section Invariant

variable {α ε : Type} {allowed : Act → Prop} {I : MemoryDisk → Prop}

/-- One state, which has the property. -/
def Shared (I : MemoryDisk → Prop) (d d' : MemoryDisk) : Prop := d = d' ∧ I d

theorem parallel_shared {x : StateM MemoryDisk α} (h : ∀ d, I d → I (x.run d).run.2) :
    Parallel (Shared I) x x := by
  rintro d _ ⟨rfl, hd⟩
  exact ⟨(x.run d).run.1, (x.run d).run.2, (x.run d).run.2, rfl, rfl, rfl, h d hd⟩

theorem of_guarded {o : Operation} {act : Outcome α} (hd : I d) (ha : I act.2) :
    I (d.guarded o p act).2 := by
  unfold guarded
  split
  · exact hd
  · exact ha

theorem agree_shared (hf : ∀ d p, allowed (.made p) → I d → I (d.addFolder p))
    (hp : ∀ d p t, allowed (.written p) ∨ allowed (.copied p) → I d → I (d.put p t)) :
    Agree allowed (Shared I) where
  exists? _ := parallel_shared fun _ hd => hd
  readText p := by
    apply parallel_shared
    intro d hd
    apply of_guarded hd
    split
    · exact hd
    · exact hd
  makeFolders p h := parallel_shared fun d hd => of_guarded hd (hf d p h hd)
  writeText p t h := parallel_shared fun d hd => of_guarded hd (hp d p t (.inl h) hd)
  copyFile source p h := by
    apply parallel_shared
    intro d hd
    apply of_guarded hd
    split
    · exact hp d p _ (.inr h) hd
    · exact hd

/-- A property of the disk that the allowed changes keep is kept by a program that asks for no others: it runs
beside itself, on one disk that has the property. -/
theorem invariant_of_parallel {x : StateM MemoryDisk α} (h : Parallel (Shared I) x x) (hd : I d) :
    I (x.run d).run.2 := by
  obtain ⟨a, d₁, d₂, hx, -, -, hi⟩ := h d d ⟨rfl, hd⟩
  rw [hx]
  exact hi

theorem invariant_of_ends {x : ExceptT ε (StateM MemoryDisk) α} {r : Except ε α} (h : Ends x d r d')
    (hp : Parallel (Shared I) x.run x.run) (hd : I d) : I d' := by
  have hi := invariant_of_parallel hp hd
  rw [Ends] at h
  rwa [h] at hi

/-- Nothing but what a program asks for is changed. -/
theorem agree_framed (allowed : Act → Prop) (d : MemoryDisk) :
    Agree allowed (Shared (Framed allowed d)) :=
  agree_shared (fun d₁ _ h hd => hd.trans (framed_addFolder h d₁))
    fun d₁ _ t h hd => hd.trans (framed_put h d₁ t)

/-- Without changes allowed, the disk stays. -/
theorem agree_unchanged (d : MemoryDisk) : Agree (fun _ => False) (Shared (· = d)) :=
  agree_shared (fun _ _ h => h.elim) fun _ _ _ h => (h.elim id id).elim

end Invariant
end SiteProject.MemoryDisk
