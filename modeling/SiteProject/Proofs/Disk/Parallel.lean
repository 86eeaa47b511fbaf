import SiteProject.Disk.Basic

namespace SiteProject

/-- A change that a disk is asked for, by the path that it makes, writes or copies to. -/
inductive Act
  | made (p : Path)
  | written (p : Path)
  | copied (p : Path)
  deriving DecidableEq, Repr

section Programs

variable {σ τ ε ε' α β : Type} {R : σ → τ → Prop}

/-- From related states the programs give the same answer, and they end in related states. -/
def Parallel (R : σ → τ → Prop) (x : StateM σ α) (y : StateM τ α) : Prop :=
  ∀ s t, R s t → ∃ a s' t', (x.run s).run = (a, s') ∧ (y.run t).run = (a, t') ∧ R s' t'

theorem parallel_pure (a : α) : Parallel R (pure a) (pure a) :=
  fun s t h => ⟨a, s, t, rfl, rfl, h⟩

theorem parallel_bind {x : StateM σ α} {y : StateM τ α} {f : α → StateM σ β} {g : α → StateM τ β}
    (hx : Parallel R x y) (hf : ∀ a, Parallel R (f a) (g a)) : Parallel R (x >>= f) (y >>= g) := by
  intro s t h
  obtain ⟨a, s₁, t₁, hs, ht, h₁⟩ := hx s t h
  obtain ⟨b, s₂, t₂, hs', ht', h₂⟩ := hf a s₁ t₁ h₁
  refine ⟨b, s₂, t₂, ?_, ?_, h₂⟩
  · rw [StateT.run_bind, Id.run_bind, hs]
    exact hs'
  · rw [StateT.run_bind, Id.run_bind, ht]
    exact ht'

theorem parallel_map {x : StateM σ α} {y : StateM τ α} (f : α → β) (h : Parallel R x y) :
    Parallel R (f <$> x) (f <$> y) := by
  rw [map_eq_pure_bind, map_eq_pure_bind]
  exact parallel_bind h fun a => parallel_pure (f a)

theorem parallel_run_pure (a : α) :
    Parallel R (pure a : ExceptT ε (StateM σ) α).run (pure a : ExceptT ε (StateM τ) α).run :=
  parallel_pure (Except.ok a)

theorem parallel_run_throw (e : ε) :
    Parallel R (throw e : ExceptT ε (StateM σ) α).run (throw e : ExceptT ε (StateM τ) α).run :=
  parallel_pure (Except.error e)

theorem parallel_run_bind {x : ExceptT ε (StateM σ) α} {y : ExceptT ε (StateM τ) α}
    {f : α → ExceptT ε (StateM σ) β} {g : α → ExceptT ε (StateM τ) β} (hx : Parallel R x.run y.run)
    (hf : ∀ a, Parallel R (f a).run (g a).run) : Parallel R (x >>= f).run (y >>= g).run := by
  rw [ExceptT.run_bind, ExceptT.run_bind]
  apply parallel_bind hx
  intro r
  cases r with
  | ok a => exact hf a
  | error e => exact parallel_pure (Except.error e)

theorem parallel_run_guard (c : Prop) [Decidable c] (e : ε) {x : ExceptT ε (StateM σ) α}
    {y : ExceptT ε (StateM τ) α} (h : Parallel R x.run y.run) :
    Parallel R (if c then throw e >>= fun (_ : PUnit) => x else x).run
      (if c then throw e >>= fun (_ : PUnit) => y else y).run := by
  split
  · exact parallel_run_bind (parallel_run_throw e) fun _ => h
  · exact h

theorem parallel_run_lift {x : StateM σ α} {y : StateM τ α} (h : Parallel R x y) :
    Parallel R (liftM x : ExceptT ε (StateM σ) α).run (liftM y : ExceptT ε (StateM τ) α).run := by
  rw [ExceptT.run_liftM, ExceptT.run_liftM]
  exact parallel_map Except.ok h

theorem parallel_run_adapt {x : ExceptT ε (StateM σ) α} {y : ExceptT ε (StateM τ) α} (f : ε → ε')
    (h : Parallel R x.run y.run) : Parallel R (x.adapt f).run (y.adapt f).run := by
  rw [ExceptT.run_adapt, ExceptT.run_adapt]
  exact parallel_map (Except.mapError f) h

end Programs

section Disks

variable {σ τ : Type} [Disk (StateM σ)] [Disk (StateM τ)]

/-- The operations of two disks agree from related states on, those that change a disk where the change
is allowed. -/
structure Agree (allowed : Act → Prop) (R : σ → τ → Prop) : Prop where
  exists? (p : Path) : Parallel R (Disk.exists? (m := StateM σ) p) (Disk.exists? (m := StateM τ) p)
  readText (p : Path) :
    Parallel R (Disk.readText (m := StateM σ) p).run (Disk.readText (m := StateM τ) p).run
  makeFolders (p : Path) : allowed (.made p) →
    Parallel R (Disk.makeFolders (m := StateM σ) p).run (Disk.makeFolders (m := StateM τ) p).run
  writeText (p : Path) (t : Text) : allowed (.written p) →
    Parallel R (Disk.writeText (m := StateM σ) p t).run (Disk.writeText (m := StateM τ) p t).run
  copyFile (source p : Path) : allowed (.copied p) →
    Parallel R (Disk.copyFile (m := StateM σ) source p).run (Disk.copyFile (m := StateM τ) source p).run

end Disks
end SiteProject
