import SiteProject.Disk.Memory

namespace SiteProject

section Run

variable {σ ε α β : Type} {s s' : σ} {a : α} {b : β} {r : Except ε α}

/-- The program ends from the first state with the answer, and leaves the second. -/
def Ends (x : ExceptT ε (StateM σ) α) (s : σ) (r : Except ε α) (s' : σ) : Prop :=
  (x.run.run s).run = (r, s')

theorem exists_ends (x : ExceptT ε (StateM σ) α) (s : σ) : ∃ r s', Ends x s r s' :=
  ⟨_, _, rfl⟩

theorem ends_pure : Ends (pure a : ExceptT ε (StateM σ) α) s r s' ↔ r = .ok a ∧ s' = s := by
  simp [Ends, eq_comm]

theorem ends_throw {e : ε} : Ends (throw e : ExceptT ε (StateM σ) α) s r s' ↔ r = .error e ∧ s' = s := by
  simp [Ends, eq_comm]

/-- The first part fails, or it goes on to the second. -/
theorem ends_bind {x : ExceptT ε (StateM σ) α} {f : α → ExceptT ε (StateM σ) β} {q : Except ε β} :
    Ends (x >>= f) s q s' ↔
      (∃ e, Ends x s (.error e) s' ∧ q = .error e) ∨ ∃ a s₁, Ends x s (.ok a) s₁ ∧ Ends (f a) s₁ q s' := by
  simp only [Ends, ExceptT.run_bind, StateT.run_bind, Id.run_bind]
  rcases hx : (x.run.run s).run with ⟨r, s₁⟩
  cases r with
  | error e =>
    constructor
    · intro h
      obtain ⟨rfl, rfl⟩ := Prod.mk.inj h
      exact .inl ⟨e, rfl, rfl⟩
    · rintro (⟨e', h, rfl⟩ | ⟨a, s₂, h, -⟩)
      · obtain ⟨h, rfl⟩ := Prod.mk.inj h
        cases h
        rfl
      · simp at h
  | ok a =>
    constructor
    · intro h
      exact .inr ⟨a, s₁, rfl, h⟩
    · rintro (⟨e, h, -⟩ | ⟨b, s₂, h, hf⟩)
      · simp at h
      · obtain ⟨h, rfl⟩ := Prod.mk.inj h
        cases h
        exact hf

theorem ends_lift {x : StateM σ α} :
    Ends (liftM x : ExceptT ε (StateM σ) α) s r s' ↔ ∃ a, (x.run s).run = (a, s') ∧ r = .ok a := by
  simp only [Ends, ExceptT.run_liftM, StateT.run_map, Id.run_map]
  rcases (x.run s).run with ⟨a, s₁⟩
  constructor
  · intro h
    obtain ⟨rfl, rfl⟩ := Prod.mk.inj h
    exact ⟨a, rfl, rfl⟩
  · rintro ⟨b, h, rfl⟩
    obtain ⟨rfl, rfl⟩ := Prod.mk.inj h
    rfl

theorem ends_adapt {ε' : Type} {f : ε → ε'} {x : ExceptT ε (StateM σ) α} {q : Except ε' α} :
    Ends (x.adapt f) s q s' ↔ ∃ r, Ends x s r s' ∧ q = r.mapError f := by
  simp only [Ends, ExceptT.run_adapt, StateT.run_map, Id.run_map]
  rcases (x.run.run s).run with ⟨r, s₁⟩
  constructor
  · intro h
    obtain ⟨rfl, rfl⟩ := Prod.mk.inj h
    exact ⟨r, rfl, rfl⟩
  · rintro ⟨r', h, rfl⟩
    obtain ⟨rfl, rfl⟩ := Prod.mk.inj h
    rfl

/-- The program succeeds on the first state with the value, and leaves the second. -/
def Succeeds (x : ExceptT ε (StateM σ) α) (s : σ) (a : α) (s' : σ) : Prop :=
  (x.run.run s).run = (.ok a, s')

theorem succeeds_pure {c : α} :
    Succeeds (pure a : ExceptT ε (StateM σ) α) s c s' ↔ a = c ∧ s = s' := by
  simp [Succeeds]

theorem not_succeeds_throw {e : ε} : ¬ Succeeds (throw e : ExceptT ε (StateM σ) α) s a s' := by
  simp [Succeeds]

theorem succeeds_bind {x : ExceptT ε (StateM σ) α} {f : α → ExceptT ε (StateM σ) β} :
    Succeeds (x >>= f) s b s' ↔ ∃ a s₁, Succeeds x s a s₁ ∧ Succeeds (f a) s₁ b s' := by
  constructor
  · intro h
    rcases ends_bind.1 h with ⟨e, -, he⟩ | h
    · cases he
    · exact h
  · intro h
    exact ends_bind.2 (.inr h)

theorem succeeds_lift {x : StateM σ α} :
    Succeeds (liftM x : ExceptT ε (StateM σ) α) s a s' ↔ (x.run s).run = (a, s') := by
  simp [Succeeds, Prod.ext_iff]

theorem succeeds_adapt {ε' : Type} {f : ε → ε'} {x : ExceptT ε (StateM σ) α} :
    Succeeds (x.adapt f) s a s' ↔ Succeeds x s a s' := by
  simp only [Succeeds, ExceptT.run_adapt, StateT.run_map, Id.run_map]
  rcases (x.run.run s).run with ⟨r, s₁⟩
  cases r with
  | error e =>
    change (Except.error (f e), s₁) = (Except.ok a, s') ↔ (Except.error e, s₁) = (Except.ok a, s')
    simp
  | ok c =>
    change (Except.ok c, s₁) = (Except.ok a, s') ↔ (Except.ok c, s₁) = (Except.ok a, s')
    simp

/-- A run succeeds, and its value and last state pass a check. -/
def succeedsWith (x : ExceptT ε (StateM σ) α) (s : σ) (check : α → σ → Bool) : Bool :=
  match (x.run.run s).run with
  | (.ok a, s') => check a s'
  | (.error _, _) => false

theorem exists_succeeds {x : ExceptT ε (StateM σ) α} {check : α → σ → Bool}
    (h : succeedsWith x s check = true) : ∃ a s', Succeeds x s a s' ∧ check a s' = true := by
  unfold succeedsWith at h
  split at h
  · next a s₁ hx => exact ⟨a, s₁, hx, h⟩
  · simp at h

/-- A run fails, and its failure and last state pass a check. -/
def failsWith (x : ExceptT ε (StateM σ) α) (s : σ) (check : ε → σ → Bool) : Bool :=
  match (x.run.run s).run with
  | (.ok _, _) => false
  | (.error e, s') => check e s'

theorem exists_fails {x : ExceptT ε (StateM σ) α} {check : ε → σ → Bool}
    (h : failsWith x s check = true) : ∃ e s', Ends x s (.error e) s' ∧ check e s' = true := by
  unfold failsWith at h
  split at h
  · simp at h
  · next e s₁ hx => exact ⟨e, s₁, hx, h⟩

end Run

namespace MemoryDisk

variable {d d' : MemoryDisk} {p q : Path} {t : Text} {u : Unit}

theorem find?_putInto (p q : Path) (t : Text) (fs : List (Path × Text)) :
    ((putInto p t fs).find? fun f => f.1.same q).map Prod.snd =
      if p.same q then some t else (fs.find? fun f => f.1.same q).map Prod.snd := by
  induction fs with
  | nil => by_cases h : p.same q = true <;> simp [putInto, h]
  | cons f fs ih =>
    rw [putInto]
    split
    · next hf =>
      have hs : f.1.same q = p.same q := by simp_all [Path.same]
      by_cases h : p.same q = true <;> simp [hs, h]
    · next hf =>
      by_cases hq : f.1.same q = true
      · have h : p.same q = false := by
          simp only [Path.same, beq_iff_eq, beq_eq_false_iff_ne] at hf hq ⊢
          exact fun h => hf (hq.trans h.symm)
        simp [hq, h]
      · simp only [List.find?_cons, hq, ih]

/-- What is put at a path is at all spellings of it. -/
theorem file?_put (d : MemoryDisk) (p q : Path) (t : Text) :
    (d.put p t).file? q = if p.same q then some t else d.file? q :=
  find?_putInto p q t d.files

/-- Every file of the first disk is a file of the second. -/
def Keeps (d d' : MemoryDisk) : Prop := ∀ p, d.hasFile p = true → d'.hasFile p = true

theorem Keeps.refl (d : MemoryDisk) : d.Keeps d := fun _ h => h

theorem Keeps.trans {d₁ d₂ d₃ : MemoryDisk} (h₁ : d₁.Keeps d₂) (h₂ : d₂.Keeps d₃) : d₁.Keeps d₃ :=
  fun p h => h₂ p (h₁ p h)

theorem keeps_put (d : MemoryDisk) (p : Path) (t : Text) : d.Keeps (d.put p t) := by
  intro q h
  rw [hasFile, file?_put]
  split
  · rfl
  · exact h

theorem hasFile_put (d : MemoryDisk) (p : Path) (t : Text) : (d.put p t).hasFile p = true := by
  simp [hasFile, file?_put, Path.same]

theorem eq_of_guarded {α : Type} {o : Operation} {act : Outcome α} {a : α}
    (h : d.guarded o p act = (.ok a, d')) : act = (.ok a, d') := by
  unfold guarded at h
  split at h
  · simp at h
  · exact h

theorem file?_addFolder (d : MemoryDisk) (p q : Path) : (d.addFolder p).file? q = d.file? q := by
  unfold addFolder
  split <;> rfl

theorem hasFile_addFolder (d : MemoryDisk) (p q : Path) :
    (d.addFolder p).hasFile q = d.hasFile q := by
  rw [hasFile, file?_addFolder, hasFile]

theorem keeps_addFolder (d : MemoryDisk) (p : Path) : d.Keeps (d.addFolder p) := by
  intro q h
  rwa [hasFile_addFolder]

@[simp]
theorem run_exists? (p : Path) (d : MemoryDisk) :
    ((Disk.exists? p : StateM MemoryDisk Bool).run d).run = (d.hasPath p, d) := rfl

theorem run_readText (p : Path) (d : MemoryDisk) :
    ∃ r, (((Disk.readText p : ExceptT DiskFailure (StateM MemoryDisk) Text).run).run d).run =
      (r, d) := by
  refine ⟨(d.readText p).1, Prod.ext rfl ?_⟩
  change (d.readText p).2 = d
  unfold readText guarded
  split
  · rfl
  · split <;> rfl

/-- A copy puts a file at the target, or nothing. -/
theorem run_copyFile (source target : Path) (d : MemoryDisk) :
    ∃ r d', (((Disk.copyFile source target : ExceptT DiskFailure (StateM MemoryDisk) Unit).run).run
        d).run = (r, d') ∧ d.Keeps d' ∧ (r = .ok () → d'.hasFile target = true) := by
  refine ⟨_, _, rfl, ?_, ?_⟩
  · change d.Keeps (d.copyFile source target).2
    unfold copyFile guarded
    split
    · exact Keeps.refl d
    · split
      · exact keeps_put d target _
      · exact Keeps.refl d
  · change (d.copyFile source target).1 = .ok () → (d.copyFile source target).2.hasFile target = true
    unfold copyFile guarded
    split
    · simp
    · split
      · intro _
        exact hasFile_put d target _
      · simp

theorem eq_put_of_writeText
    (h : Succeeds (Disk.writeText p t : ExceptT DiskFailure (StateM MemoryDisk) Unit) d u d') :
    d' = d.put p t := by
  have h := eq_of_guarded (show d.guarded .write p (.ok (), d.put p t) = (.ok u, d') from h)
  exact (congrArg Prod.snd h).symm

theorem eq_addFolder_of_makeFolders
    (h : Succeeds (Disk.makeFolders p : ExceptT DiskFailure (StateM MemoryDisk) Unit) d u d') :
    d' = d.addFolder p := by
  have h := eq_of_guarded (show d.guarded .makeFolders p (.ok (), d.addFolder p) = (.ok u, d') from h)
  exact (congrArg Prod.snd h).symm

theorem ends_guarded {α : Type} {x : ExceptT DiskFailure (StateM MemoryDisk) α} {o : Operation} {a : α}
    {r : Except DiskFailure α} {d₁ : MemoryDisk} (hx : (x.run.run d).run = d.guarded o p (.ok a, d₁)) :
    Ends x d r d' ↔ (∃ c, d.fault? o p = some c ∧ r = .error ⟨p, c⟩ ∧ d' = d) ∨
      (d.fault? o p = none ∧ r = .ok a ∧ d' = d₁) := by
  rw [Ends, hx, guarded]
  cases d.fault? o p with
  | some c => simp [Prod.ext_iff, eq_comm]
  | none => simp [Prod.ext_iff, eq_comm]

theorem ends_makeFolders {r : Except DiskFailure Unit} :
    Ends (Disk.makeFolders p : ExceptT DiskFailure (StateM MemoryDisk) Unit) d r d' ↔
      (∃ c, d.fault? .makeFolders p = some c ∧ r = .error ⟨p, c⟩ ∧ d' = d) ∨
        (d.fault? .makeFolders p = none ∧ r = .ok () ∧ d' = d.addFolder p) :=
  ends_guarded rfl

theorem file?_of_readText
    (h : Succeeds (Disk.readText p : ExceptT DiskFailure (StateM MemoryDisk) Text) d t d') :
    d.file? p = some t ∧ d' = d := by
  have h := eq_of_guarded (show d.guarded .read p _ = (.ok t, d') from h)
  split at h
  · next t' ht =>
    simp only [Prod.mk.injEq, Except.ok.injEq] at h
    obtain ⟨rfl, rfl⟩ := h
    exact ⟨ht, rfl⟩
  · simp at h

end MemoryDisk
end SiteProject
