import SiteProject.Proofs.Disk.Frame
import SiteProject.Proofs.Path.Below

namespace SiteProject

/-- What is done to a disk. -/
inductive Change
  | folder (p : Path)
  | file (p : Path) (t : Text)

def Change.path : Change → Path
  | folder p => p
  | file p _ => p

namespace MemoryDisk

variable {d e : MemoryDisk} {p q folder : Path} {s t : Text} {cs : List Change}

def change (d : MemoryDisk) : Change → MemoryDisk
  | .folder p => d.addFolder p
  | .file p t => d.put p t

def replay (d : MemoryDisk) (cs : List Change) : MemoryDisk := cs.foldl change d

theorem replay_append (d : MemoryDisk) (cs cs' : List Change) :
    d.replay (cs ++ cs') = (d.replay cs).replay cs' :=
  List.foldl_append

theorem putInto_putInto_of_same {fs : List (Path × Text)} (h : q.same p = true)
    (hfs : ((fs.find? fun f => f.1.same p).map Prod.snd).isSome = true) :
    putInto q s (putInto p t fs) = putInto q s fs := by
  induction fs with
  | nil => simp at hfs
  | cons f fs ih =>
    have hsame : f.1.same q = f.1.same p := by
      rw [Path.same, beq_iff_eq] at h
      rw [Path.same, Path.same, h]
    by_cases hf : f.1.same p = true
    · simp [putInto, hf, hsame]
    · simp only [List.find?_cons, hf] at hfs
      simp [putInto, hf, hsame, ih hfs]

theorem putInto_comm {fs : List (Path × Text)} (h : q.same p = false)
    (hfs : ((fs.find? fun f => f.1.same p).map Prod.snd).isSome = true) :
    putInto q s (putInto p t fs) = putInto p t (putInto q s fs) := by
  induction fs with
  | nil => simp at hfs
  | cons f fs ih =>
    by_cases hp : f.1.same p = true
    · have hq : f.1.same q = false := by
        rw [Path.same, beq_iff_eq] at hp
        rwa [Path.same, hp, BEq.comm, ← Path.same]
      simp [putInto, hp, hq]
    · simp only [List.find?_cons, hp] at hfs
      by_cases hq : f.1.same q = true
      · simp [putInto, hp, hq]
      · simp [putInto, hp, hq, ih hfs]

theorem putInto_eq_self {fs : List (Path × Text)}
    (hfs : (fs.find? fun f => f.1.same p).map Prod.snd = some t) : putInto p t fs = fs := by
  induction fs with
  | nil => simp at hfs
  | cons f fs ih =>
    by_cases hf : f.1.same p = true
    · have ht : f.2 = t := by simpa [List.find?_cons, hf] using hfs
      simp [putInto, hf, ← ht]
    · simp only [List.find?_cons, hf] at hfs
      simp [putInto, hf, ih hfs]

theorem put_put_of_same (hd : d.hasFile p = true) (h : q.same p = true) :
    (d.put p t).put q s = d.put q s :=
  congrArg (fun fs => { d with files := fs }) (putInto_putInto_of_same h hd)

theorem put_put_comm (hd : d.hasFile p = true) (h : q.same p = false) :
    (d.put p t).put q s = (d.put q s).put p t :=
  congrArg (fun fs => { d with files := fs }) (putInto_comm h hd)

theorem put_eq_self (h : d.file? p = some t) : d.put p t = d :=
  congrArg (fun fs => { d with files := fs }) (putInto_eq_self h)

theorem addFolder_put (d : MemoryDisk) (p q : Path) (t : Text) :
    (d.put p t).addFolder q = (d.addFolder q).put p t := by
  change (if d.hasFolder q then d.put p t else _) = _
  unfold addFolder
  split <;> rfl

/-- What the changes leave at a path, where one of them is to it. -/
def written? (p : Path) : List Change → Option Text
  | [] => none
  | .folder _ :: cs => written? p cs
  | .file q t :: cs => (written? p cs).orElse fun _ => if q.same p then some t else none

theorem file?_replay (d : MemoryDisk) (cs : List Change) (p : Path) :
    (d.replay cs).file? p = (written? p cs).orElse fun _ => d.file? p := by
  induction cs generalizing d with
  | nil => rfl
  | cons c cs ih =>
    cases c with
    | folder q =>
      change ((d.addFolder q).replay cs).file? p = _
      rw [ih, file?_addFolder]
      rfl
    | file q t =>
      change ((d.put q t).replay cs).file? p = _
      rw [ih, file?_put, written?]
      cases written? p cs with
      | some u => rfl
      | none => by_cases h : q.same p = true <;> simp [h]

/-- A file that is written again later may as well not be written before. -/
theorem replay_put (hd : d.hasFile p = true) (h : (written? p cs).isSome = true) :
    (d.put p t).replay cs = d.replay cs := by
  induction cs generalizing d with
  | nil => simp [written?] at h
  | cons c cs ih =>
    cases c with
    | folder q =>
      change ((d.put p t).addFolder q).replay cs = (d.addFolder q).replay cs
      rw [addFolder_put]
      exact ih ((hasFile_addFolder d q p).trans hd) h
    | file q s =>
      change ((d.put p t).put q s).replay cs = (d.put q s).replay cs
      by_cases hq : q.same p = true
      · rw [put_put_of_same hd hq]
      · have hq : q.same p = false := by simpa using hq
        have h : (written? p cs).isSome = true := by simpa [written?, hq] using h
        rw [put_put_comm hd hq]
        exact ih (keeps_put d q s p hd) h

/-- Changes that are there already change nothing. -/
theorem replay_eq_self (hf : ∀ p, .folder p ∈ cs → d.hasFolder p = true)
    (hw : ∀ p t, written? p cs = some t → d.file? p = some t) : d.replay cs = d := by
  induction cs with
  | nil => rfl
  | cons c cs ih =>
    have hf' : ∀ p, .folder p ∈ cs → d.hasFolder p = true := fun p h => hf p (List.mem_cons_of_mem _ h)
    cases c with
    | folder q =>
      have hq : d.addFolder q = d := if_pos (hf q List.mem_cons_self)
      change (d.addFolder q).replay cs = d
      rw [hq]
      exact ih hf' hw
    | file q s =>
      have ih := ih hf' fun p t h => hw p t (by simp [written?, h])
      change (d.put q s).replay cs = d
      cases h : written? q cs with
      | some t =>
        have hd : d.hasFile q = true := by
          rw [hasFile, hw q t (by simp [written?, h])]
          rfl
        rw [replay_put hd (by simp [h]), ih]
      | none =>
        have hd : d.file? q = some s := hw q s (by simp [written?, h, Path.same])
        rw [put_eq_self hd, ih]

theorem hasFolder_replay (d : MemoryDisk) (cs : List Change) (p : Path) :
    (d.replay cs).hasFolder p = true ↔
      d.hasFolder p = true ∨ ∃ q, .folder q ∈ cs ∧ q.same p = true := by
  induction cs generalizing d with
  | nil => simp [replay]
  | cons c cs ih =>
    cases c with
    | folder q =>
      change ((d.addFolder q).replay cs).hasFolder p = true ↔ _
      rw [ih, hasFolder_addFolder]
      simp only [Bool.or_eq_true, List.mem_cons, Change.folder.injEq]
      grind
    | file q t =>
      change ((d.put q t).replay cs).hasFolder p = true ↔ _
      rw [ih]
      simp [hasFolder, put]

/-- Changes that are made once more change nothing. -/
theorem replay_replay (d : MemoryDisk) (cs : List Change) : (d.replay cs).replay cs = d.replay cs := by
  apply replay_eq_self
  · intro p h
    exact (hasFolder_replay d cs p).2 (.inr ⟨p, h, by simp [Path.same]⟩)
  · intro p t h
    rw [file?_replay, h]
    rfl

theorem any_holds_putInto (p q : Path) (t : Text) (fs : List (Path × Text)) :
    (putInto q t fs).any (fun f => p.holds f.1) = (p.holds q || fs.any fun f => p.holds f.1) := by
  induction fs with
  | nil => rfl
  | cons f fs ih =>
    rw [putInto]
    split
    · next h =>
      have hpf : p.holds q = p.holds f.1 := by
        rw [Path.same, beq_iff_eq] at h
        rw [Path.holds, Path.holds, h]
      simp [hpf]
    · simp only [List.any_cons, ih]
      rw [← Bool.or_assoc, ← Bool.or_assoc, Bool.or_comm (p.holds f.1)]

theorem hasPath_put (d : MemoryDisk) (p q : Path) (t : Text) :
    (d.put q t).hasPath p = (p.holds q || d.hasPath p) := by
  have h := any_holds_putInto p q t d.files
  change ((putInto q t d.files).any (fun f => p.holds f.1) || d.folders.any p.holds) = _
  rw [h, Bool.or_assoc]
  rfl

theorem hasPath_addFolder (d : MemoryDisk) (p q : Path) :
    (d.addFolder q).hasPath p = (p.holds q || d.hasPath p) := by
  unfold addFolder
  split
  · next h =>
    obtain ⟨f, hf, hs⟩ := List.any_eq_true.1 h
    have hpf : p.holds q = p.holds f := by
      rw [Path.same, beq_iff_eq] at hs
      rw [Path.holds, Path.holds, hs]
    have hp : p.holds f = true → d.hasPath p = true := fun hp =>
      Bool.or_eq_true_iff.2 (.inr (List.any_eq_true.2 ⟨f, hf, hp⟩))
    rw [hpf]
    by_cases h : p.holds f = true
    · simp [h, hp h]
    · simp [h]
  · simp only [hasPath, List.any_append, List.any_cons, List.any_nil, Bool.or_false]
    rw [← Bool.or_assoc, Bool.or_comm]

/-- The disks fail alike, and beside the folder they have the same. -/
structure Alike (folder : Path) (d e : MemoryDisk) : Prop where
  faults : e.faults = d.faults
  hasPath (p : Path) : p.apart folder = true → e.hasPath p = d.hasPath p
  file? (p : Path) : p.apart folder = true → e.file? p = d.file? p

theorem Alike.refl (folder : Path) (d : MemoryDisk) : Alike folder d d :=
  ⟨rfl, fun _ _ => rfl, fun _ _ => rfl⟩

theorem Alike.trans {d₁ d₂ d₃ : MemoryDisk} (h₁ : Alike folder d₁ d₂) (h₂ : Alike folder d₂ d₃) :
    Alike folder d₁ d₃ where
  faults := h₂.faults.trans h₁.faults
  hasPath p hp := (h₂.hasPath p hp).trans (h₁.hasPath p hp)
  file? p hp := (h₂.file? p hp).trans (h₁.file? p hp)

theorem Alike.symm (h : Alike folder d e) : Alike folder e d where
  faults := h.faults.symm
  hasPath p hp := (h.hasPath p hp).symm
  file? p hp := (h.file? p hp).symm

/-- The changes are in the folder. -/
def Within (folder : Path) (cs : List Change) : Prop := ∀ c ∈ cs, folder.holds c.path = true

theorem alike_change (d : MemoryDisk) {c : Change} (h : folder.holds c.path = true) :
    Alike folder d (d.change c) := by
  cases c with
  | folder q =>
    exact {
      faults := faults_addFolder d q
      hasPath := fun p hp => by
        change (d.addFolder q).hasPath p = d.hasPath p
        have hq : p.holds q = false := Path.holds_eq_false_of_apart hp h
        rw [hasPath_addFolder, hq, Bool.false_or]
      file? := fun p _ => file?_addFolder d q p }
  | file q t =>
    exact {
      faults := rfl
      hasPath := fun p hp => by
        change (d.put q t).hasPath p = d.hasPath p
        have hq : p.holds q = false := Path.holds_eq_false_of_apart hp h
        rw [hasPath_put, hq, Bool.false_or]
      file? := fun p hp => by
        change (d.put q t).file? p = d.file? p
        have hq : q.same p = false := Path.same_eq_false_of_apart hp h
        rw [file?_put, hq]
        rfl }

theorem alike_replay (d : MemoryDisk) (h : Within folder cs) : Alike folder d (d.replay cs) := by
  induction cs generalizing d with
  | nil => exact .refl folder d
  | cons c cs ih =>
    have hc := alike_change d (h c List.mem_cons_self)
    exact hc.trans (ih (d.change c) fun c hc => h c (List.mem_cons_of_mem _ hc))

section Programs

variable {α β ε ε' : Type}

/-- On all disks that are alike beside the folder, the program gives the same answer and makes the same
changes, all of them in the folder. -/
def Repeats (folder : Path) (x : StateM MemoryDisk α) (d : MemoryDisk) : Prop :=
  ∃ a cs, Within folder cs ∧ ∀ e, Alike folder d e → (x.run e).run = (a, e.replay cs)

theorem repeats_of_run {x : StateM MemoryDisk α} (a : α)
    (h : ∀ e, Alike folder d e → (x.run e).run = (a, e)) : Repeats folder x d :=
  ⟨a, [], by simp [Within], h⟩

theorem repeats_pure (a : α) : Repeats folder (pure a) d := repeats_of_run a fun _ _ => rfl

theorem repeats_bind {x : StateM MemoryDisk α} {f : α → StateM MemoryDisk β} (hx : Repeats folder x d)
    (hf : ∀ a d', (x.run d).run = (a, d') → Repeats folder (f a) d') : Repeats folder (x >>= f) d := by
  obtain ⟨a, cs, hcs, hx⟩ := hx
  obtain ⟨b, cs', hcs', hf⟩ := hf a _ (hx d (.refl folder d))
  refine ⟨b, cs ++ cs', fun c hc => (List.mem_append.1 hc).elim (hcs c) (hcs' c), ?_⟩
  intro e he
  have he' : Alike folder (d.replay cs) (e.replay cs) :=
    (alike_replay d hcs).symm.trans (he.trans (alike_replay e hcs))
  rw [StateT.run_bind, Id.run_bind, hx e he, replay_append]
  exact hf _ he'

theorem repeats_map {x : StateM MemoryDisk α} (f : α → β) (h : Repeats folder x d) :
    Repeats folder (f <$> x) d := by
  rw [map_eq_pure_bind]
  exact repeats_bind h fun a _ _ => repeats_pure (f a)

theorem repeats_run_bind {x : ExceptT ε (StateM MemoryDisk) α}
    {f : α → ExceptT ε (StateM MemoryDisk) β} (hx : Repeats folder x.run d)
    (hf : ∀ a d', Succeeds x d a d' → Repeats folder (f a).run d') :
    Repeats folder (x >>= f).run d := by
  rw [ExceptT.run_bind]
  apply repeats_bind hx
  intro r d' hr
  cases r with
  | ok a => exact hf a d' hr
  | error e => exact repeats_pure (Except.error e)

theorem repeats_run_throw (e : ε) :
    Repeats folder (throw e : ExceptT ε (StateM MemoryDisk) α).run d :=
  repeats_pure (Except.error e)

theorem repeats_run_guard (c : Prop) [Decidable c] (e : ε) {x : ExceptT ε (StateM MemoryDisk) α}
    (h : Repeats folder x.run d) :
    Repeats folder (if c then throw e >>= fun (_ : PUnit) => x else x).run d := by
  split
  · exact repeats_run_bind (repeats_run_throw e) fun _ _ hf => absurd hf not_succeeds_throw
  · exact h

theorem repeats_run_lift {x : StateM MemoryDisk α} (h : Repeats folder x d) :
    Repeats folder (liftM x : ExceptT ε (StateM MemoryDisk) α).run d := by
  rw [ExceptT.run_liftM]
  exact repeats_map Except.ok h

theorem repeats_run_adapt {x : ExceptT ε (StateM MemoryDisk) α} (f : ε → ε')
    (h : Repeats folder x.run d) : Repeats folder (x.adapt f).run d := by
  rw [ExceptT.run_adapt]
  exact repeats_map (Except.mapError f) h

/-- A second run ends like the first one, and changes nothing. -/
theorem ends_again {x : ExceptT ε (StateM MemoryDisk) α} {r : Except ε α} {d' : MemoryDisk}
    (hx : Repeats folder x.run d) (h : Ends x d r d') : Ends x d' r d' := by
  obtain ⟨a, cs, hcs, hx⟩ := hx
  obtain ⟨rfl, rfl⟩ := Prod.mk.inj ((hx d (.refl folder d)).symm.trans h)
  rw [Ends, hx _ (alike_replay d hcs), replay_replay]

end Programs

section Operations

theorem repeats_exists? (hp : p.apart folder = true) :
    Repeats folder (Disk.exists? (m := StateM MemoryDisk) p) d :=
  repeats_of_run (d.hasPath p) fun e he => congrArg (·, e) (he.hasPath p hp)

/-- An operation, unless a fault stops it. -/
theorem repeats_guarded {α : Type} {o : Operation} {x : StateM MemoryDisk (Except DiskFailure α)}
    {r : Except DiskFailure α} (hcs : Within folder cs)
    (hx : ∀ e, Alike folder d e → (x.run e).run = e.guarded o p (r, e.replay cs)) :
    Repeats folder x d := by
  cases hf : d.fault? o p with
  | some c =>
    apply repeats_of_run (.error ⟨p, c⟩)
    intro e he
    rw [hx e he, guarded, fault?_congr he.faults, hf]
  | none =>
    refine ⟨r, cs, hcs, ?_⟩
    intro e he
    rw [hx e he, guarded, fault?_congr he.faults, hf]

theorem within_nil (folder : Path) : Within folder [] := List.forall_mem_nil _

theorem within_singleton {c : Change} (h : folder.holds c.path = true) : Within folder [c] :=
  List.forall_mem_singleton.2 h

theorem repeats_readText (hp : p.apart folder = true) :
    Repeats folder (Disk.readText (m := StateM MemoryDisk) p).run d := by
  cases ht : d.file? p with
  | some t =>
    apply repeats_guarded (o := .read) (p := p) (r := .ok t) (within_nil folder)
    intro e he
    change e.guarded .read p _ = _
    rw [he.file? p hp, ht]
    rfl
  | none =>
    apply repeats_guarded (o := .read) (p := p)
      (r := .error ⟨p, if d.hasPath p then isADirectory else .notFound⟩) (within_nil folder)
    intro e he
    change e.guarded .read p _ = _
    rw [he.file? p hp, ht, he.hasPath p hp]
    rfl

theorem repeats_makeFolders (hp : folder.holds p = true) :
    Repeats folder (Disk.makeFolders (m := StateM MemoryDisk) p).run d :=
  repeats_guarded (within_singleton (c := .folder p) hp) fun _ _ => rfl

theorem repeats_writeText (hp : folder.holds p = true) (t : Text) :
    Repeats folder (Disk.writeText (m := StateM MemoryDisk) p t).run d :=
  repeats_guarded (within_singleton (c := .file p t) hp) fun _ _ => rfl

theorem repeats_copyFile {source : Path} (hs : source.apart folder = true)
    (hp : folder.holds p = true) :
    Repeats folder (Disk.copyFile (m := StateM MemoryDisk) source p).run d := by
  cases ht : d.file? source with
  | some t =>
    apply repeats_guarded (o := .copy) (p := p) (r := .ok ())
      (within_singleton (c := .file p t) hp)
    intro e he
    change e.guarded .copy p _ = _
    rw [he.file? source hs, ht]
    rfl
  | none =>
    apply repeats_guarded (o := .copy) (p := p) (r := .error ⟨p, notAFile⟩) (within_nil folder)
    intro e he
    change e.guarded .copy p _ = _
    rw [he.file? source hs, ht]
    rfl

end Operations
end MemoryDisk
end SiteProject
