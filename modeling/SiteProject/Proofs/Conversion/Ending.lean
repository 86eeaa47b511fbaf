import SiteProject.Proofs.Conversion.Parallel
import SiteProject.Proofs.Conversion.Run
import SiteProject.Proofs.Disk.Frame

namespace SiteProject

open MemoryDisk (Framed)

namespace Reference

variable {d d' : MemoryDisk} {allowed : Act → Prop}

/-- The binaries are placed, unless the folder of the copies cannot be made. -/
theorem ends_placeAll {mode : Placement} {folder : Path} {siteFolder : Text}
    {rs : List (Solution.Reference × Path)} {r : Except DiskFailure (List Placed)}
    (hf : mode = .copy → allowed (.made (copiesFolder folder)))
    (hr : mode = .copy → ∀ r ∈ rs, allowed (.copied ((copiesFolder folder).joinText r.1.dll)))
    (h : Ends (placeAll mode folder siteFolder rs) d r d') :
    (mode = .copy ∧ ∃ c, d.fault? .makeFolders (copiesFolder folder) = some c ∧
        r = .error ⟨copiesFolder folder, c⟩ ∧ d' = d) ∨
      ((mode = .copy → d.fault? .makeFolders (copiesFolder folder) = none) ∧
        (∃ ps, r = .ok ps) ∧ Framed allowed d d') := by
  have hframed : Framed allowed d d' := by
    have hp := parallel_placeAll (MemoryDisk.agree_framed allowed d) siteFolder hf hr
    exact MemoryDisk.invariant_of_ends h hp (Framed.refl allowed d)
  cases mode with
  | link =>
    obtain ⟨ps, -, rfl⟩ := ends_lift.1 h
    exact .inr ⟨by simp, ⟨ps, rfl⟩, hframed⟩
  | copy =>
    rw [placeAll, ends_bind] at h
    rcases h with ⟨e, hm, rfl⟩ | ⟨u, d₁, hm, h⟩
    · rcases MemoryDisk.ends_makeFolders.1 hm with ⟨c, hc, he, rfl⟩ | ⟨-, he, -⟩
      · obtain rfl := Except.error.inj he
        exact .inl ⟨rfl, c, hc, rfl, rfl⟩
      · simp at he
    · rcases MemoryDisk.ends_makeFolders.1 hm with ⟨c, -, he, -⟩ | ⟨hc, -, -⟩
      · simp at he
      · obtain ⟨ps, -, rfl⟩ := ends_lift.1 h
        exact .inr ⟨fun _ => hc, ⟨ps, rfl⟩, hframed⟩

end Reference

namespace Conversion

variable {i : Inspection} {o : Options} {site : Solution.Site} {d d' : MemoryDisk}
  {r : Except Failure Report}

theorem ends_onDisk_bind {α β : Type} {x : ExceptT DiskFailure (StateM MemoryDisk) α}
    {f : α → ExceptT Failure (StateM MemoryDisk) β} {q : Except Failure β} :
    Ends (onDisk x >>= f) d q d' ↔ (∃ e, Ends x d (.error e) d' ∧ q = .error (.disk e)) ∨
      ∃ a d₁, Ends x d (.ok a) d₁ ∧ Ends (f a) d₁ q d' := by
  rw [ends_bind]
  simp only [onDisk, ends_adapt]
  constructor
  · rintro (⟨e, ⟨r, hx, he⟩, rfl⟩ | ⟨a, d₁, ⟨r, hx, ha⟩, hf⟩)
    · cases r with
      | error e' =>
        obtain rfl := Except.error.inj he
        exact .inl ⟨e', hx, rfl⟩
      | ok a => cases he
    · cases r with
      | error e' => cases ha
      | ok b =>
        obtain rfl := Except.ok.inj ha
        exact .inr ⟨a, d₁, hx, hf⟩
  · rintro (⟨e, hx, rfl⟩ | ⟨a, d₁, hx, hf⟩)
    · exact .inl ⟨.disk e, ⟨.error e, hx, rfl⟩, rfl⟩
    · exact .inr ⟨a, d₁, ⟨.ok a, hx, rfl⟩, hf⟩

/-- An operation that only a fault stops, and what follows. -/
theorem ends_guarded_bind {α β : Type} {x : ExceptT DiskFailure (StateM MemoryDisk) α}
    {f : α → ExceptT Failure (StateM MemoryDisk) β} {q : Except Failure β} {op : Operation} {p : Path}
    {a : α} {d₁ : MemoryDisk} (hx : (x.run.run d).run = d.guarded op p (.ok a, d₁)) :
    Ends (onDisk x >>= f) d q d' ↔
      (∃ c, d.fault? op p = some c ∧ q = .error (.disk ⟨p, c⟩) ∧ d' = d) ∨
        (d.fault? op p = none ∧ Ends (f a) d₁ q d') := by
  rw [ends_onDisk_bind]
  simp only [MemoryDisk.ends_guarded hx]
  constructor
  · rintro (⟨e, ⟨c, hc, he, rfl⟩ | ⟨-, he, -⟩, rfl⟩ | ⟨b, d₂, ⟨c, -, he, -⟩ | ⟨hc, hb, rfl⟩, hf⟩)
    · obtain rfl := Except.error.inj he
      exact .inl ⟨c, hc, rfl, rfl⟩
    · simp at he
    · simp at he
    · obtain rfl := Except.ok.inj hb
      exact .inr ⟨hc, hf⟩
  · rintro (⟨c, hc, rfl, rfl⟩ | ⟨hc, hf⟩)
    · exact .inl ⟨_, .inl ⟨c, hc, rfl, rfl⟩, rfl⟩
    · exact .inr ⟨a, d₁, .inr ⟨hc, rfl, rfl⟩, hf⟩

/-- The binaries of a site are found, and they are placed once the folder of its project is made. -/
def Inspection.Places (i : Inspection) (o : Options) (site : Solution.Site) (d : MemoryDisk)
    (placed : List Reference.Placed) (d₁ : MemoryDisk) : Prop :=
  ∃ resolutions, ((Reference.resolveAll (m := StateM MemoryDisk) i.folder
      (Reference.siteFolder i.folder site) i.libraries site.references).run d).run = (resolutions, d) ∧
    Succeeds (Reference.placeAll o.placement (i.target o site)
      (Declared.relative (i.target o site) (Reference.siteFolder i.folder site))
      (site.references.zip (resolutions.map (·.resolved)))) (d.addFolder (i.target o site)) placed d₁

/-- The disk is ready for the files of the project. -/
structure Prepared (i : Inspection) (o : Options) (site : Solution.Site) (d : MemoryDisk)
    (placed : List Reference.Placed) (d₁ : MemoryDisk) : Prop where
  folder : d.fault? .makeFolders (i.target o site) = none
  copies : o.placement = .copy → d.fault? .makeFolders (i.copies o site) = none
  placed : i.Places o site d placed d₁
  framed : Framed (Prepares i o site) d d₁

/-- The text of the descriptor, with the hints of what was placed. -/
def Inspection.descriptorText (i : Inspection) (o : Options) (site : Solution.Site)
    (placed : List Reference.Placed) : Text :=
  Descriptor.text site (Declared.relative (i.target o site) (Reference.siteFolder i.folder site))
    (Reference.Hints.ofPlaced placed)

/-- The text of the copy of the solution. -/
def Inspection.rerootedText (i : Inspection) (o : Options) (site : Solution.Site) : Text :=
  let move : Solution.Move :=
    { source := i.folder, target := i.target o site, siteGuid := site.guid
      descriptor := i.descriptor o site }
  move.text i.content

/-- How the conversion of a site ends. -/
inductive Ending (i : Inspection) (o : Options) (site : Solution.Site) (d : MemoryDisk) :
    Except Failure Report → MemoryDisk → Prop
  | folderRefused {c : Cause} (hc : d.fault? .makeFolders (i.target o site) = some c) :
      Ending i o site d (.error (.disk ⟨i.target o site, c⟩)) d
  | copiesRefused {c : Cause} (hm : o.placement = .copy)
      (hf : d.fault? .makeFolders (i.target o site) = none)
      (hc : d.fault? .makeFolders (i.copies o site) = some c) :
      Ending i o site d (.error (.disk ⟨i.copies o site, c⟩)) (d.addFolder (i.target o site))
  | descriptorRefused {c : Cause} {placed : List Reference.Placed} {d₁ : MemoryDisk}
      (hp : Prepared i o site d placed d₁)
      (hc : d.fault? .write (i.descriptor o site) = some c) :
      Ending i o site d (.error (.disk ⟨i.descriptor o site, c⟩)) d₁
  | rerootedRefused {c : Cause} {placed : List Reference.Placed} {d₁ : MemoryDisk}
      (hp : Prepared i o site d placed d₁) (hd : d.fault? .write (i.descriptor o site) = none)
      (hc : d.fault? .write (i.rerooted o site) = some c) :
      Ending i o site d (.error (.disk ⟨i.rerooted o site, c⟩))
        (d₁.put (i.descriptor o site) (i.descriptorText o site placed))
  | finished {report : Report} {placed : List Reference.Placed} {d₁ : MemoryDisk}
      (hp : Prepared i o site d placed d₁) (hd : d.fault? .write (i.descriptor o site) = none)
      (hr : d.fault? .write (i.rerooted o site) = none) :
      Ending i o site d (.ok report)
        ((d₁.put (i.descriptor o site) (i.descriptorText o site placed)).put (i.rerooted o site)
          (i.rerootedText o site))

theorem ends_place {siteFolder : Text} {resolved : List Path}
    {q : Except DiskFailure (List Reference.Placed)}
    (h : Ends (Reference.placeAll o.placement (i.target o site) siteFolder
      (site.references.zip resolved)) d q d') :
    (o.placement = .copy ∧ ∃ c, d.fault? .makeFolders (i.copies o site) = some c ∧
        q = .error ⟨i.copies o site, c⟩ ∧ d' = d) ∨
      ((o.placement = .copy → d.fault? .makeFolders (i.copies o site) = none) ∧ (∃ ps, q = .ok ps) ∧
        Framed (Prepares i o site) d d') :=
  Reference.ends_placeAll (fun hm => .copies hm) (fun hm _ hr => .copy hm (List.of_mem_zip hr).1) h

theorem run_resolveAll_eq (folder siteFolder : Path) (ls : List Solution.Library)
    (rs : List Solution.Reference) (d : MemoryDisk) :
    ((Reference.resolveAll (m := StateM MemoryDisk) folder siteFolder ls rs).run d).run.2 = d :=
  MemoryDisk.invariant_of_parallel
    (Reference.parallel_resolveAll (MemoryDisk.agree_unchanged d) folder siteFolder ls rs) rfl

theorem ending_of_convertSite {index : Nat} (h : Ends (convertSite i o index site) d r d') :
    Ending i o site d r d' := by
  unfold convertSite at h
  dsimp only at h
  -- the binaries are found, which changes nothing and does not fail
  rw [ends_bind] at h
  rcases h with ⟨e, hr, -⟩ | ⟨resolutions, d₀, hr, h⟩
  · obtain ⟨_, -, he⟩ := ends_lift.1 hr
    simp at he
  obtain ⟨_, hr, he⟩ := ends_lift.1 hr
  obtain rfl := Except.ok.inj he
  obtain rfl : d₀ = d := by
    have hd := run_resolveAll_eq i.folder (Reference.siteFolder i.folder site) i.libraries
      site.references d
    rwa [hr] at hd
  -- the folder of the project, then what is placed there
  rw [ends_guarded_bind rfl] at h
  rcases h with ⟨c, hc, rfl, rfl⟩ | ⟨hfolder, h⟩
  · exact .folderRefused hc
  rw [ends_onDisk_bind] at h
  have hfault := MemoryDisk.fault?_congr (MemoryDisk.faults_addFolder d₀ (i.target o site))
  rcases h with ⟨e, hp, rfl⟩ | ⟨placed, d₁, hp, h⟩
  · rcases ends_place hp with ⟨hm, c, hc, he, rfl⟩ | ⟨-, ⟨_, he⟩, -⟩
    · obtain rfl := Except.error.inj he
      exact .copiesRefused hm hfolder (hfault _ _ ▸ hc)
    · simp at he
  have hprepared : Prepared i o site d₀ placed d₁ := by
    rcases ends_place hp with ⟨-, c, -, he, -⟩ | ⟨hcopies, -, hframed⟩
    · simp at he
    · exact {
        folder := hfolder
        copies := fun hm => hfault _ _ ▸ hcopies hm
        placed := ⟨resolutions, hr, hp⟩
        framed := (MemoryDisk.framed_addFolder .folder d₀).trans hframed }
  -- the two files, on a disk with the faults that it had at first
  have hfault := MemoryDisk.fault?_congr hprepared.framed.faults
  rw [ends_guarded_bind rfl] at h
  rcases h with ⟨c, hc, rfl, rfl⟩ | ⟨hd, h⟩
  · exact .descriptorRefused hprepared (hfault _ _ ▸ hc)
  rw [ends_guarded_bind rfl] at h
  rcases h with ⟨c, hc, rfl, rfl⟩ | ⟨hr, h⟩
  · exact .rerootedRefused hprepared (hfault _ _ ▸ hd) (hfault _ _ ▸ hc)
  obtain ⟨rfl, rfl⟩ := ends_pure.1 h
  exact .finished hprepared (hfault _ _ ▸ hd) (hfault _ _ ▸ hr)

/-- There is no site to convert, or the picked one is converted. -/
theorem ending_of_convert (h : Ends (convert i o) d r d') :
    (i.picked? o = none ∧ r = .error (.noSites i.solution) ∧ d' = d) ∨
      ∃ site, i.picked? o = some site ∧ Ending i o site d r d' := by
  unfold convert at h
  dsimp only at h
  split at h
  · next hs => exact .inl ⟨hs, ends_throw.1 h⟩
  · next site hs => exact .inr ⟨site, hs, ending_of_convertSite h⟩

theorem unchanged_of_inspect {w solution : Path} {r : Except Failure Inspection}
    (h : Ends (inspect w solution) d r d') : d' = d := by
  have hp := parallel_inspect (MemoryDisk.agree_unchanged d) w solution
  exact MemoryDisk.invariant_of_ends (I := (· = d)) h hp rfl

/-- A solution is not read, and nothing is changed, or the conversion of what was read ends so. -/
theorem ends_execute {w : Path} (h : Ends (execute w o) d r d') :
    d' = d ∨ ∃ content, d.file? (absolute w o.solution) = some content ∧
      Ends (convert (inspected (absolute w o.solution) content) o) d r d' := by
  rw [execute, ends_bind] at h
  rcases h with ⟨e, hi, -⟩ | ⟨i, d₁, hi, h⟩
  · exact .inl (unchanged_of_inspect hi)
  · obtain ⟨content, hf, rfl, rfl⟩ := inspected_of_inspect hi
    exact .inr ⟨content, hf, h⟩

end Conversion
end SiteProject
