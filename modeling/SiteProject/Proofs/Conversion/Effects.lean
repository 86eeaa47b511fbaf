import SiteProject.Proofs.Conversion.Ending
import SiteProject.Proofs.Conversion.Hints
import SiteProject.Proofs.Conversion.Picked

namespace SiteProject.Conversion

open MemoryDisk (Framed)
open SiteProject.Part (IsName)

variable {i : Inspection} {o : Options} {site : Solution.Site} {d d₁ d' : MemoryDisk} {e : Failure}
  {r : Except Failure Report} {placed : List Reference.Placed}

/-- No binary is copied over the files of the project. -/
def Inspection.CopiesApart (i : Inspection) (o : Options) (site : Solution.Site) : Prop :=
  o.placement = .copy → ∀ x ∈ site.references,
    (i.copyOf o site x).same (i.descriptor o site) = false ∧
      (i.copyOf o site x).same (i.rerooted o site) = false

/-- A binary with a plain name is one folder further down. -/
theorem copiesApart_of_isName (h : ∀ x ∈ site.references, IsName x.dll) : i.CopiesApart o site := by
  intro _ x hx
  have hcopy : (i.copyOf o site x).parts.length = (i.target o site).parts.length + 2 := by
    rw [parts_copyOf i o site (h x hx)]
    simp
  have hfile : ∀ {p : Path} {n : Text}, p.parts = (i.target o site).parts ++ [.name n] →
      (i.copyOf o site x).same p = false := by
    intro p n hp
    rw [Path.same, beq_eq_false_iff_ne]
    intro he
    have hl := congrArg List.length he
    rw [hcopy, hp, List.length_append, List.length_singleton] at hl
    omega
  exact ⟨hfile (parts_descriptorPath _ _), hfile (parts_rerootedPath _ _)⟩

theorem same_rerooted_descriptor (i : Inspection) (o : Options) (site : Solution.Site) :
    (i.rerooted o site).same (i.descriptor o site) = false :=
  same_descriptorPath _ _

theorem same_descriptor_rerooted (i : Inspection) (o : Options) (site : Solution.Site) :
    (i.descriptor o site).same (i.rerooted o site) = false := by
  rw [Path.same, BEq.comm]
  exact same_rerooted_descriptor i o site

theorem Prepared.file?_eq (hp : Prepared i o site d placed d₁) (hs : i.CopiesApart o site) :
    d₁.file? (i.descriptor o site) = d.file? (i.descriptor o site) ∧
      d₁.file? (i.rerooted o site) = d.file? (i.rerooted o site) := by
  have hfile : ∀ p, (o.placement = .copy → ∀ x ∈ site.references, (i.copyOf o site x).same p = false) →
      d₁.file? p = d.file? p := by
    intro p hx
    rcases hp.framed.file? p with h | ⟨q, h | h, hq⟩
    · exact h
    · cases h
    · cases h with
      | copy hm hr => exact absurd (hx hm _ hr) (by simp [hq])
  exact ⟨hfile _ fun hm x hx => (hs hm x hx).1, hfile _ fun hm x hx => (hs hm x hx).2⟩

namespace Ending

theorem framed (h : Ending i o site d r d') : Framed (Asked i o site) d d' := by
  have hput : ∀ {p : Path} {t : Text} {d₁ : MemoryDisk}, Asked i o site (.written p) →
      Framed (Asked i o site) d d₁ → Framed (Asked i o site) d (d₁.put p t) :=
    fun hp hd => hd.trans (MemoryDisk.framed_put (.inl hp) _ _)
  have hprepared : ∀ {placed d₁}, Prepared i o site d placed d₁ → Framed (Asked i o site) d d₁ :=
    fun hp => hp.framed.mono fun _ => .prepares
  cases h with
  | folderRefused hc => exact Framed.refl _ d
  | copiesRefused hm hf hc => exact MemoryDisk.framed_addFolder (.prepares .folder) d
  | descriptorRefused hp hc => exact hprepared hp
  | rerootedRefused hp hd hc => exact hput .descriptor (hprepared hp)
  | finished hp hd hr => exact hput .rerooted (hput .descriptor (hprepared hp))

/-- A conversion that fails does not get to the copy of the solution. -/
theorem file?_rerooted (h : Ending i o site d (.error e) d') (hs : i.CopiesApart o site) :
    d'.file? (i.rerooted o site) = d.file? (i.rerooted o site) := by
  cases h with
  | folderRefused hc => rfl
  | copiesRefused hm hf hc => exact MemoryDisk.file?_addFolder d _ _
  | descriptorRefused hp hc => exact (hp.file?_eq hs).2
  | rerootedRefused hp hd hc =>
    rw [MemoryDisk.file?_put, same_descriptor_rerooted]
    exact (hp.file?_eq hs).2

/-- A conversion that fails leaves the descriptor, or it is new, with the hints of what was placed, and the
copy of the solution could not be written. -/
theorem file?_descriptor (h : Ending i o site d (.error e) d') (hs : i.CopiesApart o site) :
    d'.file? (i.descriptor o site) = d.file? (i.descriptor o site) ∨
      ∃ c placed d₁, d.fault? .write (i.rerooted o site) = some c ∧
        e = .disk ⟨i.rerooted o site, c⟩ ∧ i.Places o site d placed d₁ ∧
        d'.file? (i.descriptor o site) = some (i.descriptorText o site placed) := by
  cases h with
  | folderRefused hc => exact .inl rfl
  | copiesRefused hm hf hc => exact .inl (MemoryDisk.file?_addFolder d _ _)
  | descriptorRefused hp hc => exact .inl (hp.file?_eq hs).1
  | @rerootedRefused c placed d₁ hp hd hc =>
    refine .inr ⟨c, placed, d₁, hc, rfl, hp.placed, ?_⟩
    rw [MemoryDisk.file?_put, if_pos (by simp [Path.same])]

/-- Without its folders, a conversion leaves the files. -/
theorem file?_of_refused (h : Ending i o site d r d')
    (hf : d.fault? .makeFolders (i.target o site) ≠ none ∨
      o.placement = .copy ∧ d.fault? .makeFolders (i.copies o site) ≠ none) (p : Path) :
    d'.file? p = d.file? p := by
  have hprepared : ∀ {placed d₁}, ¬ Prepared i o site d placed d₁ := by
    rintro placed d₁ ⟨hfolder, hcopies, -⟩
    rcases hf with hf | ⟨hm, hf⟩
    · exact hf hfolder
    · exact hf (hcopies hm)
  cases h with
  | folderRefused hc => rfl
  | copiesRefused hm hf hc => exact MemoryDisk.file?_addFolder d _ p
  | descriptorRefused hp hc => exact absurd hp hprepared
  | rerootedRefused hp hd hc => exact absurd hp hprepared
  | finished hp hd hr => exact absurd hp hprepared

/-- Four operations can end a conversion, and no copy is among them. -/
theorem isOk_iff (h : Ending i o site d r d') :
    (∃ report, r = .ok report) ↔ d.fault? .makeFolders (i.target o site) = none ∧
      (o.placement = .copy → d.fault? .makeFolders (i.copies o site) = none) ∧
      d.fault? .write (i.descriptor o site) = none ∧ d.fault? .write (i.rerooted o site) = none := by
  cases h with
  | folderRefused hc => simp [hc]
  | copiesRefused hm hf hc => simp [hm, hc]
  | descriptorRefused hp hc => simp [hc]
  | rerootedRefused hp hd hc => simp [hc]
  | finished hp hd hr => simpa [hp.folder, hd, hr] using hp.copies

end Ending

/-- What the conversion of a site does to a disk, and what that says of its answer. -/
structure Effects (i : Inspection) (o : Options) (site : Solution.Site) (d : MemoryDisk)
    (r : Except Failure Report) (d' : MemoryDisk) : Prop where
  files (p : Path) : d'.file? p ≠ d.file? p →
    (o.placement = .copy ∧ ∃ x ∈ site.references, (i.copyOf o site x).same p = true) ∨
      (i.descriptor o site).same p = true ∨ (i.rerooted o site).same p = true
  folders (p : Path) : d'.hasFolder p ≠ d.hasFolder p →
    (i.target o site).same p = true ∨ (o.placement = .copy ∧ (i.copies o site).same p = true)
  rerooted : d'.file? (i.rerooted o site) ≠ d.file? (i.rerooted o site) → ∃ report, r = .ok report
  descriptor : d'.file? (i.descriptor o site) ≠ d.file? (i.descriptor o site) →
    (∃ report, r = .ok report) ∨ ∃ c, d.fault? .write (i.rerooted o site) = some c ∧
      r = .error (.disk ⟨i.rerooted o site, c⟩)
  refused : (d.fault? .makeFolders (i.target o site) ≠ none ∨
    o.placement = .copy ∧ d.fault? .makeFolders (i.copies o site) ≠ none) →
      ∀ p, d'.file? p = d.file? p
  isOk : (∃ report, r = .ok report) ↔ d.fault? .makeFolders (i.target o site) = none ∧
    (o.placement = .copy → d.fault? .makeFolders (i.copies o site) = none) ∧
    d.fault? .write (i.descriptor o site) = none ∧ d.fault? .write (i.rerooted o site) = none

theorem Ending.effects (h : Ending i o site d r d') (hs : i.CopiesApart o site) :
    Effects i o site d r d' where
  files p hne := by
    rcases h.framed.file? p with hp | ⟨q, hq | hq, hsame⟩
    · exact absurd hp hne
    · cases hq with
      | prepares hq => cases hq
      | descriptor => exact .inr (.inl hsame)
      | rerooted => exact .inr (.inr hsame)
    · cases hq with
      | prepares hq =>
        cases hq with
        | copy hm hr => exact .inl ⟨hm, _, hr, hsame⟩
  folders p hne := by
    rcases h.framed.hasFolder p with hp | ⟨q, hq, hsame⟩
    · exact absurd hp hne
    · cases hq with
      | prepares hq =>
        cases hq with
        | folder => exact .inl hsame
        | copies hm => exact .inr ⟨hm, hsame⟩
  rerooted hne := by
    cases r with
    | ok report => exact ⟨report, rfl⟩
    | error e => exact absurd (h.file?_rerooted hs) hne
  descriptor hne := by
    cases r with
    | ok report => exact .inl ⟨report, rfl⟩
    | error e =>
      rcases h.file?_descriptor hs with hd | ⟨c, -, -, hc, rfl, -⟩
      · exact absurd hd hne
      · exact .inr ⟨c, hc, rfl⟩
  refused := h.file?_of_refused
  isOk := h.isOk_iff

theorem exists_picked (o : Options) (h : i.sites ≠ []) : ∃ site, i.picked? o = some site := by
  have hlength : 0 < i.sites.length := List.length_pos_iff.2 h
  have hlt : pickIndex o.pick i.sites.length < i.sites.length := by
    unfold pickIndex
    omega
  exact ⟨_, List.getElem?_eq_getElem hlt⟩

/-- Reading a solution changes nothing, and neither does a conversion without sites. The conversion of a
site whose binaries have plain names changes what it places and its two files, in this order. -/
theorem effects_of_run (w solution : Path) (i : Inspection) (o : Options) (d : MemoryDisk) :
    (∃ r, Ends (inspect w solution) d r d) ∧
      (i.sites = [] → Ends (convert i o) d (.error (.noSites i.solution)) d) ∧
      (i.sites ≠ [] → ∃ site, i.picked? o = some site ∧
        ((∀ x ∈ site.references, IsName x.dll) →
          ∃ r d', Ends (convert i o) d r d' ∧ Effects i o site d r d')) := by
  refine ⟨?_, ?_, ?_⟩
  · obtain ⟨r, d', h⟩ := exists_ends (inspect w solution) d
    obtain rfl := unchanged_of_inspect h
    exact ⟨r, h⟩
  · intro hnil
    obtain ⟨r, d', h⟩ := exists_ends (convert i o) d
    rcases ending_of_convert h with ⟨-, rfl, rfl⟩ | ⟨site, hs, -⟩
    · exact h
    · simp [Inspection.picked?, hnil] at hs
  · intro hne
    obtain ⟨site, hs⟩ := exists_picked o hne
    refine ⟨site, hs, ?_⟩
    intro hplain
    obtain ⟨r, d', h⟩ := exists_ends (convert i o) d
    rcases ending_of_convert h with ⟨hnone, -⟩ | ⟨site', hs', hending⟩
    · simp [hs] at hnone
    · obtain rfl := Option.some.inj (hs.symm.trans hs')
      exact ⟨r, d', h, hending.effects (copiesApart_of_isName hplain)⟩

/-- One of the two binaries cannot be copied. -/
def diskRefusingCopy : MemoryDisk :=
  { diskWithBinary with
    faults := [⟨.copy, ⟨"/work/tools/_intellisense/Shop/refs/Data.dll".toList⟩, .denied⟩] }

def copyMode : Options where
  solution := siteWithBinaries.solution

/-- The conversion is done without the copy. -/
theorem refused_copy_has_effects :
    ∃ site report d', siteWithBinaries.picked? copyMode = some site ∧
      Ends (convert siteWithBinaries copyMode) diskRefusingCopy (.ok report) d' ∧
      Effects siteWithBinaries copyMode site diskRefusingCopy (.ok report) d' := by
  have hplain : ∀ site ∈ siteWithBinaries.sites, ∀ x ∈ site.references, IsName x.dll := by decide
  have hfaults : ∀ site ∈ siteWithBinaries.sites,
      diskRefusingCopy.fault? .makeFolders (siteWithBinaries.target copyMode site) = none ∧
        (copyMode.placement = .copy →
          diskRefusingCopy.fault? .makeFolders (siteWithBinaries.copies copyMode site) = none) ∧
        diskRefusingCopy.fault? .write (siteWithBinaries.descriptor copyMode site) = none ∧
        diskRefusingCopy.fault? .write (siteWithBinaries.rerooted copyMode site) = none := by
    decide +kernel
  obtain ⟨-, -, hrun⟩ :=
    effects_of_run ⟨"/".toList⟩ siteWithBinaries.solution siteWithBinaries copyMode diskRefusingCopy
  obtain ⟨site, hs, hrun⟩ := hrun (by decide)
  have hmem : site ∈ siteWithBinaries.sites := List.mem_of_getElem? hs
  obtain ⟨r, d', h, he⟩ := hrun (hplain site hmem)
  obtain ⟨report, rfl⟩ := he.isOk.2 (hfaults site hmem)
  exact ⟨site, report, d', hs, h, he⟩

/-- What a failed conversion leaves: the copy of the solution as it was, and the descriptor too unless only
the copy of the solution is missing. Then the descriptor is complete, with the hints of what was placed. -/
structure Spared (i : Inspection) (o : Options) (d : MemoryDisk) (e : Failure) (d' : MemoryDisk) :
    Prop where
  nothing : i.picked? o = none → d' = d
  rerooted (site : Solution.Site) : i.picked? o = some site → i.CopiesApart o site →
    d'.file? (i.rerooted o site) = d.file? (i.rerooted o site)
  descriptor (site : Solution.Site) : i.picked? o = some site → i.CopiesApart o site →
    d'.file? (i.descriptor o site) = d.file? (i.descriptor o site) ∨
      ∃ c placed d₁, d.fault? .write (i.rerooted o site) = some c ∧
        e = .disk ⟨i.rerooted o site, c⟩ ∧ i.Places o site d placed d₁ ∧
        d'.file? (i.descriptor o site) = some (i.descriptorText o site placed)

theorem spared_of_convert (h : Ends (convert i o) d (.error e) d') : Spared i o d e d' := by
  rcases ending_of_convert h with ⟨hnone, -, hd⟩ | ⟨site, hs, hending⟩
  · exact {
      nothing := fun _ => hd
      rerooted := fun site hs => by simp [hnone] at hs
      descriptor := fun site hs => by simp [hnone] at hs }
  · have heq : ∀ site', i.picked? o = some site' → site' = site :=
      fun site' hs' => Option.some.inj (hs'.symm.trans hs)
    exact {
      nothing := fun hnone => by simp [hs] at hnone
      rerooted := fun site' hs' hx => by
        obtain rfl := heq site' hs'
        exact hending.file?_rerooted hx
      descriptor := fun site' hs' hx => by
        obtain rfl := heq site' hs'
        exact hending.file?_descriptor hx }

/-- A conversion that fails spares the files of the project, and so does a run that fails. -/
theorem spared_of_failed (w : Path) (i : Inspection) (o : Options) (d d' : MemoryDisk) (e : Failure) :
    (Ends (convert i o) d (.error e) d' → Spared i o d e d') ∧
      (Ends (execute w o) d (.error e) d' → d' = d ∨
        ∃ content, d.file? (absolute w o.solution) = some content ∧
          Spared (inspected (absolute w o.solution) content) o d e d') := by
  constructor
  · exact spared_of_convert
  · intro h
    rcases ends_execute h with hd | ⟨content, hf, hc⟩
    · exact .inl hd
    · exact .inr ⟨content, hf, spared_of_convert hc⟩

/-- The copy of the solution cannot be written. -/
def diskRefusingSolution : MemoryDisk :=
  { diskOf (twoSites "B2".toList) with
    faults := [⟨.write, ⟨"/work/tools/_intellisense/B/fake_B.sln".toList⟩, .denied⟩] }

theorem exists_failed_run :
    ∃ e d', Ends (execute ⟨"/".toList⟩ secondSite) diskRefusingSolution (.error e) d' ∧
      diskRefusingSolution.file?
        ⟨"/work/tools/_intellisense/B/B.intellisense.csproj".toList⟩ = none ∧
      d'.hasFile ⟨"/work/tools/_intellisense/B/B.intellisense.csproj".toList⟩ = true := by
  have hrun : failsWith (execute ⟨"/".toList⟩ secondSite) diskRefusingSolution (fun _ d' =>
      diskRefusingSolution.file?
        ⟨"/work/tools/_intellisense/B/B.intellisense.csproj".toList⟩ = none ∧
      d'.hasFile ⟨"/work/tools/_intellisense/B/B.intellisense.csproj".toList⟩ = true) = true := by
    decide +kernel
  obtain ⟨e, d', h, hc⟩ := exists_fails hrun
  exact ⟨e, d', h, of_decide_eq_true hc⟩

def readTwoSites : Inspection :=
  inspected (absolute ⟨"/".toList⟩ secondSite.solution) (twoSites "B2".toList)

/-- The run fails, and so does the conversion of what it reads. -/
theorem refused_solution_is_spared :
    ∃ site e d', readTwoSites.picked? secondSite = some site ∧
      readTwoSites.CopiesApart secondSite site ∧
      Ends (convert readTwoSites secondSite) diskRefusingSolution (.error e) d' ∧
      Ends (execute ⟨"/".toList⟩ secondSite) diskRefusingSolution (.error e) d' ∧
      Spared readTwoSites secondSite diskRefusingSolution e d' ∧
      (d' = diskRefusingSolution ∨
        ∃ content, diskRefusingSolution.file? (absolute ⟨"/".toList⟩ secondSite.solution) = some content ∧
          Spared (inspected (absolute ⟨"/".toList⟩ secondSite.solution) content) secondSite
            diskRefusingSolution e d') := by
  obtain ⟨e, d', h, hnone, hfile⟩ := exists_failed_run
  have hne : d' ≠ diskRefusingSolution := by
    rintro rfl
    rw [MemoryDisk.hasFile, hnone] at hfile
    simp at hfile
  obtain ⟨content, hf, hc⟩ := (ends_execute h).resolve_left hne
  have hread : diskRefusingSolution.file? (absolute ⟨"/".toList⟩ secondSite.solution) =
      some (twoSites "B2".toList) := by decide +kernel
  obtain rfl := Option.some.inj (hf.symm.trans hread)
  have hsites : readTwoSites.sites ≠ [] ∧ ∀ site ∈ readTwoSites.sites, site.references = [] := by
    decide +kernel
  obtain ⟨site, hs⟩ := exists_picked secondSite hsites.1
  have hplain : site.references = [] := hsites.2 site (List.mem_of_getElem? hs)
  have hspared := spared_of_failed ⟨"/".toList⟩ readTwoSites secondSite diskRefusingSolution d' e
  exact ⟨site, e, d', hs, copiesApart_of_isName (by simp [hplain]), hc, h, hspared.1 hc, hspared.2 h⟩

/-- A run that fails has written a descriptor that was not there. -/
theorem failed_run_writes_descriptor :
    ∃ e d', Ends (execute ⟨"/".toList⟩ secondSite) diskRefusingSolution (.error e) d' ∧
      d'.file? ⟨"/work/tools/_intellisense/B/B.intellisense.csproj".toList⟩ ≠
        diskRefusingSolution.file? ⟨"/work/tools/_intellisense/B/B.intellisense.csproj".toList⟩ := by
  obtain ⟨e, d', h, hnone, hfile⟩ := exists_failed_run
  refine ⟨e, d', h, ?_⟩
  intro he
  rw [MemoryDisk.hasFile, he, hnone] at hfile
  simp at hfile

end SiteProject.Conversion
