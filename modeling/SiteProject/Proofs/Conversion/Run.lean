import SiteProject.Conversion.Basic
import SiteProject.Proofs.Disk.Run

namespace SiteProject.Conversion

variable {i : Inspection} {o : Options} {d d' : MemoryDisk} {r : Report}

/-- How the copy of the solution is moved. -/
def Report.move (r : Report) (source : Path) : Solution.Move where
  source := source
  target := r.folder
  siteGuid := r.site.guid
  descriptor := r.descriptor

/-- A conversion of the site at an index: what was resolved and placed, the disk after the one and after
the other, and what was written at last. -/
structure Converted (i : Inspection) (o : Options) (index : Nat) (d : MemoryDisk) (r : Report)
    (resolutions : List Reference.Resolution) (d₁ : MemoryDisk) (placed : List Reference.Placed)
    (d₂ d' : MemoryDisk) : Prop where
  solution : r.solution = i.solution
  picked : r.picked = index + 1
  siteCount : r.siteCount = i.sites.length
  placement : r.placement = o.placement
  folder : r.folder = projectFolder i.folder o.output r.site.name
  descriptor : r.descriptor = descriptorPath r.folder r.site.name
  rerooted : r.rerooted = rerootedPath r.folder r.site.name
  dependencies : r.dependencies = Conversion.dependencies r.site.references resolutions placed
  resolve : ((Reference.resolveAll (m := StateM MemoryDisk) i.folder
    (Reference.siteFolder i.folder r.site) i.libraries r.site.references).run d).run = (resolutions, d₁)
  place : Succeeds (Reference.placeAll r.placement r.folder
    (Declared.relative r.folder (Reference.siteFolder i.folder r.site))
    (r.site.references.zip (resolutions.map (·.resolved)))) (d₁.addFolder r.folder) placed d₂
  write : d' = (d₂.put r.descriptor (Descriptor.text r.site
    (Declared.relative r.folder (Reference.siteFolder i.folder r.site))
    (Reference.Hints.ofPlaced placed))).put r.rerooted ((r.move i.folder).text i.content)

theorem converted_of_convertSite {index : Nat} {site : Solution.Site}
    (h : Succeeds (convertSite i o index site) d r d') :
    r.site = site ∧ ∃ resolutions d₁ placed d₂,
      Converted i o index d r resolutions d₁ placed d₂ d' := by
  unfold convertSite at h
  simp only [succeeds_bind, succeeds_lift, succeeds_pure, onDisk, succeeds_adapt] at h
  obtain ⟨resolutions, d₁, hr, _, d₂, hm, placed, d₃, hp, _, d₄, hd, _, d₅, hs, rfl, rfl⟩ := h
  have hm := MemoryDisk.eq_addFolder_of_makeFolders hm
  have hd := MemoryDisk.eq_put_of_writeText hd
  have hs := MemoryDisk.eq_put_of_writeText hs
  subst hm hd hs
  exact ⟨rfl, resolutions, d₁, placed, d₃, {
    solution := rfl
    picked := rfl
    siteCount := rfl
    placement := rfl
    folder := rfl
    descriptor := rfl
    rerooted := rfl
    dependencies := rfl
    resolve := hr
    place := hp
    write := rfl }⟩

theorem converted_of_convert (h : Succeeds (convert i o) d r d') :
    i.sites[pickIndex o.pick i.sites.length]? = some r.site ∧ ∃ resolutions d₁ placed d₂,
      Converted i o (pickIndex o.pick i.sites.length) d r resolutions d₁ placed d₂ d' := by
  unfold convert at h
  simp only at h
  split at h
  · exact absurd h not_succeeds_throw
  · next site hs =>
    obtain ⟨rfl, hc⟩ := converted_of_convertSite h
    exact ⟨hs, hc⟩

/-- What is known of a solution once its text has been read. -/
def inspected (solution : Path) (content : Text) : Inspection where
  solution := solution
  folder := solution.parent?.getD ⟨['.']⟩
  content := content
  sites := Solution.sites (Solution.entries content)
  libraries := Solution.libraries (Solution.entries content)

theorem inspected_of_inspect {w solution : Path} (h : Succeeds (inspect w solution) d i d') :
    ∃ content, d.file? (absolute w solution) = some content ∧
      i = inspected (absolute w solution) content ∧ d' = d := by
  unfold inspect at h
  simp only [succeeds_bind, succeeds_lift] at h
  obtain ⟨b, d₁, hb, h⟩ := h
  obtain ⟨rfl, rfl⟩ := Prod.mk.inj hb
  split at h
  · obtain ⟨_, _, ht, -⟩ := succeeds_bind.1 h
    exact absurd ht not_succeeds_throw
  · simp only [succeeds_bind, onDisk, succeeds_adapt] at h
    obtain ⟨content, d₁, hr, h⟩ := h
    obtain ⟨hf, rfl⟩ := MemoryDisk.file?_of_readText hr
    split at h
    · obtain ⟨_, _, ht, -⟩ := succeeds_bind.1 h
      exact absurd ht not_succeeds_throw
    · obtain ⟨rfl, rfl⟩ := succeeds_pure.1 h
      exact ⟨content, hf, rfl, rfl⟩

theorem of_execute {w : Path} (h : Succeeds (execute w o) d r d') :
    ∃ content, d.file? (absolute w o.solution) = some content ∧
      Succeeds (convert (inspected (absolute w o.solution) content) o) d r d' := by
  rw [execute, succeeds_bind] at h
  obtain ⟨i, d₁, hi, hc⟩ := h
  obtain ⟨content, hf, rfl, rfl⟩ := inspected_of_inspect hi
  exact ⟨content, hf, hc⟩

end SiteProject.Conversion
