import SiteProject.Proofs.Conversion.Parallel
import SiteProject.Proofs.Conversion.Run
import SiteProject.Proofs.Reference.Rerun

namespace SiteProject.Conversion

open MemoryDisk (Repeats)
open SiteProject.Part (IsName)

variable {i : Inspection} {o : Options} {site : Solution.Site} {d d' : MemoryDisk} {target : Path}

/-- What the conversion of a site looks at is beside a folder. -/
structure Inspection.Beside (i : Inspection) (site : Solution.Site) (v : DiskView) (target : Path) :
    Prop where
  solution : i.solution.apart target = true
  libraries : ∀ l ∈ i.libraries, (Reference.projectPath i.folder l).apart target = true
  binaries : ∀ r ∈ site.references, ∀ p,
    Reference.Probed v i.folder (Reference.siteFolder i.folder site) i.libraries r p →
      p.apart target = true

theorem repeats_onDisk {α : Type} {x : ExceptT DiskFailure (StateM MemoryDisk) α}
    (h : Repeats target x.run d) : Repeats target (onDisk x).run d :=
  MemoryDisk.repeats_run_adapt Failure.disk h

theorem repeats_inspect {w solution : Path} (h : (absolute w solution).apart target = true) :
    Repeats target (inspect (m := StateM MemoryDisk) w solution).run d := by
  unfold inspect
  apply MemoryDisk.repeats_run_bind (MemoryDisk.repeats_run_lift (MemoryDisk.repeats_exists? h))
  intro b d₁ _
  dsimp only
  apply MemoryDisk.repeats_run_guard
  apply MemoryDisk.repeats_run_bind (repeats_onDisk (MemoryDisk.repeats_readText h))
  intro content d₂ _
  apply MemoryDisk.repeats_run_guard
  exact MemoryDisk.repeats_pure _

/-- What is resolved is among the paths that are asked for. -/
theorem apart_of_mem_zip {resolutions : List Reference.Resolution} {d₁ : MemoryDisk}
    (hb : i.Beside site d.view target)
    (h : ((Reference.resolveAll (m := StateM MemoryDisk) i.folder (Reference.siteFolder i.folder site)
      i.libraries site.references).run d).run = (resolutions, d₁)) :
    ∀ r ∈ site.references.zip (resolutions.map (·.resolved)), r.2.apart target = true := by
  obtain ⟨xs, hxs, hf⟩ := Reference.exists_resolves d.views_view i.folder
    (Reference.siteFolder i.folder site) i.libraries site.references
  obtain ⟨rfl, rfl⟩ := Prod.mk.inj (h.symm.trans hxs)
  intro r hr
  rw [List.zip_map_right] at hr
  obtain ⟨⟨x, resolution⟩, hm, rfl⟩ := List.mem_map.1 hr
  have hx := (List.forall₂_iff_zip.1 hf).2 hm
  exact hb.binaries x (List.of_mem_zip hm).1 _ hx.probed

theorem holds_copies (i : Inspection) (o : Options) (site : Solution.Site) :
    (i.target o site).holds (i.copies o site) = true :=
  Path.holds_iff.2 ⟨_, parts_copies i o site⟩

theorem holds_copyOf (i : Inspection) (o : Options) (site : Solution.Site) {x : Solution.Reference}
    (hx : IsName x.dll) : (i.target o site).holds (i.copyOf o site x) = true :=
  Path.holds_iff.2 ⟨_, parts_copyOf i o site hx⟩

theorem holds_descriptor (i : Inspection) (o : Options) (site : Solution.Site) :
    (i.target o site).holds (i.descriptor o site) = true :=
  Path.holds_iff.2 ⟨_, parts_descriptorPath _ _⟩

theorem holds_rerooted (i : Inspection) (o : Options) (site : Solution.Site) :
    (i.target o site).holds (i.rerooted o site) = true :=
  Path.holds_iff.2 ⟨_, parts_rerootedPath _ _⟩

theorem repeats_convertSite (hn : ∀ x ∈ site.references, IsName x.dll)
    (hb : i.Beside site d.view (i.target o site)) (index : Nat) :
    Repeats (i.target o site) (convertSite (m := StateM MemoryDisk) i o index site).run d := by
  unfold convertSite
  apply MemoryDisk.repeats_run_bind
    (MemoryDisk.repeats_run_lift (Reference.repeats_resolveAll hb.libraries hb.binaries))
  intro resolutions d₁ hr
  have hresolved := apart_of_mem_zip hb (succeeds_lift.1 hr)
  have hcopies : ∀ r ∈ site.references.zip (resolutions.map (·.resolved)),
      (i.target o site).holds (i.copyOf o site r.1) = true :=
    fun r hm => holds_copyOf i o site (hn r.1 (List.of_mem_zip hm).1)
  apply MemoryDisk.repeats_run_bind (repeats_onDisk (MemoryDisk.repeats_makeFolders (Path.holds_refl _)))
  intro _ d₂ _
  apply MemoryDisk.repeats_run_bind
    (repeats_onDisk (Reference.repeats_placeAll hresolved (holds_copies i o site) hcopies))
  intro placed d₃ _
  apply MemoryDisk.repeats_run_bind
    (repeats_onDisk (MemoryDisk.repeats_writeText (holds_descriptor i o site) _))
  intro _ d₄ _
  apply MemoryDisk.repeats_run_bind
    (repeats_onDisk (MemoryDisk.repeats_writeText (holds_rerooted i o site) _))
  intro _ d₅ _
  exact MemoryDisk.repeats_pure _

theorem repeats_convert (hp : i.picked? o = some site) (hn : ∀ x ∈ site.references, IsName x.dll)
    (hb : i.Beside site d.view (i.target o site)) :
    Repeats (i.target o site) (convert (m := StateM MemoryDisk) i o).run d := by
  unfold convert
  dsimp only
  rw [show i.sites[pickIndex o.pick i.sites.length]? = some site from hp]
  exact repeats_convertSite hn hb _

variable {w : Path} {r : Report}

/-- A run that succeeds is done once more on the disk that it leaves: it ends with the same report, and
the disk stays as it is. -/
theorem rerun_of_execute {content : Text} (h : Succeeds (execute w o) d r d')
    (hf : d.file? r.solution = some content) (hn : ∀ x ∈ r.site.references, IsName x.dll)
    (hb : (inspected r.solution content).Beside r.site d.view r.folder) :
    Succeeds (execute w o) d' r d' := by
  obtain ⟨content', hf', hc⟩ := of_execute h
  obtain ⟨hp, _, _, _, _, hv⟩ := converted_of_convert hc
  have hsolution : r.solution = absolute w o.solution := hv.solution
  rw [hsolution] at hf hb
  obtain rfl : content' = content := Option.some.inj (hf'.symm.trans hf)
  rw [hv.folder] at hb
  have hrepeats : Repeats ((inspected (absolute w o.solution) content').target o r.site)
      (execute (m := StateM MemoryDisk) w o).run d := by
    apply MemoryDisk.repeats_run_bind (repeats_inspect hb.solution)
    intro i d₁ hi
    obtain ⟨content, hread, rfl, rfl⟩ := inspected_of_inspect hi
    obtain rfl := Option.some.inj (hf.symm.trans hread)
    exact repeats_convert hp hn hb
  exact MemoryDisk.ends_again hrepeats h

/-- A site that names one binary twice, as that of a library and on its own. -/
def solutionWithTwins : Text :=
  "Project(\"\x7bE24C65DC-7377-472B-9ABA-BC803B73C61A\x7d\") = \"Shop\", \"web\", \"\x7bA1\x7d\"\n".toList ++
    "\tProjectSection(WebsiteProperties) = preProject\n".toList ++
    "\t\tProjectReferences = \"\x7bB1\x7d|Data.dll;\x7bC1\x7d|Data.dll;\"\n".toList ++
    "\tEndProjectSection\nEndProject\n".toList ++
    "Project(\"\x7bFAE04EC0-301F-11D3-BF4B-00C04F79EFBC\x7d\") = ".toList ++
    "\"Data\", \"lib\\Data.csproj\", \"\x7bB1\x7d\"\nEndProject\n".toList

/-- Both binaries are there. -/
def diskWithTwins : MemoryDisk where
  files :=
    [(⟨"/work/all.sln".toList⟩, solutionWithTwins),
     (⟨"/work/lib/bin/Debug/Data.dll".toList⟩, "first".toList),
     (⟨"/work/web/Bin/Data.dll".toList⟩, "second".toList)]

/-- The second binary is copied over the first, in both runs. -/
theorem twins_rerun :
    ∃ r d', Succeeds (execute ⟨"/".toList⟩ { solution := ⟨"/work/all.sln".toList⟩ }) diskWithTwins r d' ∧
      diskWithTwins.file? r.solution = some solutionWithTwins ∧
      (∀ x ∈ r.site.references, IsName x.dll) ∧
      (inspected r.solution solutionWithTwins).Beside r.site diskWithTwins.view r.folder ∧
      r.dependencies.map (·.fallback) = [none, none] ∧
      d'.file? ((Reference.copiesFolder r.folder).joinText "Data.dll".toList) = some "second".toList ∧
      Succeeds (execute ⟨"/".toList⟩ { solution := ⟨"/work/all.sln".toList⟩ }) d' r d' := by
  have hrun : succeedsWith (execute ⟨"/".toList⟩ { solution := ⟨"/work/all.sln".toList⟩ }) diskWithTwins
      (fun r d' => diskWithTwins.file? r.solution = some solutionWithTwins ∧
        (∀ x ∈ r.site.references, IsName x.dll) ∧
        r.solution.apart r.folder = true ∧
        (∀ l ∈ (inspected r.solution solutionWithTwins).libraries,
          (Reference.projectPath (inspected r.solution solutionWithTwins).folder l).apart r.folder =
            true) ∧
        (∀ x ∈ r.site.references, ∀ p ∈ Reference.lookups diskWithTwins.view
          (inspected r.solution solutionWithTwins).folder
          (Reference.siteFolder (inspected r.solution solutionWithTwins).folder r.site)
          (inspected r.solution solutionWithTwins).libraries x, p.apart r.folder = true) ∧
        r.dependencies.map (·.fallback) = [none, none] ∧
        d'.file? ((Reference.copiesFolder r.folder).joinText "Data.dll".toList) =
          some "second".toList) = true := by
    decide +kernel
  obtain ⟨r, d', h, hc⟩ := exists_succeeds hrun
  obtain ⟨hf, hn, hsolution, hlibraries, hlookups, hfallbacks, hcopy⟩ := of_decide_eq_true hc
  have hb : (inspected r.solution solutionWithTwins).Beside r.site diskWithTwins.view r.folder := {
    solution := hsolution
    libraries := hlibraries
    binaries := fun x hx p hp => hlookups x hx p hp.mem_lookups }
  exact ⟨r, d', h, hf, hn, hb, hfallbacks, hcopy, rerun_of_execute h hf hn hb⟩

end SiteProject.Conversion
