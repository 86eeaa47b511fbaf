import SiteProject.Proofs.Conversion.FolderName
import SiteProject.Proofs.Reference.Parallel

namespace SiteProject.Conversion

/-- The picked site; there is one unless there are no sites. -/
def Inspection.picked? (i : Inspection) (o : Options) : Option Solution.Site :=
  i.sites[pickIndex o.pick i.sites.length]?

/-- The folder that the conversion of a site is for. -/
def Inspection.target (i : Inspection) (o : Options) (site : Solution.Site) : Path :=
  projectFolder i.folder o.output site.name

def Inspection.copies (i : Inspection) (o : Options) (site : Solution.Site) : Path :=
  Reference.copiesFolder (i.target o site)

def Inspection.copyOf (i : Inspection) (o : Options) (site : Solution.Site) (r : Solution.Reference) :
    Path :=
  (i.copies o site).joinText r.dll

def Inspection.descriptor (i : Inspection) (o : Options) (site : Solution.Site) : Path :=
  descriptorPath (i.target o site) site.name

def Inspection.rerooted (i : Inspection) (o : Options) (site : Solution.Site) : Path :=
  rerootedPath (i.target o site) site.name

theorem parts_copies (i : Inspection) (o : Options) (site : Solution.Site) :
    (i.copies o site).parts = (i.target o site).parts ++ [.name "refs".toList] :=
  Path.parts_joinText_name _ (by decide)

theorem parts_copyOf (i : Inspection) (o : Options) (site : Solution.Site) {r : Solution.Reference}
    (hr : Part.IsName r.dll) : (i.copyOf o site r).parts =
      (i.target o site).parts ++ [.name "refs".toList, .name r.dll] := by
  rw [Inspection.copyOf, Path.parts_joinText_name _ hr, parts_copies, List.append_assoc]
  rfl

/-- What a conversion asks of a disk before it writes: the folder of the project, and in copy mode the
folder of the copies and a copy for each reference. -/
inductive Prepares (i : Inspection) (o : Options) (site : Solution.Site) : Act → Prop
  | folder : Prepares i o site (.made (i.target o site))
  | copies (hm : o.placement = .copy) : Prepares i o site (.made (i.copies o site))
  | copy (hm : o.placement = .copy) {r : Solution.Reference} (hr : r ∈ site.references) :
      Prepares i o site (.copied (i.copyOf o site r))

/-- What the conversion of a site asks of a disk. -/
inductive Asked (i : Inspection) (o : Options) (site : Solution.Site) : Act → Prop
  | prepares {a : Act} (h : Prepares i o site a) : Asked i o site a
  | descriptor : Asked i o site (.written (i.descriptor o site))
  | rerooted : Asked i o site (.written (i.rerooted o site))

variable {σ τ : Type} {R : σ → τ → Prop} {allowed : Act → Prop}

theorem parallel_onDisk {α : Type} {x : ExceptT DiskFailure (StateM σ) α}
    {y : ExceptT DiskFailure (StateM τ) α} (h : Parallel R x.run y.run) :
    Parallel R (onDisk x).run (onDisk y).run :=
  parallel_run_adapt Failure.disk h

variable [Disk (StateM σ)] [Disk (StateM τ)] {i : Inspection} {o : Options}

theorem parallel_inspect (h : Agree allowed R) (w solution : Path) :
    Parallel R (inspect (m := StateM σ) w solution).run (inspect (m := StateM τ) w solution).run := by
  unfold inspect
  apply parallel_run_bind (parallel_run_lift (h.exists? _))
  intro b
  dsimp only
  apply parallel_run_guard
  apply parallel_run_bind (parallel_onDisk (h.readText _))
  intro content
  apply parallel_run_guard
  exact parallel_run_pure _

/-- A conversion asks for the folder of its project, for what is placed there and for two files. -/
theorem parallel_convertSite {site : Solution.Site} (h : Agree allowed R)
    (hall : ∀ a, Asked i o site a → allowed a) (index : Nat) :
    Parallel R (convertSite (m := StateM σ) i o index site).run
      (convertSite (m := StateM τ) i o index site).run := by
  unfold convertSite
  apply parallel_run_bind (parallel_run_lift (Reference.parallel_resolveAll h _ _ _ _))
  intro resolutions
  apply parallel_run_bind (parallel_onDisk (h.makeFolders _ (hall _ (.prepares .folder))))
  intro _
  have hcopies : o.placement = .copy → ∀ r ∈ site.references.zip (resolutions.map (·.resolved)),
      allowed (.copied (i.copyOf o site r.1)) := by
    intro hm r hr
    exact hall _ (.prepares (.copy hm (List.of_mem_zip hr).1))
  have hfolder : o.placement = .copy → allowed (.made (i.copies o site)) :=
    fun hm => hall _ (.prepares (.copies hm))
  apply parallel_run_bind (parallel_onDisk (Reference.parallel_placeAll h _ hfolder hcopies))
  intro placed
  apply parallel_run_bind (parallel_onDisk (h.writeText _ _ (hall _ .descriptor)))
  intro _
  apply parallel_run_bind (parallel_onDisk (h.writeText _ _ (hall _ .rerooted)))
  intro _
  exact parallel_run_pure _

theorem parallel_convert (h : Agree allowed R)
    (hall : ∀ site, i.picked? o = some site → ∀ a, Asked i o site a → allowed a) :
    Parallel R (convert (m := StateM σ) i o).run (convert (m := StateM τ) i o).run := by
  unfold convert
  dsimp only
  split
  · exact parallel_run_throw _
  · next site hs => exact parallel_convertSite h (hall site hs) _

end SiteProject.Conversion
