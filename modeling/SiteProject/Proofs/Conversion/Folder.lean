import SiteProject.Proofs.Conversion.Parallel
import SiteProject.Proofs.Disk.Run
import SiteProject.Proofs.Disk.Watched
import SiteProject.Proofs.Path.Rooted

namespace SiteProject.Conversion

/-- Below an absolute folder, the name may be joined after the output folder is normalized. -/
theorem projectFolder_eq {folder : Path} (hf : folder.isAbsolute = true) (output : Path) (name : Text) :
    projectFolder folder output name = (folder.join output).normalize.joinText (folderName name) := by
  have hname := isName_folderName name
  have hrooted := Path.rooted_normalize (Path.isAbsolute_join_of_isAbsolute hf output)
  have hbase := Path.isAbsolute_join_of_isAbsolute hf output
  have hfolder : (projectFolder folder output name).Rooted :=
    Path.rooted_normalize (Path.isAbsolute_joinText hbase (folderName name))
  refine hfolder.eq_of_parts (hrooted.joinText hname) ?_
  rw [parts_projectFolder, hrooted.parts_joinText hname]

/-- A place is one step below a folder. -/
def IsChild (folder p : Path) (n : Text) : Prop := p.parts = folder.parts ++ [.name n]

/-- The folder of a site's project in the output folder, and the two files in it. -/
structure Nested (output : Path) (name : Text) (folder descriptor rerooted : Path) : Prop where
  child : IsChild output folder (folderName name)
  spelled : folder = output.joinText (folderName name)
  descriptor_child : IsChild folder descriptor (folderName name ++ ".intellisense.csproj".toList)
  rerooted_child : IsChild folder rerooted ("fake_".toList ++ folderName name ++ ".sln".toList)

theorem nested_target {i : Inspection} (hi : i.folder.isAbsolute = true) (o : Options)
    (site : Solution.Site) : Nested (i.folder.join o.output).normalize site.name (i.target o site)
      (i.descriptor o site) (i.rerooted o site) where
  child := parts_projectFolder i.folder o.output site.name
  spelled := projectFolder_eq hi o.output site.name
  descriptor_child := parts_descriptorPath (i.target o site) site.name
  rerooted_child := parts_rerootedPath (i.target o site) site.name

section Reports

variable {σ : Type} [Disk (StateM σ)] {i : Inspection} {o : Options} {s s' : σ} {r : Report}

/-- The report names the folder and the files that the conversion is for. -/
structure Names (i : Inspection) (o : Options) (r : Report) : Prop where
  picked : i.picked? o = some r.site
  folder : r.folder = i.target o r.site
  descriptor : r.descriptor = i.descriptor o r.site
  rerooted : r.rerooted = i.rerooted o r.site

theorem names_of_convert (h : Succeeds (convert i o) s r s') : Names i o r := by
  unfold convert at h
  dsimp only at h
  split at h
  · exact absurd h not_succeeds_throw
  · next site hsite =>
    unfold convertSite at h
    simp only [succeeds_bind, succeeds_pure] at h
    obtain ⟨_, _, -, _, _, -, _, _, -, _, _, -, _, _, -, rfl, -⟩ := h
    exact ⟨hsite, rfl, rfl, rfl⟩

end Reports

/-- The disk is asked for the same changes whether or not they are recorded, all of them for the picked
site. -/
theorem exists_asked {σ : Type} [Disk (StateM σ)] (i : Inspection) (o : Options) (s : σ) :
    ∃ result s' acts, Ends (convert (m := StateM σ) i o) s result s' ∧
      Ends (convert (m := StateM (Watched σ)) i o) ⟨s, []⟩ result ⟨s', acts⟩ ∧
      ∀ a ∈ acts, ∃ site, i.picked? o = some site ∧ Asked i o site a := by
  have hp : Parallel (Watched.Follows fun a => ∃ site, i.picked? o = some site ∧ Asked i o site a)
      (convert (m := StateM (Watched σ)) i o).run (convert (m := StateM σ) i o).run := by
    apply parallel_convert Watched.agree_follows
    intro site hs a ha
    exact ⟨site, hs, ha⟩
  obtain ⟨acts, hrun, hacts⟩ := Watched.run_of_parallel hp s
  exact ⟨_, _, acts, rfl, hrun, hacts⟩

/-- Every name is fit for a folder, a name that is fit is kept, and making the name of a folder once more
changes nothing. So whatever the output folder and the site's name are, the folder that a conversion makes
is one step below the output folder, and its two files are one step below that: the changes that it asks
for are at these places or are copies, on any disk and whether it succeeds or fails, and the report names
them. -/
theorem nested_of_convert {σ : Type} [Disk (StateM σ)] {i : Inspection} (hi : i.folder.isAbsolute = true)
    (o : Options) (s : σ) :
    (∀ name, FolderNamed name (folderName name)) ∧
      (∀ site, i.picked? o = some site → Nested (i.folder.join o.output).normalize site.name
        (i.target o site) (i.descriptor o site) (i.rerooted o site)) ∧
      ∃ result s' acts, Ends (convert (m := StateM σ) i o) s result s' ∧
        Ends (convert (m := StateM (Watched σ)) i o) ⟨s, []⟩ result ⟨s', acts⟩ ∧
        (∀ a ∈ acts, ∃ site, i.picked? o = some site ∧ Asked i o site a) ∧
        ∀ r, result = .ok r → Names i o r := by
  refine ⟨folderNamed_folderName, fun site _ => nested_target hi o site, ?_⟩
  obtain ⟨result, s', acts, hends, hwatched, hacts⟩ := exists_asked i o s
  refine ⟨result, s', acts, hends, hwatched, hacts, ?_⟩
  rintro r rfl
  exact names_of_convert hends

/-- A site whose name is a way up. -/
def siteUp : Solution.Site :=
  ⟨"../..".toList, "A1".toList, "web".toList, Solution.Framework.default, []⟩

def inspectionUp : Inspection where
  solution := ⟨"/work/src/all.sln".toList⟩
  folder := ⟨"/work/src".toList⟩
  content := []
  sites := [siteUp]
  libraries := []

/-- The output folder is spelled with steps that lead nowhere. -/
def outputBeside : Options where
  solution := inspectionUp.solution
  output := ⟨"../out/.//".toList⟩

theorem site_up_is_nested :
    inspectionUp.folder.isAbsolute = true ∧ inspectionUp.picked? outputBeside = some siteUp ∧
      Nested ⟨"/work/out".toList⟩ siteUp.name ⟨"/work/out/.._..".toList⟩
        (inspectionUp.descriptor outputBeside siteUp) (inspectionUp.rerooted outputBeside siteUp) ∧
      ∃ r d', Succeeds (convert inspectionUp outputBeside) ({} : MemoryDisk) r d' ∧
        Names inspectionUp outputBeside r := by
  have hfolder : inspectionUp.folder.isAbsolute = true := by decide
  have hpicked : inspectionUp.picked? outputBeside = some siteUp := by decide
  have hrun : succeedsWith (convert inspectionUp outputBeside) ({} : MemoryDisk) (fun _ _ => true) =
      true := by
    decide +kernel
  obtain ⟨r, d', h, -⟩ := exists_succeeds hrun
  obtain ⟨-, hnested, result, s', acts, hends, -, -, hnames⟩ :=
    nested_of_convert hfolder outputBeside ({} : MemoryDisk)
  obtain ⟨hresult, -⟩ := Prod.mk.inj (hends.symm.trans h)
  exact ⟨hfolder, hpicked, hnested siteUp hpicked, r, d', h, hnames r hresult⟩

end SiteProject.Conversion
