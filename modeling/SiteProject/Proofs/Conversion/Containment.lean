import SiteProject.Proofs.Conversion.Parallel
import SiteProject.Proofs.Disk.Run
import SiteProject.Proofs.Disk.Watched

namespace SiteProject

namespace Act

def path : Act → Path
  | made p => p
  | written p => p
  | copied p => p

/-- The change is at or below the folder, and a copy is below the folder of the copies there. -/
def confined (folder : Path) (a : Act) : Bool :=
  folder.holds a.path.normalize &&
    match a with
    | copied p => (Reference.copiesFolder folder).encloses p.normalize
    | _ => true

end Act

namespace Conversion

open SiteProject.Part (IsName settle)

section Places

variable {i : Inspection} {o : Options} {site : Solution.Site}

theorem settle_parts_target (i : Inspection) (o : Options) (site : Solution.Site) :
    settle (i.target o site).parts = (i.target o site).parts :=
  Path.settle_parts_normalize _

/-- A plain name in a folder is there after normalization too. -/
theorem holds_normalize_joinText {p : Path} (hp : settle p.parts = p.parts) {n : Text}
    (hn : IsName n) : p.holds (p.joinText n).normalize = true := by
  rw [Path.holds_iff, Path.parts_normalize, Path.settle_parts_joinText_name hp hn]
  exact ⟨[.name n], Path.parts_joinText_name p hn⟩

theorem confined_of_prepares {a : Act} (ha : Prepares i o site a) :
    a.confined (i.target o site) = true ∨ ∃ r ∈ site.references,
      a = .copied (i.copyOf o site r) ∧ Path.descends ⟨r.dll⟩ = false := by
  have hp := settle_parts_target i o site
  have hrefs : IsName "refs".toList := by decide
  cases ha with
  | folder =>
    have hs : (i.target o site).normalize.parts = (i.target o site).parts := by
      rw [Path.parts_normalize, hp]
    have hself : (i.target o site).holds (i.target o site).normalize = true :=
      Path.holds_iff.2 ⟨[], by rw [hs, List.append_nil]⟩
    exact .inl (Bool.and_eq_true_iff.2 ⟨hself, rfl⟩)
  | copies => exact .inl (Bool.and_eq_true_iff.2 ⟨holds_normalize_joinText hp hrefs, rfl⟩)
  | @copy _ r hr =>
    cases hd : Path.descends ⟨r.dll⟩ with
    | false => exact .inr ⟨r, hr, rfl, hd⟩
    | true =>
      have hcopies := Path.settle_parts_joinText_name hp hrefs
      have hbelow := Path.encloses_normalize_joinText hcopies hd
      have hfolder : (i.target o site).holds (i.copies o site) = true :=
        Path.holds_iff.2 ⟨_, parts_copies i o site⟩
      have hholds := Path.holds_trans hfolder (Path.holds_of_encloses hbelow)
      exact .inl (Bool.and_eq_true_iff.2 ⟨hholds, hbelow⟩)

theorem confined_of_asked {a : Act} (ha : Asked i o site a) :
    a.confined (i.target o site) = true ∨ ∃ r ∈ site.references,
      a = .copied (i.copyOf o site r) ∧ Path.descends ⟨r.dll⟩ = false := by
  have hp := settle_parts_target i o site
  cases ha with
  | prepares h => exact confined_of_prepares h
  | descriptor =>
    have h := holds_normalize_joinText hp (isName_descriptor site.name)
    exact .inl (Bool.and_eq_true_iff.2 ⟨h, rfl⟩)
  | rerooted =>
    have h := holds_normalize_joinText hp (isName_rerooted site.name)
    exact .inl (Bool.and_eq_true_iff.2 ⟨h, rfl⟩)

end Places

/-- A conversion does the same on a disk that keeps a record, and the record has changes in the folder of
the project only, but for copies of binaries that are named by a path that does not lead down. -/
theorem acts_of_convert {σ : Type} [Disk (StateM σ)] (i : Inspection) (o : Options) (s : σ) :
    ∃ acts, ((convert (m := StateM (Watched σ)) i o).run.run ⟨s, []⟩).run =
        (((convert (m := StateM σ) i o).run.run s).run.1,
          ⟨((convert (m := StateM σ) i o).run.run s).run.2, acts⟩) ∧
      ∀ a ∈ acts, ∃ site, i.picked? o = some site ∧
        (a.confined (i.target o site) = true ∨ ∃ r ∈ site.references,
          a = .copied (i.copyOf o site r) ∧
            Path.descends ⟨r.dll⟩ = false) := by
  have hp : Parallel (Watched.Follows fun a => ∃ site, i.picked? o = some site ∧ Asked i o site a)
      (convert (m := StateM (Watched σ)) i o).run (convert (m := StateM σ) i o).run := by
    apply parallel_convert Watched.agree_follows
    intro site hs a ha
    exact ⟨site, hs, ha⟩
  obtain ⟨acts, hrun, hacts⟩ := Watched.run_of_parallel hp s
  refine ⟨acts, hrun, ?_⟩
  intro a ha
  obtain ⟨site, hs, hasked⟩ := hacts a ha
  exact ⟨site, hs, confined_of_asked hasked⟩

/-- A site whose binary is named by a path, and the library that it is of. -/
def solutionWithPath : Text :=
  "Project(\"\x7bE24C65DC-7377-472B-9ABA-BC803B73C61A\x7d\") = \"Shop\", \"web\", \"\x7bA1\x7d\"\n".toList ++
    "\tProjectSection(WebsiteProperties) = preProject\n".toList ++
    "\t\tProjectReferences = \"\x7bB1\x7d|/home/dev/Tools.dll;\"\n".toList ++
    "\tEndProjectSection\nEndProject\n".toList ++
    "Project(\"\x7bFAE04EC0-301F-11D3-BF4B-00C04F79EFBC\x7d\") = ".toList ++
    "\"Tools\", \"lib\\Tools.csproj\", \"\x7bB1\x7d\"\nEndProject\n".toList

def diskWithLibrary : MemoryDisk where
  files :=
    [(⟨"/work/all.sln".toList⟩, solutionWithPath),
     (⟨"/work/lib/Tools.csproj".toList⟩,
      "<Project><PropertyGroup Condition=\"Debug|AnyCPU\"><OutputPath>bin</OutputPath>".toList ++
        "<AssemblyName>Tools</AssemblyName></PropertyGroup></Project>".toList),
     (⟨"/work/lib/bin/Tools.dll".toList⟩, "tools".toList)]

/-- The built library is copied to the path that the site names it by, out of the folder. -/
theorem copy_leaves_folder :
    ∃ r w, Succeeds (execute (m := StateM (Watched MemoryDisk)) ⟨"/".toList⟩
        ⟨⟨"/work/all.sln".toList⟩, 1, defaultOutput, .copy⟩) ⟨diskWithLibrary, []⟩ r w ∧
      Act.copied ⟨"/home/dev/Tools.dll".toList⟩ ∈ w.acts ∧
      (Act.copied ⟨"/home/dev/Tools.dll".toList⟩).confined r.folder = false ∧
      diskWithLibrary.file? ⟨"/home/dev/Tools.dll".toList⟩ = none ∧
      w.disk.file? ⟨"/home/dev/Tools.dll".toList⟩ = some "tools".toList := by
  have hrun : succeedsWith (execute (m := StateM (Watched MemoryDisk)) ⟨"/".toList⟩
      ⟨⟨"/work/all.sln".toList⟩, 1, defaultOutput, .copy⟩) ⟨diskWithLibrary, []⟩
      (fun r w => Act.copied ⟨"/home/dev/Tools.dll".toList⟩ ∈ w.acts ∧
        (Act.copied ⟨"/home/dev/Tools.dll".toList⟩).confined r.folder = false ∧
        diskWithLibrary.file? ⟨"/home/dev/Tools.dll".toList⟩ = none ∧
        w.disk.file? ⟨"/home/dev/Tools.dll".toList⟩ = some "tools".toList) = true := by
    decide +kernel
  obtain ⟨r, w, h, hc⟩ := exists_succeeds hrun
  exact ⟨r, w, h, of_decide_eq_true hc⟩

end Conversion
end SiteProject
