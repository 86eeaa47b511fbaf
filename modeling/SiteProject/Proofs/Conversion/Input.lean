import SiteProject.Proofs.Conversion.Effects
import SiteProject.Proofs.Path.Parent

namespace SiteProject.Conversion

open SiteProject.Part (IsName settle)

variable {i : Inspection} {o : Options} {site : Solution.Site} {d d' : MemoryDisk} {w : Path}

/-- The solution is one of the files that the conversion of a site writes. -/
inductive Inspection.WritesInput (i : Inspection) (o : Options) (site : Solution.Site) : Prop
  | descriptor (h : (i.descriptor o site).same i.solution = true)
  | rerooted (h : (i.rerooted o site).same i.solution = true)
  | copy (hm : o.placement = .copy) {x : Solution.Reference} (hx : x ∈ site.references)
      (h : (i.copyOf o site x).same i.solution = true)

theorem writesInput_of_ending {r : Except Failure Report} (h : Ending i o site d r d')
    (hne : d'.file? i.solution ≠ d.file? i.solution) : i.WritesInput o site := by
  obtain ⟨q, hq, hs⟩ := (h.framed.file? i.solution).resolve_left hne
  rcases hq with hq | hq
  · cases hq with
    | prepares hq => cases hq
    | descriptor => exact .descriptor hs
    | rerooted => exact .rerooted hs
  · cases hq with
    | prepares hq =>
      cases hq with
      | copy hm hx => exact .copy hm hx hs

/-- What is written lies below the folder of the project. -/
theorem Inspection.WritesInput.length_lt (h : i.WritesInput o site)
    (hn : ∀ x ∈ site.references, IsName x.dll) :
    (i.target o site).parts.length < i.solution.parts.length := by
  cases h with
  | descriptor h =>
    rw [← beq_iff_eq.1 h, Inspection.descriptor, parts_descriptorPath]
    simp
  | rerooted h =>
    rw [← beq_iff_eq.1 h, Inspection.rerooted, parts_rerootedPath]
    simp
  | copy hm hx h =>
    rw [← beq_iff_eq.1 h, parts_copyOf i o site (hn _ hx)]
    simp

/-- A relative output folder that does not climb is taken after the folder of the solution. -/
theorem parts_target (i : Inspection) (site : Solution.Site) (ha : o.output.isAbsolute = false)
    (hu : .up ∉ o.output.normalize.parts) :
    (i.target o site).parts = i.folder.normalize.parts ++ o.output.normalize.parts ++
      [.name (folderName site.name)] := by
  rw [Inspection.target, parts_projectFolder, Path.parts_normalize_join _ ha hu]

theorem settle_parts_absolute (w p : Path) :
    settle (absolute w p).parts = (absolute w p).parts := by
  unfold absolute
  split <;> exact Path.settle_parts_normalize _

/-- The folder of a solution has all its steps but one. -/
theorem length_parts_inspected {p : Path} (hp : settle p.parts = p.parts) (content : Text) :
    p.parts.length ≤ (inspected p content).folder.normalize.parts.length + 1 := by
  rw [Path.parts_normalize]
  cases hq : p.parent? with
  | none =>
    have hlength := Path.length_parts_of_parent? hq
    omega
  | some q =>
    obtain ⟨z, hz⟩ := Path.parts_of_parent? hq
    rw [hz] at hp
    have hfolder : (inspected p content).folder = q := by simp [inspected, hq]
    rw [hfolder, Part.settle_of_settle_concat hp, hz]
    simp

/-- A relative output folder that does not climb has more steps than the folder of the solution. -/
theorem not_writesInput {p : Path} (hp : settle p.parts = p.parts) {content : Text}
    (ha : o.output.isAbsolute = false) (hu : .up ∉ o.output.normalize.parts)
    (hn : ∀ x ∈ site.references, IsName x.dll) : ¬ (inspected p content).WritesInput o site := by
  intro h
  have hlt : ((inspected p content).target o site).parts.length < p.parts.length := h.length_lt hn
  have hle := length_parts_inspected hp content
  rw [parts_target _ site ha hu, List.length_append, List.length_append, List.length_singleton] at hlt
  omega

/-- A run leaves the text of the solution that it reads, whether it succeeds or fails, unless the output
folder is absolute or climbs and the solution is one of the files that are written there. -/
theorem input_of_execute {r : Except Failure Report} (h : Ends (execute w o) d r d')
    (hn : ∀ content site, d.file? (absolute w o.solution) = some content →
      (inspected (absolute w o.solution) content).picked? o = some site →
        ∀ x ∈ site.references, IsName x.dll) :
    d'.file? (absolute w o.solution) = d.file? (absolute w o.solution) ∨
      (o.output.isAbsolute = true ∨ .up ∈ o.output.normalize.parts) ∧
        ∃ content site, d.file? (absolute w o.solution) = some content ∧
          (inspected (absolute w o.solution) content).picked? o = some site ∧
          (inspected (absolute w o.solution) content).WritesInput o site := by
  by_cases hsame : d'.file? (absolute w o.solution) = d.file? (absolute w o.solution)
  · exact .inl hsame
  · right
    rcases ends_execute h with rfl | ⟨content, hf, hc⟩
    · exact absurd rfl hsame
    · rcases ending_of_convert hc with ⟨-, -, rfl⟩ | ⟨site, hs, hending⟩
      · exact absurd rfl hsame
      · have hwrites := writesInput_of_ending hending hsame
        refine ⟨?_, content, site, hf, hs, hwrites⟩
        by_contra hout
        rw [not_or] at hout
        exact not_writesInput (settle_parts_absolute w o.solution) (by simpa using hout.1) hout.2
          (hn content site hf hs) hwrites

/-- A site in a solution with the name of the copy that is made of it. -/
def solutionOfShop : Text :=
  "Project(\"\x7bE24C65DC-7377-472B-9ABA-BC803B73C61A\x7d\") = \"Shop\", \"web\", \"\x7bA1\x7d\"\n".toList ++
    "\tProjectSection(WebsiteProperties) = preProject\n".toList ++
    "\t\tProjectReferences = \"\x7bB1\x7d|Data.dll;\"\n".toList ++
    "\tEndProjectSection\nEndProject\n".toList

def diskOfShop : MemoryDisk where
  files := [(⟨"/work/Shop/fake_Shop.sln".toList⟩, solutionOfShop)]

/-- The output folder and the site's name lead back to the folder of the solution. -/
def outputAbove : Options where
  solution := ⟨"/work/Shop/fake_Shop.sln".toList⟩
  output := ⟨"..".toList⟩

theorem input_kept_by_default :
    ∃ r d', Ends (execute ⟨"/".toList⟩ { solution := outputAbove.solution }) diskOfShop (.ok r) d' ∧
      d' ≠ diskOfShop ∧
      d'.file? (absolute ⟨"/".toList⟩ outputAbove.solution) =
        diskOfShop.file? (absolute ⟨"/".toList⟩ outputAbove.solution) := by
  have hrun : succeedsWith (execute ⟨"/".toList⟩ { solution := outputAbove.solution }) diskOfShop
      (fun _ d' => d' ≠ diskOfShop) = true := by decide +kernel
  obtain ⟨r, d', h, hc⟩ := exists_succeeds hrun
  have hread : diskOfShop.file? (absolute ⟨"/".toList⟩ outputAbove.solution) = some solutionOfShop := by
    decide +kernel
  have hplain : ∀ site ∈ (inspected (absolute ⟨"/".toList⟩ outputAbove.solution) solutionOfShop).sites,
      ∀ x ∈ site.references, IsName x.dll := by decide +kernel
  have hkept := input_of_execute (r := .ok r) h (by
    intro content site hf hs
    obtain rfl := Option.some.inj (hread.symm.trans hf)
    exact hplain site (List.mem_of_getElem? hs))
  have hout : ¬ (defaultOutput.isAbsolute = true ∨ .up ∈ defaultOutput.normalize.parts) := by decide
  exact ⟨r, d', h, of_decide_eq_true hc, hkept.resolve_right fun h => hout h.1⟩

/-- The copy of the solution is written over the solution. -/
theorem input_overwritten :
    ∃ r d', Succeeds (execute ⟨"/".toList⟩ outputAbove) diskOfShop r d' ∧
      (∀ x ∈ r.site.references, IsName x.dll) ∧
      diskOfShop.file? outputAbove.solution = some solutionOfShop ∧
      d'.file? outputAbove.solution ≠ some solutionOfShop := by
  have hrun : succeedsWith (execute ⟨"/".toList⟩ outputAbove) diskOfShop (fun r d' =>
      (∀ x ∈ r.site.references, IsName x.dll) ∧
      diskOfShop.file? outputAbove.solution = some solutionOfShop ∧
      d'.file? outputAbove.solution ≠ some solutionOfShop) = true := by decide +kernel
  obtain ⟨r, d', h, hc⟩ := exists_succeeds hrun
  exact ⟨r, d', h, of_decide_eq_true hc⟩

end SiteProject.Conversion
