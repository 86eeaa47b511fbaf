import SiteProject.Descriptor
import SiteProject.Proofs.Xml.Block

namespace SiteProject

namespace Xml

theorem Token.charsFormed_escapePath (s : Text) : Token.CharsFormed (escapePath s) := by
  rw [escapePath_eq]
  exact charsFormed_escape _

theorem attributeFormed_escapePath {n : Text} (hn : isWord n = true) (s : Text) :
    AttributeFormed (n, escapePath s) := by
  rw [escapePath_eq]
  exact attributeFormed_escape hn _

end Xml

namespace Descriptor

open Xml (isPlain isWord attributesFormed_nil attributesFormed_singleton attributesFormed_of_names
  attributeFormed_escape attributeFormed_escapePath attributeFormed_plain)
open Xml.Markup (Formed formed_leaf formed_block)
open Xml.Token (CharsFormed charsFormed_escape charsFormed_escapePath charsFormed_plain)

theorem formed_propertyGroup (s : Solution.Site) : Formed (propertyGroup s) := by
  have hcondition {n : String} {v w : Text} (hn : isWord n.toList = true) (hv : isPlain v = true)
      (hw : isPlain w = true) :
      Formed (.element n.toList [("Condition".toList, v)] [.chars w]) := by
    have hv : Xml.AttributeFormed ("Condition".toList, v) := attributeFormed_plain (by decide) hv
    exact .element hn (attributesFormed_singleton hv (by decide))
      (by simpa using .chars (charsFormed_plain hw))
  have hguid : CharsFormed (['\x7b'] ++ Xml.escape s.guid ++ ['\x7d']) :=
    ((charsFormed_plain (by decide)).append (charsFormed_escape s.guid)).append
      (charsFormed_plain (by decide))
  refine formed_block (by decide) attributesFormed_nil fun m hm => ?_
  simp only [List.mem_cons, Option.some.injEq, List.not_mem_nil, or_false] at hm
  rcases hm with rfl | rfl | rfl | rfl | rfl | rfl | rfl
  · exact hcondition (by decide) (by decide) (by decide)
  · exact hcondition (by decide) (by decide) (by decide)
  · exact formed_leaf (by decide) hguid
  · exact formed_leaf (by decide) (charsFormed_plain (by decide))
  · exact formed_leaf (by decide) (charsFormed_escape _)
  · exact formed_leaf (by decide) (charsFormed_escape _)
  · exact formed_leaf (by decide) (charsFormed_escape _)

theorem formed_frameworkReference : ∀ n ∈ frameworkAssemblies, Formed (frameworkReference n) := by
  intro n hn
  have hplain : ∀ n ∈ frameworkAssemblies, isPlain n.toList = true := by decide
  have hinclude := attributeFormed_plain (n := "Include".toList) (by decide) (hplain n hn)
  exact .empty (by decide) (attributesFormed_singleton hinclude (by decide))

theorem formed_reference (folder : Text) (hints : Reference.Hints) (r : Solution.Reference) :
    Formed (reference folder hints r) := by
  have hinclude := attributeFormed_escape (n := "Include".toList) (by decide) r.assemblyName
  refine formed_block (by decide) (attributesFormed_singleton hinclude (by decide)) fun m hm => ?_
  simp only [List.mem_cons, Option.some.injEq, List.not_mem_nil, or_false] at hm
  rcases hm with rfl | rfl
  · exact formed_leaf (by decide) (charsFormed_escapePath _)
  · exact formed_leaf (by decide) (charsFormed_plain (by decide))

theorem formed_referenceGroup (folder : Text) (hints : Reference.Hints)
    (rs : List Solution.Reference) : Formed (referenceGroup folder hints rs) := by
  refine formed_block (by decide) attributesFormed_nil fun m hm => ?_
  simp only [List.mem_append, List.mem_cons, List.mem_map, Option.some.injEq, List.not_mem_nil,
    or_false, reduceCtorEq, false_or] at hm
  rcases hm with ((rfl | ⟨n, hn, rfl⟩) | rfl) | ⟨r, -, rfl⟩
  · exact .comment (by decide)
  · exact formed_frameworkReference n hn
  · exact .comment (by decide)
  · exact formed_reference folder hints r

theorem formed_compileGroup (folder : Text) : Formed (compileGroup folder) := by
  refine formed_block (by decide) attributesFormed_nil fun m hm => ?_
  simp only [List.mem_singleton, Option.some.injEq] at hm
  subst hm
  have hinclude := attributeFormed_escapePath (n := "Include".toList) (by decide)
    (below folder ["**", "*.cs"])
  have hexclude := attributeFormed_escapePath (n := "Exclude".toList) (by decide)
    (Text.join [';'] (excluded.map (below folder)))
  exact .empty (by decide) (attributesFormed_of_names ["Include".toList, "Exclude".toList]
    (by simpa using ⟨hinclude, hexclude⟩) rfl (by decide) (by decide))

theorem formed_contentGroup (folder : Text) : Formed (contentGroup folder) := by
  refine formed_block (by decide) attributesFormed_nil fun m hm => ?_
  obtain ⟨ext, -, he⟩ := List.mem_map.1 hm
  obtain rfl := Option.some.inj he
  have hinclude := attributeFormed_escapePath (n := "Include".toList) (by decide)
    (below folder ["**", "*." ++ ext])
  exact .empty (by decide) (attributesFormed_singleton hinclude (by decide))

theorem formed_buildTarget : Formed buildTarget := by
  have hname := attributeFormed_plain (n := "Name".toList) (w := "Build".toList) (by decide) (by decide)
  refine formed_block (by decide) (attributesFormed_singleton hname (by decide)) fun m hm => ?_
  simp only [List.mem_singleton, Option.some.injEq] at hm
  subst hm
  have hplain : isPlain "[INFO] sln2csproj project for IntelliSense only".toList = true := by
    rw [String.toList_ofList]
    decide
  have htext := attributeFormed_plain (n := "Text".toList) (by decide) hplain
  have himportance := attributeFormed_plain (n := "Importance".toList) (w := "high".toList)
    (by decide) (by decide)
  exact .empty (by decide) (attributesFormed_of_names ["Text".toList, "Importance".toList]
    (by simpa using ⟨htext, himportance⟩) rfl (by decide) (by decide))

/-- The name space of a project. -/
def msbuildSpace : Text := "http://schemas.microsoft.com/developer/msbuild/2003".toList

/-- The name space marks nothing up, and it is none of the reserved ones. -/
theorem msbuildSpace_formed : isPlain msbuildSpace = true ∧ msbuildSpace.all Xml.isOrdinary = true ∧
    msbuildSpace ≠ Xml.Scope.xmlSpace ∧ msbuildSpace ≠ Xml.Scope.xmlnsSpace := by
  unfold msbuildSpace
  rw [String.toList_ofList]
  decide

theorem attributesFormed_project : Xml.AttributesFormed
    [("ToolsVersion".toList, "15.0".toList), ("xmlns".toList, msbuildSpace)] := by
  obtain ⟨hplain, hordinary, hreserved⟩ := msbuildSpace_formed
  have hversion := attributeFormed_plain (n := "ToolsVersion".toList) (w := "15.0".toList)
    (by decide) (by decide)
  have hspace := attributeFormed_plain (n := "xmlns".toList) (by decide) hplain
  have hvalue := Xml.Attribute.ofWritten_eq (n := "xmlns".toList) (Xml.spells_of_isPlain hplain)
    (Xml.map_char_plain _) hordinary
  refine ⟨by simpa using ⟨hversion, hspace⟩, ?_, ?_⟩
  · have hnames : ["ToolsVersion".toList, "xmlns".toList].Nodup := by decide
    exact hnames
  · have hne : "ToolsVersion".toList ≠ Xml.Scope.xmlns := by decide
    simp only [List.forall_mem_cons, hvalue]
    exact ⟨fun h => absurd h hne, fun _ => hreserved, by simp⟩

theorem formed_import : Formed (.empty "Import".toList
    [("Project".toList, "$(MSBuildToolsPath)\\Microsoft.CSharp.targets".toList)]) := by
  have hplain : isPlain "$(MSBuildToolsPath)\\Microsoft.CSharp.targets".toList = true := by
    rw [String.toList_ofList]
    decide
  have himport := attributeFormed_plain (n := "Project".toList) (by decide) hplain
  exact .empty (by decide) (attributesFormed_singleton himport (by decide))

/-- Names and paths are escaped, so they cannot mark anything up. -/
theorem formed_project (s : Solution.Site) (siteFolder : Text) (hints : Reference.Hints) :
    Formed (project s siteFolder hints) := by
  refine formed_block (by decide) attributesFormed_project fun m hm => ?_
  simp only [List.mem_cons, Option.some.injEq, List.not_mem_nil, or_false, reduceCtorEq,
    false_or] at hm
  rcases hm with rfl | rfl | rfl | rfl | rfl | rfl
  · exact formed_propertyGroup s
  · exact formed_referenceGroup _ hints s.references
  · exact formed_compileGroup _
  · exact formed_contentGroup _
  · exact formed_import
  · exact formed_buildTarget

end Descriptor
end SiteProject
