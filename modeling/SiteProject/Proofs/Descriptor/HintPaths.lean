import SiteProject.Proofs.Descriptor.Formed
import SiteProject.Proofs.Xml.Tags

namespace SiteProject.Descriptor

open Xml (Among TagFree)
open Xml.Markup (Formed lines render renderAll)

/-- The lines of the reference to an assembly, with its hint. -/
def referenceLines (assembly hint : Text) : Text :=
  "    <Reference Include=\"".toList ++ Xml.escape assembly ++ "\">\n".toList ++
    ("      <HintPath>".toList ++ Xml.escapePath hint ++ "</HintPath>\n".toList) ++
    "      <Private>False</Private>\n".toList ++ "    </Reference>\n".toList

theorem render_reference (folder : Text) (hints : Reference.Hints) (r : Solution.Reference) :
    List.replicate (2 * 2) ' ' ++ render (reference folder hints r) ++ ['\n'] =
      referenceLines r.assemblyName ((hints.get? r.dll).getD (Reference.binHint folder r.dll)) := by
  have hopen : "    <Reference Include=\"".toList = List.replicate (2 * 2) ' ' ++
      (['<'] ++ "Reference".toList ++ ([' '] ++ "Include".toList ++ ['=', '"'])) := by decide
  have hvalue : "\">\n".toList = ['"'] ++ ['>', '\n'] := by decide
  have hhint : "      <HintPath>".toList =
      List.replicate (2 * (2 + 1)) ' ' ++ (['<'] ++ "HintPath".toList ++ ['>']) := by decide
  have hpath : "</HintPath>\n".toList = ['<', '/'] ++ "HintPath".toList ++ ['>', '\n'] := by decide
  have hprivate : "      <Private>False</Private>\n".toList = List.replicate (2 * (2 + 1)) ' ' ++
      (['<'] ++ "Private".toList ++ ['>'] ++ "False".toList) ++
        (['<', '/'] ++ "Private".toList ++ ['>', '\n']) := by decide
  have hend : "    </Reference>\n".toList =
      List.replicate (2 * 2) ' ' ++ (['<', '/'] ++ "Reference".toList ++ ['>', '\n']) := by decide
  have hlast : renderAll (lines (2 + 1) []) = [] := rfl
  unfold referenceLines reference
  simp only [hopen, hvalue, hhint, hpath, hprivate, hend]
  simp only [Xml.Markup.render_block, Xml.Markup.renderAll_lines_some, Xml.Markup.render_leaf, hlast]
  simp only [Xml.Markup.attributeText, List.flatMap_cons, List.flatMap_nil, List.append_nil,
    List.append_assoc, List.cons_append, List.nil_append]

theorem renderAll_references (folder : Text) (hints : Reference.Hints) (rs : List Solution.Reference) :
    renderAll (lines 2 (rs.map fun r => some (reference folder hints r))) = rs.flatMap fun r =>
      referenceLines r.assemblyName ((hints.get? r.dll).getD (Reference.binHint folder r.dll)) := by
  induction rs with
  | nil => rfl
  | cons r rs ih =>
    rw [List.map_cons, Xml.Markup.renderAll_lines_some, render_reference, ih, List.flatMap_cons]

theorem tagFree_of_formed {m : Xml.Markup} (hm : Formed m) (h : m.sparing 'H' = true) :
    TagFree 'H' (render m) :=
  Xml.Markup.tagFree_render (by decide) (by decide) hm h

/-- The references of a site stand one after the other, behind those of the framework, which have no hints. -/
theorem among_referenceGroup (folder : Text) (hints : Reference.Hints) (rs : List Solution.Reference) :
    Among 'H' (renderAll (lines 2 (rs.map fun r => some (reference folder hints r))))
      (render (referenceGroup folder hints rs)) := by
  refine Among.block (by decide) (by decide) Xml.attributesFormed_nil (by decide) ?_
  rw [Xml.Markup.lines_append, Xml.Markup.renderAll_append]
  refine (Among.refl _).behind (Xml.Markup.tagFree_lines ?_ 2)
  intro m hm
  simp only [List.mem_append, List.mem_cons, List.mem_map, Option.some.injEq, List.not_mem_nil,
    or_false, reduceCtorEq, false_or] at hm
  rcases hm with (rfl | ⟨n, hn, rfl⟩) | rfl
  · exact tagFree_of_formed (.comment (by decide)) (by decide)
  · exact tagFree_of_formed (formed_frameworkReference n hn) rfl
  · exact tagFree_of_formed (.comment (by decide)) (by decide)

theorem among_project (s : Solution.Site) (siteFolder : Text) (hints : Reference.Hints) :
    Among 'H' (renderAll (lines 2 (s.references.map fun r =>
      some (reference (Declared.trimSeparators siteFolder) hints r))))
        (render (project s siteFolder hints)) := by
  refine Among.block (by decide) (by decide) attributesFormed_project (by decide) ?_
  have hgroup := among_referenceGroup (Declared.trimSeparators siteFolder) hints s.references
  have hbefore : ∀ m, some m ∈ [some (propertyGroup s), none] → TagFree 'H' (render m) := by
    simpa using tagFree_of_formed (formed_propertyGroup s) rfl
  refine Among.lines hbefore hgroup ?_ 1
  intro m hm
  simp only [List.mem_cons, Option.some.injEq, List.not_mem_nil, or_false, reduceCtorEq, false_or] at hm
  rcases hm with rfl | rfl | rfl | rfl
  · exact tagFree_of_formed (formed_compileGroup _) rfl
  · exact tagFree_of_formed (formed_contentGroup _) rfl
  · exact tagFree_of_formed formed_import rfl
  · exact tagFree_of_formed formed_buildTarget rfl

theorem among_text (s : Solution.Site) (siteFolder : Text) (hints : Reference.Hints) :
    Among 'H' (s.references.flatMap fun r => referenceLines r.assemblyName
      ((hints.get? r.dll).getD (Reference.binHint (Declared.trimSeparators siteFolder) r.dll)))
        (text s siteFolder hints) := by
  have hpreamble : TagFree 'H' preamble := Xml.tagFree_of_cons (by decide) (by decide)
  have hcomments : ∀ m, some m ∈ [some (.comment "Generated by sln2csproj".toList),
      some (.comment "IntelliSense only: do not build this project".toList)] → TagFree 'H' (render m) := by
    intro m hm
    simp only [List.mem_cons, Option.some.injEq, List.not_mem_nil, or_false] at hm
    rcases hm with rfl | rfl
    · exact tagFree_of_formed (.comment (by decide)) (by decide)
    · exact tagFree_of_formed (.comment (by decide)) (by decide)
  have hproject := among_project s siteFolder hints
  rw [renderAll_references] at hproject
  exact (Among.lines hcomments hproject (by simp) 0).behind hpreamble

/-- The hints of a descriptor stand in the references of the site. -/
theorem exists_text_eq (s : Solution.Site) (siteFolder : Text) (hints : Reference.Hints) :
    ∃ before after, text s siteFolder hints = before ++ (s.references.flatMap fun r =>
        referenceLines r.assemblyName
          ((hints.get? r.dll).getD (Reference.binHint (Declared.trimSeparators siteFolder) r.dll))) ++ after ∧
      Text.contains "<HintPath>".toList before = false ∧ Text.contains "<HintPath>".toList after = false := by
  have hlead : "<HintPath>".toList = '<' :: 'H' :: "intPath>".toList := by decide
  obtain ⟨before, after, htext, hbefore, hafter⟩ := among_text s siteFolder hints
  refine ⟨before, after, htext, ?_, ?_⟩
  · rw [hlead]
    exact hbefore.contains_eq_false _
  · rw [hlead]
    exact hafter.contains_eq_false _

end SiteProject.Descriptor
