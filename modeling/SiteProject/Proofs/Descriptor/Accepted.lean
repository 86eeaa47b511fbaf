import SiteProject.Library.Metadata
import SiteProject.Proofs.Descriptor.Formed
import SiteProject.Proofs.Text.Class
import SiteProject.Proofs.Xml.Allowed

namespace SiteProject

namespace Xml

theorem isAllowed_of_toLower {c : Char} (h : isAllowed c.toLower = true) : isAllowed c = true := by
  by_cases hc : 'A'.val ≤ c.val ∧ c.val ≤ 'Z'.val
  · exact isAllowed_of_isUpper (decide_eq_true hc)
  · have hlower : c.toLower = c := dif_neg hc
    rwa [hlower] at h

theorem all_isAllowed_escapePath (s : Text) : (escapePath s).all isAllowed = s.all isAllowed := by
  rw [escapePath_eq, all_isAllowed_escape, Text.all_replace (by decide) (by decide)]

end Xml

namespace Solution.Reference

/-- The name of the binary, less a `.dll` at its end in whatever case. -/
def IsStem (r : Reference) (stem : Text) : Prop :=
  (∃ ext, r.dll = stem ++ ext ∧ Text.sameLetters ext dllExtension = true) ∨
    (stem = r.dll ∧ ∀ t ext, r.dll = t ++ ext → Text.sameLetters ext dllExtension = false)

theorem isStem_assemblyName (r : Reference) : r.IsStem r.assemblyName := by
  rw [assemblyName]
  split
  · next h => exact .inl ⟨_, (List.take_append_drop _ r.dll).symm, h⟩
  · next h =>
    refine .inr ⟨rfl, fun t ext ht => Bool.eq_false_iff.2 fun hext => h ?_⟩
    have hlength : ext.length = dllExtension.length := by
      have hlower : Text.lower ext = Text.lower dllExtension := eq_of_beq hext
      simpa [Text.lower] using congrArg List.length hlower
    have hcut : r.dll.length - dllExtension.length = t.length := by
      rw [ht, List.length_append, hlength]
      omega
    have hdrop : r.dll.drop t.length = ext := by rw [ht, List.drop_left]
    rw [hcut, hdrop]
    exact hext

theorem all_assemblyName (r : Reference) :
    r.assemblyName.all Xml.isAllowed = r.dll.all Xml.isAllowed := by
  rcases r.isStem_assemblyName with ⟨ext, hdll, hext⟩ | ⟨hdll, -⟩
  · have hextension : ext.all Xml.isAllowed = true := by
      refine List.all_eq_true.2 fun c hc => Xml.isAllowed_of_toLower ?_
      have hlower : Text.lower ext = Text.lower dllExtension := eq_of_beq hext
      have hmem : c.toLower ∈ Text.lower dllExtension := by
        rw [← hlower]
        exact List.mem_map_of_mem hc
      have hall : ∀ d ∈ Text.lower dllExtension, Xml.isAllowed d = true :=
        List.all_eq_true.1 (by decide)
      exact hall _ hmem
    have happend := congrArg (fun t => List.all t Xml.isAllowed) hdll
    rw [List.all_append, hextension, Bool.and_true] at happend
    exact happend.symm
  · rw [hdll]

end Solution.Reference

namespace Descriptor

open Xml (isAllowed)
open Xml.Markup (Allowed allowed_block allowed_leaf allowed_empty)

theorem allowed_propertyGroup {s : Solution.Site} : Allowed (propertyGroup s) ↔
    s.guid.all isAllowed = true ∧ s.name.all isAllowed = true ∧ s.framework.all isAllowed = true := by
  have hconfiguration : Allowed (.element "Configuration".toList
      [("Condition".toList, " '$(Configuration)' == '' ".toList)] [.chars "Debug".toList]) := by decide
  have hplatform : Allowed (.element "Platform".toList
      [("Condition".toList, " '$(Platform)' == '' ".toList)] [.chars "AnyCPU".toList]) := by decide
  have htype : "Library".toList.all isAllowed = true := by decide
  have hguid : (['\x7b'] ++ Xml.escape s.guid ++ ['\x7d']).all isAllowed = s.guid.all isAllowed := by
    have hopen : ['\x7b'].all isAllowed = true := by decide
    have hclose : ['\x7d'].all isAllowed = true := by decide
    rw [List.all_append, List.all_append, hopen, hclose, Xml.all_isAllowed_escape, Bool.true_and,
      Bool.and_true]
  rw [propertyGroup, allowed_block (by decide)]
  simp only [List.mem_cons, Option.some.injEq, List.not_mem_nil, or_false, forall_eq_or_imp, forall_eq]
  rw [allowed_leaf (by decide), allowed_leaf (by decide), allowed_leaf (by decide),
    allowed_leaf (by decide), allowed_leaf (by decide), hguid, Xml.all_isAllowed_escape,
    Xml.all_isAllowed_escape, Xml.all_isAllowed_escape, Text.all_replace (by decide) (by decide)]
  simp only [hconfiguration, hplatform, htype, true_and, false_implies, implies_true, and_self_left]

theorem allowed_frameworkReference : ∀ n ∈ frameworkAssemblies, Allowed (frameworkReference n) := by
  decide

theorem allowed_reference {folder : Text} {hints : Reference.Hints} {r : Solution.Reference} :
    Allowed (reference folder hints r) ↔ r.dll.all isAllowed = true ∧
      ((hints.get? r.dll).getD (Reference.binHint folder r.dll)).all isAllowed = true := by
  have hinclude : "Include".toList.all isAllowed = true := by decide
  have hprivate : "False".toList.all isAllowed = true := by decide
  rw [reference, allowed_block (by decide)]
  simp only [List.mem_cons, Option.some.injEq, List.not_mem_nil, or_false, forall_eq_or_imp, forall_eq]
  rw [allowed_leaf (by decide), allowed_leaf (by decide), Xml.all_isAllowed_escape,
    Xml.all_isAllowed_escapePath, r.all_assemblyName]
  simp only [hinclude, hprivate, true_and, and_true]

theorem allowed_referenceGroup {folder : Text} {hints : Reference.Hints}
    {rs : List Solution.Reference} : Allowed (referenceGroup folder hints rs) ↔
      ∀ r ∈ rs, Allowed (reference folder hints r) := by
  have hframework : Allowed (.comment "Framework references".toList) := by decide
  have hdeclared : Allowed (.comment "References declared by the Web Site".toList) := by decide
  rw [referenceGroup, allowed_block (by decide)]
  constructor
  · rintro ⟨-, h⟩ r hr
    exact h _ (List.mem_append_right _ (List.mem_map.2 ⟨r, hr, rfl⟩))
  · refine fun h => ⟨by simp, fun m hm => ?_⟩
    simp only [List.mem_append, List.mem_cons, List.mem_map, Option.some.injEq, List.not_mem_nil,
      or_false, reduceCtorEq, false_or] at hm
    rcases hm with ((rfl | ⟨n, hn, rfl⟩) | rfl) | ⟨r, hr, rfl⟩
    · exact hframework
    · exact allowed_frameworkReference n hn
    · exact hdeclared
    · exact h r hr

theorem all_below (folder : Text) (segments : List String) :
    (below folder segments).all isAllowed =
      (folder.all isAllowed && segments.all fun w => w.toList.all isAllowed) := by
  rw [below, Declared.all_join (by decide) (by decide) (by decide), List.all_map]
  rfl

theorem allowed_compileGroup {folder : Text} :
    Allowed (compileGroup folder) ↔ folder.all isAllowed = true := by
  have hinclude : "Include".toList.all isAllowed = true := by decide
  have hexclude : "Exclude".toList.all isAllowed = true := by decide
  have hsources : (["**", "*.cs"].all fun w => w.toList.all isAllowed) = true := by decide
  have hexcluded : ∀ p ∈ excluded, (p.all fun w => w.toList.all isAllowed) = true := by decide
  have hpatterns (h : folder.all isAllowed = true) :
      (Text.join [';'] (excluded.map (below folder))).all isAllowed = true := by
    rw [Text.all_join (by decide), List.all_map, List.all_eq_true]
    intro p hp
    rw [Function.comp_apply, all_below, h, hexcluded p hp]
    rfl
  rw [compileGroup, allowed_block (by decide)]
  simp only [List.mem_singleton, Option.some.injEq, forall_eq]
  rw [allowed_empty (by decide)]
  simp only [List.forall_mem_cons, Xml.all_isAllowed_escapePath, hinclude, hexclude, all_below,
    hsources, Bool.and_true, true_and]
  exact ⟨fun h => h.2.1, fun h => ⟨by simp, h, hpatterns h, by simp⟩⟩

theorem allowed_contentGroup {folder : Text} (h : folder.all isAllowed = true) :
    Allowed (contentGroup folder) := by
  have hextensions : ∀ ext ∈ contentExtensions,
      (["**", "*." ++ ext].all fun w => w.toList.all isAllowed) = true := by decide
  have hinclude : "Include".toList.all isAllowed = true := by decide
  rw [contentGroup, allowed_block (by decide)]
  refine ⟨by simp, fun m hm => ?_⟩
  obtain ⟨ext, hext, he⟩ := List.mem_map.1 hm
  obtain rfl := Option.some.inj he
  rw [allowed_empty (by decide), List.forall_mem_singleton, Xml.all_isAllowed_escapePath, all_below,
    h, hextensions ext hext]
  exact ⟨hinclude, rfl⟩

theorem allowed_buildTarget : Allowed buildTarget := by
  have htext : "[INFO] sln2csproj project for IntelliSense only".toList.all isAllowed = true := by
    rw [String.toList_ofList]
    decide
  have hname : "Text".toList.all isAllowed = true := by decide
  rw [buildTarget, allowed_block (by decide), List.forall_mem_singleton]
  refine ⟨by decide, fun m hm => ?_⟩
  simp only [List.mem_singleton, Option.some.injEq] at hm
  rw [hm, allowed_empty (by decide), List.forall_mem_cons, List.forall_mem_singleton]
  exact ⟨⟨hname, htext⟩, by decide⟩

/-- The texts that are put in for a reference. -/
def referenceInputs (hints : Reference.Hints) (r : Solution.Reference) : List Text :=
  r.dll :: (hints.get? r.dll).toList

/-- The texts that are put into a descriptor. -/
def inputs (s : Solution.Site) (siteFolder : Text) (hints : Reference.Hints) : List Text :=
  [s.guid, s.name, s.framework, siteFolder] ++ s.references.flatMap (referenceInputs hints)

theorem allowed_reference_iff {folder : Text} (h : folder.all isAllowed = true)
    {hints : Reference.Hints} {r : Solution.Reference} : Allowed (reference folder hints r) ↔
      ∀ t ∈ referenceInputs hints r, t.all isAllowed = true := by
  rw [allowed_reference, referenceInputs, List.forall_mem_cons]
  cases hints.get? r.dll with
  | none =>
    rw [Option.getD_none, Reference.all_binHint (by decide) (by decide) (by decide) (by decide), h,
      Bool.true_and]
    simp only [and_self, Option.toList_none, List.not_mem_nil, false_implies, implies_true, and_true]
  | some hint => simp only [Option.getD_some, Option.toList_some, List.mem_singleton, forall_eq]

theorem allowed_project {s : Solution.Site} {siteFolder : Text} {hints : Reference.Hints} :
    Allowed (project s siteFolder hints) ↔
      ∀ t ∈ inputs s siteFolder hints, t.all isAllowed = true := by
  have hfolder : (Declared.trimSeparators siteFolder).all isAllowed = siteFolder.all isAllowed :=
    Declared.all_trimSeparators (by decide) (by decide) siteFolder
  have himport : Allowed (.empty "Import".toList
      [("Project".toList, "$(MSBuildToolsPath)\\Microsoft.CSharp.targets".toList)]) := by decide
  have hversion : "ToolsVersion".toList.all isAllowed = true ∧ "15.0".toList.all isAllowed = true := by
    decide
  have hspace : "xmlns".toList.all isAllowed = true ∧
      "http://schemas.microsoft.com/developer/msbuild/2003".toList.all isAllowed = true :=
    ⟨by decide, Xml.all_isAllowed_of_isOrdinary msbuildSpace_formed.2.1⟩
  rw [project, allowed_block (by decide)]
  simp only [hversion, hspace, List.mem_cons, Option.some.injEq, List.not_mem_nil, or_false,
    reduceCtorEq, false_or, forall_eq_or_imp, forall_eq, himport, allowed_buildTarget,
    allowed_propertyGroup, allowed_referenceGroup, allowed_compileGroup, hfolder, and_true, true_and]
  simp only [inputs, List.forall_mem_append, List.forall_mem_cons, List.mem_flatMap]
  constructor
  · rintro ⟨⟨hguid, hname, hframework⟩, hreferences, hsite, -⟩
    refine ⟨⟨hguid, hname, hframework, hsite, by simp⟩, ?_⟩
    rintro t ⟨r, hr, ht⟩
    exact (allowed_reference_iff (hfolder.trans hsite)).1 (hreferences r hr) t ht
  · rintro ⟨⟨hguid, hname, hframework, hsite, -⟩, hreferences⟩
    refine ⟨⟨hguid, hname, hframework⟩, fun r hr => ?_, hsite,
      allowed_contentGroup (hfolder.trans hsite)⟩
    exact (allowed_reference_iff (hfolder.trans hsite)).2 fun t ht => hreferences t ⟨r, hr, ht⟩

/-- What follows the declaration. -/
def body (root : Xml.Markup) : Text :=
  Xml.Markup.renderAll (Xml.Markup.lines 0
    [some (.comment "Generated by sln2csproj".toList),
     some (.comment "IntelliSense only: do not build this project".toList), some root])

theorem body_eq (root : Xml.Markup) : body root =
    Xml.Markup.render (.comment "Generated by sln2csproj".toList) ++ '\n' ::
      (Xml.Markup.render (.comment "IntelliSense only: do not build this project".toList) ++ '\n' ::
        (Xml.Markup.render root ++ ['\n'])) := by
  simp only [body, Xml.Markup.lines, Xml.Markup.renderAll, Xml.Markup.render_chars, Nat.mul_zero,
    List.replicate_zero, List.nil_append, List.append_nil, List.singleton_append]

theorem text_eq (s : Solution.Site) (siteFolder : Text) (hints : Reference.Hints) :
    text s siteFolder hints = preamble ++ body (project s siteFolder hints) := rfl

theorem skipAsides?_body (root : Xml.Markup) :
    Xml.skipAsides? ('\n' :: body root) = Xml.skipAsides? (root.render ++ ['\n']) := by
  rw [body_eq, Xml.skipAsides?_space (by decide), Xml.skipAsides?_comment (by decide) (by decide),
    Xml.skipAsides?_space (by decide), Xml.skipAsides?_comment (by decide) (by decide),
    Xml.skipAsides?_space (by decide)]

theorem declaration?_preamble (t : Text) :
    Xml.declaration? ((preamble ++ t).drop 5) = some ('\n' :: t) := by
  have hlead : preamble.drop 5 = " version=\"1.0\" encoding=\"utf-8\"?>\n".toList := by decide
  rw [List.drop_append_of_le_length (by decide), hlead]
  rfl

/-- A descriptor is read as the nodes of its project, where it may be read at all. -/
theorem parse?_text {s : Solution.Site} {siteFolder : Text} {hints : Reference.Hints}
    (h : Allowed (project s siteFolder hints)) :
    Xml.parse? (text s siteFolder hints) = some (project s siteFolder hints).node := by
  have hformed := formed_project s siteFolder hints
  have hbody := text_eq s siteFolder hints
  obtain ⟨n, as, cs, hroot⟩ : ∃ n as cs, project s siteFolder hints = .element n as cs :=
    ⟨_, _, _, rfl⟩
  rw [hroot] at h hformed hbody ⊢
  have hlead : Text.startsWith "<?xml ".toList (text s siteFolder hints) = true := by
    have hpreamble : preamble = "<?xml ".toList ++ preamble.drop 6 := by decide
    rw [hbody, hpreamble, List.append_assoc, Text.startsWith, Text.after?_append]
    rfl
  have hend : Xml.skipAsides? ['\n'] = some [] := by
    rw [Xml.skipAsides?_space (by decide), Xml.skipAsides?_nil]
  rw [hbody] at hlead ⊢
  exact Xml.parse?_formed hformed h hlead (declaration?_preamble _) (skipAsides?_body _) hend

/-- No byte-order mark stands in front of a descriptor. -/
theorem metadata_parse?_text (s : Solution.Site) (siteFolder : Text) (hints : Reference.Hints) :
    Library.Metadata.parse? (text s siteFolder hints) =
      (Xml.parse? (text s siteFolder hints)).map Library.Metadata.ofRoot := by
  have hmark : (text s siteFolder hints).dropWhile (· == '\uFEFF') = text s siteFolder hints := by
    have hpreamble : preamble = '<' :: preamble.tail := by decide
    rw [text, hpreamble]
    exact List.dropWhile_cons_of_neg (by decide)
  rw [Library.Metadata.parse?, hmark]

theorem isSome_parse?_text (s : Solution.Site) (siteFolder : Text) (hints : Reference.Hints) :
    (Library.Metadata.parse? (text s siteFolder hints)).isSome = true ↔
      Allowed (project s siteFolder hints) := by
  rw [metadata_parse?_text, Option.isSome_map]
  constructor
  · intro h
    obtain ⟨root, hroot⟩ := Option.isSome_iff_exists.1 h
    have hall := Xml.all_isAllowed_of_parse? hroot
    rw [text_eq, body_eq] at hall
    simp only [List.all_append, List.all_cons, Bool.and_eq_true] at hall
    exact hall.2.2.2.2.2.1
  · intro h
    rw [parse?_text h]
    rfl

/-- A descriptor is accepted exactly where no character is put into it that may stand in no
document. -/
theorem parse?_text_isSome_iff (s : Solution.Site) (siteFolder : Text) (hints : Reference.Hints) :
    (Library.Metadata.parse? (text s siteFolder hints)).isSome = true ↔
      ∀ t ∈ inputs s siteFolder hints, t.all isAllowed = true :=
  (isSome_parse?_text s siteFolder hints).trans allowed_project

/-- A site with a control character in its name, which a solution may give it. -/
def controlSite : Solution.Site where
  name := ['A', '\x01']
  guid := "A1".toList
  physicalPath := ['a']
  framework := "v3.5".toList
  references := []

theorem controlSite_is_refused :
    Library.Metadata.parse? (text controlSite "..\\..\\..\\a".toList {}) = none := by
  have hname : controlSite.name ∈ inputs controlSite "..\\..\\..\\a".toList {} := by
    simp [inputs]
  have hcontrol : controlSite.name.all isAllowed = false := by decide
  refine Option.not_isSome_iff_eq_none.1 fun h => ?_
  have hall := allowed_project.1 ((isSome_parse?_text _ _ _).1 h) _ hname
  rw [hcontrol] at hall
  exact Bool.false_ne_true hall

end Descriptor
end SiteProject
