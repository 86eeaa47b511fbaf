import SiteProject.Proofs.Descriptor.Accepted
import SiteProject.Proofs.Xml.Elements

namespace SiteProject

namespace Xml.Node

/-- The texts of the elements with a name. -/
def textsOf (name : String) (root : Node) : List Text :=
  (root.descendants.filter (·.isElement name.toList)).map fun n => n.leadText?.getD []

/-- The references of a project: what each includes, and its hint paths. -/
def references (root : Node) : List (Option Text × List Text) :=
  (root.descendants.filter (·.isElement "Reference".toList)).map fun n =>
    (n.attribute? "Include".toList,
      (n.children.filter (·.isElement "HintPath".toList)).map fun c => c.leadText?.getD [])

end Xml.Node

namespace Descriptor

open Xml (isOrdinary)
open Xml.Markup (node tagged taggedIn tagged_block tagged_leaf)

/-- The properties of a site, as they are written. -/
def properties (s : Solution.Site) : List (String × Text) :=
  [("ProjectGuid", ['\x7b'] ++ Xml.escape s.guid ++ ['\x7d']), ("OutputType", "Library".toList),
   ("RootNamespace", Xml.escape (Text.replace '.' '_' s.name)), ("AssemblyName", Xml.escape s.name),
   ("TargetFrameworkVersion", Xml.escape s.framework)]

def propertyNames : List String :=
  ["ProjectGuid", "OutputType", "RootNamespace", "AssemblyName", "TargetFrameworkVersion"]

theorem filter_eq_singleton {ps : List (String × Text)}
    (h : ps.Pairwise fun p q => Text.sameLetters p.1.toList q.1.toList = false) {p : String × Text}
    (hp : p ∈ ps) : ps.filter (fun q => Text.sameLetters q.1.toList p.1.toList) = [p] := by
  induction ps with
  | nil => cases hp
  | cons q ps ih =>
    obtain ⟨hq, hps⟩ := List.pairwise_cons.1 h
    rcases List.mem_cons.1 hp with rfl | hp
    · have hrest : ps.filter (fun q => Text.sameLetters q.1.toList p.1.toList) = [] := by
        refine List.filter_eq_nil_iff.2 fun r hr => ?_
        rw [Text.sameLetters_comm, hq r hr]
        decide
      rw [List.filter_cons_of_pos (by exact Text.sameLetters_refl _), hrest]
    · rw [List.filter_cons_of_neg (by rw [hq p hp]; decide), ih hps hp]

theorem filter_properties {s : Solution.Site} {p : String × Text} (hp : p ∈ properties s) :
    (properties s).filter (fun q => Text.sameLetters q.1.toList p.1.toList) = [p] := by
  have hnames : (properties s).map Prod.fst = propertyNames := rfl
  have hdifferent : propertyNames.Pairwise fun m n =>
      Text.sameLetters m.toList n.toList = false := by decide
  rw [← hnames, List.pairwise_map] at hdifferent
  exact filter_eq_singleton hdifferent hp

variable {name : Text}

theorem filter_properties_eq_nil (h : ∀ n ∈ propertyNames, Text.sameLetters n.toList name = false)
    (s : Solution.Site) : (properties s).filter (fun p => Text.sameLetters p.1.toList name) = [] := by
  have hnames : (properties s).map Prod.fst = propertyNames := rfl
  refine List.filter_eq_nil_iff.2 fun p hp => ?_
  rw [h p.1 (hnames ▸ List.mem_map_of_mem hp)]
  decide

theorem flatMap_tagged_somes {α : Type} {f : α → Xml.Markup} {q : α → Bool}
    (h : ∀ a, tagged name (f a) = if q a then [f a] else []) (as : List α) :
    ((as.map fun a => some (f a)).filterMap id).flatMap (tagged name) = (as.filter q).map f := by
  induction as with
  | nil => rfl
  | cons a as ih =>
    rw [List.map_cons, List.filterMap_cons, id, List.flatMap_cons, h, ih, List.filter_cons]
    split <;> rfl

theorem filter_const {α : Type} (b : Bool) (as : List α) :
    as.filter (fun _ => b) = if b then as else [] := by
  cases b with
  | true => exact List.filter_eq_self.2 (by simp)
  | false => exact List.filter_eq_nil_iff.2 (by simp)

theorem propertyGroup_eq (s : Solution.Site) : propertyGroup s = .block 1 "PropertyGroup" []
    ([some (.element "Configuration".toList
        [("Condition".toList, " '$(Configuration)' == '' ".toList)] [.chars "Debug".toList]),
      some (.element "Platform".toList
        [("Condition".toList, " '$(Platform)' == '' ".toList)] [.chars "AnyCPU".toList])] ++
      (properties s).map fun p => some (.leaf p.1 p.2)) := rfl

theorem tagged_propertyGroup (hc : Text.sameLetters "Configuration".toList name = false)
    (hp : Text.sameLetters "Platform".toList name = false) (s : Solution.Site) :
    tagged name (propertyGroup s) =
      (if Text.sameLetters "PropertyGroup".toList name then [propertyGroup s] else []) ++
        ((properties s).filter fun p => Text.sameLetters p.1.toList name).map fun p =>
          Xml.Markup.leaf p.1 p.2 := by
  have hleaf (p : String × Text) : tagged name (.leaf p.1 p.2) =
      if Text.sameLetters p.1.toList name then [.leaf p.1 p.2] else [] := tagged_leaf p.1 p.2
  rw [propertyGroup_eq, tagged_block, List.filterMap_append, List.flatMap_append,
    flatMap_tagged_somes hleaf]
  simp only [List.filterMap_cons, List.filterMap_nil, id, List.flatMap_cons, List.flatMap_nil, tagged,
    taggedIn, hc, hp, Bool.false_eq_true, if_false, List.append_nil, List.nil_append]

theorem tagged_reference (hh : Text.sameLetters "HintPath".toList name = false)
    (hp : Text.sameLetters "Private".toList name = false) (folder : Text) (hints : Reference.Hints)
    (r : Solution.Reference) : tagged name (reference folder hints r) =
      if Text.sameLetters "Reference".toList name then [reference folder hints r] else [] := by
  rw [reference, tagged_block]
  simp only [List.filterMap_cons, List.filterMap_nil, id, List.flatMap_cons, List.flatMap_nil,
    tagged_leaf, hh, hp, Bool.false_eq_true, if_false, List.append_nil]

/-- The references of a descriptor: first the framework's, then those that the site declares. -/
theorem tagged_referenceGroup (hg : Text.sameLetters "ItemGroup".toList name = false)
    (hh : Text.sameLetters "HintPath".toList name = false)
    (hp : Text.sameLetters "Private".toList name = false) (folder : Text) (hints : Reference.Hints)
    (rs : List Solution.Reference) : tagged name (referenceGroup folder hints rs) =
      if Text.sameLetters "Reference".toList name then
        frameworkAssemblies.map frameworkReference ++ rs.map (reference folder hints) else [] := by
  have hone (n : String) : tagged name (frameworkReference n) =
      if Text.sameLetters "Reference".toList name then [frameworkReference n] else [] := rfl
  have hframework := flatMap_tagged_somes hone frameworkAssemblies
  have hdeclared := flatMap_tagged_somes (tagged_reference hh hp folder hints) rs
  rw [referenceGroup, tagged_block, hg, List.filterMap_append, List.filterMap_append,
    List.filterMap_append, List.flatMap_append, List.flatMap_append, List.flatMap_append, hframework,
    hdeclared, filter_const, filter_const]
  simp only [List.filterMap_cons, List.filterMap_nil, id, List.flatMap_cons, List.flatMap_nil, tagged,
    Bool.false_eq_true, if_false, List.nil_append, List.append_nil]
  split <;> rfl

theorem tagged_contentGroup (hg : Text.sameLetters "ItemGroup".toList name = false)
    (hc : Text.sameLetters "Content".toList name = false) (folder : Text) :
    tagged name (contentGroup folder) = [] := by
  have hone (ext : String) : tagged name (.empty "Content".toList
      [("Include".toList, Xml.escapePath (below folder ["**", "*." ++ ext]))]) =
      if Text.sameLetters "Content".toList name then [.empty "Content".toList
        [("Include".toList, Xml.escapePath (below folder ["**", "*." ++ ext]))]] else [] := rfl
  have hextensions := flatMap_tagged_somes hone contentExtensions
  rw [contentGroup, tagged_block, hg, hextensions, filter_const, hc]
  rfl

/-- The names of the elements that hold neither a property nor a reference. -/
def outerNames : List String :=
  ["Project", "ItemGroup", "Compile", "Content", "Import", "Target", "Message"]

theorem tagged_project (h : ∀ n ∈ outerNames, Text.sameLetters n.toList name = false)
    (s : Solution.Site) (siteFolder : Text) (hints : Reference.Hints) :
    tagged name (project s siteFolder hints) = tagged name (propertyGroup s) ++
      tagged name (referenceGroup (Declared.trimSeparators siteFolder) hints s.references) := by
  simp only [outerNames, List.mem_cons, List.not_mem_nil, or_false, forall_eq_or_imp, forall_eq] at h
  obtain ⟨hproject, hgroup, hcompile, hcontent, himport, htarget, hmessage⟩ := h
  rw [project, tagged_block, hproject]
  simp only [List.filterMap_cons, List.filterMap_nil, id, List.flatMap_cons, List.flatMap_nil,
    compileGroup, buildTarget, tagged_block, tagged_contentGroup hgroup hcontent, tagged, hgroup,
    hcompile, himport, htarget, hmessage, Bool.false_eq_true, if_false, List.append_nil,
    List.nil_append]

theorem decode_guid {t : Text} (h : t.all isOrdinary = true) :
    Xml.Token.decode (['\x7b'] ++ Xml.escape t ++ ['\x7d']) = ['\x7b'] ++ t ++ ['\x7d'] := by
  have hopen : Xml.Spells ['\x7b'] _ := Xml.spells_of_isPlain (by decide)
  have hclose : Xml.Spells ['\x7d'] _ := Xml.spells_of_isPlain (by decide)
  refine Xml.Token.decode_eq ((hopen.append (Xml.spells_escape t)).append hclose) ?_ ?_
  · rw [List.map_append, List.map_append, Xml.map_char_mark]
    rfl
  · rw [List.all_append, List.all_append, h]
    decide

theorem decode_escape {t : Text} (h : t.all isOrdinary = true) :
    Xml.Token.decode (Xml.escape t) = t :=
  Xml.Token.decode_eq (Xml.spells_escape t) (Xml.map_char_mark t) h

theorem leadText?_getD_leaf (n : String) (w : Text) :
    (node (Xml.Markup.leaf n w)).leadText?.getD [] = Xml.Token.decode w := by
  have hempty : Xml.Token.decode [] = [] :=
    Xml.Token.decode_eq Xml.Spells.nil rfl rfl
  rw [Xml.Markup.leadText?_leaf]
  split
  · next h => rw [h, hempty]; rfl
  · rfl

/-- No other element has the name of a property. -/
theorem tagged_property {s : Solution.Site} {p : String × Text} (hp : p ∈ properties s)
    (siteFolder : Text) (hints : Reference.Hints) :
    tagged p.1.toList (project s siteFolder hints) = [Xml.Markup.leaf p.1 p.2] := by
  have h : ∀ n ∈ propertyNames, ∀ m ∈ "PropertyGroup" :: "Configuration" :: "Platform" ::
      "Reference" :: "HintPath" :: "Private" :: outerNames,
      Text.sameLetters m.toList n.toList = false := by decide
  have hnames : (properties s).map Prod.fst = propertyNames := rfl
  have h := h p.1 (hnames ▸ List.mem_map_of_mem hp)
  simp only [List.forall_mem_cons] at h
  obtain ⟨hg, hc, hplatform, hr, hh, hprivate, houter⟩ := h
  have hitem : Text.sameLetters "ItemGroup".toList p.1.toList = false :=
    houter _ (by simp [outerNames])
  rw [tagged_project houter, tagged_propertyGroup hc hplatform, hg,
    tagged_referenceGroup hitem hh hprivate, hr, filter_properties hp]
  rfl

theorem textsOf_project {s : Solution.Site} {p : String × Text} (hp : p ∈ properties s)
    (siteFolder : Text) (hints : Reference.Hints) :
    (node (project s siteFolder hints)).textsOf p.1 = [Xml.Token.decode p.2] := by
  rw [Xml.Node.textsOf, Xml.Markup.filter_descendants, tagged_property hp]
  exact congrArg (fun t => [t]) (leadText?_getD_leaf p.1 p.2)

/-- What is read of a reference. -/
def itemOf (n : Xml.Node) : Option Text × List Text :=
  (n.attribute? "Include".toList,
    (n.children.filter (·.isElement "HintPath".toList)).map fun c => c.leadText?.getD [])

theorem itemOf_frameworkReference : ∀ n ∈ frameworkAssemblies,
    itemOf (node (frameworkReference n)) = (some n.toList, []) := by
  intro n hn
  have hplain : ∀ n ∈ frameworkAssemblies,
      (Xml.isPlain n.toList && n.toList.all isOrdinary) = true := by decide
  obtain ⟨hp, ho⟩ := Bool.and_eq_true_iff.1 (hplain n hn)
  have hinclude := Xml.Attribute.ofWritten_eq (n := "Include".toList) (Xml.spells_of_isPlain hp)
    (Xml.map_char_plain _) ho
  rw [itemOf, frameworkReference, node, Xml.Markup.attribute?_singleton (by decide) hinclude]
  rfl

/-- The hint path of a reference. -/
def hintOf (siteFolder : Text) (hints : Reference.Hints) (r : Solution.Reference) : Text :=
  (hints.get? r.dll).getD (Reference.binHint (Declared.trimSeparators siteFolder) r.dll)

theorem itemOf_reference {siteFolder : Text} {hints : Reference.Hints} {r : Solution.Reference}
    (hname : r.assemblyName.all isOrdinary = true)
    (hhint : (hintOf siteFolder hints r).all isOrdinary = true) :
    itemOf (node (reference (Declared.trimSeparators siteFolder) hints r)) =
      (some r.assemblyName, [Text.replace '/' '\\' (hintOf siteFolder hints r)]) := by
  have hinclude := Xml.Attribute.ofWritten_eq (n := "Include".toList)
    (Xml.spells_escape r.assemblyName) (Xml.map_char_mark _) hname
  have hpath : Xml.Token.decode (Xml.escapePath (hintOf siteFolder hints r)) =
      Text.replace '/' '\\' (hintOf siteFolder hints r) := by
    rw [Xml.escapePath_eq]
    exact decode_escape ((Text.all_replace (by decide) (by decide) _).trans hhint)
  have hattribute : (node (reference (Declared.trimSeparators siteFolder) hints r)).attribute?
      "Include".toList = some r.assemblyName :=
    Xml.Markup.attribute?_singleton (by decide) hinclude _ _
  have hleaf : (node (reference (Declared.trimSeparators siteFolder) hints r)).children.filter
      (·.isElement "HintPath".toList) =
        [node (.leaf "HintPath" (Xml.escapePath (hintOf siteFolder hints r)))] := by
    rw [reference, Xml.Markup.filter_children_block]
    rfl
  rw [itemOf, hattribute, hleaf, List.map_singleton, leadText?_getD_leaf, hpath]

theorem references_project {s : Solution.Site} {siteFolder : Text} {hints : Reference.Hints}
    (h : ∀ r ∈ s.references, r.assemblyName.all isOrdinary = true ∧
      (hintOf siteFolder hints r).all isOrdinary = true) :
    (node (project s siteFolder hints)).references =
      frameworkAssemblies.map (fun n => (some n.toList, [])) ++ s.references.map fun r =>
        (some r.assemblyName, [Text.replace '/' '\\' (hintOf siteFolder hints r)]) := by
  have htagged : tagged "Reference".toList (project s siteFolder hints) =
      frameworkAssemblies.map frameworkReference ++
        s.references.map (reference (Declared.trimSeparators siteFolder) hints) := by
    have hgroup : Text.sameLetters "PropertyGroup".toList "Reference".toList = false := by decide
    rw [tagged_project (by decide), tagged_propertyGroup (by decide) (by decide), hgroup,
      filter_properties_eq_nil (by decide),
      tagged_referenceGroup (by decide) (by decide) (by decide), Text.sameLetters_refl]
    rfl
  have hitems : (node (project s siteFolder hints)).references =
      ((tagged "Reference".toList (project s siteFolder hints)).map node).map itemOf := by
    rw [← Xml.Markup.filter_descendants]
    rfl
  rw [hitems, htagged, List.map_append, List.map_append, List.map_map, List.map_map, List.map_map,
    List.map_map]
  congr 1
  · exact List.map_congr_left itemOf_frameworkReference
  · exact List.map_congr_left fun r hr => itemOf_reference (h r hr).1 (h r hr).2

theorem content?_leaf (n : String) (w : Text) :
    Library.Metadata.content? (node (.leaf n w)) =
      (some (Text.trim (Xml.Token.decode w))).filter (· != []) := by
  rw [Library.Metadata.content?, Xml.Markup.leadText?_leaf]
  split
  · next h =>
    have hempty : Xml.Token.decode [] = [] := Xml.Token.decode_eq Xml.Spells.nil rfl rfl
    rw [h, hempty]
    rfl
  · rfl

/-- The group of the properties belongs to no build in particular. -/
theorem outputs_project (b : Library.Build) (s : Solution.Site) (siteFolder : Text)
    (hints : Reference.Hints) :
    (node (project s siteFolder hints)).descendants.filter (Library.Metadata.isGroupOf b) = [] := by
  have htagged : tagged "PropertyGroup".toList (project s siteFolder hints) = [propertyGroup s] := by
    have hreference : Text.sameLetters "Reference".toList "PropertyGroup".toList = false := by decide
    rw [tagged_project (by decide), tagged_propertyGroup (by decide) (by decide),
      Text.sameLetters_refl, filter_properties_eq_nil (by decide),
      tagged_referenceGroup (by decide) (by decide) (by decide), hreference]
    rfl
  have hgroups : (node (project s siteFolder hints)).descendants.filter
      (·.isElement "PropertyGroup".toList) = [node (propertyGroup s)] := by
    rw [Xml.Markup.filter_descendants, htagged]
    rfl
  refine List.filter_eq_nil_iff.2 fun n hn hgroup => ?_
  rw [Library.Metadata.isGroupOf, Bool.and_eq_true] at hgroup
  have hmem := List.mem_filter.2 ⟨hn, hgroup.1⟩
  rw [hgroups, List.mem_singleton] at hmem
  have hcondition : (node (propertyGroup s)).attribute? "Condition".toList = none := rfl
  rw [hmem, hcondition, Option.any_none] at hgroup
  exact Bool.false_ne_true hgroup.2

/-- What a library's project file would say that is a descriptor. -/
theorem ofRoot_project {s : Solution.Site} (h : s.name.all isOrdinary = true) (siteFolder : Text)
    (hints : Reference.Hints) :
    Library.Metadata.ofRoot (node (project s siteFolder hints)) =
      { assemblyName := if Text.trim s.name = [] then none else some (Text.trim s.name),
        debugOutput := none, releaseOutput := none } := by
  have hmem : ("AssemblyName", Xml.escape s.name) ∈ properties s := by simp [properties]
  have htagged := tagged_property hmem siteFolder hints
  have hname : ((node (project s siteFolder hints)).descendants.filter
      (·.isElement "AssemblyName".toList)).findSome? Library.Metadata.content? =
        if Text.trim s.name = [] then none else some (Text.trim s.name) := by
    rw [Xml.Markup.filter_descendants, htagged, List.map_singleton, List.findSome?_singleton,
      content?_leaf, decode_escape h]
    by_cases hb : Text.trim s.name = []
    · simp [hb]
    · simp [hb]
  rw [Library.Metadata.ofRoot]
  simp only [outputs_project, hname, List.findSome?_nil]

theorem mem_inputs_of_mem {s : Solution.Site} {siteFolder t : Text} {hints : Reference.Hints}
    {r : Solution.Reference} (hr : r ∈ s.references) (ht : t ∈ referenceInputs hints r) :
    t ∈ inputs s siteFolder hints :=
  List.mem_append_right _ (List.mem_flatMap.2 ⟨r, hr, ht⟩)

theorem all_hintOf {s : Solution.Site} {siteFolder : Text} {hints : Reference.Hints}
    (h : ∀ t ∈ inputs s siteFolder hints, t.all isOrdinary = true) {r : Solution.Reference}
    (hr : r ∈ s.references) : (hintOf siteFolder hints r).all isOrdinary = true := by
  rw [hintOf]
  cases hget : hints.get? r.dll with
  | some hint => exact h hint (mem_inputs_of_mem hr (by simp [referenceInputs, hget]))
  | none =>
    have hdll : r.dll.all isOrdinary = true :=
      h r.dll (mem_inputs_of_mem hr (by simp [referenceInputs]))
    have hfolder : (Declared.trimSeparators siteFolder).all isOrdinary = true :=
      (Declared.all_trimSeparators (by decide) (by decide) _).trans (h siteFolder (by simp [inputs]))
    rw [Option.getD_none, Reference.all_binHint (by decide) (by decide) (by decide) (by decide),
      hfolder, hdll]
    rfl

theorem all_assemblyName_ordinary {r : Solution.Reference} (h : r.dll.all isOrdinary = true) :
    r.assemblyName.all isOrdinary = true := by
  rcases r.isStem_assemblyName with ⟨ext, hdll, -⟩ | ⟨hdll, -⟩
  · rw [hdll, List.all_append, Bool.and_eq_true] at h
    exact h.1
  · rwa [hdll]

/-- What is put into a descriptor is read from it. -/
theorem contents_of_text {s : Solution.Site} {siteFolder : Text} {hints : Reference.Hints}
    (h : ∀ t ∈ inputs s siteFolder hints, t.all isOrdinary = true) :
    ∃ root, Xml.parse? (text s siteFolder hints) = some root ∧
      root.textsOf "ProjectGuid" = [['\x7b'] ++ s.guid ++ ['\x7d']] ∧
      root.textsOf "AssemblyName" = [s.name] ∧
      root.textsOf "RootNamespace" = [Text.replace '.' '_' s.name] ∧
      root.textsOf "TargetFrameworkVersion" = [s.framework] ∧
      root.references = frameworkAssemblies.map (fun n => (some n.toList, [])) ++
        s.references.map (fun r =>
          (some r.assemblyName, [Text.replace '/' '\\' (hintOf siteFolder hints r)])) ∧
      (∀ r ∈ s.references, r.IsStem r.assemblyName) ∧
      Library.Metadata.parse? (text s siteFolder hints) =
        some { assemblyName := if Text.trim s.name = [] then none else some (Text.trim s.name),
               debugOutput := none, releaseOutput := none } := by
  have hallowed : Xml.Markup.Allowed (project s siteFolder hints) :=
    allowed_project.2 fun t ht => Xml.all_isAllowed_of_isOrdinary (h t ht)
  have hroot := parse?_text hallowed
  have hguid : s.guid.all isOrdinary = true := h _ (by simp [inputs])
  have hname : s.name.all isOrdinary = true := h _ (by simp [inputs])
  have hframework : s.framework.all isOrdinary = true := h _ (by simp [inputs])
  have hnamespace : (Text.replace '.' '_' s.name).all isOrdinary = true :=
    (Text.all_replace (by decide) (by decide) _).trans hname
  have htexts : ∀ p ∈ properties s, (node (project s siteFolder hints)).textsOf p.1 =
      [Xml.Token.decode p.2] := fun p hp => textsOf_project hp siteFolder hints
  simp only [properties, List.forall_mem_cons] at htexts
  obtain ⟨htguid, -, htnamespace, htname, htframework, -⟩ := htexts
  refine ⟨_, hroot, ?_, ?_, ?_, ?_, ?_, fun r _ => r.isStem_assemblyName, ?_⟩
  · rw [htguid, decode_guid hguid]
  · rw [htname, decode_escape hname]
  · rw [htnamespace, decode_escape hnamespace]
  · rw [htframework, decode_escape hframework]
  · refine references_project fun r hr => ⟨all_assemblyName_ordinary ?_, all_hintOf h hr⟩
    exact h r.dll (mem_inputs_of_mem hr (by simp [referenceInputs]))
  · rw [metadata_parse?_text, hroot, Option.map_some, ofRoot_project hname]

/-- A site whose name and binaries would mark something up. -/
def markupSite : Solution.Site where
  name := "R&D <Site>.Web".toList
  guid := "A1".toList
  physicalPath := "site".toList
  framework := "v4.5".toList
  references := [⟨"B1".toList, "A&B.DLL".toList⟩, ⟨"B2".toList, "Tools.dll".toList⟩]

def markupHints : Reference.Hints := ⟨[("Tools.dll".toList, "../refs/Tools.dll".toList)]⟩

theorem contents_of_markupSite :
    (∀ t ∈ inputs markupSite "..\\site\\".toList markupHints, t.all isOrdinary = true) ∧
      ∃ root, Xml.parse? (text markupSite "..\\site\\".toList markupHints) = some root ∧
        root.textsOf "ProjectGuid" = ["\x7bA1\x7d".toList] ∧
        root.textsOf "AssemblyName" = ["R&D <Site>.Web".toList] ∧
        root.textsOf "RootNamespace" = ["R&D <Site>_Web".toList] ∧
        root.textsOf "TargetFrameworkVersion" = ["v4.5".toList] ∧
        root.references = frameworkAssemblies.map (fun n => (some n.toList, [])) ++
          [(some "A&B".toList, ["..\\site\\Bin\\A&B.DLL".toList]),
           (some "Tools".toList, ["..\\refs\\Tools.dll".toList])] ∧
        Library.Metadata.parse? (text markupSite "..\\site\\".toList markupHints) =
          some { assemblyName := some "R&D <Site>.Web".toList } := by
  have hinputs : ∀ t ∈ inputs markupSite "..\\site\\".toList markupHints,
      t.all isOrdinary = true := by decide
  have hguid : ['\x7b'] ++ markupSite.guid ++ ['\x7d'] = "\x7bA1\x7d".toList := by decide
  have hnamespace : Text.replace '.' '_' markupSite.name = "R&D <Site>_Web".toList := by decide
  have hreferences : (markupSite.references.map fun r => (some r.assemblyName,
      [Text.replace '/' '\\' (hintOf "..\\site\\".toList markupHints r)])) =
        [(some "A&B".toList, ["..\\site\\Bin\\A&B.DLL".toList]),
         (some "Tools".toList, ["..\\refs\\Tools.dll".toList])] := by decide
  have htrim : Text.trim markupSite.name = "R&D <Site>.Web".toList := by decide
  have hne : "R&D <Site>.Web".toList ≠ [] := by decide
  obtain ⟨root, hroot, h₁, h₂, h₃, h₄, h₅, -, h₆⟩ := contents_of_text hinputs
  rw [hguid] at h₁
  rw [hnamespace] at h₃
  rw [hreferences] at h₅
  rw [htrim, if_neg hne] at h₆
  exact ⟨hinputs, root, hroot, h₁, h₂, h₃, h₄, h₅, h₆⟩

end Descriptor
end SiteProject
