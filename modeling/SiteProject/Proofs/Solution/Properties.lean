import Mathlib.Data.List.Forall2
import SiteProject.Proofs.Solution.PropertyLine
import SiteProject.Solution.Project

namespace SiteProject.Solution.Properties

/-- The text of an entry around the body of its section. -/
def sectioned (pre body post : Text) : Text :=
  pre ++ "ProjectSection(WebsiteProperties) = preProject".toList ++ body ++
    "EndProjectSection".toList ++ post

theorem unbordered_sectionOpen : Text.Unbordered sectionOpen := by decide

theorem unbordered_sectionClose : Text.Unbordered sectionClose := by decide

theorem bodyHere?_of_contains {body : Text} (h : Text.contains sectionClose body = false) (post : Text) :
    bodyHere? ([' '] ++ '=' :: ([' '] ++ (sectionKind ++ (body ++ sectionClose ++ post)))) = some body := by
  have hspace : ∀ c ∈ [' '], Text.isBlank c = true := List.forall_mem_singleton.2 (by decide)
  have hcut := Text.cut?_of_unbordered (by decide) unbordered_sectionClose h post
  have hsign : afterEquals? ([' '] ++ '=' :: ([' '] ++ (sectionKind ++ (body ++ sectionClose ++ post)))) =
      some (sectionKind ++ (body ++ sectionClose ++ post)) :=
    afterEquals?_append hspace hspace rfl
  rw [bodyHere?, hsign]
  refine Option.bind_eq_some_iff.2 ⟨_, rfl, ?_⟩
  rw [Text.after?_append]
  refine Option.bind_eq_some_iff.2 ⟨_, rfl, ?_⟩
  rw [hcut]
  rfl

/-- The section that opens first is the one that is read. -/
theorem sectionBody?_append {pre s body : Text} (hp : Text.contains sectionOpen pre = false)
    (hs : bodyHere? s = some body) : sectionBody? (pre ++ sectionOpen ++ s) = some body := by
  induction pre with
  | nil =>
    have hopen : Text.after? sectionOpen (sectionOpen ++ s) = some s := Text.after?_append sectionOpen s
    obtain ⟨c, word, hword⟩ := List.exists_cons_of_ne_nil (show sectionOpen ≠ [] by decide)
    rw [List.nil_append, hword, List.cons_append, sectionBody?, ← List.cons_append, ← hword, hopen]
    simp [hs]
  | cons c pre ih =>
    have hn := Text.after?_of_unbordered unbordered_sectionOpen (List.cons_ne_nil c pre) hp s
    have ih := ih (Text.contains_eq_false_of_cons hp)
    simp only [List.cons_append] at hn ih ⊢
    rw [sectionBody?, hn, ih]
    rfl

theorem ofEntryText_sectioned {pre body : Text} (hp : Text.contains sectionOpen pre = false)
    (hb : Text.contains sectionClose body = false) (post : Text) :
    ofEntryText (sectioned pre body post) = ofPairs ((Text.lines body).filterMap readLine?) := by
  have hsection := sectionBody?_append hp (bodyHere?_of_contains hb post)
  have hopening : "ProjectSection(WebsiteProperties) = preProject".toList =
      sectionOpen ++ ([' '] ++ '=' :: ([' '] ++ sectionKind)) := by decide
  have htext : sectioned pre body post =
      pre ++ sectionOpen ++ ([' '] ++ '=' :: ([' '] ++ (sectionKind ++ (body ++ sectionClose ++ post)))) := by
    rw [sectioned, hopening, show "EndProjectSection".toList = sectionClose from rfl]
    simp only [List.append_assoc, List.cons_append]
  rw [ofEntryText, htext, hsection]

theorem eq_ofPairs_field {f : Text × (Properties → Option Text)} (hf : f ∈ fields)
    (pairs : List (Text × Text)) : f.2 (ofPairs pairs) = last? f.1 pairs := by
  simp only [fields, List.mem_cons, List.not_mem_nil, or_false] at hf
  rcases hf with rfl | rfl | rfl | rfl | rfl <;> rfl

theorem ext_fields {p q : Properties} (h : ∀ f ∈ fields, f.2 p = f.2 q) : p = q := by
  simp only [fields, List.forall_mem_cons] at h
  obtain ⟨h₁, h₂, h₃, h₄, h₅, -⟩ := h
  cases p
  cases q
  simp_all

/-- The first of the texts that is there and not empty, or else an empty one. -/
inductive FirstNonEmpty : List (Option Text) → Text → Prop
  | here {t : Text} {ts : List (Option Text)} (h : t ≠ []) : FirstNonEmpty (some t :: ts) t
  | skip {o : Option Text} {t : Text} {ts : List (Option Text)} (ho : o = none ∨ o = some [])
      (h : FirstNonEmpty ts t) : FirstNonEmpty (o :: ts) t
  | nil : FirstNonEmpty [] []

theorem firstNonEmpty_cons {t : Text} {ts : List (Option Text)} (o : Option Text)
    (h : FirstNonEmpty ts t) : FirstNonEmpty (o :: ts) ((nonEmpty? o).getD t) := by
  cases o with
  | none => exact .skip (.inl rfl) h
  | some s =>
    cases s with
    | nil => exact .skip (.inr rfl) h
    | cons c s => exact .here (List.cons_ne_nil c s)

theorem firstNonEmpty_singleton (t : Text) : FirstNonEmpty [some t] t := by
  cases t with
  | nil => exact .skip (.inr rfl) .nil
  | cons c t => exact .here (List.cons_ne_nil c t)

/-- The framework and the folder of a site are the first that are given. -/
structure Chosen (p : Properties) (declared : Text) (s : Site) : Prop where
  framework : ∃ t, FirstNonEmpty [p.targetFramework, p.targetFrameworkVersion] t ∧
    s.framework = Framework.normalize t
  physicalPath : ∃ t, FirstNonEmpty [p.debugPhysicalPath, p.releasePhysicalPath, some declared] t ∧
    s.physicalPath = Declared.trimSeparators t

theorem firstNonEmpty_framework (p : Properties) :
    FirstNonEmpty [p.targetFramework, p.targetFrameworkVersion] (p.framework?.getD []) := by
  rw [framework?, Option.getD_or]
  exact firstNonEmpty_cons _ (firstNonEmpty_cons _ .nil)

theorem firstNonEmpty_physicalPath (p : Properties) (declared : Text) :
    FirstNonEmpty [p.debugPhysicalPath, p.releasePhysicalPath, some declared]
      (p.physicalPath?.getD declared) := by
  rw [physicalPath?, Option.getD_or]
  exact firstNonEmpty_cons _ (firstNonEmpty_cons _ (firstNonEmpty_singleton declared))

theorem chosen_ofEntry (e : Entry) : Chosen (ofEntryText e.text) e.header.path (Site.ofEntry e) where
  framework := by
    refine ⟨_, firstNonEmpty_framework (ofEntryText e.text), ?_⟩
    rw [Site.ofEntry]
  physicalPath := by
    refine ⟨_, firstNonEmpty_physicalPath (ofEntryText e.text) e.header.path, ?_⟩
    rw [Site.ofEntry]

/-- Each property is the value of the last line of the section that has the form `KEY = "VALUE"` with its key,
and is not there if there is no such line. Other lines do not count, and the order counts only for lines with
one key. A site takes its framework and its folder from the properties in the order of their rank; an empty
value counts as none. -/
theorem properties_of_section (pre body post : Text)
    (hp : Text.contains "ProjectSection(WebsiteProperties)".toList pre = false)
    (hb : Text.contains "EndProjectSection".toList body = false) :
    (∀ f ∈ fields, LastValue f.1 (Text.lines body) (f.2 (ofEntryText (sectioned pre body post)))) ∧
      (∀ body', Text.contains "EndProjectSection".toList body' = false →
        Rearranged (Text.lines body) (Text.lines body') →
          ofEntryText (sectioned pre body' post) = ofEntryText (sectioned pre body post)) ∧
      ∀ es : List Entry, List.Forall₂ (fun e s => Chosen (ofEntryText e.text) e.header.path s)
        (es.filter fun e => e.kind? == some .site) (sites es) := by
  have hfields : ∀ {body}, Text.contains sectionClose body = false → ∀ f ∈ fields,
      f.2 (ofEntryText (sectioned pre body post)) =
        ((Text.lines body).filterMap (value? f.1)).getLast? := by
    intro body hb f hf
    rw [ofEntryText_sectioned hp hb, eq_ofPairs_field hf, last?_filterMap]
  refine ⟨?_, ?_, ?_⟩
  · intro f hf
    rw [hfields hb f hf]
    exact lastValue_getLast? hf (Text.lines body)
  · intro body' hb' hr
    apply ext_fields
    intro f hf
    rw [hfields hb' f hf, hfields hb f hf, hr.filterMap_value? hf]
  · intro es
    rw [sites, List.forall₂_map_right_iff, List.forall₂_same]
    exact fun e _ => chosen_ofEntry e

def earlier : Text := "\tTargetFramework = \"3.5\"".toList

def later : Text := "\tTargetFramework=\"4.0\"  ".toList

def noReferences : Text := "\tProjectReferences = \"\"".toList

/-- The value is not ended. -/
def openLine : Text := "\tTargetFramework = \"4.8".toList

def bodyOf (ls : List Text) : Text := ls.flatMap (· ++ Text.LineEnding.crlf.text)

theorem rearranged_openLine : Rearranged (Text.lines (bodyOf [[], earlier, later, noReferences]))
    (Text.lines (bodyOf [[], earlier, noReferences, openLine, later])) := by
  have hfrom : Text.lines (bodyOf [[], earlier, later, noReferences]) =
      [[], earlier] ++ later :: noReferences :: [] := Text.lines_flatMap_crlf (by decide +kernel)
  have hto : Text.lines (bodyOf [[], earlier, noReferences, openLine, later]) =
      [[], earlier, noReferences] ++ openLine :: [later] := Text.lines_flatMap_crlf (by decide +kernel)
  have hswap : Rearranged ([[], earlier] ++ later :: noReferences :: [])
      ([[], earlier] ++ noReferences :: later :: []) := rearranged_swap (by decide +kernel)
  have hinsert : Rearranged ([[], earlier, noReferences] ++ [later])
      ([[], earlier, noReferences] ++ openLine :: [later]) := rearranged_insert (by decide +kernel)
  rw [hfrom, hto]
  exact hswap.trans hinsert

/-- The framework that is given last counts, wherever the references are and whatever else is there. -/
theorem later_framework_counts :
    LastValue "TargetFramework".toList (Text.lines (bodyOf [[], earlier, later, noReferences]))
        (some "4.0".toList) ∧
      ofEntryText (sectioned "\t".toList (bodyOf [[], earlier, noReferences, openLine, later]) []) =
        ofEntryText (sectioned "\t".toList (bodyOf [[], earlier, later, noReferences]) []) := by
  have hvalue : (ofEntryText (sectioned "\t".toList (bodyOf [[], earlier, later, noReferences])
      [])).targetFramework = some "4.0".toList := by decide +kernel
  obtain ⟨hfields, hsame, -⟩ := properties_of_section "\t".toList
    (bodyOf [[], earlier, later, noReferences]) [] (by decide +kernel) (by decide +kernel)
  have hlast := hfields _ List.mem_cons_self
  dsimp only at hlast
  rw [hvalue] at hlast
  exact ⟨hlast, hsame _ (by decide +kernel) rearranged_openLine⟩

end SiteProject.Solution.Properties
