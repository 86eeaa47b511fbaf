import SiteProject.Library.Metadata
import SiteProject.Proofs.Text.Cut
import SiteProject.Proofs.Text.Trim
import SiteProject.Proofs.Xml.Elements
import SiteProject.Proofs.Xml.Place

namespace SiteProject.Library.Metadata

open Xml (Attribute)

/-- The root of a document, after byte-order marks. -/
def root? (s : Text) : Option Xml.Node := Xml.parse? (s.dropWhile (· == '\uFEFF'))

theorem parse?_eq (s : Text) : parse? s = (root? s).map ofRoot := rfl

/-- An element stands at the place, with this name in any case of its letters. -/
def Named (root : Xml.Node) (p : List Nat) (name : String) : Prop :=
  ∃ n, root.at? p = some n ∧ n.isElement name.toList = true

/-- The first child of what stands at the place is a text that is not blank, and this is the text without
the blanks around it. -/
def Says (root : Xml.Node) (p : List Nat) (t : Text) : Prop :=
  ∃ u, root.at? (p ++ [0]) = some (.text u) ∧ t = Text.trim u ∧ t ≠ []

def isCondition (a : Attribute) : Bool := Text.sameLetters a.name.localName "Condition".toList

/-- A property group whose first condition mentions the build, in any case of its letters. -/
inductive GroupOf (b : Build) : Xml.Node → Prop
  | intro {n : Xml.Name} {before after : List Attribute} {a : Attribute} {cs : List Xml.Node}
      (hn : Text.sameLetters n.localName "PropertyGroup".toList = true) (ha : isCondition a = true)
      (hf : ∀ a' ∈ before, isCondition a' = false) (hc : b.marker <:+: Text.lower a.value) :
      GroupOf b (.element n (before ++ a :: after) cs)

/-- A child of a group of the build is an output path: the place of the group, and the index of the
child. -/
def OutputAt (b : Build) (root : Xml.Node) (k : List Nat × Nat) (t : Text) : Prop :=
  (∃ g, root.at? k.1 = some g ∧ GroupOf b g) ∧ Named root (k.1 ++ [k.2]) "OutputPath" ∧
    Says root (k.1 ++ [k.2]) t

/-- The name is that of the first element for it that has a text. An output is that of the first group of
the build that has one, and there of the first child that has one. -/
structure Describes (root : Xml.Node) (m : Metadata) : Prop where
  assembly : FirstAt (· < ·) (fun p t => Named root p "AssemblyName" ∧ Says root p t) m.assemblyName
  output (b : Build) : FirstAt (Prod.Lex (· < ·) (· < ·)) (OutputAt b root) (m.output b)

theorem findSome?_filter {α β : Type} (p : α → Bool) (f : α → Option β) (xs : List α) :
    (xs.filter p).findSome? f = xs.findSome? fun x => if p x then f x else none := by
  induction xs with
  | nil => rfl
  | cons x xs ih =>
    rw [List.filter_cons, List.findSome?_cons]
    split
    · rw [List.findSome?_cons, ih]
    · exact ih

theorem says_iff {root : Xml.Node} {p : List Nat} {t : Text} :
    Says root p t ↔ (root.at? p).bind content? = some t := by
  simp only [Says, Xml.Node.at?_concat, Option.bind_eq_some_iff, content?, Option.filter_eq_some_iff,
    Option.map_eq_some_iff, Xml.Node.leadText?_eq_some, bne_iff_ne]
  constructor
  · rintro ⟨u, ⟨n, hn, hu⟩, rfl, ht⟩
    exact ⟨n, hn, ⟨u, hu, rfl⟩, ht⟩
  · rintro ⟨n, hn, ⟨u, hu, rfl⟩, ht⟩
    exact ⟨u, ⟨n, hn, hu⟩, rfl, ht⟩

theorem find?_isCondition_eq_some {as : List Attribute} {a : Attribute} :
    as.find? isCondition = some a ↔
      ∃ before after, as = before ++ a :: after ∧ isCondition a = true ∧
        ∀ a' ∈ before, isCondition a' = false := by
  rw [List.find?_eq_some_iff_append]
  constructor
  · rintro ⟨ha, before, after, rfl, hf⟩
    exact ⟨before, after, rfl, ha, fun a' h => by simpa using hf a' h⟩
  · rintro ⟨before, after, rfl, ha, hf⟩
    exact ⟨ha, before, after, rfl, fun a' h => by simp [hf a' h]⟩

theorem isGroupOf_element (b : Build) (n : Xml.Name) (as : List Attribute) (cs : List Xml.Node) :
    isGroupOf b (.element n as cs) =
      (Text.sameLetters n.localName "PropertyGroup".toList &&
        (as.find? isCondition).any fun a => Text.contains b.marker (Text.lower a.value)) := by
  rw [isGroupOf, Xml.Node.isElement, Xml.Node.attribute?, Option.any_map]
  rfl

theorem groupOf_iff {b : Build} {n : Xml.Node} : GroupOf b n ↔ isGroupOf b n = true := by
  cases n with
  | text t => exact ⟨nofun, nofun⟩
  | aside => exact ⟨nofun, nofun⟩
  | element n as cs =>
    rw [isGroupOf_element, Bool.and_eq_true, Option.any_eq_true]
    constructor
    · intro h
      cases h with
      | intro hn ha hf hc =>
        exact ⟨hn, _, find?_isCondition_eq_some.2 ⟨_, _, rfl, ha, hf⟩, Text.contains_iff.2 hc⟩
    · rintro ⟨hn, a, ha, hc⟩
      obtain ⟨before, after, rfl, ha, hf⟩ := find?_isCondition_eq_some.1 ha
      exact .intro hn ha hf (Text.contains_iff.1 hc)

/-- The text of an element with the name. -/
def contentOf? (name : String) (n : Xml.Node) : Option Text :=
  if n.isElement name.toList then content? n else none

theorem named_and_says_iff {root : Xml.Node} {p : List Nat} {name : String} {t : Text} :
    Named root p name ∧ Says root p t ↔ (root.at? p).bind (contentOf? name) = some t := by
  rw [says_iff, Named]
  cases root.at? p with
  | none => simp
  | some n => by_cases hn : n.isElement name.toList = true <;> simp [contentOf?, hn]

theorem outputAt_iff {b : Build} {root : Xml.Node} {p : List Nat} {i : Nat} {t : Text} :
    OutputAt b root (p, i) t ↔ ∃ g, root.at? p = some g ∧ isGroupOf b g = true ∧
      g.children[i]?.bind (contentOf? "OutputPath") = some t := by
  rw [OutputAt, named_and_says_iff, Xml.Node.at?_concat]
  simp only [groupOf_iff]
  cases root.at? p with
  | none =>
    constructor
    · rintro ⟨⟨g, hg, -⟩, -⟩
      cases hg
    · rintro ⟨g, hg, -⟩
      cases hg
  | some g =>
    constructor
    · rintro ⟨⟨g', hg', hb⟩, ht⟩
      obtain rfl := Option.some.inj hg'
      exact ⟨g, rfl, hb, ht⟩
    · rintro ⟨g', hg', hb, ht⟩
      obtain rfl := Option.some.inj hg'
      exact ⟨⟨g, rfl, hb⟩, ht⟩

theorem assemblyName_ofRoot (root : Xml.Node) :
    (ofRoot root).assemblyName = root.descendants.findSome? (contentOf? "AssemblyName") := by
  rw [ofRoot, findSome?_filter]
  rfl

theorem output_ofRoot (b : Build) (root : Xml.Node) :
    (ofRoot root).output b = (root.descendants.filter (isGroupOf b)).findSome? outputOf := by
  cases b <;> rfl

theorem outputOf_eq (g : Xml.Node) : outputOf g = g.children.findSome? (contentOf? "OutputPath") := by
  rw [outputOf, findSome?_filter]
  rfl

theorem firstAt_group (b : Build) (root : Xml.Node) (p : List Nat) :
    FirstAt (· < ·) (fun i t => OutputAt b root (p, i) t)
      ((root.at? p).bind fun g => if isGroupOf b g then outputOf g else none) := by
  simp only [outputAt_iff]
  cases root.at? p with
  | none =>
    rw [Option.bind_none]
    refine .none ?_
    rintro i t ⟨g, hg, -⟩
    cases hg
  | some g =>
    rw [Option.bind_some]
    by_cases hg : isGroupOf b g = true
    · have hfirst := firstAt_findSome? (contentOf? "OutputPath") g.children
      rw [if_pos hg, outputOf_eq]
      refine hfirst.congr fun i t => ?_
      constructor
      · intro ht
        exact ⟨g, rfl, hg, ht⟩
      · rintro ⟨g', hg', -, ht⟩
        obtain rfl := Option.some.inj hg'
        exact ht
    · rw [if_neg hg]
      refine .none ?_
      rintro i t ⟨g', hg', hb, -⟩
      obtain rfl := Option.some.inj hg'
      exact hg hb

theorem describes_ofRoot (root : Xml.Node) : Describes root (ofRoot root) where
  assembly := by
    rw [assemblyName_ofRoot]
    exact (Xml.Node.firstAt_descendants _ root).congr fun _ _ => named_and_says_iff.symm
  output b := by
    rw [output_ofRoot, findSome?_filter]
    exact (Xml.Node.firstAt_descendants _ root).lex (firstAt_group b root)

theorem Describes.congr {root root' : Xml.Node} {m : Metadata}
    (hname : ∀ p name, Named root p name ↔ Named root' p name)
    (htext : ∀ p t, Says root p t ↔ Says root' p t)
    (hgroup : ∀ p b, (∃ g, root.at? p = some g ∧ GroupOf b g) ↔
      ∃ g, root'.at? p = some g ∧ GroupOf b g) (h : Describes root m) : Describes root' m where
  assembly := h.assembly.congr fun p t => and_congr (hname p _) (htext p t)
  output b := (h.output b).congr fun k t =>
    and_congr (hgroup k.1 b) (and_congr (hname _ _) (htext _ t))

theorem says_unique {root : Xml.Node} {p : List Nat} {t t' : Text} (h : Says root p t)
    (h' : Says root p t') : t = t' := by
  obtain ⟨u, hu, rfl, -⟩ := h
  obtain ⟨u', hu', rfl, -⟩ := h'
  rw [hu] at hu'
  obtain rfl : u = u' := by simpa using hu'
  rfl

theorem places_trichotomous (k k' : List Nat × Nat) :
    Prod.Lex (· < ·) (· < ·) k k' ∨ k = k' ∨ Prod.Lex (· < ·) (· < ·) k' k := by
  obtain ⟨p, i⟩ := k
  obtain ⟨q, j⟩ := k'
  rcases lt_trichotomy p q with hlt | rfl | hlt
  · exact .inl (.left i j hlt)
  · rcases lt_trichotomy i j with hlt | rfl | hlt
    · exact .inl (.right p hlt)
    · exact .inr (.inl rfl)
    · exact .inr (.inr (.right p hlt))
  · exact .inr (.inr (.left j i hlt))

/-- What describes a document is what is read from it. -/
theorem Describes.eq_ofRoot {root : Xml.Node} {m : Metadata} (h : Describes root m) : m = ofRoot root := by
  have hroot := describes_ofRoot root
  have hassembly := h.assembly.unique lt_trichotomy (fun _ _ _ h h' => says_unique h.2 h'.2) hroot.assembly
  have houtput (b : Build) : m.output b = (ofRoot root).output b :=
    (h.output b).unique places_trichotomous (fun _ _ _ h h' => says_unique h.2.2 h'.2.2) (hroot.output b)
  have hdebug : m.debugOutput = _ := houtput .debug
  have hrelease : m.releaseOutput = _ := houtput .release
  cases m with
  | mk assemblyName debugOutput releaseOutput =>
    obtain rfl : assemblyName = _ := hassembly
    obtain rfl : debugOutput = _ := hdebug
    obtain rfl : releaseOutput = _ := hrelease
    rfl

/-- Elements whose names differ in case at most, and whose conditions do. Other attributes may be any. -/
inductive SameNode : Xml.Node → Xml.Node → Prop
  | element {n n' : Xml.Name} {as as' : List Attribute} (cs cs' : List Xml.Node)
      (hn : Text.sameLetters n.localName n'.localName = true)
      (has : List.Forall₂ (fun a a' => Text.sameLetters a.value a'.value = true)
        (as.filter isCondition) (as'.filter isCondition)) :
      SameNode (.element n as cs) (.element n' as' cs')
  | text (t : Text) : SameNode (.text t) (.text t)
  | aside : SameNode .aside .aside

/-- Documents that differ at no place but in case. -/
def Alike (root root' : Xml.Node) : Prop := ∀ p, Option.Rel SameNode (root.at? p) (root'.at? p)

theorem sameLetters_congr {a b : Text} (h : Text.sameLetters a b = true) (c : Text) :
    Text.sameLetters a c = Text.sameLetters b c := by
  rw [Text.sameLetters, beq_iff_eq] at h
  rw [Text.sameLetters, Text.sameLetters, h]

namespace SameNode

variable {n n' : Xml.Node}

theorem isElement_eq (h : SameNode n n') (name : Text) : n.isElement name = n'.isElement name := by
  cases h with
  | element cs cs' hn has => exact sameLetters_congr hn name
  | text t => rfl
  | aside => rfl

theorem text_iff (h : SameNode n n') (t : Text) : n = .text t ↔ n' = .text t := by
  cases h with
  | element cs cs' hn has => exact ⟨nofun, nofun⟩
  | text t => rfl
  | aside => rfl

theorem groupOf_iff (h : SameNode n n') (b : Build) : GroupOf b n ↔ GroupOf b n' := by
  rw [Metadata.groupOf_iff, Metadata.groupOf_iff]
  cases h with
  | text t => rfl
  | aside => rfl
  | @element n n' as as' cs cs' hn has =>
    rw [isGroupOf_element, isGroupOf_element, sameLetters_congr hn, ← List.head?_filter,
      ← List.head?_filter]
    generalize as.filter isCondition = conditions, as'.filter isCondition = conditions' at has
    cases has with
    | nil => rfl
    | cons hvalue _ =>
      rw [Text.sameLetters, beq_iff_eq] at hvalue
      rw [List.head?_cons, List.head?_cons, Option.any_some, Option.any_some, hvalue]

end SameNode

theorem Alike.exists_iff {root root' : Xml.Node} (h : Alike root root') {holds : Xml.Node → Prop}
    (hiff : ∀ {n n'}, SameNode n n' → (holds n ↔ holds n')) (p : List Nat) :
    (∃ n, root.at? p = some n ∧ holds n) ↔ ∃ n, root'.at? p = some n ∧ holds n := by
  have hp := h p
  generalize root.at? p = o, root'.at? p = o' at hp
  cases hp with
  | none => simp
  | some hn => simpa using hiff hn

theorem Alike.describes {root root' : Xml.Node} (h : Alike root root') {m : Metadata}
    (hm : Describes root m) : Describes root' m := by
  refine hm.congr (fun p name => ?_) (fun p t => ?_) fun p b => ?_
  · exact h.exists_iff (fun hn => by rw [hn.isElement_eq]) p
  · have htext (u : Text) :
        root.at? (p ++ [0]) = some (.text u) ↔ root'.at? (p ++ [0]) = some (.text u) := by
      simpa using h.exists_iff (fun hn => hn.text_iff u) (p ++ [0])
    simp only [Says, htext]
  · exact h.exists_iff (fun hn => hn.groupOf_iff b) p

/-- The document with a further child of its root. -/
def append : Xml.Node → Xml.Node → Xml.Node
  | .element n as cs, g => .element n as (cs ++ [g])
  | n, _ => n

/-- A property group without groups of the build in it says nothing about the build. -/
theorem output_append {b : Build} {g : Xml.Node} (hg : g.isElement "PropertyGroup".toList = true)
    (hb : ∀ n ∈ g.descendants, ¬ GroupOf b n) (root : Xml.Node) :
    (ofRoot (append root g)).output b = (ofRoot root).output b := by
  cases root with
  | text t => rfl
  | aside => rfl
  | element n as cs =>
    have hnone : g.descendants.filter (isGroupOf b) = [] :=
      List.filter_eq_nil_iff.2 fun n hn => mt groupOf_iff.2 (hb n hn)
    have hgroup : isGroupOf b (.element n as (cs ++ [g])) = isGroupOf b (.element n as cs) := by
      rw [isGroupOf_element, isGroupOf_element]
    have hname : g.isElement "OutputPath".toList = false := by
      cases g with
      | text t => rfl
      | aside => rfl
      | element n' as' cs' =>
        rw [Xml.Node.isElement] at hg ⊢
        rw [sameLetters_congr hg]
        decide
    have houtput : outputOf (.element n as (cs ++ [g])) = outputOf (.element n as cs) := by
      rw [outputOf, outputOf, Xml.Node.children, Xml.Node.children, List.filter_append,
        List.filter_cons_of_neg (by rw [hname]; decide), List.filter_nil, List.append_nil]
    rw [append, output_ofRoot, output_ofRoot, Xml.Node.descendants_eq, Xml.Node.descendants_eq,
      Xml.Node.children, Xml.Node.children, Xml.Node.descendantsOf_append, Xml.Node.descendantsOf,
      Xml.Node.descendantsOf, List.append_nil, List.filter_cons, List.filter_append, hnone,
      List.append_nil, List.filter_cons, hgroup]
    split
    · rw [List.findSome?_cons, List.findSome?_cons, houtput]
    · rfl

theorem Says.trimmed {root : Xml.Node} {p : List Nat} {t : Text} (h : Says root p t) :
    t ≠ [] ∧ Text.trim t = t := by
  obtain ⟨u, -, rfl, hne⟩ := h
  exact ⟨hne, Text.trim_trim u⟩

/-- A document that can be read says what stands at its first places. The values are trimmed and not
empty. Documents that differ in case say the same, and a further property group says nothing about a build
that neither it nor a group in it is of. -/
theorem metadata_of_parse {s : Text} {m : Metadata} (h : parse? s = some m) :
    ∃ root, root? s = some root ∧ Describes root m ∧
      (∀ o ∈ [m.assemblyName, m.debugOutput, m.releaseOutput],
        ∀ t, o = some t → t ≠ [] ∧ Text.trim t = t) ∧
      (∀ s' root', root? s' = some root' → Alike root root' → parse? s' = some m) ∧
      ∀ b g s', g.isElement "PropertyGroup".toList = true → (∀ n ∈ g.descendants, ¬ GroupOf b n) →
        root? s' = some (append root g) → ∃ m', parse? s' = some m' ∧ m'.output b = m.output b := by
  obtain ⟨root, hroot, rfl⟩ := Option.map_eq_some_iff.1 h
  have hdescribes := describes_ofRoot root
  refine ⟨root, hroot, hdescribes, ?_, ?_, ?_⟩
  · have hassembly (t : Text) (ht : (ofRoot root).assemblyName = some t) : t ≠ [] ∧ Text.trim t = t := by
      obtain ⟨p, hp⟩ := (ht ▸ hdescribes.assembly).exists_of_eq_some
      exact hp.2.trimmed
    have houtput (b : Build) (t : Text) (ht : (ofRoot root).output b = some t) :
        t ≠ [] ∧ Text.trim t = t := by
      obtain ⟨k, hk⟩ := (ht ▸ hdescribes.output b).exists_of_eq_some
      exact hk.2.2.trimmed
    simpa only [List.forall_mem_cons, List.not_mem_nil, false_imp_iff, implies_true, and_true] using
      ⟨hassembly, houtput .debug, houtput .release⟩
  · intro s' root' hroot' halike
    rw [parse?_eq, hroot', (halike.describes hdescribes).eq_ofRoot]
    rfl
  · intro b g s' hg hb hs'
    exact ⟨_, by rw [parse?_eq, hs']; rfl, output_append hg hb root⟩

/-- A blank path is passed over, and so is the next group, which is of no build. The group with the path
stands deeper and in capitals. -/
theorem metadata_of_blank_group :
    let s : Text :=
      "<a><PropertyGroup Condition='Debug|AnyCPU'><OutputPath> </OutputPath></PropertyGroup>".toList ++
      "<PropertyGroup><OutputPath>out</OutputPath><AssemblyName> A </AssemblyName></PropertyGroup>".toList ++
      "<b><PROPERTYGROUP CONDITION='debug|anycpu'><outputpath> bin </outputpath>".toList ++
      "</PROPERTYGROUP></b></a>".toList
    let m : Metadata := { assemblyName := some "A".toList, debugOutput := some "bin".toList }
    parse? s = some m ∧ ∃ root, root? s = some root ∧ Describes root m := by
  intro s m
  have hparse : parse? s = some m := by decide +kernel
  obtain ⟨root, hroot, h, -⟩ := metadata_of_parse hparse
  exact ⟨hparse, root, hroot, h⟩

end SiteProject.Library.Metadata
