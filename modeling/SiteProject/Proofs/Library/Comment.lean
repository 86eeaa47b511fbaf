import SiteProject.Proofs.Library.Metadata
import SiteProject.Proofs.Xml.Comment

namespace SiteProject

namespace Xml.Node

variable {α : Type} {f : Node → Option α}

/-- Texts and comments do not matter to what is found in elements. -/
theorem findSome?_filter_isTag (hplain : ∀ m, m.isTag = false → f m = none) (cs : List Node) :
    (cs.filter isTag).findSome? f = cs.findSome? f := by
  rw [Library.Metadata.findSome?_filter]
  congr 1
  funext m
  cases hm : m.isTag with
  | true => rfl
  | false => exact (hplain m hm).symm

theorem findSome?_descendantsOf_filter (hplain : ∀ m, m.isTag = false → f m = none) (cs : List Node) :
    (descendantsOf (cs.filter isTag)).findSome? f = (descendantsOf cs).findSome? f := by
  rw [findSome?_descendantsOf, findSome?_descendantsOf]
  refine findSome?_filter_isTag (fun m hm => ?_) cs
  cases m with
  | element => cases hm
  | text t => rw [descendants, List.findSome?_singleton, hplain _ hm]
  | aside => rw [descendants, List.findSome?_singleton, hplain _ hm]

/-- The same is found in trees that differ where it does not matter. -/
theorem Within.findSome?_eq {R : Node → Node → Prop} (hplain : ∀ m, m.isTag = false → f m = none)
    (htags : ∀ {m m'}, R m m' → m'.children.filter isTag = m.children.filter isTag)
    (hf : ∀ {m m'}, Within R m m' → f m' = f m) {root root' : Node} (h : Within R root root') :
    root'.descendants.findSome? f = root.descendants.findSome? f := by
  induction h with
  | here h =>
    rw [descendants_eq, descendants_eq, List.findSome?_cons, List.findSome?_cons, hf (.here h),
      ← findSome?_descendantsOf_filter hplain, htags h, findSome?_descendantsOf_filter hplain]
  | inside name as before after h ih =>
    rw [descendants_eq, descendants_eq, List.findSome?_cons, List.findSome?_cons,
      hf (.inside name as before after h), children, children]
    simp only [descendantsOf_append, descendantsOf, List.findSome?_append, ih]

end Xml.Node

namespace Library.Metadata

open Xml (Attribute Frame InContent)
open Xml.Node (Within Interrupted isTag)
open Xml.Token (CommentFormed commentText)

variable {o : Frame} {n n' m m' : Xml.Node}

/-- The second element in the place of the first. -/
def Replaced (n n' m m' : Xml.Node) : Prop := m = n ∧ m' = n'

theorem within_interrupted (hn : Interrupted o n n') (h : Within (Replaced n n') m m') :
    Within (Interrupted o) m m' := h.mono fun hm => by rwa [hm.1, hm.2]

theorem tags_eq (hn : Interrupted o n n') : n'.children.filter isTag = n.children.filter isTag := by
  cases hn with
  | intro htags _ _ => exact htags

theorem contentOf?_eq_none (name : String) (hm : m.isTag = false) : contentOf? name m = none := by
  cases m with
  | element => cases hm
  | text t => rfl
  | aside => rfl

/-- An element around another one starts with the same text, whatever is in that other one. -/
theorem contentOf?_within (hn : Interrupted o n n') {name : String}
    (hsame : contentOf? name n' = contentOf? name n) (h : Within (Replaced n n') m m') :
    contentOf? name m' = contentOf? name m := by
  cases h with
  | here h => rw [h.1, h.2, hsame]
  | @inside c c' k as before after h =>
    obtain ⟨k, bs, cs, cs', rfl, rfl⟩ := Frame.exists_element_of_within (within_interrupted hn h)
    cases before with
    | nil => rfl
    | cons b before => cases b <;> rfl

theorem outputOf_within (hn : Interrupted o n n')
    (hsame : contentOf? "OutputPath" n' = contentOf? "OutputPath" n) (h : Within (Replaced n n') m m') :
    outputOf m' = outputOf m := by
  cases h with
  | here h =>
    have hplain (m : Xml.Node) (hm : m.isTag = false) := contentOf?_eq_none "OutputPath" hm
    rw [h.1, h.2, outputOf_eq, outputOf_eq, ← Xml.Node.findSome?_filter_isTag hplain, tags_eq hn,
      Xml.Node.findSome?_filter_isTag hplain]
  | @inside c c' k as before after h =>
    have hc := contentOf?_within hn hsame h
    simp only [outputOf_eq, Xml.Node.children, List.findSome?_append, List.findSome?_cons, hc]

theorem isGroupOf_within (hn : Interrupted o n n') (b : Build) (h : Within (Replaced n n') m m') :
    isGroupOf b m' = isGroupOf b m := by
  obtain ⟨k, bs, cs, cs', rfl, rfl⟩ := Frame.exists_element_of_within (within_interrupted hn h)
  rw [isGroupOf_element, isGroupOf_element]

theorem assemblyName_within (hn : Interrupted o n n')
    (hsame : contentOf? "AssemblyName" n' = contentOf? "AssemblyName" n) (h : Within (Replaced n n') m m') :
    (ofRoot m').assemblyName = (ofRoot m).assemblyName := by
  rw [assemblyName_ofRoot, assemblyName_ofRoot]
  exact h.findSome?_eq (fun _ => contentOf?_eq_none "AssemblyName")
    (fun hm => by rw [hm.1, hm.2, tags_eq hn]) (contentOf?_within hn hsame)

theorem output_within (hn : Interrupted o n n')
    (hsame : contentOf? "OutputPath" n' = contentOf? "OutputPath" n) (h : Within (Replaced n n') m m')
    (b : Build) : (ofRoot m').output b = (ofRoot m).output b := by
  rw [output_ofRoot, output_ofRoot, findSome?_filter, findSome?_filter]
  refine h.findSome?_eq (fun m hm => ?_) (fun hm => by rw [hm.1, hm.2, tags_eq hn]) fun hm => ?_
  · cases m with
    | element => cases hm
    | text t => rfl
    | aside => rfl
  · rw [isGroupOf_within hn b hm, outputOf_within hn hsame hm]

/-- The text of the element is what it is without the comment, where that had ended before the comment. -/
theorem contentOf?_interrupted (hn : Interrupted o n n') {name : String}
    (hsame : Text.sameLetters o.name.localName name.toList = true →
      o.Settled ∨ content? n' = content? n) :
    contentOf? name n' = contentOf? name n := by
  cases hn with
  | @intro cs cs' htags hlead hsettled =>
    rw [contentOf?, contentOf?, Xml.Node.isElement, Xml.Node.isElement]
    by_cases hname : Text.sameLetters o.name.localName name.toList = true
    · rw [if_pos hname, if_pos hname]
      rcases hsame hname with hs | hs
      · rw [content?, content?, hlead, hsettled hs]
      · exact hs
    · rw [if_neg hname, if_neg hname]

/-- A comment is put into the content of an element. The documents differ in this element only, which starts
with the text before the comment. So the values are read as before, unless the element is for one of them,
its text had not ended yet, and what follows the comment was part of it. -/
theorem metadata_of_comment {a b c : Text} {o : Frame} {m : Metadata} (h : parse? (a ++ b) = some m)
    (hplace : InContent ((a ++ b).dropWhile (· == '\uFEFF')) b o) (hc : CommentFormed c) :
    ∃ root root' n n' m', root? (a ++ b) = some root ∧ root? (a ++ commentText c ++ b) = some root' ∧
      Interrupted o n n' ∧ Within (Replaced n n') root root' ∧
      parse? (a ++ commentText c ++ b) = some m' ∧
      ((Text.sameLetters o.name.localName "AssemblyName".toList = true →
        o.Settled ∨ content? n' = content? n) → m'.assemblyName = m.assemblyName) ∧
      ((Text.sameLetters o.name.localName "OutputPath".toList = true →
        o.Settled ∨ content? n' = content? n) → ∀ build, m'.output build = m.output build) := by
  obtain ⟨root, hroot, rfl⟩ := Option.map_eq_some_iff.1 h
  obtain ⟨x, root', hne, hx, hparse, hwithin⟩ := Xml.parse?_commentText hroot hplace hc
  obtain ⟨n, n', hn, hpair⟩ := hwithin.exists_pair
  have hroot' : root? (a ++ commentText c ++ b) = some root' := by
    rw [List.append_assoc, root?, Text.dropWhile_append hne hx, hparse]
  refine ⟨root, root', n, n', ofRoot root', hroot, hroot', hn, hpair, ?_, ?_, ?_⟩
  · rw [parse?_eq, hroot']
    rfl
  · exact fun hsame => assemblyName_within hn (contentOf?_interrupted hn hsame) hpair
  · exact fun hsame build => output_within hn (contentOf?_interrupted hn hsame) hpair build

/-- The name had ended before the comment, so it is kept. -/
theorem metadata_of_comment_behind :
    let a : Text := "<a><AssemblyName>Core<x/>".toList
    let b : Text := "</AssemblyName></a>".toList
    ∃ m', parse? (a ++ commentText " or ".toList ++ b) = some m' ∧
      m'.assemblyName = some "Core".toList := by
  intro a b
  have hparse : parse? (a ++ b) = some { assemblyName := some "Core".toList } := by decide +kernel
  have hdocument : (a ++ b).dropWhile (· == '\uFEFF') =
      '<' :: "a><AssemblyName>Core<x/></AssemblyName></a>".toList := by decide +kernel
  have hroot : Xml.Token.opening? "a><AssemblyName>Core<x/></AssemblyName></a>".toList =
      some ((⟨[], "a".toList⟩, [], false), "<AssemblyName>Core<x/></AssemblyName></a>".toList) := by
    decide +kernel
  have hname : Xml.Token.read? "<AssemblyName>Core<x/></AssemblyName></a>".toList =
      some (.opening ⟨[], "AssemblyName".toList⟩ [] false, "Core<x/></AssemblyName></a>".toList) := by
    decide +kernel
  have htext : Xml.Token.read? "Core<x/></AssemblyName></a>".toList =
      some (.chars "Core".toList, "<x/></AssemblyName></a>".toList) := by decide +kernel
  have hinner : Xml.Token.read? "<x/></AssemblyName></a>".toList =
      some (.opening ⟨[], "x".toList⟩ [] true, [] ++ b) := by decide +kernel
  let o : Frame :=
    ⟨⟨[], "AssemblyName".toList⟩, [], [], [.element ⟨[], "x".toList⟩ [] [], .text "Core".toList]⟩
  have hplace : InContent ((a ++ b).dropWhile (· == '\uFEFF')) b (o.read []) := by
    rw [hdocument]
    exact .intro (Xml.start?_of_opening? hroot rfl)
      (.step hname rfl (.step htext rfl (.step hinner rfl (.refl _ _)))) List.not_mem_nil
      (by simp [Xml.Whole])
  have hcomment : CommentFormed " or ".toList := ⟨by decide, by decide, by decide⟩
  have hsettled : o.Settled := ⟨List.cons_ne_nil _ _, nofun⟩
  obtain ⟨_, _, _, _, m', -, -, -, -, hm', hassembly, -⟩ := metadata_of_comment hparse hplace hcomment
  exact ⟨m', hm', hassembly fun _ => .inl hsettled⟩

/-- The name is lost where a comment stands in front of it. -/
theorem commented_name_is_lost :
    let a : Text := "<Project><AssemblyName>".toList
    let b : Text := "Core</AssemblyName></Project>".toList
    let c : Text := " built as ".toList
    parse? (a ++ b) = some { assemblyName := some "Core".toList } ∧
      (∃ o, InContent ((a ++ b).dropWhile (· == '\uFEFF')) b o) ∧ CommentFormed c ∧
      parse? (a ++ commentText c ++ b) = some {} := by
  intro a b c
  have hdocument : (a ++ b).dropWhile (· == '\uFEFF') =
      '<' :: "Project><AssemblyName>Core</AssemblyName></Project>".toList := by decide +kernel
  have hroot : Xml.Token.opening? "Project><AssemblyName>Core</AssemblyName></Project>".toList =
      some ((⟨[], "Project".toList⟩, [], false),
        "<AssemblyName>Core</AssemblyName></Project>".toList) := by decide +kernel
  have hname : Xml.Token.read? "<AssemblyName>Core</AssemblyName></Project>".toList =
      some (.opening ⟨[], "AssemblyName".toList⟩ [] false, [] ++ b) := by decide +kernel
  have hplace : InContent ((a ++ b).dropWhile (· == '\uFEFF')) b
      (Frame.read ⟨⟨[], "AssemblyName".toList⟩, [], [], []⟩ []) := by
    rw [hdocument]
    exact .intro (Xml.start?_of_opening? hroot rfl) (.step hname rfl (.refl _ _)) List.not_mem_nil
      (by simp [Xml.Whole])
  exact ⟨by decide +kernel, ⟨_, hplace⟩, ⟨by decide, by decide, by decide⟩, by decide +kernel⟩

end Library.Metadata
end SiteProject
