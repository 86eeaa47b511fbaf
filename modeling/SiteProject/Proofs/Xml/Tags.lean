import SiteProject.Proofs.Xml.Block

namespace SiteProject.Xml

/-- No tag in the text has a name that begins with the character. -/
def TagFree (c : Char) (t : Text) : Prop := ∀ a b, t = a ++ '<' :: b → ∃ d r, b = d :: r ∧ d ≠ c

variable {c : Char}

theorem tagFree_of_notMem {t : Text} (h : '<' ∉ t) : TagFree c t := by
  rintro a b rfl
  simp at h

theorem tagFree_of_cons {d : Char} {t : Text} (hd : d ≠ c) (h : '<' ∉ d :: t) :
    TagFree c ('<' :: d :: t) := by
  intro a b ht
  cases a with
  | nil => exact ⟨d, t, (List.cons.inj ht).2.symm, hd⟩
  | cons e a =>
    rw [(List.cons.inj ht).2] at h
    simp at h

/-- What follows an angle stands in the same one of two texts. -/
theorem TagFree.append {s t : Text} (hs : TagFree c s) (ht : TagFree c t) : TagFree c (s ++ t) := by
  intro a b he
  rcases List.append_eq_append_iff.1 he with ⟨a', rfl, h⟩ | ⟨b', rfl, h⟩
  · exact ht a' b h
  · cases b' with
    | nil => exact ht [] b h.symm
    | cons e b' =>
      obtain ⟨rfl, rfl⟩ := List.cons.inj h
      obtain ⟨d, r, rfl, hd⟩ := hs a b' rfl
      exact ⟨d, r ++ t, rfl, hd⟩

theorem TagFree.contains_eq_false {t : Text} (h : TagFree c t) (w : Text) :
    Text.contains ('<' :: c :: w) t = false := by
  rw [Bool.eq_false_iff, ne_eq, Text.contains_iff]
  rintro ⟨a, b, rfl⟩
  obtain ⟨d, r, he, hd⟩ := h a (c :: w ++ b) (by simp)
  exact hd (List.cons.inj he).1.symm

namespace Markup

mutual

/-- No element has a name that begins with the character, and comments do not look like elements. -/
def sparing (c : Char) : Markup → Bool
  | element n _ cs => n.head? != some c && sparingAll c cs
  | empty n _ => n.head? != some c
  | chars _ => true
  | comment t => t.all (· != '<')

def sparingAll (c : Char) : List Markup → Bool
  | [] => true
  | m :: ms => sparing c m && sparingAll c ms

end

theorem sparing_of_sparingAll {ms : List Markup} (h : sparingAll c ms = true) {m : Markup} (hm : m ∈ ms) :
    sparing c m = true := by
  induction ms with
  | nil => cases hm
  | cons n ms ih =>
    rw [sparingAll, Bool.and_eq_true] at h
    rcases List.mem_cons.1 hm with rfl | hm
    · exact h.1
    · exact ih h.2 hm

theorem angle_notMem_of_isWord {n : Text} (h : isWord n = true) : '<' ∉ n := by
  intro hm
  have hall := (Bool.and_eq_true_iff.1 h).2
  exact absurd (List.all_eq_true.1 hall _ hm) (by decide)

theorem angle_notMem_attributes {as : List (Text × Text)} (h : AttributesFormed as) :
    '<' ∉ as.flatMap attributeText := by
  intro hm
  obtain ⟨a, ha, hm⟩ := List.mem_flatMap.1 hm
  have hname := angle_notMem_of_isWord (h.each a ha).name
  have hvalue := (h.each a ha).angle
  simp [attributeText, hname, hvalue] at hm

theorem tagFree_opening {n : Text} {as : List (Text × Text)} (hn : isWord n = true)
    (has : AttributesFormed as) (hc : n.head? ≠ some c) :
    TagFree c (['<'] ++ n ++ as.flatMap attributeText) := by
  refine TagFree.append ?_ (tagFree_of_notMem (angle_notMem_attributes has))
  obtain ⟨d, m, rfl, -⟩ := exists_cons_of_isWord hn
  exact tagFree_of_cons (by simpa using hc) (angle_notMem_of_isWord hn)

theorem tagFree_closing {n : Text} (hn : isWord n = true) (hslash : c ≠ '/') :
    TagFree c (['<', '/'] ++ n) :=
  tagFree_of_cons hslash.symm (by simpa using angle_notMem_of_isWord hn)

theorem tagFree_renderAll {ms : List Markup} (h : ∀ m ∈ ms, TagFree c (render m)) :
    TagFree c (renderAll ms) := by
  induction ms with
  | nil => exact tagFree_of_notMem (by simp [renderAll])
  | cons m ms ih =>
    rw [List.forall_mem_cons] at h
    exact h.1.append (ih h.2)

/-- Where no element has such a name, no tag has one. -/
theorem tagFree_render (hslash : c ≠ '/') (hmark : c ≠ '!') {m : Markup} (hm : Formed m)
    (h : sparing c m = true) : TagFree c (render m) := by
  induction hm with
  | @element n as cs hn has _ ih =>
    rw [sparing, Bool.and_eq_true, bne_iff_ne] at h
    have hcs : TagFree c (renderAll cs) :=
      tagFree_renderAll fun m hm => ih m hm (sparing_of_sparingAll h.2 hm)
    have hend : TagFree c ['>'] := tagFree_of_notMem (by decide)
    rw [render_element, List.append_assoc _ ['<', '/'] n]
    exact ((((tagFree_opening hn has h.1).append hend).append hcs).append
      (tagFree_closing hn hslash)).append hend
  | @empty n as hn has =>
    rw [sparing, bne_iff_ne] at h
    exact (tagFree_opening hn has h).append (tagFree_of_notMem (by decide))
  | chars hw => exact tagFree_of_notMem hw.left
  | @comment t _ =>
    have ht : '<' ∉ t := fun hm => absurd (List.all_eq_true.1 h _ hm) (by decide)
    have hopen : TagFree c "<!-- ".toList := tagFree_of_cons hmark.symm (by decide)
    have hclose : TagFree c " -->".toList := tagFree_of_notMem (by decide)
    exact (hopen.append (tagFree_of_notMem ht)).append hclose

theorem tagFree_lines {ms : List (Option Markup)} (h : ∀ m, some m ∈ ms → TagFree c (render m))
    (depth : Nat) : TagFree c (renderAll (lines depth ms)) := by
  have hnewline : TagFree c (render (chars ['\n'])) := tagFree_of_notMem (by decide)
  have hspaces : TagFree c (render (chars (List.replicate (2 * depth) ' '))) :=
    tagFree_of_notMem (by simp [render_chars])
  induction ms with
  | nil => exact tagFree_of_notMem (by simp [lines, renderAll])
  | cons o ms ih =>
    have ih := ih fun m hm => h m (List.mem_cons_of_mem o hm)
    cases o with
    | none => exact hnewline.append ih
    | some m => exact hspaces.append ((h m List.mem_cons_self).append (hnewline.append ih))

end Markup

/-- A text stands in another one, in which no other tag has a name that begins with the character. -/
def Among (c : Char) (v t : Text) : Prop :=
  ∃ before after, t = before ++ v ++ after ∧ TagFree c before ∧ TagFree c after

namespace Among

variable {v t u : Text}

theorem refl (v : Text) : Among c v v :=
  ⟨[], [], by simp, tagFree_of_notMem (by simp), tagFree_of_notMem (by simp)⟩

theorem behind (hu : TagFree c u) (h : Among c v t) : Among c v (u ++ t) := by
  obtain ⟨before, after, rfl, hb, ha⟩ := h
  exact ⟨u ++ before, after, by simp, hu.append hb, ha⟩

theorem before (h : Among c v t) (hu : TagFree c u) : Among c v (t ++ u) := by
  obtain ⟨before, after, rfl, hb, ha⟩ := h
  exact ⟨before, after ++ u, by simp, hb, ha.append hu⟩

open Markup (render renderAll tagFree_lines)

theorem lines {ms ns : List (Option Markup)} {m : Markup}
    (hms : ∀ m, some m ∈ ms → TagFree c (render m)) (h : Among c v (render m))
    (hns : ∀ m, some m ∈ ns → TagFree c (render m)) (depth : Nat) :
    Among c v (renderAll (Markup.lines depth (ms ++ some m :: ns))) := by
  have hspaces : TagFree c (List.replicate (2 * depth) ' ') := tagFree_of_notMem (by simp)
  have hnewline : TagFree c ['\n'] := tagFree_of_notMem (by decide)
  rw [Markup.lines_append, Markup.renderAll_append, Markup.renderAll_lines_some]
  exact (((h.behind hspaces).before hnewline).before (tagFree_lines hns depth)).behind
    (tagFree_lines hms depth)

theorem block {n : String} {as : List (Text × Text)} {depth : Nat} {ms : List (Option Markup)}
    (hslash : c ≠ '/') (hn : isWord n.toList = true) (has : AttributesFormed as)
    (hc : n.toList.head? ≠ some c) (h : Among c v (renderAll (Markup.lines (depth + 1) ms))) :
    Among c v (render (Markup.block depth n as ms)) := by
  have hopen : TagFree c (['<'] ++ n.toList ++ as.flatMap Markup.attributeText ++ ['>', '\n']) :=
    (Markup.tagFree_opening hn has hc).append (tagFree_of_notMem (by decide))
  have hspaces : TagFree c (List.replicate (2 * depth) ' ') := tagFree_of_notMem (by simp)
  have hend : TagFree c ['>'] := tagFree_of_notMem (by decide)
  rw [Markup.render_block, List.append_assoc _ ['<', '/'] n.toList]
  exact (((h.behind hopen).before hspaces).before (Markup.tagFree_closing hn hslash)).before hend

end Among
end SiteProject.Xml
