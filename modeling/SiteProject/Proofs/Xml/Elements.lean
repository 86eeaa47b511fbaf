import SiteProject.Proofs.Xml.Tree

namespace SiteProject.Xml

namespace Node

theorem descendantsOf_append (ns ms : List Node) :
    descendantsOf (ns ++ ms) = descendantsOf ns ++ descendantsOf ms := by
  induction ns with
  | nil => rfl
  | cons n ns ih => simp only [List.cons_append, descendantsOf, ih, List.append_assoc]

end Node

namespace Markup

/-- An element with the name, with contents or without. -/
def isTagged (name : Text) : Markup → Bool
  | element n _ _ => Text.sameLetters n name
  | empty n _ => Text.sameLetters n name
  | chars _ => false
  | comment _ => false

mutual

/-- The elements with a name, in the order of the document. -/
def tagged (name : Text) : Markup → List Markup
  | element n as cs =>
    (if Text.sameLetters n name then [element n as cs] else []) ++ taggedIn name cs
  | empty n as => if Text.sameLetters n name then [empty n as] else []
  | chars _ => []
  | comment _ => []

def taggedIn (name : Text) : List Markup → List Markup
  | [] => []
  | m :: ms => tagged name m ++ taggedIn name ms

end

variable {name : Text}

theorem isElement_node (m : Markup) : (node m).isElement name = isTagged name m := by
  cases m <;> rfl

theorem eq_chars_of_characters? {m : Markup} {w : Text} (h : m.characters? = some w) : m = chars w := by
  cases m with
  | chars v => rw [Option.some.inj h]
  | element => cases h
  | empty => cases h
  | comment => cases h

theorem filter_textNodes (w : Text) : (textNodes w).filter (·.isElement name) = [] := by
  rw [textNodes]
  split <;> rfl

theorem filter_descendantsOf_textNodes (w : Text) :
    (Node.descendantsOf (textNodes w)).filter (·.isElement name) = [] := by
  rw [textNodes]
  split <;> rfl

/-- The children that are read with a name are those that were written with it. -/
theorem filter_nodes (pending : Text) (ms : List Markup) :
    (nodes pending ms).filter (·.isElement name) = (ms.filter (isTagged name)).map node := by
  induction ms generalizing pending with
  | nil => exact filter_textNodes pending
  | cons m ms ih =>
    cases hm : m.characters? with
    | some w =>
      obtain rfl := eq_chars_of_characters? hm
      rw [nodes_chars, ih, List.filter_cons_of_neg (by simp [isTagged])]
    | none =>
      rw [nodes_cons hm, List.filter_append, filter_textNodes, List.nil_append, List.filter_cons,
        isElement_node, ih, List.filter_cons]
      split <;> rfl

mutual

/-- The elements that are read with a name are those that were written with it. -/
theorem filter_descendants (m : Markup) :
    (node m).descendants.filter (·.isElement name) = (tagged name m).map node := by
  match m with
  | element n as cs =>
    have hself : (node (element n as cs)).isElement name = Text.sameLetters n name := rfl
    have hcs := filter_descendantsOf [] cs
    rw [node] at hself
    rw [node, Node.descendants, List.filter_cons, hself, hcs, tagged, List.map_append]
    split <;> rfl
  | empty n as =>
    have hself : (node (empty n as)).isElement name = Text.sameLetters n name := rfl
    rw [node] at hself
    rw [node, Node.descendants, Node.descendantsOf, List.filter_cons, hself, tagged]
    split <;> rfl
  | chars w => rfl
  | comment t => rfl

theorem filter_descendantsOf (pending : Text) (ms : List Markup) :
    (Node.descendantsOf (nodes pending ms)).filter (·.isElement name) =
      (taggedIn name ms).map node := by
  match ms with
  | [] => exact filter_descendantsOf_textNodes pending
  | m :: ms =>
    cases hm : m.characters? with
    | some w =>
      obtain rfl := eq_chars_of_characters? hm
      rw [nodes_chars, filter_descendantsOf, taggedIn, tagged, List.nil_append]
    | none =>
      rw [nodes_cons hm, Node.descendantsOf_append, List.filter_append,
        filter_descendantsOf_textNodes, List.nil_append, Node.descendantsOf, List.filter_append,
        filter_descendants m, filter_descendantsOf [] ms, taggedIn, List.map_append]

end

theorem taggedIn_append (ms ns : List Markup) :
    taggedIn name (ms ++ ns) = taggedIn name ms ++ taggedIn name ns := by
  induction ms with
  | nil => rfl
  | cons m ms ih => simp only [List.cons_append, taggedIn, ih, List.append_assoc]

theorem tagged_leaf (n : String) (w : Text) :
    tagged name (leaf n w) = if Text.sameLetters n.toList name then [leaf n w] else [] := by
  rw [leaf, tagged, taggedIn, taggedIn, tagged, List.append_nil, List.append_nil]

theorem taggedIn_lines (depth : Nat) (ms : List (Option Markup)) :
    taggedIn name (lines depth ms) = (ms.filterMap id).flatMap (tagged name) := by
  induction ms with
  | nil => rfl
  | cons o ms ih =>
    cases o with
    | none => simp [lines, taggedIn, tagged, ih]
    | some m => simp [lines, taggedIn, tagged, ih]

theorem tagged_block (depth : Nat) (n : String) (as : List (Text × Text)) (ms : List (Option Markup)) :
    tagged name (block depth n as ms) =
      (if Text.sameLetters n.toList name then [block depth n as ms] else []) ++
        (ms.filterMap id).flatMap (tagged name) := by
  rw [block, tagged, taggedIn_append, taggedIn, taggedIn_lines]
  simp [taggedIn, tagged]

theorem filter_lines (depth : Nat) (ms : List (Option Markup)) :
    (lines depth ms).filter (isTagged name) = (ms.filterMap id).filter (isTagged name) := by
  induction ms with
  | nil => rfl
  | cons o ms ih =>
    cases o with
    | none =>
      rw [lines, List.filter_cons_of_neg (by simp [isTagged]), ih]
      rfl
    | some m =>
      rw [lines, List.filter_cons_of_neg (by simp [isTagged]), List.filter_cons,
        List.filter_cons_of_neg (by simp [isTagged]), ih, List.filterMap_cons, id, List.filter_cons]

/-- The children of a block that are read with a name. -/
theorem filter_children_block (depth : Nat) (n : String) (as : List (Text × Text))
    (ms : List (Option Markup)) :
    (node (block depth n as ms)).children.filter (·.isElement name) =
      ((ms.filterMap id).filter (isTagged name)).map node := by
  rw [block, node, Node.children, filter_nodes, List.filter_append, List.filter_cons, filter_lines]
  simp [isTagged]

/-- The only attribute of an element is found by its name. -/
theorem attribute?_singleton {n w t : Text} (hn : n ≠ Scope.xmlns)
    (h : Attribute.ofWritten (n, w) = ⟨⟨[], n⟩, t⟩) (k : Name) (cs : List Node) :
    Node.attribute? n (.element k (keptAttributes [(n, w)]) cs) = some t := by
  have hkept : keptAttributes [(n, w)] = [⟨⟨[], n⟩, t⟩] := by
    rw [keptAttributes, List.filter_cons_of_pos (by simpa using hn), List.filter_nil, List.map_singleton,
      h]
  rw [Node.attribute?, hkept, List.find?_cons_of_pos (by exact Text.sameLetters_refl n)]
  rfl

/-- The text of a leaf is read; an empty one is none. -/
theorem leadText?_leaf (n : String) (w : Text) :
    (node (leaf n w)).leadText? = if w = [] then none else some (Token.decode w) := by
  rw [leaf, node, nodes_chars, List.nil_append, nodes, textNodes]
  split <;> rfl

end Markup
end SiteProject.Xml
