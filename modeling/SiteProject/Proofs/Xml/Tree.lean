import SiteProject.Proofs.Xml.Token
import SiteProject.Xml.Tree

namespace SiteProject.Xml

/-- An element's attributes have different names; a declaration of the default name space does not
take one of the two that are reserved. -/
structure AttributesFormed (as : List (Text × Text)) : Prop where
  each : ∀ a ∈ as, AttributeFormed a
  names : (as.map Prod.fst).Nodup
  spaces : ∀ a ∈ as, a.1 = Scope.xmlns → (Attribute.ofWritten a).value ≠ Scope.xmlSpace ∧
    (Attribute.ofWritten a).value ≠ Scope.xmlnsSpace

/-- The attributes that are kept: a declaration is none. -/
def keptAttributes (as : List (Text × Text)) : List Attribute :=
  (as.filter fun a => a.1 != Scope.xmlns).map Attribute.ofWritten

namespace Scope

theorem noRepeats_of_nodup {α : Type} [BEq α] [LawfulBEq α] {xs : List α} (h : xs.Nodup) :
    noRepeats xs = true := by
  induction xs with
  | nil => rfl
  | cons x xs ih =>
    obtain ⟨hx, hxs⟩ := List.nodup_cons.1 h
    rw [noRepeats, ih hxs]
    simpa using hx

theorem declare?_formed {as : List (Text × Text)}
    (h : ∀ a ∈ as, a.1 = xmlns → (Attribute.ofWritten a).value ≠ xmlSpace ∧
      (Attribute.ofWritten a).value ≠ xmlnsSpace) (found : Scope) :
    ∃ own, declare? found (as.map Attribute.ofWritten) = some (own, keptAttributes as) := by
  induction as generalizing found with
  | nil => exact ⟨found, rfl⟩
  | cons a as ih =>
    have htail := ih fun b hb => h b (by simp [hb])
    have hq : ((Attribute.ofWritten a).name.qualifier == xmlns) = false := rfl
    rw [List.map_cons, declare?, hq]
    by_cases hn : a.1 = xmlns
    · obtain ⟨hxml, hxmlns⟩ := h a (by simp) hn
      have hl : ((Attribute.ofWritten a).name.localName == xmlns) = true := by
        simpa [Attribute.ofWritten] using hn
      obtain ⟨own, ho⟩ := htail (found ++ [(none, (Attribute.ofWritten a).value)])
      refine ⟨own, ?_⟩
      simp [hl, hxml, hxmlns, ho, keptAttributes, hn]
    · have hl : ((Attribute.ofWritten a).name.localName == xmlns) = false := by
        simpa [Attribute.ofWritten] using hn
      obtain ⟨own, ho⟩ := htail found
      refine ⟨own, ?_⟩
      simp [hl, ho, keptAttributes, hn]

/-- A tag without qualified names can be entered anywhere. -/
theorem enter?_formed {as : List (Text × Text)} (h : AttributesFormed as) (outer : Scope) (n : Text) :
    ∃ scope, enter? outer ⟨[], n⟩ (as.map Attribute.ofWritten) = some (scope, keptAttributes as) := by
  obtain ⟨own, ho⟩ := declare?_formed h.spaces []
  have hexpand : (keptAttributes as).mapM (fun a => expand? (own ++ outer.filter fun d =>
      (uri? own d.1).isNone) a.name) =
      some ((as.filter fun a => a.1 != xmlns).map fun a => (none, a.1)) := by
    rw [keptAttributes]
    generalize as.filter (fun a => a.1 != xmlns) = kept
    induction kept with
    | nil => rfl
    | cons a kept ih =>
      rw [List.map_cons, List.mapM_cons, ih]
      rfl
  have hdistinct : noRepeats
      ((as.filter fun a => a.1 != xmlns).map fun a => ((none : Option Text), a.1)) = true := by
    apply noRepeats_of_nodup
    have hnames : ((as.filter fun a => a.1 != xmlns).map Prod.fst).Nodup :=
      h.names.sublist (List.Sublist.map _ List.filter_sublist)
    refine List.pairwise_map.2 ((List.pairwise_map.1 hnames).imp fun hne he => hne ?_)
    exact (Prod.mk.inj he).2
  refine ⟨own ++ outer.filter fun d => (uri? own d.1).isNone, ?_⟩
  have hq : (([] : Text) == xmlns) = false := rfl
  simp only [enter?, hq, ho, bind, Option.bind_some, hexpand, hdistinct]
  rfl

end Scope

namespace Markup

inductive Formed : Markup → Prop
  | element {n : Text} {as : List (Text × Text)} {cs : List Markup} (hn : isWord n = true)
      (has : AttributesFormed as) (hcs : ∀ c ∈ cs, Formed c) : Formed (element n as cs)
  | empty {n : Text} {as : List (Text × Text)} (hn : isWord n = true) (has : AttributesFormed as) :
      Formed (empty n as)
  | chars {w : Text} (hw : Token.CharsFormed w) : Formed (chars w)
  | comment {t : Text} (ht : '-' ∉ t) : Formed (comment t)

/-- The text that character data is read as, if there is any. -/
def textNodes (w : Text) : List Node := if w = [] then [] else [.text (Token.decode w)]

def characters? : Markup → Option Text
  | chars w => some w
  | _ => none

mutual

def node : Markup → Node
  | element n as cs => .element ⟨[], n⟩ (keptAttributes as) (nodes [] cs)
  | empty n as => .element ⟨[], n⟩ (keptAttributes as) []
  | chars w => .text (Token.decode w)
  | comment _ => .aside

/-- The nodes of markup that follows character data. -/
def nodes (pending : Text) : List Markup → List Node
  | [] => textNodes pending
  | m :: ms =>
    match m.characters? with
    | some w => nodes (pending ++ w) ms
    | none => textNodes pending ++ node m :: nodes [] ms

end

theorem render_element (n : Text) (as : List (Text × Text)) (cs : List Markup) :
    render (element n as cs) = ['<'] ++ n ++ as.flatMap attributeText ++ ['>'] ++ renderAll cs ++
      ['<', '/'] ++ n ++ ['>'] := rfl

theorem render_empty (n : Text) (as : List (Text × Text)) :
    render (empty n as) = ['<'] ++ n ++ as.flatMap attributeText ++ tagEnd true := rfl

theorem render_chars (w : Text) : render (chars w) = w := rfl

theorem render_comment (t : Text) :
    render (comment t) = "<!-- ".toList ++ t ++ " -->".toList := rfl

theorem nodes_chars (pending w : Text) (ms : List Markup) :
    nodes pending (chars w :: ms) = nodes (pending ++ w) ms := by
  rw [nodes, characters?]

theorem nodes_cons {m : Markup} (h : m.characters? = none) (pending : Text) (ms : List Markup) :
    nodes pending (m :: ms) = textNodes pending ++ node m :: nodes [] ms := by
  rw [nodes, h]

end Markup

namespace Frame

/-- The frame with further children. -/
def push (f : Frame) (ns : List Node) : Frame := { f with children := ns.reverse ++ f.children }

/-- No text is open that more character data would be added to. -/
def Ended (f : Frame) : Prop := ∀ t cs, f.children ≠ .text t :: cs

theorem push_append (f : Frame) (ns ms : List Node) : f.push (ns ++ ms) = (f.push ns).push ms := by
  simp only [push, List.reverse_append, List.append_assoc]

theorem add_of_ended {f : Frame} (h : f.Ended) (n : Node) : f.add n = f.push [n] := by
  unfold add
  split
  · next t s cs hc => exact absurd hc (h s cs)
  · rfl

theorem add_of_not_text {n : Node} (h : ∀ t, n ≠ .text t) (f : Frame) : f.add n = f.push [n] := by
  unfold add
  split
  · next t s cs _ => exact absurd rfl (h t)
  · rfl

theorem ended_push {n : Node} (h : ∀ t, n ≠ .text t) (f : Frame) : (f.push [n]).Ended := by
  intro t cs he
  exact h t (List.cons.inj he).1

end Frame

namespace Progress

open Markup (Formed textNodes node nodes render renderAll)

theorem run?_of_read? {s r : Text} {t : Token} {frame : Frame} {outer : List Frame} {p : Progress}
    (hr : Token.read? s = some (t, r)) (hs : step? frame outer t = some p) :
    run? (inside frame outer) s = run? p r := by
  rw [run?]
  split
  · next hn => simp [hr] at hn
  · next t' r' he =>
    obtain ⟨rfl, rfl⟩ : t = t' ∧ r = r' := by simpa [hr] using he
    rw [hs]

theorem openTag?_formed {n : Text} {as : List (Text × Text)} (has : AttributesFormed as)
    (outer : List Frame) (closed : Bool) :
    ∃ scope, openTag? outer ⟨[], n⟩ (as.map Attribute.ofWritten) closed =
      some (if closed then finish (.element ⟨[], n⟩ (keptAttributes as) []) outer
        else inside ⟨⟨[], n⟩, keptAttributes as, scope, []⟩ outer) := by
  obtain ⟨scope, hs⟩ := Scope.enter?_formed has ((outer.head?.map Frame.scope).getD []) n
  refine ⟨scope, ?_⟩
  rw [openTag?]
  simp only [hs, bind, Option.bind_some]
  rfl

/-- Character data before other markup is read as one text. -/
theorem run?_textNodes {w : Text} (hw : Token.CharsFormed w) (hall : w.all isAllowed = true)
    {frame : Frame} (hf : frame.Ended) (outer : List Frame) (r : Text) :
    run? (inside frame outer) (w ++ '<' :: r) =
      run? (inside (frame.push (textNodes w)) outer) ('<' :: r) := by
  by_cases hne : w = []
  · subst hne
    rfl
  · rw [textNodes, if_neg hne, ← Frame.add_of_ended hf]
    exact run?_of_read? (Token.read?_chars hne hw hall r) rfl

/-- The markup is read as its nodes, after whatever character data. -/
def Reads (ms : List Markup) : Prop :=
  (renderAll ms).all isAllowed = true → ∀ {pending : Text} {frame : Frame},
    Token.CharsFormed pending → pending.all isAllowed = true → frame.Ended →
      ∀ outer r, run? (inside frame outer) (pending ++ renderAll ms ++ '<' :: r) =
        run? (inside (frame.push (nodes pending ms)) outer) ('<' :: r)

theorem charsFormed_nil : Token.CharsFormed [] where
  left := List.not_mem_nil
  right := List.not_mem_nil
  written := ⟨[], Spells.nil⟩

theorem reads_nil : Reads [] := by
  intro _ pending frame hp hpa hf outer r
  rw [renderAll, nodes, List.append_nil]
  exact run?_textNodes hp hpa hf outer r

theorem reads_chars {w : Text} (hw : Token.CharsFormed w) {ms : List Markup} (h : Reads ms) :
    Reads (.chars w :: ms) := by
  intro hall pending frame hp hpa hf outer r
  rw [renderAll, Markup.render_chars, List.all_append, Bool.and_eq_true] at hall
  have hpw : (pending ++ w).all isAllowed = true := by rw [List.all_append, hpa, hall.1]; rfl
  have hread := h hall.2 (hp.append hw) hpw hf outer r
  rw [renderAll, Markup.render_chars, Markup.nodes_chars, ← List.append_assoc]
  exact hread

/-- A tag or a comment is read as its node. -/
structure ReadsNode (m : Markup) : Prop where
  notChars : m.characters? = none
  notText : ∀ t, node m ≠ .text t
  opens : ∃ s, render m = '<' :: s
  run : (render m).all isAllowed = true → ∀ frame outer s,
    run? (inside frame outer) (render m ++ s) = run? (inside (frame.push [node m]) outer) s

theorem ReadsNode.reads {m : Markup} (hm : ReadsNode m) {ms : List Markup} (h : Reads ms) :
    Reads (m :: ms) := by
  intro hall pending frame hp hpa hf outer r
  rw [renderAll, List.all_append, Bool.and_eq_true] at hall
  obtain ⟨s, hs⟩ := hm.opens
  have hflush := run?_textNodes hp hpa hf outer (s ++ renderAll ms ++ '<' :: r)
  have hnode := hm.run hall.1 (frame.push (textNodes pending)) outer (renderAll ms ++ '<' :: r)
  have hrest := h hall.2 charsFormed_nil rfl
    (Frame.ended_push hm.notText (frame.push (textNodes pending))) outer r
  rw [hs] at hnode
  simp only [List.cons_append, List.append_assoc, List.nil_append] at hflush hnode hrest
  rw [renderAll, hs, Markup.nodes_cons hm.notChars, Frame.push_append]
  simp only [List.cons_append, List.append_assoc]
  rw [hflush, hnode, hrest, ← Frame.push_append, List.singleton_append]

theorem readsNode_comment {t : Text} (ht : '-' ∉ t) : ReadsNode (.comment t) where
  notChars := rfl
  notText := by
    intro u h
    cases h
  opens := by
    have hopen : "<!-- ".toList = '<' :: "!-- ".toList := by decide
    exact ⟨"!-- ".toList ++ t ++ " -->".toList, by rw [Markup.render_comment, hopen]; rfl⟩
  run := by
    intro hall frame outer s
    have ha : t.all isAllowed = true := by
      simp only [Markup.render_comment, List.all_append, Bool.and_eq_true] at hall
      exact hall.1.2
    have hadd := Frame.add_of_not_text (n := .aside) (fun u h => by cases h) frame
    rw [Markup.render_comment, node, ← hadd]
    exact run?_of_read? (Token.read?_comment ht ha s) rfl

/-- The attributes hold allowed characters only. -/
theorem all_isAllowed_attributes {as : List (Text × Text)}
    (h : (as.flatMap Markup.attributeText).all isAllowed = true) :
    ∀ a ∈ as, a.2.all isAllowed = true := by
  intro a ha
  have hone := (List.all_flatMap.symm.trans h)
  have := List.all_eq_true.1 hone a ha
  simp only [Markup.attributeText, List.all_append, Bool.and_eq_true] at this
  exact this.1.2

theorem readsNode_empty {n : Text} {as : List (Text × Text)} (hn : isWord n = true)
    (has : AttributesFormed as) : ReadsNode (.empty n as) where
  notChars := rfl
  notText := by
    intro u h
    cases h
  opens := ⟨_, rfl⟩
  run := by
    intro hall frame outer s
    have ha : ∀ a ∈ as, a.2.all isAllowed = true := by
      simp only [Markup.render_empty, List.all_append, Bool.and_eq_true] at hall
      exact all_isAllowed_attributes hall.1.2
    obtain ⟨scope, htag⟩ := openTag?_formed (n := n) has (frame :: outer) true
    have hread := Token.read?_opening hn has.each ha true s
    rw [node, ← Frame.add_of_not_text (by intro t h; cases h) frame]
    exact run?_of_read? hread htag

/-- An open element is read to its end. -/
theorem run?_children {n : Text} {cs : List Markup} (hn : isWord n = true) (hcs : Reads cs)
    (hall : (renderAll cs).all isAllowed = true) (as : List Attribute) (scope : Scope)
    (outer : List Frame) (s : Text) :
    run? (inside ⟨⟨[], n⟩, as, scope, []⟩ outer) (renderAll cs ++ ['<', '/'] ++ n ++ ['>'] ++ s) =
      run? (finish (.element ⟨[], n⟩ as (nodes [] cs)) outer) s := by
  have hended : Frame.Ended ⟨⟨[], n⟩, as, scope, []⟩ := by
    intro t cs h
    cases h
  have hchildren := hcs hall charsFormed_nil rfl hended outer ('/' :: n ++ ['>'] ++ s)
  have hfinish : step? (Frame.push ⟨⟨[], n⟩, as, scope, []⟩ (nodes [] cs)) outer (.closing ⟨[], n⟩) =
      some (finish (.element ⟨[], n⟩ as (nodes [] cs)) outer) := by
    simp [step?, Frame.push, Frame.close]
  have hclose := run?_of_read? (Token.read?_closing hn s) hfinish
  simp only [List.append_assoc, List.cons_append, List.nil_append] at hchildren hclose ⊢
  rw [hchildren, hclose]

theorem readsNode_element {n : Text} {as : List (Text × Text)} {cs : List Markup}
    (hn : isWord n = true) (has : AttributesFormed as) (hcs : Reads cs) :
    ReadsNode (.element n as cs) where
  notChars := rfl
  notText := by
    intro u h
    cases h
  opens := ⟨_, rfl⟩
  run := by
    intro hall frame outer s
    simp only [Markup.render_element, List.all_append, Bool.and_eq_true] at hall
    obtain ⟨⟨⟨⟨⟨⟨-, ha⟩, -⟩, hc⟩, -⟩, -⟩, -⟩ := hall
    obtain ⟨scope, htag⟩ := openTag?_formed (n := n) has (frame :: outer) false
    have hread := Token.read?_opening hn has.each (all_isAllowed_attributes ha) false
      (renderAll cs ++ ['<', '/'] ++ n ++ ['>'] ++ s)
    have hopen : run? (inside frame outer) _ = _ := run?_of_read? hread htag
    rw [if_neg (by decide), run?_children hn hcs hc] at hopen
    rw [node, ← Frame.add_of_not_text (by intro t h; cases h) frame]
    simp only [Markup.render_element, tagEnd, List.append_assoc] at hopen ⊢
    exact hopen

theorem reads_of_each {ms : List Markup} (h : ∀ m ∈ ms, ∀ {ms}, Reads ms → Reads (m :: ms)) :
    Reads ms := by
  induction ms with
  | nil => exact reads_nil
  | cons m ms ih => exact h m (by simp) (ih fun m' hm' => h m' (by simp [hm']))

theorem reads_cons {m : Markup} (hm : Formed m) : ∀ {ms : List Markup}, Reads ms → Reads (m :: ms) := by
  induction hm with
  | element hn has hcs ih => exact (readsNode_element hn has (reads_of_each ih)).reads
  | empty hn has => exact (readsNode_empty hn has).reads
  | chars hw => exact reads_chars hw
  | comment ht => exact (readsNode_comment ht).reads

/-- Formed markup is read as its nodes. -/
theorem reads_of_formed {ms : List Markup} (h : ∀ m ∈ ms, Formed m) : Reads ms :=
  reads_of_each fun m hm => reads_cons (h m hm)

end Progress

theorem skipAsides?_space {c : Char} (hc : isSpace c = true) (s : Text) :
    skipAsides? (c :: s) = skipAsides? s := by
  have hskip : skipSpace (c :: s) = skipSpace s := List.dropWhile_cons_of_pos hc
  rw [skipAsides?, skipAsides?, hskip]

theorem skipAsides?_nil : skipAsides? [] = some [] := by
  rw [skipAsides?]
  rfl

theorem skipAsides?_comment {t : Text} (ht : '-' ∉ t) (hall : t.all isAllowed = true) (s : Text) :
    skipAsides? (Markup.render (.comment t) ++ s) = skipAsides? s := by
  have hread := Token.read?_comment ht hall s
  have hopen : "<!-- ".toList = "<!--".toList ++ [' '] := by decide
  have hskip : skipSpace (Markup.render (.comment t) ++ s) = Markup.render (.comment t) ++ s := by
    rw [Markup.render_comment, hopen]
    exact skipSpace_of_not (by decide) _
  have hafter : (Text.after? "<!--".toList (Markup.render (.comment t) ++ s)).isSome = true := by
    rw [Markup.render_comment, hopen]
    simp only [List.append_assoc, Text.after?_append]
    rfl
  rw [skipAsides?, hskip]
  split
  · next hn _ =>
    rw [hn] at hafter
    exact absurd hafter (by decide)
  · split
    · next t' r he =>
      rw [Markup.render_comment, hread] at he
      rw [(Prod.mk.inj (Option.some.inj he)).2]
    · next he =>
      rw [Markup.render_comment, hread] at he
      exact absurd he (by simp)

theorem skipAsides?_opening {c : Char} (hc : isNameStart c = true) (s : Text) :
    skipAsides? ('<' :: c :: s) = some ('<' :: c :: s) := by
  have hskip : skipSpace ('<' :: c :: s) = '<' :: c :: s := skipSpace_of_not (by decide) _
  have hcomment : Text.after? "<!--".toList ('<' :: c :: s) = none := by
    have hopen : "<!--".toList = ['<', '!', '-', '-'] := by decide
    simp [hopen, Text.after?, (ne_of_isNameStart hc (d := '!') (by decide)).symm]
  have hinstruction : Text.after? "<?".toList ('<' :: c :: s) = none := by
    have hopen : "<?".toList = ['<', '?'] := by decide
    simp [hopen, Text.after?, (ne_of_isNameStart hc (d := '?') (by decide)).symm]
  rw [skipAsides?, hskip, hcomment, hinstruction]

/-- The root element of a document with a declaration is read where everything else around it is
passed over. -/
theorem parse?_formed {s t r : Text} {n : Text} {as : List (Text × Text)} {cs : List Markup}
    (hroot : Markup.Formed (.element n as cs))
    (hall : (Markup.render (.element n as cs)).all isAllowed = true)
    (hs : Text.startsWith "<?xml ".toList s = true) (hd : declaration? (s.drop 5) = some t)
    (ht : skipAsides? t = skipAsides? (Markup.render (.element n as cs) ++ r))
    (hr : skipAsides? r = some []) :
    parse? s = some (Markup.node (.element n as cs)) := by
  cases hroot with
  | element hn has hcs =>
    have hnodes := Progress.reads_of_formed hcs
    simp only [Markup.render_element, List.all_append, Bool.and_eq_true] at hall
    obtain ⟨⟨⟨⟨⟨⟨-, ha⟩, -⟩, hc⟩, -⟩, -⟩, -⟩ := hall
    obtain ⟨c, m, hcm, hstart⟩ := exists_cons_of_isWord hn
    obtain ⟨scope, htag⟩ := Progress.openTag?_formed (n := n) has [] false
    have hopening := Token.opening?_formed hn has.each (Progress.all_isAllowed_attributes ha) false
      (Markup.renderAll cs ++ ['<', '/'] ++ n ++ ['>'] ++ r)
    have hrun := Progress.run?_children hn hnodes hc (keptAttributes as) scope [] r
    have hskip : skipAsides? t = some (['<'] ++ (n ++ as.flatMap Markup.attributeText ++ tagEnd false ++
        (Markup.renderAll cs ++ ['<', '/'] ++ n ++ ['>'] ++ r))) := by
      rw [ht, Markup.render_element, hcm]
      simp only [tagEnd, List.append_assoc, List.cons_append, List.nil_append]
      exact skipAsides?_opening hstart _
    have hcomplete (root : Node) (u : Text) : Progress.run? (.complete root) u = some (root, u) := by
      rw [Progress.run?]
    rw [if_neg (by decide)] at htag
    rw [Progress.finish, hcomplete] at hrun
    rw [parse?, if_pos hs]
    simp only [hd, hskip, Text.after?_append, hopening, htag, hrun, hr, bind, Option.bind_some]
    rfl

end SiteProject.Xml
