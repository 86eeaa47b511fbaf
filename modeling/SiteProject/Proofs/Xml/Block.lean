import SiteProject.Proofs.Xml.Tree

namespace SiteProject.Xml

theorem Token.charsFormed_escape (t : Text) : Token.CharsFormed (escape t) where
  left := notMem_escape (by decide) t
  right := notMem_escape (by decide) t
  written := ⟨_, spells_escape t⟩

/-- A text with nothing in it that marks up. -/
def isPlain (w : Text) : Bool := w.all fun c => c != '<' && c != '>' && c != '&' && c != '"'

theorem notMem_of_isPlain {w : Text} (h : isPlain w = true) {d : Char}
    (hd : d ∈ ['<', '>', '&', '"']) : d ∉ w := by
  intro hm
  have hc := List.all_eq_true.1 h d hm
  simp only [List.mem_cons, List.not_mem_nil, or_false] at hd
  rcases hd with rfl | rfl | rfl | rfl <;> exact absurd hc (by decide)

theorem spells_of_isPlain {w : Text} (h : isPlain w = true) : Spells w (w.map .plain) :=
  spells_plain (notMem_of_isPlain h (by decide))

theorem Token.charsFormed_plain {w : Text} (h : isPlain w = true) : Token.CharsFormed w where
  left := notMem_of_isPlain h (by decide)
  right := notMem_of_isPlain h (by decide)
  written := ⟨_, spells_of_isPlain h⟩

theorem attributeFormed_escape {n : Text} (hn : isWord n = true) (t : Text) :
    AttributeFormed (n, escape t) where
  name := hn
  quote := notMem_escape (by decide) t
  angle := notMem_escape (by decide) t
  written := ⟨_, spells_escape t⟩

theorem attributeFormed_plain {n w : Text} (hn : isWord n = true) (h : isPlain w = true) :
    AttributeFormed (n, w) where
  name := hn
  quote := notMem_of_isPlain h (by decide)
  angle := notMem_of_isPlain h (by decide)
  written := ⟨_, spells_of_isPlain h⟩

/-- What may stand in a document and is no control character. -/
def isOrdinary (c : Char) : Bool := 0x20 ≤ c.toNat && c.toNat != 0xFFFE && c.toNat != 0xFFFF

theorem isAllowed_of_isOrdinary {c : Char} (h : isOrdinary c = true) : isAllowed c = true := by
  simp only [isOrdinary, Bool.and_eq_true, decide_eq_true_eq] at h
  obtain ⟨⟨hlow, hfffe⟩, hffff⟩ := h
  rw [isAllowed, if_neg (by omega), hfffe, hffff]
  rfl

theorem all_isAllowed_of_isOrdinary {t : Text} (h : t.all isOrdinary = true) :
    t.all isAllowed = true :=
  List.all_eq_true.2 fun c hc => isAllowed_of_isOrdinary (List.all_eq_true.1 h c hc)

theorem ne_of_isOrdinary {c d : Char} (h : isOrdinary c = true) (hd : isOrdinary d = false) : c ≠ d := by
  rintro rfl
  rw [h] at hd
  exact absurd hd (by decide)

theorem isOrdinary_char {ws : List Written} {t : Text} (ht : ws.map Written.char = t)
    (hall : t.all isOrdinary = true) : ∀ w ∈ ws, isOrdinary w.char = true := by
  intro w hw
  rw [← ht] at hall
  exact List.all_eq_true.1 hall _ (List.mem_map_of_mem hw)

/-- Character data is read as the text that it spells. -/
theorem Token.decode_eq {w t : Text} {ws : List Written} (h : Spells w ws)
    (ht : ws.map Written.char = t) (hall : t.all isOrdinary = true) : Token.decode w = t := by
  have hchar := isOrdinary_char ht hall
  rw [Token.decode, h.written?]
  exact (content_eq (fun w hw => ne_of_isOrdinary (hchar w hw) (by decide)) false).trans ht

/-- A value is read as the text that it spells. -/
theorem Attribute.ofWritten_eq {n w t : Text} {ws : List Written} (h : Spells w ws)
    (ht : ws.map Written.char = t) (hall : t.all isOrdinary = true) :
    Attribute.ofWritten (n, w) = ⟨⟨[], n⟩, t⟩ := by
  have hchar := isOrdinary_char ht hall
  have hvalue : attributeValue ws = t := (attributeValue_eq fun w hw =>
    ⟨ne_of_isOrdinary (hchar w hw) (by decide), ne_of_isOrdinary (hchar w hw) (by decide),
      ne_of_isOrdinary (hchar w hw) (by decide)⟩).trans ht
  rw [Attribute.ofWritten, h.written?, ← hvalue]
  rfl

theorem attributesFormed_nil : AttributesFormed [] where
  each := by simp
  names := List.nodup_nil
  spaces := by simp

/-- Attributes that declare no name space. -/
theorem attributesFormed_of_names (names : List Text) {as : List (Text × Text)}
    (h : ∀ a ∈ as, AttributeFormed a) (hnames : as.map Prod.fst = names) (hnodup : names.Nodup)
    (hxmlns : Scope.xmlns ∉ names) : AttributesFormed as where
  each := h
  names := by rwa [hnames]
  spaces := by
    intro a ha he
    have hmem : a.1 ∈ as.map Prod.fst := List.mem_map_of_mem ha
    rw [hnames, he] at hmem
    exact absurd hmem hxmlns

theorem attributesFormed_singleton {n v : Text} (h : AttributeFormed (n, v)) (hne : n ≠ Scope.xmlns) :
    AttributesFormed [(n, v)] :=
  attributesFormed_of_names [n] (by simpa using h) rfl (by simp) (by simpa using hne.symm)

namespace Markup

theorem renderAll_append (ms ns : List Markup) : renderAll (ms ++ ns) = renderAll ms ++ renderAll ns := by
  induction ms with
  | nil => rfl
  | cons m ms ih => rw [List.cons_append, renderAll, renderAll, ih, List.append_assoc]

theorem lines_append (depth : Nat) (ms ns : List (Option Markup)) :
    lines depth (ms ++ ns) = lines depth ms ++ lines depth ns := by
  induction ms with
  | nil => rfl
  | cons o ms ih => cases o <;> simp [lines, ih]

theorem renderAll_lines_some (depth : Nat) (m : Markup) (ms : List (Option Markup)) :
    renderAll (lines depth (some m :: ms)) =
      List.replicate (2 * depth) ' ' ++ render m ++ ['\n'] ++ renderAll (lines depth ms) := by
  simp only [lines, renderAll, render_chars, List.append_assoc]

theorem render_leaf (n : String) (w : Text) : render (leaf n w) =
    ['<'] ++ n.toList ++ ['>'] ++ w ++ ['<', '/'] ++ n.toList ++ ['>'] := by
  simp only [leaf, render_element, renderAll, render_chars, List.flatMap_nil, List.append_nil]

theorem render_block (depth : Nat) (n : String) (as : List (Text × Text)) (ms : List (Option Markup)) :
    render (block depth n as ms) = ['<'] ++ n.toList ++ as.flatMap attributeText ++ ['>', '\n'] ++
      renderAll (lines (depth + 1) ms) ++ List.replicate (2 * depth) ' ' ++ ['<', '/'] ++ n.toList ++
        ['>'] := by
  simp only [block, render_element, renderAll_append, renderAll, render_chars, List.append_assoc,
    List.cons_append, List.nil_append, List.append_nil]

theorem formed_leaf {n : String} {w : Text} (hn : isWord n.toList = true) (hw : Token.CharsFormed w) :
    Formed (leaf n w) :=
  Formed.element hn attributesFormed_nil (by simpa using Formed.chars hw)

theorem isPlain_spaces (k : Nat) : isPlain (List.replicate k ' ') = true := by
  simp [isPlain]

theorem formed_spaces (k : Nat) : Formed (chars (List.replicate k ' ')) :=
  .chars (Token.charsFormed_plain (isPlain_spaces k))

theorem formed_newline : Formed (chars ['\n']) := .chars (Token.charsFormed_plain (by decide))

theorem formed_lines {depth : Nat} {ms : List (Option Markup)} (h : ∀ m, some m ∈ ms → Formed m) :
    ∀ m ∈ lines depth ms, Formed m := by
  induction ms with
  | nil => simp [lines]
  | cons o ms ih =>
    have ih := ih fun m hm => h m (by simp [hm])
    cases o with
    | none => simpa [lines, formed_newline] using ih
    | some m => simpa [lines, formed_newline, formed_spaces, h m (by simp)] using ih

theorem formed_block {depth : Nat} {n : String} {as : List (Text × Text)} {ms : List (Option Markup)}
    (hn : isWord n.toList = true) (has : AttributesFormed as) (h : ∀ m, some m ∈ ms → Formed m) :
    Formed (block depth n as ms) := by
  refine .element hn has fun c hc => ?_
  rcases List.mem_append.1 hc with hc | hc
  · rcases List.mem_cons.1 hc with rfl | hc
    · exact formed_newline
    · exact formed_lines h c hc
  · rw [List.mem_singleton] at hc
    rw [hc]
    exact formed_spaces _

/-- Only allowed characters are written. -/
def Allowed (m : Markup) : Prop := (render m).all isAllowed = true

instance (m : Markup) : Decidable (Allowed m) := inferInstanceAs (Decidable (_ = true))

theorem all_isAllowed_renderAll {ms : List Markup} :
    (renderAll ms).all isAllowed = true ↔ ∀ m ∈ ms, Allowed m := by
  induction ms with
  | nil => simp [renderAll]
  | cons m ms ih => simp [renderAll, ih, Allowed]

theorem all_isAllowed_attributeText (as : List (Text × Text)) :
    (as.flatMap attributeText).all isAllowed =
      as.all fun a => a.1.all isAllowed && a.2.all isAllowed := by
  have hspace : [' '].all isAllowed = true := by decide
  have hequals : ['=', '"'].all isAllowed = true := by decide
  have hquote : ['"'].all isAllowed = true := by decide
  rw [List.all_flatMap]
  simp only [attributeText, List.all_append, hspace, hequals, hquote, Bool.true_and, Bool.and_true]

theorem allowed_element {n : Text} (hn : n.all isAllowed = true) {as : List (Text × Text)}
    {cs : List Markup} : Allowed (element n as cs) ↔
      (∀ a ∈ as, a.1.all isAllowed = true ∧ a.2.all isAllowed = true) ∧ ∀ c ∈ cs, Allowed c := by
  have hopen : ['<'].all isAllowed = true := by decide
  have hend : ['>'].all isAllowed = true := by decide
  have hclose : ['<', '/'].all isAllowed = true := by decide
  simp only [Allowed, render_element, List.all_append, hn, hopen, hend, hclose,
    all_isAllowed_attributeText, Bool.true_and, Bool.and_true]
  rw [Bool.and_eq_true, all_isAllowed_renderAll, List.all_eq_true]
  simp only [Bool.and_eq_true, Allowed]

theorem allowed_empty {n : Text} (hn : n.all isAllowed = true) {as : List (Text × Text)} :
    Allowed (empty n as) ↔ ∀ a ∈ as, a.1.all isAllowed = true ∧ a.2.all isAllowed = true := by
  have hopen : ['<'].all isAllowed = true := by decide
  have hend : (tagEnd true).all isAllowed = true := by decide
  simp only [Allowed, render_empty, List.all_append, hn, hopen, hend, all_isAllowed_attributeText,
    Bool.true_and, Bool.and_true]
  rw [List.all_eq_true]
  simp only [Bool.and_eq_true]

theorem allowed_chars {w : Text} : Allowed (chars w) ↔ w.all isAllowed = true := Iff.rfl

theorem allowed_leaf {n : String} (hn : n.toList.all isAllowed = true) {w : Text} :
    Allowed (leaf n w) ↔ w.all isAllowed = true := by
  rw [leaf, allowed_element hn]
  simp [allowed_chars]

theorem allowed_spaces (k : Nat) : Allowed (chars (List.replicate k ' ')) := by
  rw [allowed_chars, List.all_eq_true]
  intro c hc
  rw [(List.mem_replicate.1 hc).2]
  decide

theorem allowed_newline : Allowed (chars ['\n']) := by
  rw [allowed_chars]
  decide

theorem allowed_lines {depth : Nat} {ms : List (Option Markup)} :
    (∀ m ∈ lines depth ms, Allowed m) ↔ ∀ m, some m ∈ ms → Allowed m := by
  induction ms with
  | nil => simp [lines]
  | cons o ms ih =>
    cases o with
    | none => simp [lines, allowed_newline, ih]
    | some m => simp [lines, allowed_newline, allowed_spaces, ih]

theorem allowed_block {depth : Nat} {n : String} (hn : n.toList.all isAllowed = true)
    {as : List (Text × Text)} {ms : List (Option Markup)} : Allowed (block depth n as ms) ↔
      (∀ a ∈ as, a.1.all isAllowed = true ∧ a.2.all isAllowed = true) ∧
        ∀ m, some m ∈ ms → Allowed m := by
  rw [block, allowed_element hn, List.forall_mem_append, List.forall_mem_cons,
    List.forall_mem_singleton, allowed_lines]
  simp only [allowed_newline, allowed_spaces, true_and, and_true]

end Markup
end SiteProject.Xml
