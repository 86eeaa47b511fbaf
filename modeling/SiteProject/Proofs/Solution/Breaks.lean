import SiteProject.Proofs.Solution.Reroot
import SiteProject.Proofs.Text.Breaks

namespace SiteProject

variable {k : Bool}

namespace Path

theorem breaks_ofParts {ps : List Part} (h : ∀ q ∈ ps, Text.Breaks k q.text) :
    Text.Breaks k (ofParts ps).text := by
  have hj {qs : List Part} (h : ∀ q ∈ qs, Text.Breaks k q.text) :
      Text.Breaks k (Text.join ['/'] (qs.map Part.text)) := by
    refine Text.breaks_join (by decide) (by decide) fun w hw => ?_
    obtain ⟨q, hq, rfl⟩ := List.mem_map.1 hw
    exact h q hq
  unfold ofParts
  split
  · rw [List.forall_mem_cons] at h
    exact (Text.breaks_cons (by decide) (by decide)).2 (hj h.2)
  · exact hj h

theorem breaks_of_avoids {p : Path} (h : p.Avoids '\n') : ∀ q ∈ p.parts, Text.Breaks k q.text :=
  fun q hq => Text.breaks_of_notMem (h q hq)

end Path

namespace Declared

/-- The way to a place breaks its lines as the parts of the place do. -/
theorem breaks_relative {folder target : Path} (h : ∀ q ∈ target.parts, Text.Breaks k q.text) :
    Text.Breaks k (relative folder target) := by
  have hr : Text.Breaks k (folder.relative target).text := by
    refine Path.breaks_ofParts fun q hq => ?_
    rcases Part.mem_of_mem_between hq with rfl | hq
    · exact Text.breaks_of_notMem (by decide)
    · rw [Path.parts_normalize] at hq
      exact h q (Part.mem_of_mem_settle hq)
  unfold relative ofNative
  split
  · exact Text.breaks_of_notMem (by decide)
  · exact Text.breaks_replace (by decide) (by decide) (by decide) (by decide) hr

theorem breaks_steps_toNative {t : Text} (h : Text.Breaks k t) :
    ∀ q ∈ Path.steps (toNative t).text, Text.Breaks k q.text := by
  intro q hq
  rw [steps_toNative] at hq
  obtain ⟨w, hw, hq⟩ := List.mem_filterMap.1 hq
  rw [Part.text_of_ofSegment? hq]
  exact Text.breaks_of_mem_split (by decide) (by decide) hw h

end Declared

namespace Solution

namespace Entry

/-- The parts of an entry that are not the same in all entries. -/
def fields (e : Entry) : List Text :=
  [e.header.typeGuid, e.header.beforeEquals, e.header.afterEquals, e.header.name, e.header.beforePath,
    e.header.path, e.header.beforeGuid, e.header.guid, e.body]

theorem breaks_text (e : Entry) : Text.Breaks k e.text ↔ ∀ t ∈ e.fields, Text.Breaks k t := by
  have hfeed : '\n' ∉ Header.keyword := by decide
  have hreturn : '\r' ∉ Header.keyword := by decide
  have hclosing : Text.Breaks k "ndProject".toList := Text.breaks_of_notMem (by decide)
  have hquote (b : Bool) : Text.Breaks k (Header.quoteIf b) := by
    apply Text.breaks_of_notMem
    cases b <;> decide
  simp only [text, Header.text, Header.lead, Header.tail, closing_eq, List.append_assoc, List.cons_append,
    List.nil_append]
  rw [Text.breaks_plain_append hfeed hreturn]
  -- what varies stands between marks, and no mark is part of a line break
  simp (disch := decide) only [Text.breaks_cons, Text.breaks_append_cons]
  simp only [fields, hquote, hclosing, List.forall_mem_cons, List.not_mem_nil, false_imp_iff, implies_true,
    true_and, and_true]

theorem getLast?_text (e : Entry) : e.text.getLast? = some 't' := by
  have hne : closing ≠ [] := by decide
  rw [text, List.getLast?_append_of_ne_nil _ hne]
  decide

end Entry

theorem breaks_weave {gs : List Text} {es : List Entry} (hl : gs.length = es.length + 1) :
    Text.Breaks k (weave gs (es.map Entry.text)) ↔
      (∀ g ∈ gs, Text.Breaks k g) ∧ ∀ e ∈ es, Text.Breaks k e.text := by
  induction es generalizing gs with
  | nil =>
    obtain ⟨g, rfl⟩ := List.length_eq_one_iff.1 hl
    simp [weave]
  | cons e es ih =>
    cases gs with
    | nil => simp at hl
    | cons g gs =>
      have hhead : e.text.head? ≠ some '\n' := by
        rw [Entry.text, List.append_assoc, Header.head?_text_append]
        decide
      have hlast : (g ++ e.text).getLast? ≠ some '\r' := by
        rw [List.getLast?_append, e.getLast?_text]
        simp
      rw [List.map_cons, weave, Text.breaks_append (.inl hlast), Text.breaks_append (.inr hhead),
        ih (Nat.succ.inj hl), List.forall_mem_cons, List.forall_mem_cons]
      exact and_and_and_comm

/-- The style of a text is that of its gaps and of its entries. -/
theorem breaks_pieces (ps : List Piece) : Text.Breaks k (ps.flatMap Piece.text) ↔
    (∀ g ∈ gaps ps, Text.Breaks k g) ∧ ∀ e ∈ ps.filterMap Piece.entry?, Text.Breaks k e.text := by
  have hw := weave_gaps (f := Piece.text) (fun _ => rfl) ps
  rw [← hw]
  exact breaks_weave (length_gaps ps)

namespace Move

variable {m : Move} {ending : Text.LineEnding}

theorem breaks_path (hs : m.source.Avoids '\n') {p : Text} (hp : Text.Breaks k p) :
    Text.Breaks k (m.path p) := by
  unfold path
  split
  · exact hp
  · refine Declared.breaks_relative fun q hq => ?_
    rcases Path.mem_parts_join hq with rfl | rfl | hq | hq
    · exact Text.breaks_of_notMem (by decide)
    · exact Text.breaks_of_notMem (by decide)
    · exact Path.breaks_of_avoids hs q hq
    · exact Declared.breaks_steps_toNative hp q hq

theorem breaks_moved (hs : m.source.Avoids '\n') (hd : m.descriptor.Avoids '\n')
    (hending : Text.Breaks k ending.text) {e : Entry} (he : Text.Breaks k e.text) :
    Text.Breaks k (m.moved ending e).text := by
  rw [Entry.breaks_text, Entry.fields] at he ⊢
  simp only [List.forall_mem_cons] at he
  obtain ⟨htype, hbefore, hafter, hname, hgap, hpath, hgap', hguid, hbody, -⟩ := he
  unfold moved
  split
  · have hblank : Text.Breaks k [' '] := Text.breaks_of_notMem (by decide)
    have hclassic : Text.Breaks k Kind.classicLibrary.typeGuid := Text.breaks_of_notMem (by decide)
    have hway : Text.Breaks k (Declared.relative m.target m.descriptor) :=
      Declared.breaks_relative (Path.breaks_of_avoids hd)
    simp only [project, List.forall_mem_cons]
    exact ⟨hclassic, hblank, hblank, hname, hblank, hway, hblank, hguid, hending, by simp⟩
  · simp only [List.forall_mem_cons]
    exact ⟨htype, hbefore, hafter, hname, hgap, breaks_path hs hpath, hgap', hguid, hbody, by simp⟩

theorem breaks_text (hs : m.source.Avoids '\n') (hd : m.descriptor.Avoids '\n') {content : Text}
    (hending : Text.Breaks k (Text.LineEnding.of content).text) (h : Text.Breaks k content) :
    Text.Breaks k (m.text content) := by
  rw [← flatMap_text_layout content, breaks_pieces] at h
  rw [text_eq, breaks_pieces, gaps_map_moved, entries_map_moved, List.forall_mem_map]
  exact ⟨h.1, fun e he => breaks_moved hs hd hending (h.2 e he)⟩

/-- If a text breaks its lines with a carriage return and a line feed throughout, so does the moved text, and if
a text has no such line break, the moved text has none. The folder that the solution is moved to may have any
name. -/
theorem text_keeps_breaks (hs : m.source.Avoids '\n') (hd : m.descriptor.Avoids '\n') (content : Text) :
    (Text.contains Text.LineEnding.crlf.text content = true → Text.Breaks true content →
        Text.Breaks true (m.text content)) ∧
      (Text.contains Text.LineEnding.crlf.text content = false →
        Text.contains Text.LineEnding.crlf.text (m.text content) = false) := by
  constructor
  · intro hc h
    have hending : Text.LineEnding.of content = .crlf := if_pos hc
    refine breaks_text hs hd ?_ h
    rw [hending]
    decide
  · intro hc
    have hending : Text.LineEnding.of content = .lf := if_neg (by simp [hc])
    rw [← Text.breaks_false_iff] at hc ⊢
    refine breaks_text hs hd ?_ hc
    rw [hending]
    decide

/-- A line break in a name, a carriage return on its own, and a site that is replaced. -/
def crlfText : Text :=
  "Project(\"\x7bA\x7d\") = \"a\r\nb\", \"x\r\\.\\y\", \"\x7bB2\x7d\"\r\nEndProject\r\n".toList ++
    "Project(\"\x7bA\x7d\") = \"Shop\r\", \"w\",\r\n\"\x7bA1\x7d\"\r\nEndProject\r\n".toList

/-- A step that is left out stands between a carriage return and a line feed. -/
def lfText : Text :=
  "\r\tProject(\"\x7bA\x7d\") = \"a\", \"x\r\\.\\\ny\", \"\x7bB2\x7d\"\nEndProject\r".toList

theorem sample_keeps_breaks :
    sample.source.Avoids '\n' ∧ sample.descriptor.Avoids '\n' ∧
      (Text.contains Text.LineEnding.crlf.text crlfText = true ∧ Text.Breaks true crlfText ∧
        Text.Breaks true (sample.text crlfText)) ∧
      Text.contains Text.LineEnding.crlf.text lfText = false ∧
        Text.contains Text.LineEnding.crlf.text (sample.text lfText) = false := by
  have hs : sample.source.Avoids '\n' := Path.avoids_of_notMem (by decide) (by decide) (by decide)
  have hd : sample.descriptor.Avoids '\n' := Path.avoids_of_notMem (by decide) (by decide) (by decide)
  have hcontains : Text.contains Text.LineEnding.crlf.text crlfText = true := by decide +kernel
  have hbreaks : Text.Breaks true crlfText := by decide +kernel
  have hnone : Text.contains Text.LineEnding.crlf.text lfText = false := by decide +kernel
  exact ⟨hs, hd,
    ⟨hcontains, hbreaks, (text_keeps_breaks hs hd crlfText).1 hcontains hbreaks⟩,
    hnone, (text_keeps_breaks hs hd lfText).2 hnone⟩

end Move
end Solution
end SiteProject
