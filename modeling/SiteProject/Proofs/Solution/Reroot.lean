import Mathlib.Data.List.Forall2
import SiteProject.Proofs.Path.Way
import SiteProject.Proofs.Solution.Scan
import SiteProject.Solution.Reroot

namespace SiteProject.Solution.Move

variable (m : Move) (ending : Text.LineEnding)

/-- The entry of the generated project, in place of a site's entry. -/
def project (e : Entry) : Entry where
  header :=
    { openQuote := true
      typeGuid := Kind.classicLibrary.typeGuid
      closeQuote := true
      beforeEquals := [' ']
      afterEquals := [' ']
      name := e.header.name
      beforePath := [' ']
      path := Declared.relative m.target m.descriptor
      beforeGuid := [' ']
      guid := e.header.guid }
  body := ending.text

/-- The entry that stands in the moved text in place of an entry. -/
def moved (e : Entry) : Entry :=
  if e.hasGuid m.siteGuid then m.project ending e
  else { e with header := { e.header with path := m.path e.header.path } }

def movedPiece : Piece → Piece
  | .other c => .other c
  | .entry e => .entry (m.moved ending e)

theorem text_project (e : Entry) : (m.project ending e).text = m.projectEntry ending e := by
  have hk : "Project(\"\x7b".toList = Header.keyword ++ ['"', '\x7b'] := by decide
  have ht : "\x7d\") = \"".toList = ['\x7d', '"', ')', ' ', '=', ' ', '"'] := by decide
  have hn : "\", \"".toList = ['"', ',', ' ', '"'] := by decide
  have hp : "\", \"\x7b".toList = ['"', ',', ' ', '"', '\x7b'] := by decide
  have hg : "\x7d\"".toList = ['\x7d', '"'] := by decide
  unfold projectEntry project
  simp only [hk, ht, hn, hp, hg]
  simp only [Entry.text, Header.text, Header.lead, Header.tail, Header.quoteIf]
  simp only [List.append_assoc, List.cons_append, List.nil_append]

theorem text_moved (e : Entry) : (m.moved ending e).text = m.entry ending e := by
  by_cases he : e.hasGuid m.siteGuid = true
  · rw [moved, entry, if_pos he, if_pos he, text_project]
  · rw [moved, entry, if_neg he, if_neg he, Entry.text, Header.text, Entry.beforePath,
      Entry.afterPath]
    simp only [Header.lead, Header.tail, List.append_assoc]

theorem text_movedPiece (p : Piece) : (m.movedPiece ending p).text = m.piece ending p := by
  cases p with
  | other c => rfl
  | entry e => exact m.text_moved ending e

theorem text_eq (content : Text) : m.text content =
    ((layout content).map (m.movedPiece (Text.LineEnding.of content))).flatMap Piece.text := by
  simp only [text, List.flatMap_map, text_movedPiece]

variable {m ending}

theorem path_ne_nil {p : Text} (hp : p ≠ []) : m.path p ≠ [] := by
  unfold path
  split
  · exact hp
  · exact Declared.relative_ne_nil _ _

theorem quote_notMem_path (hs : m.source.Avoids '"') {p : Text} (hp : '"' ∉ p) : '"' ∉ m.path p := by
  unfold path
  split
  · exact hp
  · apply Declared.notMem_relative (by decide)
    exact hs.join (by decide) (by decide) (Declared.notMem_toNative (by decide) hp)

variable (ending) in
theorem wellFormed_moved (hs : m.source.Avoids '"') (hd : m.descriptor.Avoids '"') {e : Entry}
    (he : e.header.WellFormed) : (m.moved ending e).header.WellFormed := by
  unfold moved
  split
  · have blank : ∀ c ∈ [' '], Text.isBlank c = true := List.forall_mem_singleton.2 (by decide)
    have guid : Kind.classicLibrary.typeGuid.all Header.isGuidChar = true := by decide
    exact {
      typeGuid_ne := (by decide : Kind.classicLibrary.typeGuid ≠ [])
      typeGuid := List.all_eq_true.1 guid
      beforeEquals := blank
      afterEquals := blank
      name_ne := he.name_ne
      name := he.name
      beforePath := blank
      path_ne := Declared.relative_ne_nil _ _
      path := Declared.notMem_relative (by decide) hd
      beforeGuid := blank
      guid_ne := he.guid_ne
      guid := he.guid }
  · exact { he with
      path_ne := path_ne_nil he.path_ne
      path := quote_notMem_path hs he.path }

/-- Moved text begins as the text did. -/
theorem head?_flatMap_moved (ps : List Piece) :
    ((ps.map (m.movedPiece ending)).flatMap Piece.text).head? = (ps.flatMap Piece.text).head? := by
  cases ps with
  | nil => rfl
  | cons p ps =>
    cases p with
    | other c => rfl
    | entry e =>
      simp only [List.map_cons, movedPiece, List.flatMap_cons, Piece.text, Entry.text,
        List.append_assoc, Header.head?_text_append]

/-- The moved text is the same up to the first entry, and has the moved entry there. -/
theorem flatMap_moved_cases (ps : List Piece) :
    (ps.map (m.movedPiece ending)).flatMap Piece.text = ps.flatMap Piece.text ∨
      ∃ g e r r', .entry e ∈ ps ∧ ps.flatMap Piece.text = g ++ e.text ++ r ∧
        (ps.map (m.movedPiece ending)).flatMap Piece.text = g ++ (m.moved ending e).text ++ r' := by
  induction ps with
  | nil => exact .inl rfl
  | cons p ps ih =>
    cases p with
    | entry e =>
      refine .inr ⟨[], e, ps.flatMap Piece.text, (ps.map (m.movedPiece ending)).flatMap Piece.text,
        List.mem_cons_self, ?_, ?_⟩
      · rw [List.flatMap_cons, Piece.text, List.nil_append]
      · rw [List.map_cons, movedPiece, List.flatMap_cons, Piece.text, List.nil_append]
    | other c =>
      simp only [List.map_cons, movedPiece, List.flatMap_cons, Piece.text, List.singleton_append]
      rcases ih with h | ⟨g, e, r, r', he, ht, hm⟩
      · rw [h]
        exact .inl rfl
      · refine .inr ⟨c :: g, e, r, r', List.mem_cons_of_mem _ he, ?_, ?_⟩
        · rw [ht, List.append_assoc, List.append_assoc, List.cons_append]
        · rw [hm, List.append_assoc, List.append_assoc, List.cons_append]

variable (ending) in
/-- Where no header could be read before an entry, none can be read before the moved entry. -/
theorem read?_eq_none_of_moved (hs : m.source.Avoids '"') (hd : m.descriptor.Avoids '"')
    {ps : List Piece} (hw : ∀ e, .entry e ∈ ps → e.header.WellFormed) {c : Char}
    (h : Header.read? (c :: ps.flatMap Piece.text) = none) :
    Header.read? (c :: (ps.map (m.movedPiece ending)).flatMap Piece.text) = none := by
  rcases flatMap_moved_cases (m := m) ps with he | ⟨g, e, r, r', he, ht, hm⟩
  · rw [he, h]
  · refine Option.eq_none_iff_forall_ne_some.2 fun ⟨h', q⟩ hr => ?_
    obtain ⟨hw', hq⟩ := Header.read?_eq_some_iff.1 hr
    have ho : c :: g ++ (m.moved ending e).header.text ++
        ((m.moved ending e).body ++ Entry.closing ++ r') = h'.text ++ q := by
      rw [← hq, hm, Entry.text]
      simp only [List.cons_append, List.append_assoc]
    obtain ⟨t, hg⟩ := Header.inside_of_overlap (wellFormed_moved ending hs hd (hw e he)) hw' (by simp) ho
    have ht' : c :: ps.flatMap Piece.text = h'.text ++ (t ++ (e.text ++ r)) := by
      rw [ht, List.append_assoc, ← List.cons_append, hg, List.append_assoc]
    rw [ht', Header.read?_text_append hw'] at h
    exact absurd h (by simp)

variable (m ending) in
theorem body?_moved (header : Header) {b r r' : Text}
    (hb : Entry.body? (b ++ Entry.closing ++ r) = some (b, r))
    (hr : r'.head?.any Entry.isWord = false) :
    Entry.body? ((m.moved ending ⟨header, b⟩).body ++ Entry.closing ++ r') =
      some ((m.moved ending ⟨header, b⟩).body, r') := by
  unfold moved
  split
  · exact Entry.body?_lineEnding ending hr
  · exact Entry.body?_of_body? hb hr

/-- A scan of the moved text finds the moved pieces. -/
theorem layoutAfter_flatMap_moved (hs : m.source.Avoids '"') (hd : m.descriptor.Avoids '"')
    (before : Option Char) (s : Text) :
    layoutAfter before (((layoutAfter before s).map (m.movedPiece ending)).flatMap Piece.text) =
      (layoutAfter before s).map (m.movedPiece ending) := by
  fun_induction layoutAfter before s with
  | case1 => rw [List.map_nil, List.flatMap_nil, layoutAfter]
  | case2 before c s hb ih =>
    rw [List.map_cons, movedPiece, List.flatMap_cons, Piece.text, List.singleton_append,
      layoutAfter_of_isWord hb, ih]
  | case3 before c s hb hn ih =>
    have hr := read?_eq_none_of_moved ending hs hd
      (fun e he => wellFormed_of_mem_layoutAfter he)
      (show Header.read? (c :: (layoutAfter (some c) s).flatMap Piece.text) = none by
        rw [flatMap_text_layoutAfter, hn])
    rw [List.map_cons, movedPiece, List.flatMap_cons, Piece.text, List.singleton_append,
      layoutAfter_of_read?_eq_none hr, ih]
  | case4 before c s hb header r hr hn =>
    have hm : ((c :: s).map Piece.other).map (m.movedPiece ending) = (c :: s).map Piece.other := by
      rw [List.map_map]
      rfl
    rw [hm, flatMap_text_other, layoutAfter_of_body?_eq_none (by simpa using hb) hr hn]
  | case5 before c s hb header r hr b t hc ih =>
    have hw := wellFormed_moved ending hs hd (e := ⟨header, b⟩)
      (Header.wellFormed_of_read? hr)
    have hnext : (((layoutAfter (some 't') t).map (m.movedPiece ending)).flatMap Piece.text).head?.any
        Entry.isWord = false := by
      rw [head?_flatMap_moved, flatMap_text_layoutAfter]
      exact Entry.not_isWord_of_body? hc
    have hbody := body?_moved m ending header
      (by rwa [← Entry.eq_append_of_body? hc]) hnext
    have hread := Header.read?_text_append hw ((m.moved ending ⟨header, b⟩).body ++ Entry.closing ++
      ((layoutAfter (some 't') t).map (m.movedPiece ending)).flatMap Piece.text)
    rw [List.map_cons, movedPiece, List.flatMap_cons, Piece.text, Entry.text, List.append_assoc,
      List.append_assoc, ← List.append_assoc (Entry.body _),
      layoutAfter_of_body? (by simpa using hb) hread hbody, ih]

theorem layout_text (hs : m.source.Avoids '"') (hd : m.descriptor.Avoids '"') (content : Text) :
    layout (m.text content) =
      (layout content).map (m.movedPiece (Text.LineEnding.of content)) := by
  rw [text_eq]
  exact layoutAfter_flatMap_moved hs hd none content

theorem entries_map_moved (ps : List Piece) :
    (ps.map (m.movedPiece ending)).filterMap Piece.entry? =
      (ps.filterMap Piece.entry?).map (m.moved ending) := by
  induction ps with
  | nil => rfl
  | cons p ps ih =>
    cases p with
    | other c => exact ih
    | entry e =>
      simp only [List.map_cons, movedPiece, List.filterMap_cons, Piece.entry?, ih]

theorem gaps_map_moved (ps : List Piece) : gaps (ps.map (m.movedPiece ending)) = gaps ps := by
  induction ps with
  | nil => rfl
  | cons p ps ih =>
    cases p with
    | other c => simp only [List.map_cons, movedPiece, gaps, ih]
    | entry e => simp only [List.map_cons, movedPiece, gaps, ih]

theorem entries_text (hs : m.source.Avoids '"') (hd : m.descriptor.Avoids '"') (content : Text) :
    entries (m.text content) = (entries content).map (m.moved (Text.LineEnding.of content)) := by
  rw [entries, layout_text hs hd, entries_map_moved, entries]

/-- What an entry of the moved text keeps of the entry that stood in its place. -/
structure Corresponds (m : Move) (ending : Text.LineEnding) (e e' : Entry) : Prop where
  name : e'.header.name = e.header.name
  guid : e'.header.guid = e.header.guid
  replaced : e.hasGuid m.siteGuid = true →
    e'.kind? = some .classicLibrary ∧ e'.header.path = Declared.relative m.target m.descriptor ∧
      e'.text = e'.header.text ++ ending.text ++ Entry.closing
  kept : e.hasGuid m.siteGuid = false →
    e'.header.typeGuid = e.header.typeGuid ∧ e'.header.path = m.path e.header.path ∧
      e'.text = e.beforePath ++ m.path e.header.path ++ e.afterPath

theorem corresponds_moved (e : Entry) : m.Corresponds ending e (m.moved ending e) := by
  by_cases he : e.hasGuid m.siteGuid = true
  · have hm : m.moved ending e = m.project ending e := if_pos he
    rw [hm]
    exact {
      name := rfl
      guid := rfl
      replaced := fun _ => ⟨Kind.ofTypeGuid?_typeGuid .classicLibrary, rfl, rfl⟩
      kept := fun h => absurd he (by simp [h]) }
  · have hm : m.moved ending e = { e with header := { e.header with path := m.path e.header.path } } :=
      if_neg he
    have ht := m.text_moved ending e
    rw [entry, if_neg he] at ht
    rw [hm] at ht ⊢
    exact {
      name := rfl
      guid := rfl
      replaced := fun h => absurd h he
      kept := fun _ => ⟨rfl, rfl, ht⟩ }

theorem forall₂_corresponds (hs : m.source.Avoids '"') (hd : m.descriptor.Avoids '"') (content : Text) :
    List.Forall₂ (m.Corresponds (Text.LineEnding.of content)) (entries content)
      (entries (m.text content)) := by
  rw [entries_text hs hd, List.forall₂_map_right_iff, List.forall₂_same]
  exact fun e _ => corresponds_moved e

/-- A scan of the moved text finds the entries in their order, each with what it keeps, and between
them the same text. -/
theorem text_keeps_structure (hs : m.source.Avoids '"') (hd : m.descriptor.Avoids '"')
    (content : Text) :
    List.Forall₂ (m.Corresponds (Text.LineEnding.of content)) (entries content)
        (entries (m.text content)) ∧
      gaps (layout (m.text content)) = gaps (layout content) := by
  rw [layout_text hs hd, gaps_map_moved]
  exact ⟨forall₂_corresponds hs hd content, rfl⟩

def sample : Move where
  source := ⟨"/work".toList⟩
  target := ⟨"/work/out".toList⟩
  siteGuid := "A1".toList
  descriptor := ⟨"/work/out/Shop.csproj".toList⟩

/-- A header that is cut off stands before an entry with the site's GUID. -/
def sampleText : Text :=
  "Project(\"\x7bA\x7d\") = \"Shop\nProject(\"\x7bA\x7d\") = \"Shop\", \"w\", \"\x7ba1\x7d\"\nEndProject".toList

theorem sample_keeps_structure :
    sample.source.Avoids '"' ∧ sample.descriptor.Avoids '"' ∧
      List.Forall₂ (sample.Corresponds (Text.LineEnding.of sampleText)) (entries sampleText)
          (entries (sample.text sampleText)) ∧
        gaps (layout (sample.text sampleText)) = gaps (layout sampleText) := by
  have hs : sample.source.Avoids '"' := by decide
  have hd : sample.descriptor.Avoids '"' := by decide
  exact ⟨hs, hd, text_keeps_structure hs hd sampleText⟩

end SiteProject.Solution.Move
