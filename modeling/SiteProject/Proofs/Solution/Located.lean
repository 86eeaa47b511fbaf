import SiteProject.Proofs.Solution.Scan

namespace SiteProject

namespace Text.Utf8

theorem length_encode (s : Text) : (encode s).length = size s := by
  induction s with
  | nil => rfl
  | cons c s ih =>
    have hc : (String.utf8EncodeChar c).length = c.utf8Size := String.length_utf8EncodeChar c
    rw [encode, List.flatMap_cons, List.length_append, hc, size]
    exact congrArg (c.utf8Size + ·) ih

theorem encode_append (s t : Text) : encode (s ++ t) = encode s ++ encode t := List.flatMap_append

theorem size_pos {s : Text} (h : s ≠ []) : 0 < size s := by
  cases s with
  | nil => exact absurd rfl h
  | cons c s =>
    have hc := c.utf8Size_pos
    rw [size]
    omega

/-- A text that is cut in two ways: the second cut lies after the first one, or within the first part. -/
theorem append_cases {w t g r : Text} (h : w ++ t = g ++ r) :
    (∃ g', g = w ++ g' ∧ t = g' ++ r) ∨ size g < size w := by
  rcases List.append_eq_append_iff.1 h with ⟨g', hg, ht⟩ | ⟨u, hw, hr⟩
  · exact .inl ⟨g', hg, ht⟩
  · by_cases hu : u = []
    · subst hu
      exact .inl ⟨[], by simpa using hw.symm, by simpa using hr.symm⟩
    · have hpos := size_pos hu
      have hsize : size w = size g + size u := by rw [hw, size_append]
      right
      omega

/-- An offset between two characters, or at an end of the text. -/
def IsBoundary (s : Text) (n : Nat) : Prop := ∃ a b, s = a ++ b ∧ size a = n

/-- The bytes of a text from one offset to another. -/
def bytesBetween (s : Text) (start stop : Nat) : List UInt8 := ((encode s).take stop).drop start

theorem bytesBetween_append (a w b : Text) :
    bytesBetween (a ++ w ++ b) (size a) (size a + size w) = encode w := by
  have hl : (encode (a ++ w)).length = size a + size w := by rw [length_encode, size_append]
  rw [bytesBetween, encode_append, ← hl, List.take_left, encode_append, ← length_encode a,
    List.drop_left]

end Text.Utf8

namespace Solution

open Text.Utf8 (size IsBoundary bytesBetween)

namespace Entry

/-- An entry that can be read between two texts: its header is well-formed, and neither its first nor
its last word continues in the texts around it. -/
structure StandsBetween (e : Entry) (before after : Text) : Prop where
  starts : before.getLast?.any isWord = false
  header : e.header.WellFormed
  ends : after.head?.any isWord = false

/-- A closing word is found, at the latest where one stands. -/
theorem exists_body? (x : Text) {y : Text} (hy : y.head?.any isWord = false) :
    ∃ b r, body? (x ++ closing ++ y) = some (b, r) ∧ b.length ≤ x.length := by
  induction x with
  | nil =>
    rw [List.nil_append]
    exact ⟨[], y, body?_closing hy, Nat.le_refl 0⟩
  | cons c x ih =>
    obtain ⟨b, r, hb, hl⟩ := ih
    rw [List.cons_append, List.cons_append, body?]
    cases hc : afterClosing? (c :: (x ++ closing ++ y)) with
    | some q => exact ⟨[], q, rfl, Nat.zero_le _⟩
    | none =>
      refine ⟨c :: b, r, by rw [hb]; rfl, ?_⟩
      simp only [List.length_cons]
      omega

/-- The closing word that ends an entry is the first one after its header. -/
theorem length_le_of_closing {b r x y : Text} (hb : body? (b ++ closing ++ r) = some (b, r))
    (h : b ++ closing ++ r = x ++ closing ++ y) (hy : y.head?.any isWord = false) :
    b.length ≤ x.length := by
  obtain ⟨b', r', hx, hl⟩ := exists_body? x hy
  rw [← h, hb] at hx
  obtain ⟨rfl, -⟩ := Prod.mk.inj (Option.some.inj hx)
  exact hl

theorem text_ne_nil (e : Entry) : e.text ≠ [] := by
  have hc : closing ≠ [] := by decide
  simp [text, hc]

theorem getLast?_append_text (s : Text) (e : Entry) : (s ++ e.text).getLast? = some 't' := by
  have hc : closing.getLast? = some 't' := by decide
  rw [text, ← List.append_assoc, List.getLast?_append, hc]
  rfl

theorem StandsBetween.read? {e : Entry} {before after : Text} (h : e.StandsBetween before after) :
    Header.read? (e.text ++ after) = some (e.header, e.body ++ closing ++ after) := by
  have hr := Header.read?_text_append h.header (e.body ++ closing ++ after)
  simpa only [text, List.append_assoc] using hr

end Entry

namespace Located

/-- A span of a text with the entry and the path that stand in it. -/
structure Marks (l : Located) (s : Text) : Prop where
  order : l.start < l.pathStart ∧ l.pathStart < l.pathStop ∧ l.pathStop < l.stop ∧ l.stop ≤ size s
  boundaries : IsBoundary s l.start ∧ IsBoundary s l.stop ∧ IsBoundary s l.pathStart ∧
    IsBoundary s l.pathStop
  text : bytesBetween s l.start l.stop = Text.Utf8.encode l.entry.text
  path : bytesBetween s l.pathStart l.pathStop = Text.Utf8.encode l.entry.header.path
  stands : ∃ before after, s = before ++ l.entry.text ++ after ∧ size before = l.start ∧
    l.entry.StandsBetween before after ∧
      ∀ body rest, l.entry.body ++ Entry.closing ++ after = body ++ Entry.closing ++ rest →
        rest.head?.any Entry.isWord = false → l.entry.body.length ≤ body.length

/-- The span of an entry that begins at an offset. -/
def ofEntry (offset : Nat) (e : Entry) : Located where
  entry := e
  start := offset
  stop := offset + size e.text
  pathStart := offset + size e.beforePath
  pathStop := offset + size e.beforePath + size e.header.path

theorem marks_ofEntry {before after : Text} {e : Entry} (h : e.StandsBetween before after)
    (hb : Entry.body? (e.body ++ Entry.closing ++ after) = some (e.body, after)) :
    (ofEntry (size before) e).Marks (before ++ e.text ++ after) := by
  have hlead : 0 < size e.beforePath := by
    apply Text.Utf8.size_pos
    simp [Entry.beforePath, Header.lead]
  have hpath : 0 < size e.header.path := Text.Utf8.size_pos h.header.path_ne
  have htail : 0 < size e.afterPath := by
    apply Text.Utf8.size_pos
    simp [Entry.afterPath, Header.tail]
  have htext : size e.text = size e.beforePath + size e.header.path + size e.afterPath := by
    rw [Entry.text_eq, Text.Utf8.size_append, Text.Utf8.size_append]
  have hwhole : before ++ e.text ++ after =
      before ++ e.beforePath ++ e.header.path ++ (e.afterPath ++ after) := by
    rw [Entry.text_eq]
    simp only [List.append_assoc]
  have hsize : size (before ++ e.text ++ after) = size before + size e.text + size after := by
    rw [Text.Utf8.size_append, Text.Utf8.size_append]
  constructor
  · simp only [ofEntry, hsize]
    omega
  · have hstart : IsBoundary (before ++ e.text ++ after) (size before) :=
      ⟨before, e.text ++ after, List.append_assoc .., rfl⟩
    have hstop : IsBoundary (before ++ e.text ++ after) (size before + size e.text) :=
      ⟨before ++ e.text, after, rfl, Text.Utf8.size_append ..⟩
    have hpathStart : IsBoundary (before ++ e.text ++ after) (size before + size e.beforePath) := by
      refine ⟨before ++ e.beforePath, e.header.path ++ (e.afterPath ++ after), ?_,
        Text.Utf8.size_append ..⟩
      rw [hwhole, List.append_assoc (before ++ e.beforePath)]
    have hpathStop : IsBoundary (before ++ e.text ++ after)
        (size before + size e.beforePath + size e.header.path) := by
      refine ⟨before ++ e.beforePath ++ e.header.path, e.afterPath ++ after, hwhole, ?_⟩
      rw [Text.Utf8.size_append, Text.Utf8.size_append]
    exact ⟨hstart, hstop, hpathStart, hpathStop⟩
  · exact Text.Utf8.bytesBetween_append before e.text after
  · rw [hwhole]
    have hp := Text.Utf8.bytesBetween_append (before ++ e.beforePath) e.header.path
      (e.afterPath ++ after)
    rwa [Text.Utf8.size_append] at hp
  · refine ⟨before, after, rfl, rfl, h, ?_⟩
    intro body rest he hr
    exact Entry.length_le_of_closing hb he hr

end Located

theorem locateFrom_entry (n : Nat) (e : Entry) (ps : List Piece) :
    locateFrom n (.entry e :: ps) = .ofEntry n e :: locateFrom (n + size e.text) ps := rfl

theorem locateFrom_map_other (n : Nat) (s : Text) : locateFrom n (s.map .other) = [] := by
  induction s generalizing n with
  | nil => rfl
  | cons c s ih => exact ih (n + c.utf8Size)

theorem map_entry_locateFrom (n : Nat) (ps : List Piece) :
    (locateFrom n ps).map Located.entry = ps.filterMap Piece.entry? := by
  induction ps generalizing n with
  | nil => rfl
  | cons p ps ih =>
    cases p with
    | other c => exact ih (n + c.utf8Size)
    | entry e =>
      rw [locateFrom_entry, List.map_cons, ih]
      rfl

theorem le_start_of_mem_locateFrom {n : Nat} {ps : List Piece} {l : Located}
    (h : l ∈ locateFrom n ps) : n ≤ l.start := by
  induction ps generalizing n with
  | nil => simp [locateFrom] at h
  | cons p ps ih =>
    cases p with
    | other c =>
      have hn := ih (n := n + c.utf8Size) h
      omega
    | entry e =>
      rw [locateFrom_entry] at h
      rcases List.mem_cons.1 h with rfl | h
      · exact Nat.le_refl n
      · have hn := ih h
        omega

theorem pairwise_locateFrom (n : Nat) (ps : List Piece) :
    (locateFrom n ps).Pairwise fun a b => a.stop ≤ b.start := by
  induction ps generalizing n with
  | nil => exact List.Pairwise.nil
  | cons p ps ih =>
    cases p with
    | other c => exact ih (n + c.utf8Size)
    | entry e =>
      rw [locateFrom_entry]
      refine List.Pairwise.cons ?_ (ih (n + size e.text))
      intro l hl
      exact le_start_of_mem_locateFrom hl

theorem size_concat (s : Text) (c : Char) : size (s ++ [c]) = size s + c.utf8Size := by
  rw [Text.Utf8.size_append]
  rfl

/-- The scan goes on with the text that it has read; all it finds stands in the whole text. -/
theorem marks_of_mem_locateFrom {done : Text} {before : Option Char} {s : Text} {l : Located}
    (hd : done.getLast? = before) (hl : l ∈ locateFrom (size done) (layoutAfter before s)) :
    l.Marks (done ++ s) := by
  fun_induction layoutAfter before s generalizing done with
  | case1 => simp [locateFrom] at hl
  | case2 before c s hb ih =>
    have hlast : (done ++ [c]).getLast? = some c := by simp
    have hm := ih hlast (by rwa [size_concat])
    simpa using hm
  | case3 before c s hb hn ih =>
    have hlast : (done ++ [c]).getLast? = some c := by simp
    have hm := ih hlast (by rwa [size_concat])
    simpa using hm
  | case4 before c s hb header r hr hn =>
    rw [locateFrom_map_other] at hl
    simp at hl
  | case5 before c s hb header r hr b t hc ih =>
    have hs : c :: s = Entry.text ⟨header, b⟩ ++ t := by
      rw [Header.eq_text_append hr, Entry.eq_append_of_body? hc, Entry.text]
      simp only [List.append_assoc]
    rw [locateFrom_entry] at hl
    rw [hs, ← List.append_assoc]
    rcases List.mem_cons.1 hl with rfl | hl
    · apply Located.marks_ofEntry
      · exact {
          starts := by rw [hd]; simpa using hb
          header := Header.wellFormed_of_read? hr
          ends := Entry.not_isWord_of_body? hc }
      · rwa [← Entry.eq_append_of_body? hc]
    · apply ih (Entry.getLast?_append_text done ⟨header, b⟩)
      rwa [Text.Utf8.size_append]

/-- A complete entry in the rest of the text begins in a span that the scan finds there. -/
theorem exists_mem_locateFrom {done : Text} {before : Option Char} {s : Text}
    (hd : done.getLast? = before) {g after : Text} {e : Entry} (hs : s = g ++ e.text ++ after)
    (he : e.StandsBetween (done ++ g) after) :
    ∃ l ∈ locateFrom (size done) (layoutAfter before s),
      l.start ≤ size (done ++ g) ∧ size (done ++ g) < l.stop := by
  fun_induction layoutAfter before s generalizing done g with
  | case1 =>
    have hne := e.text_ne_nil
    simp_all
  | case2 before c s hb ih =>
    cases g with
    | nil =>
      have hst := he.starts
      rw [List.append_nil, hd, hb] at hst
      exact absurd hst (by decide)
    | cons x g =>
      obtain ⟨rfl, rfl⟩ := List.cons.inj hs
      have hlast : (done ++ [c]).getLast? = some c := by simp
      obtain ⟨l, hl, hp⟩ := ih hlast rfl (by simpa using he)
      rw [size_concat] at hl
      exact ⟨l, hl, by simpa using hp⟩
  | case3 before c s hb hn ih =>
    cases g with
    | nil =>
      rw [List.nil_append] at hs
      rw [hs, he.read?] at hn
      exact absurd hn (by simp)
    | cons x g =>
      obtain ⟨rfl, rfl⟩ := List.cons.inj hs
      have hlast : (done ++ [c]).getLast? = some c := by simp
      obtain ⟨l, hl, hp⟩ := ih hlast rfl (by simpa using he)
      rw [size_concat] at hl
      exact ⟨l, hl, by simpa using hp⟩
  | case4 before c s hb header r hr hn =>
    -- the header that nothing closes: what closes the later entry would close it as well
    exfalso
    obtain ⟨x, hx⟩ : ∃ x, r = x ++ Entry.closing ++ after := by
      by_cases hg : g = []
      · subst hg
        rw [hs, List.nil_append, he.read?] at hr
        obtain ⟨-, rfl⟩ := Prod.mk.inj (Option.some.inj hr)
        exact ⟨e.body, rfl⟩
      · have ho : g ++ e.header.text ++ (e.body ++ Entry.closing ++ after) = header.text ++ r := by
          rw [← Header.eq_text_append hr, hs, Entry.text]
          simp only [List.append_assoc]
        obtain ⟨t, ht⟩ := Header.inside_of_overlap he.header (Header.wellFormed_of_read? hr) hg ho
        refine ⟨t ++ e.header.text ++ e.body, ?_⟩
        rw [ht] at ho
        simp only [List.append_assoc, List.append_cancel_left_eq] at ho ⊢
        exact ho.symm
    obtain ⟨b, q, hb', -⟩ := Entry.exists_body? x he.ends
    rw [← hx, hn] at hb'
    exact absurd hb' (by simp)
  | case5 before c s hb header r hr b t hc ih =>
    have hcs : c :: s = Entry.text ⟨header, b⟩ ++ t := by
      rw [Header.eq_text_append hr, Entry.eq_append_of_body? hc, Entry.text]
      simp only [List.append_assoc]
    rw [hcs, List.append_assoc] at hs
    rw [locateFrom_entry]
    rcases Text.Utf8.append_cases hs with ⟨g', hg, ht⟩ | hlt
    · have hst : e.StandsBetween (done ++ Entry.text ⟨header, b⟩ ++ g') after := by
        rwa [List.append_assoc, ← hg]
      obtain ⟨l, hl, hp⟩ := ih (Entry.getLast?_append_text done ⟨header, b⟩)
        (by rw [ht, List.append_assoc]) hst
      rw [Text.Utf8.size_append] at hl
      rw [List.append_assoc, ← hg] at hp
      exact ⟨l, List.mem_cons_of_mem _ hl, hp⟩
    · refine ⟨.ofEntry (size done) ⟨header, b⟩, List.mem_cons_self, ?_⟩
      rw [Text.Utf8.size_append]
      simp only [Located.ofEntry]
      omega

/-- The spans that a scan finds hold the entries it reads, in the order of the text, and no complete
entry begins outside them. -/
theorem marks_locate (s : Text) :
    (locate s).map Located.entry = entries s ∧
      (locate s).Pairwise (fun a b => a.stop ≤ b.start) ∧
      (∀ l ∈ locate s, l.Marks s) ∧
      ∀ (e : Entry) (before after : Text), s = before ++ e.text ++ after →
        e.StandsBetween before after →
          ∃ l ∈ locate s, l.start ≤ size before ∧ size before < l.stop := by
  have hstart : ([] : Text).getLast? = none := rfl
  refine ⟨map_entry_locateFrom 0 (layout s), pairwise_locateFrom 0 (layout s), ?_, ?_⟩
  · intro l hl
    exact marks_of_mem_locateFrom hstart hl
  · intro e before after hs he
    exact exists_mem_locateFrom hstart hs he

end Solution
end SiteProject
