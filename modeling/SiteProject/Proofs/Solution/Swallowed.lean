import SiteProject.Proofs.Solution.Located

namespace SiteProject.Solution

/-- A header can be read at a place of the text, and no word runs into it. -/
def opensAt (s : Text) (n : Nat) : Bool :=
  !(s.take n).getLast?.any Entry.isWord && (Header.read? (s.drop n)).isSome

/-- A closing word stands at a place of the text. -/
def closesAt (s : Text) (n : Nat) : Bool := (Entry.afterClosing? (s.drop n)).isSome

theorem opensAt_iff {s : Text} {n : Nat} :
    opensAt s n = true ↔ ∃ g h r, s = g ++ Header.text h ++ r ∧ g.length = n ∧
      g.getLast?.any Entry.isWord = false ∧ h.WellFormed := by
  rw [opensAt, Bool.and_eq_true, Bool.not_eq_true', Option.isSome_iff_exists]
  constructor
  · rintro ⟨hg, ⟨h, r⟩, hr⟩
    have he := Header.eq_text_append hr
    have hl := Header.length_lt_of_read? hr
    refine ⟨s.take n, h, r, ?_, ?_, hg, Header.wellFormed_of_read? hr⟩
    · rw [List.append_assoc, ← he, List.take_append_drop]
    · rw [List.length_drop] at hl
      rw [List.length_take]
      omega
  · rintro ⟨g, h, r, rfl, rfl, hg, hw⟩
    rw [List.append_assoc, List.take_left, List.drop_left]
    exact ⟨hg, _, Header.read?_text_append hw r⟩

theorem lt_length_of_opensAt {s : Text} {n : Nat} (h : opensAt s n = true) : n < s.length := by
  rw [opensAt, Bool.and_eq_true, Option.isSome_iff_exists] at h
  obtain ⟨-, ⟨h, r⟩, hr⟩ := h
  have hl := Header.length_lt_of_read? hr
  rw [List.length_drop] at hl
  omega

theorem closesAt_iff {s : Text} {n : Nat} :
    closesAt s n = true ↔ ∃ x r, s = x ++ Entry.closing ++ r ∧ x.length = n ∧
      r.head?.any Entry.isWord = false := by
  rw [closesAt, Option.isSome_iff_exists]
  constructor
  · rintro ⟨r, hr⟩
    obtain ⟨ha, hw⟩ := Option.filter_eq_some_iff.1 hr
    have he := Text.after?_eq_some.1 ha
    have hl := congrArg List.length he
    refine ⟨s.take n, r, ?_, ?_, by simpa using hw⟩
    · rw [List.append_assoc, ← he, List.take_append_drop]
    · have hc : 0 < Entry.closing.length := by decide
      rw [List.length_drop, List.length_append] at hl
      rw [List.length_take]
      omega
  · rintro ⟨x, r, rfl, rfl, hr⟩
    rw [List.append_assoc, List.drop_left]
    exact ⟨r, Entry.afterClosing?_append hr⟩

theorem Header.text_ne_nil (h : Header) : h.text ≠ [] := by
  simp [Header.text, Header.tail]

theorem lt_length_of_closesAt {s : Text} {n : Nat} (h : closesAt s n = true) : n < s.length := by
  obtain ⟨x, r, rfl, rfl, -⟩ := closesAt_iff.1 h
  have hc : 0 < Entry.closing.length := by decide
  rw [List.length_append, List.length_append]
  omega

namespace Entry

/-- Where headers and closing words stand in an entry. -/
structure Places (e : Entry) : Prop where
  closes : ∀ n, e.header.text.length ≤ n →
    (closesAt e.text n = true ↔ n + closing.length = e.text.length)
  opens : ∀ n, opensAt e.text n = true ↔
    n = 0 ∨ e.header.text.length ≤ n ∧ opensAt e.body (n - e.header.text.length) = true
  unclosed : ∀ n, opensAt e.text n = true →
    ∀ m, e.header.text.length ≤ m → m < n → closesAt e.text m = false
  single : (∀ n, opensAt e.text n = true ↔ n = 0) ↔ ∀ n, opensAt e.body n = false

/-- Quotation marks around a text keep it from continuing a word. -/
theorem getLast?_header_text (h : Header) : h.text.getLast? = some '"' := by
  have ht : h.tail = (['"', ','] ++ h.beforeGuid ++ ['"', '\x7b'] ++ h.guid ++ ['\x7d']) ++ ['"'] := by
    simp [Header.tail]
  rw [Header.text, ht, ← List.append_assoc, List.getLast?_concat]

theorem getLast?_append_header_text (h : Header) (t : Text) :
    (h.text ++ t).getLast?.any isWord = t.getLast?.any isWord := by
  rw [List.getLast?_append, getLast?_header_text]
  cases t.getLast? with
  | none => rfl
  | some c => rfl

/-- The closing word holds no quotation mark, so a header before it ends before it. -/
theorem exists_append_of_header {t b r : Text} {h : Header} (he : t ++ h.text ++ r = b ++ closing) :
    ∃ r', b = t ++ h.text ++ r' := by
  rcases List.append_eq_append_iff.1 he with ⟨a, hb, -⟩ | ⟨a, ha, hc⟩
  · exact ⟨a, hb⟩
  · cases a with
    | nil => exact ⟨[], by simpa using ha.symm⟩
    | cons c a =>
      have hlast : (c :: a).getLast? = some '"' := by
        have hl := congrArg List.getLast? ha
        rw [List.getLast?_append, getLast?_header_text, List.getLast?_append] at hl
        cases hg : (c :: a).getLast? with
        | none => simp at hg
        | some d => simpa [hg] using hl.symm
      have hq : '"' ∈ closing := by
        rw [hc]
        exact List.mem_append_left r (List.mem_of_getLast? hlast)
      exact absurd hq (by decide)

theorem opensAt_text_iff {e : Entry} (hw : e.header.WellFormed) (n : Nat) :
    opensAt e.text n = true ↔
      n = 0 ∨ e.header.text.length ≤ n ∧ opensAt e.body (n - e.header.text.length) = true := by
  constructor
  · intro h
    obtain ⟨g, h', r, he, hn, hg, hw'⟩ := opensAt_iff.1 h
    by_cases hne : g = []
    · left
      rw [← hn, hne]
      rfl
    · right
      have hover : g ++ h'.text ++ r = e.header.text ++ (e.body ++ closing) := by
        rw [← he, text, List.append_assoc]
      obtain ⟨t, ht⟩ := Header.inside_of_overlap hw' hw hne hover
      have hb : t ++ h'.text ++ r = e.body ++ closing := by
        rw [text, ht] at he
        simpa using he.symm
      obtain ⟨r', hr'⟩ := exists_append_of_header hb
      have hl : n = e.header.text.length + t.length := by rw [← hn, ht, List.length_append]
      refine ⟨by omega, opensAt_iff.2 ⟨t, h', r', hr', by omega, ?_, hw'⟩⟩
      rwa [ht, getLast?_append_header_text] at hg
  · rintro (rfl | ⟨hle, h⟩)
    · exact opensAt_iff.2 ⟨[], e.header, e.body ++ closing, by simp [text], rfl, rfl, hw⟩
    · obtain ⟨g, h', r, he, hn, hg, hw'⟩ := opensAt_iff.1 h
      refine opensAt_iff.2 ⟨e.header.text ++ g, h', r ++ closing, ?_, ?_, ?_, hw'⟩
      · rw [text, he]
        simp only [List.append_assoc]
      · rw [List.length_append]
        omega
      · rwa [getLast?_append_header_text]

theorem closesAt_text_iff {e : Entry} {after : Text}
    (hfirst : ∀ body rest, e.body ++ closing ++ after = body ++ closing ++ rest →
      rest.head?.any isWord = false → e.body.length ≤ body.length) {n : Nat}
    (hn : e.header.text.length ≤ n) :
    closesAt e.text n = true ↔ n + closing.length = e.text.length := by
  constructor
  · intro h
    obtain ⟨x, r, he, hx, hr⟩ := closesAt_iff.1 h
    rw [text, List.append_assoc, List.append_assoc] at he
    have hprefix : e.header.text <+: x := by
      apply List.prefix_of_prefix_length_le ⟨_, he⟩ ⟨_, rfl⟩
      omega
    obtain ⟨y, rfl⟩ := hprefix
    rw [List.append_assoc] at he
    have hy := List.append_cancel_left he
    have hlength := congrArg List.length hy
    simp only [List.length_append] at hlength hx
    cases r with
    | nil =>
      simp only [text, List.length_append, List.length_nil] at hlength ⊢
      omega
    | cons c r =>
      have hle := hfirst y (c :: r ++ after) (by rw [hy]; simp only [List.append_assoc])
        (by simpa using hr)
      simp only [List.length_cons] at hlength
      omega
  · intro h
    refine closesAt_iff.2 ⟨e.header.text ++ e.body, [], by simp [text], ?_, rfl⟩
    simp only [text, List.length_append] at h ⊢
    omega

end Entry

/-- Every entry that a scan finds begins with a header and ends with the only closing word after it.
Any other header in it stands in its body, before that closing word. -/
theorem places_of_mem_entries {s : Text} {e : Entry} (he : e ∈ entries s) : e.Places := by
  obtain ⟨l, hl, rfl⟩ : ∃ l ∈ locate s, l.entry = e := by
    have hm := map_entry_locateFrom 0 (layout s)
    rw [entries, ← hm] at he
    exact List.mem_map.1 he
  have hstart : ([] : Text).getLast? = none := rfl
  have hmarks : l.Marks s := marks_of_mem_locateFrom hstart hl
  obtain ⟨before, after, -, -, hstands, hfirst⟩ := hmarks.stands
  have hcloses := @Entry.closesAt_text_iff l.entry after hfirst
  have hopens := Entry.opensAt_text_iff hstands.header
  constructor
  · intro n hn
    exact hcloses hn
  · exact hopens
  · intro n hn m hm hlt
    rcases (hopens n).1 hn with rfl | ⟨hle, hb⟩
    · omega
    · have hinside := lt_length_of_opensAt hb
      refine Bool.eq_false_iff.2 fun hc => ?_
      have hend := (hcloses hm).1 hc
      simp only [Entry.text, List.length_append] at hend
      omega
  · constructor
    · intro h n
      refine Bool.eq_false_iff.2 fun hb => ?_
      have hopen := (hopens (l.entry.header.text.length + n)).2 (.inr ⟨by omega, by simpa using hb⟩)
      have hn := (h _).1 hopen
      have hpos := List.length_pos_iff.2 l.entry.header.text_ne_nil
      omega
    · intro h n
      rw [hopens n]
      simp [h]

/-- Two entries, of which the first one has no closing word. -/
def unclosed : Text :=
  "Project(\"\x7bA\x7d\") = \"A\", \"a\", \"\x7b1\x7d\"\n".toList ++
    "Project(\"\x7bB\x7d\") = \"B\", \"b\", \"\x7b2\x7d\"\nEndProject".toList

def unclosedEntry : Entry where
  header := ⟨true, ['A'], true, [' '], [' '], ['A'], [' '], ['a'], [' '], ['1']⟩
  body := "\nProject(\"\x7bB\x7d\") = \"B\", \"b\", \"\x7b2\x7d\"\n".toList

theorem unclosed_has_places :
    unclosedEntry ∈ entries unclosed ∧ unclosedEntry.Places ∧
      opensAt unclosedEntry.text 33 = true := by
  have h : entries unclosed = [unclosedEntry] := by decide +kernel
  have hm : unclosedEntry ∈ entries unclosed := by simp [h]
  exact ⟨hm, places_of_mem_entries hm, by decide⟩

/-- The second entry, which is complete, is no entry of its own: it lies in the first one. -/
theorem unclosed_takes_in_next :
    ¬ ∀ e ∈ entries unclosed, (∀ n, opensAt e.text n = true ↔ n = 0) ∧
      ∀ n, e.header.text.length ≤ n →
        (closesAt e.text n = true ↔ n + Entry.closing.length = e.text.length) := by
  have h : entries unclosed = [unclosedEntry] := by decide +kernel
  intro hall
  have hn := ((hall unclosedEntry (by simp [h])).1 33).1 (by decide)
  simp at hn

end SiteProject.Solution
