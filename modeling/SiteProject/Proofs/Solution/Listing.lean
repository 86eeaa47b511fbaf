import SiteProject.Proofs.Solution.Swallowed
import SiteProject.Solution.Project

namespace SiteProject.Solution

/-- What an entry is written from. -/
structure Draft where
  typeGuid : Text
  name : Text
  path : Text
  guid : Text
  body : Text
  deriving DecidableEq, Repr

namespace Draft

def text (ending : Text.LineEnding) (d : Draft) : Text :=
  "Project(\"\x7b".toList ++ d.typeGuid ++ "\x7d\") = \"".toList ++ d.name ++ "\", \"".toList ++
    d.path ++ "\", \"\x7b".toList ++ d.guid ++ "\x7d\"".toList ++ ending.text ++ d.body ++
    "EndProject".toList

/-- Names and paths may hold anything that does not end them; in the body no closing word stands. -/
structure Sound (d : Draft) : Prop where
  typeGuid_ne : d.typeGuid ≠ []
  typeGuid : ∀ c ∈ d.typeGuid, Header.isGuidChar c = true
  name_ne : d.name ≠ []
  name : '"' ∉ d.name
  path_ne : d.path ≠ []
  path : '"' ∉ d.path
  guid_ne : d.guid ≠ []
  guid : ∀ c ∈ d.guid, Header.isGuidChar c = true
  body_ends : d.body = [] ∨ ['\n'] <:+ d.body
  body_open : ∀ n < d.body.length, closesAt d.body n = false

/-- The entry that is read back. -/
def entry (ending : Text.LineEnding) (d : Draft) : Entry where
  header := ⟨true, d.typeGuid, true, [' '], [' '], d.name, [' '], d.path, [' '], d.guid⟩
  body := ending.text ++ d.body

theorem text_entry (ending : Text.LineEnding) (d : Draft) : (d.entry ending).text = d.text ending := by
  have hk : "Project(\"\x7b".toList = Header.keyword ++ ['"', '\x7b'] := by decide
  have ht : "\x7d\") = \"".toList = ['\x7d', '"', ')', ' ', '=', ' ', '"'] := by decide
  have hn : "\", \"".toList = ['"', ',', ' ', '"'] := by decide
  have hp : "\", \"\x7b".toList = ['"', ',', ' ', '"', '\x7b'] := by decide
  have hg : "\x7d\"".toList = ['\x7d', '"'] := by decide
  have hc : "EndProject".toList = Entry.closing := rfl
  unfold text entry
  simp only [hk, ht, hn, hp, hg, hc]
  simp only [Entry.text, Header.text, Header.lead, Header.tail, Header.quoteIf]
  simp only [List.append_assoc, List.cons_append, List.nil_append]

theorem Sound.wellFormed {d : Draft} (h : d.Sound) (ending : Text.LineEnding) :
    (d.entry ending).header.WellFormed := by
  have hspace : ∀ c ∈ [' '], Text.isBlank c = true := List.all_eq_true.1 (by decide)
  exact {
    typeGuid_ne := h.typeGuid_ne
    typeGuid := h.typeGuid
    beforeEquals := hspace
    afterEquals := hspace
    name_ne := h.name_ne
    name := h.name
    beforePath := hspace
    path_ne := h.path_ne
    path := h.path
    beforeGuid := hspace
    guid_ne := h.guid_ne
    guid := h.guid }

end Draft

namespace Entry

/-- A closing word that starts in a text and ends after it leaves no line ending in the text. -/
theorem newline_notMem_of_closing {d a : Text} (h : closing = d ++ a) : '\n' ∉ d := by
  intro hm
  have hc : '\n' ∈ closing := by
    rw [h]
    exact List.mem_append_left a hm
  exact absurd hc (by decide)

/-- A body without closing words, ended by a line, is read up to the closing word after it. -/
theorem body?_of_open {b r : Text} (hends : ['\n'] <:+ b)
    (hopen : ∀ n < b.length, closesAt b n = false) (hr : r.head?.any isWord = false) :
    body? (b ++ closing ++ r) = some (b, r) := by
  obtain ⟨b', r', hb, hle⟩ := exists_body? b hr
  have he := eq_append_of_body? hb
  have hr' := not_isWord_of_body? hb
  rw [List.append_assoc, List.append_assoc] at he
  rcases List.append_eq_append_iff.1 he with ⟨d, hd, hc⟩ | ⟨d, hd, hc⟩
  · have hnil : d = [] := by
      have hl := congrArg List.length hd
      rw [List.length_append] at hl
      exact List.eq_nil_of_length_eq_zero (by omega)
    subst hnil
    obtain rfl : b' = b := by simpa using hd
    obtain rfl : r = r' := by simpa using hc
    exact hb
  · rcases List.append_eq_append_iff.1 hc with ⟨y, hy, hr''⟩ | ⟨y, hy, -⟩
    · -- the closing word found first lies in the body, where no word ends with it
      have hw : y.head?.any isWord = false := by
        cases y with
        | nil => rfl
        | cons c y => simpa [hr''] using hr'
      have hat : closesAt b b'.length = true :=
        closesAt_iff.2 ⟨b', y, by rw [hd, hy, List.append_assoc], rfl, hw⟩
      have hlt : b'.length < b.length := by
        have hc : 0 < closing.length := by decide
        rw [hd, hy, List.length_append, List.length_append]
        omega
      rw [hopen _ hlt] at hat
      exact absurd hat (by decide)
    · by_cases hnil : d = []
      · subst hnil
        obtain rfl : b = b' := by simpa using hd
        obtain rfl : r' = r := by simpa using hc
        exact hb
      · exfalso
        obtain ⟨s, hs⟩ := hends
        have hlast : d.getLast? = some '\n' := by
          have hl := congrArg List.getLast? (hs.trans hd)
          rw [List.getLast?_concat, List.getLast?_append] at hl
          cases hg : d.getLast? with
          | none => exact absurd (List.getLast?_eq_none_iff.1 hg) hnil
          | some c => simpa [hg] using hl.symm
        exact newline_notMem_of_closing hy (List.mem_of_getLast? hlast)

end Entry

/-- A text that stands between entries does not hold the word that headers begin with. -/
def Quiet (f : Text) : Prop := Text.contains Header.keyword f = false

def StartsLine (f : Text) : Prop := ∃ ending : Text.LineEnding, ending.text <+: f

def EndsLine (f : Text) : Prop := ['\n'] <:+ f

instance (f : Text) : Decidable (Quiet f) :=
  inferInstanceAs (Decidable (Text.contains Header.keyword f = false))

instance (f : Text) : Decidable (EndsLine f) := inferInstanceAs (Decidable (['\n'] <:+ f))

/-- Entries, each with the text after it; before the first one stands a text too. -/
structure Listing where
  lead : Text
  items : List (Draft × Text)

namespace Listing

def text (ending : Text.LineEnding) (l : Listing) : Text :=
  l.lead ++ l.items.flatMap fun p => p.1.text ending ++ p.2

/-- Entries begin on a line of their own, and so does the text after them. -/
def Spaced : List (Draft × Text) → Prop
  | [] => True
  | [(d, f)] => d.Sound ∧ Quiet f ∧ (f = [] ∨ StartsLine f)
  | (d, f) :: p :: ps => d.Sound ∧ Quiet f ∧ StartsLine f ∧ EndsLine f ∧ Spaced (p :: ps)

structure Sound (l : Listing) : Prop where
  lead : Quiet l.lead
  lead_ends : l.items ≠ [] → l.lead = [] ∨ EndsLine l.lead
  items : Spaced l.items

end Listing

theorem not_infix_of_quiet {f : Text} (hf : Quiet f) : ¬ Header.keyword <:+: f := by
  intro h
  rw [Quiet, Text.contains_iff.2 h] at hf
  exact absurd hf (by decide)

theorem quiet_of_cons {c : Char} {f : Text} (hf : Quiet (c :: f)) : Quiet f := by
  refine Bool.eq_false_iff.2 fun h => not_infix_of_quiet hf ?_
  exact (Text.contains_iff.1 h).trans (List.suffix_cons c f).isInfix

theorem read?_eq_none_of_quiet {f t : Text} (hf : Quiet f) (h : t = [] ∨ EndsLine f) :
    Header.read? (f ++ t) = none := by
  refine Option.eq_none_iff_forall_ne_some.2 fun ⟨header, r⟩ hr => ?_
  have he := Header.eq_text_append hr
  rw [Header.text, Header.lead] at he
  simp only [List.append_assoc] at he
  rcases List.append_eq_append_iff.1 he with ⟨a, ha, ht⟩ | ⟨a, ha, -⟩
  · rcases h with rfl | ⟨s, hs⟩
    · obtain rfl : a = [] := by simpa using (congrArg List.length ht).symm
      exact not_infix_of_quiet hf ⟨[], [], by simpa using ha⟩
    · have hm : '\n' ∈ Header.keyword := by
        rw [ha, ← hs]
        simp
      exact absurd hm (by decide)
  · exact not_infix_of_quiet hf ⟨[], a, ha.symm⟩

/-- The scan passes over a text between entries, up to what follows it. -/
theorem layoutAfter_of_quiet {f t : Text} (before : Option Char) (hf : Quiet f)
    (h : t = [] ∨ f = [] ∨ EndsLine f) :
    layoutAfter before (f ++ t) = f.map .other ++ layoutAfter (f.getLast?.or before) t := by
  induction f generalizing before with
  | nil => simp
  | cons c f ih =>
    have hquiet := quiet_of_cons hf
    have hends : t = [] ∨ EndsLine (c :: f) := by simpa using h
    have htail : t = [] ∨ f = [] ∨ EndsLine f := by
      refine hends.imp id fun he => ?_
      rcases List.suffix_cons_iff.1 he with he | he
      · exact .inl (List.cons.inj he).2.symm
      · exact .inr he
    have hread : Header.read? (c :: (f ++ t)) = none := read?_eq_none_of_quiet hf hends
    rw [List.cons_append, layoutAfter_of_read?_eq_none hread, ih (some c) hquiet htail, List.map_cons,
      List.cons_append]
    cases f with
    | nil => rfl
    | cons d f => simp [List.getLast?_cons]

theorem not_isWord_head?_of_startsLine {f : Text} (h : StartsLine f) (t : Text) :
    (f ++ t).head?.any Entry.isWord = false := by
  obtain ⟨ending, s, rfl⟩ := h
  cases ending <;> rfl

theorem not_isWord_getLast?_of_endsLine {f : Text} (h : EndsLine f) (before : Option Char) :
    (f.getLast?.or before).any Entry.isWord = false := by
  obtain ⟨s, rfl⟩ := h
  rw [List.getLast?_concat]
  rfl

namespace Draft

theorem layoutAfter_text {d : Draft} (hd : d.Sound) (ending : Text.LineEnding)
    {before : Option Char} (hb : before.any Entry.isWord = false) {t : Text}
    (ht : t.head?.any Entry.isWord = false) :
    layoutAfter before (d.text ending ++ t) =
      .entry (d.entry ending) :: layoutAfter (some 't') t := by
  have hends : ['\n'] <:+ (d.entry ending).body := by
    rcases hd.body_ends with hnil | hs
    · have hline : ['\n'] <:+ ending.text ++ [] := by cases ending <;> decide
      show ['\n'] <:+ ending.text ++ d.body
      rwa [hnil]
    · exact hs.trans (List.suffix_append _ _)
  have hopen : ∀ n < (d.entry ending).body.length, closesAt (d.entry ending).body n = false := by
    intro n _
    refine Bool.eq_false_iff.2 fun hc => ?_
    obtain ⟨x, y, he, -, hy⟩ := closesAt_iff.1 hc
    have hstart : 'E' ∉ ending.text := by cases ending <;> decide
    rw [List.append_assoc, Entry.closing_eq, List.cons_append] at he
    obtain ⟨x', -, hx⟩ := Text.exists_append_of_notMem (r := d.body) hstart he.symm
    have hb : d.body = x' ++ Entry.closing ++ y := by
      rw [hx, Entry.closing_eq, List.append_assoc, List.cons_append]
    have hat := closesAt_iff.2 ⟨x', y, hb, rfl, hy⟩
    rw [hd.body_open x'.length (lt_length_of_closesAt hat)] at hat
    exact absurd hat (by decide)
  have hread := Header.read?_text_append (hd.wellFormed ending)
    ((d.entry ending).body ++ Entry.closing ++ t)
  rw [← text_entry, Entry.text, List.append_assoc, List.append_assoc, ← List.append_assoc (Entry.body _),
    layoutAfter_of_body? hb hread (Entry.body?_of_open hends hopen ht)]

end Draft

namespace Listing

/-- What is read of the entries and the texts after them. -/
def pieces (ending : Text.LineEnding) (ps : List (Draft × Text)) : List Piece :=
  ps.flatMap fun p => .entry (p.1.entry ending) :: p.2.map .other

theorem layoutAfter_items (ending : Text.LineEnding) {ps : List (Draft × Text)} (hs : Spaced ps)
    {before : Option Char} (hb : ps ≠ [] → before.any Entry.isWord = false) :
    layoutAfter before (ps.flatMap fun p => p.1.text ending ++ p.2) = pieces ending ps := by
  induction ps generalizing before with
  | nil => rw [List.flatMap_nil, layoutAfter]; rfl
  | cons p ps ih =>
    obtain ⟨d, f⟩ := p
    have hword := hb (by simp)
    cases ps with
    | nil =>
      obtain ⟨hd, hf, hend⟩ := hs
      have hhead : f.head?.any Entry.isWord = false := by
        rcases hend with rfl | hl
        · rfl
        · simpa using not_isWord_head?_of_startsLine hl []
      have hquiet := layoutAfter_of_quiet (t := []) (some 't') hf (.inl rfl)
      have hnil (b : Option Char) : layoutAfter b [] = [] := by rw [layoutAfter]
      rw [List.append_nil, hnil, List.append_nil] at hquiet
      simp only [List.flatMap_cons, List.flatMap_nil, List.append_nil]
      rw [Draft.layoutAfter_text hd ending hword hhead, hquiet]
      simp [pieces]
    | cons q ps =>
      obtain ⟨hd, hf, hstart, hend, hrest⟩ := hs
      rw [List.flatMap_cons, List.append_assoc,
        Draft.layoutAfter_text hd ending hword (not_isWord_head?_of_startsLine hstart _),
        layoutAfter_of_quiet (some 't') hf (.inr (.inr hend)),
        ih hrest fun _ => not_isWord_getLast?_of_endsLine hend (some 't')]
      simp [pieces]

theorem layout_text {l : Listing} (hl : l.Sound) (ending : Text.LineEnding) :
    layout (l.text ending) = l.lead.map .other ++ pieces ending l.items := by
  by_cases hne : l.items = []
  · have hquiet := layoutAfter_of_quiet (t := []) none hl.lead (.inl rfl)
    rw [layout, text, hne]
    rw [List.flatMap_nil, hquiet, layoutAfter]
    rfl
  · have hends := hl.lead_ends hne
    rw [layout, text, layoutAfter_of_quiet none hl.lead (.inr hends),
      layoutAfter_items ending hl.items]
    intro _
    rcases hends with hnil | hend
    · rw [hnil]
      rfl
    · exact not_isWord_getLast?_of_endsLine hend none

theorem filterMap_entry?_map_other (f : Text) : (f.map Piece.other).filterMap Piece.entry? = [] := by
  induction f with
  | nil => rfl
  | cons c f ih => exact ih

theorem filterMap_entry?_pieces (ending : Text.LineEnding) (ps : List (Draft × Text)) :
    (pieces ending ps).filterMap Piece.entry? = ps.map fun p => p.1.entry ending := by
  induction ps with
  | nil => rfl
  | cons p ps ih =>
    have hp : pieces ending (p :: ps) =
        .entry (p.1.entry ending) :: (p.2.map .other ++ pieces ending ps) := rfl
    rw [hp, List.filterMap_cons, List.filterMap_append, filterMap_entry?_map_other, ih]
    rfl

theorem entries_text {l : Listing} (hl : l.Sound) (ending : Text.LineEnding) :
    entries (l.text ending) = l.items.map fun p => p.1.entry ending := by
  rw [entries, layout_text hl, List.filterMap_append, filterMap_entry?_map_other,
    filterMap_entry?_pieces, List.nil_append]

end Listing

namespace Kind

end Kind

namespace Listing

end Listing

end SiteProject.Solution
