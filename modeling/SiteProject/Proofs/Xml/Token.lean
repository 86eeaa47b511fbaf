import SiteProject.Proofs.Text.Cut
import SiteProject.Proofs.Xml.Character
import SiteProject.Xml.Markup
import SiteProject.Xml.Token

namespace SiteProject.Xml

/-- A name without a colon. -/
def isWord (n : Text) : Bool := Name.startsAsName n && n.all isNameChar

theorem exists_cons_of_isWord {n : Text} (h : isWord n = true) :
    ∃ c m, n = c :: m ∧ isNameStart c = true := by
  cases n with
  | nil => simp [isWord, Name.startsAsName] at h
  | cons c m =>
    simp only [isWord, Name.startsAsName, List.head?_cons, Option.any_some, Bool.and_eq_true] at h
    exact ⟨c, m, rfl, h.1⟩

theorem ne_of_isNameStart {c d : Char} (h : isNameStart c = true) (hd : isNameStart d = false) :
    c ≠ d := by
  rintro rfl
  rw [h] at hd
  exact absurd hd (by decide)

theorem isSpace_eq_false_of_isNameStart {c : Char} (h : isNameStart c = true) : isSpace c = false := by
  have hs := ne_of_isNameStart h (d := ' ') (by decide)
  have ht := ne_of_isNameStart h (d := '\t') (by decide)
  have hr := ne_of_isNameStart h (d := '\r') (by decide)
  have hn := ne_of_isNameStart h (d := '\n') (by decide)
  simp [isSpace, hs, ht, hr, hn]

theorem skipSpace_of_not {c : Char} (h : isSpace c = false) (s : Text) : skipSpace (c :: s) = c :: s := by
  rw [skipSpace, List.dropWhile_cons_of_neg (by simp [h])]

theorem skipSpace_space (s : Text) : skipSpace (' ' :: s) = skipSpace s := by
  rw [skipSpace, List.dropWhile_cons_of_pos (by decide), skipSpace]

theorem Name.read?_word {n r : Text} {d : Char} (hn : isWord n = true) (hd : isNameChar d = false)
    (hc : d ≠ ':') : Name.read? (n ++ d :: r) = some (⟨[], n⟩, d :: r) := by
  rw [isWord, Bool.and_eq_true, List.all_eq_true] at hn
  have ht : (n ++ d :: r).takeWhile isNameChar = n := Text.takeWhile_append_of_head? hn.2 hd
  have hr : (n ++ d :: r).dropWhile isNameChar = d :: r :=
    Text.dropWhile_append_of_head? hn.2 hd
  unfold Name.read?
  simp only [ht, hr]
  split
  · next h => exact absurd (List.cons.inj h).1 hc
  · rw [if_pos hn.1]

/-- An attribute is a name with a value that neither ends nor marks up anything. -/
structure AttributeFormed (a : Text × Text) : Prop where
  name : isWord a.1 = true
  quote : '"' ∉ a.2
  angle : '<' ∉ a.2
  written : ∃ ws, Spells a.2 ws

/-- The attribute that is read. -/
def Attribute.ofWritten (a : Text × Text) : Attribute :=
  ⟨⟨[], a.1⟩, attributeValue ((written? a.2).getD [])⟩

/-- How an opening tag ends. -/
def tagEnd : Bool → Text
  | false => ['>']
  | true => [' ', '/', '>']

theorem rawAttribute?_formed {a : Text × Text} (h : AttributeFormed a)
    (hall : a.2.all isAllowed = true) (r : Text) :
    rawAttribute? (a.1 ++ ['=', '"'] ++ a.2 ++ ['"'] ++ r) = some ((⟨[], a.1⟩, a.2), r) := by
  have hvalue : ∀ c ∈ a.2, (c != '"' && c != '<') = true := by
    intro c hc
    have hq : c ≠ '"' := fun e => h.quote (e ▸ hc)
    have hl : c ≠ '<' := fun e => h.angle (e ▸ hc)
    simp [hq, hl]
  have ht : (a.2 ++ '"' :: r).takeWhile (fun c => c != '"' && c != '<') = a.2 :=
    Text.takeWhile_append_of_head? hvalue rfl
  have hr : (a.2 ++ '"' :: r).dropWhile (fun c => c != '"' && c != '<') = '"' :: r :=
    Text.dropWhile_append_of_head? hvalue rfl
  have hequals : Text.after? ['='] (skipSpace ('=' :: '"' :: (a.2 ++ '"' :: r))) =
      some ('"' :: (a.2 ++ '"' :: r)) := by
    rw [skipSpace_of_not (by decide)]
    exact Text.after?_append ['='] _
  have hopen : skipSpace ('"' :: (a.2 ++ '"' :: r)) = '"' :: (a.2 ++ '"' :: r) :=
    skipSpace_of_not (by decide) _
  have hclose : Text.after? ['"'] ('"' :: r) = some r := Text.after?_append ['"'] r
  have hsplit : a.1 ++ ['=', '"'] ++ a.2 ++ ['"'] ++ r = a.1 ++ '=' :: '"' :: (a.2 ++ '"' :: r) := by
    simp
  rw [hsplit, rawAttribute?, Name.read?_word h.name (by decide) (by decide)]
  simp only [bind, Option.bind_some, hequals, hopen, ht, hr, hall, hclose]
  rfl

theorem attributes?_end (closed : Bool) (r : Text) :
    attributes? (tagEnd closed ++ r) = some (([], closed), r) := by
  cases closed with
  | false => rw [attributes?]; rfl
  | true => rw [attributes?]; rfl

theorem attributes?_cons {a : Text × Text} (h : AttributeFormed a) (hall : a.2.all isAllowed = true)
    (s : Text) :
    attributes? (Markup.attributeText a ++ s) =
      (attributes? s).map fun p => ((Attribute.ofWritten a :: p.1.1, p.1.2), p.2) := by
  obtain ⟨c, m, hn, hc⟩ := exists_cons_of_isWord h.name
  obtain ⟨ws, hws⟩ := h.written
  have hskip : skipSpace (Markup.attributeText a ++ s) = a.1 ++ ['=', '"'] ++ a.2 ++ ['"'] ++ s := by
    simp only [Markup.attributeText, List.append_assoc, List.cons_append, List.nil_append]
    rw [skipSpace_space, hn, List.cons_append,
      skipSpace_of_not (isSpace_eq_false_of_isNameStart hc)]
  have hraw := rawAttribute?_formed h hall s
  rw [attributes?]
  split
  · next r he =>
    rw [hskip, hn] at he
    have hne := ne_of_isNameStart hc (d := '/') (by decide)
    exact absurd (List.cons.inj he).1 hne
  · next r he =>
    rw [hskip, hn] at he
    have hne := ne_of_isNameStart hc (d := '>') (by decide)
    exact absurd (List.cons.inj he).1 hne
  · have hspace : (Markup.attributeText a ++ s).head?.any isSpace = true := rfl
    rw [if_pos hspace]
    split
    · next hnone =>
      rw [hskip, hraw] at hnone
      exact absurd hnone (by simp)
    · next name value r he =>
      rw [hskip, hraw] at he
      obtain ⟨⟨rfl, rfl⟩, rfl⟩ : (⟨[], a.1⟩ = name ∧ a.2 = value) ∧ s = r := by simpa using he
      rw [Attribute.ofWritten, hws.written?]
      cases attributes? s with
      | none => rfl
      | some p => rfl

/-- The rest of an opening tag is read as the attributes it was made from. -/
theorem attributes?_formed {as : List (Text × Text)} (h : ∀ a ∈ as, AttributeFormed a)
    (hall : ∀ a ∈ as, a.2.all isAllowed = true) (closed : Bool) (r : Text) :
    attributes? (as.flatMap Markup.attributeText ++ tagEnd closed ++ r) =
      some ((as.map Attribute.ofWritten, closed), r) := by
  induction as with
  | nil => exact attributes?_end closed r
  | cons a as ih =>
    have ih := ih (fun b hb => h b (by simp [hb])) fun b hb => hall b (by simp [hb])
    rw [List.flatMap_cons, List.append_assoc, List.append_assoc,
      attributes?_cons (h a (by simp)) (hall a (by simp)), ← List.append_assoc, ih]
    rfl

namespace Token

theorem markup?_of_isNameStart {c : Char} (hc : isNameStart c = true) (s : Text) :
    markup? (c :: s) = (opening? (c :: s)).map fun p => (opening p.1.1 p.1.2.1 p.1.2.2, p.2) := by
  unfold markup?
  split
  · next he => exact absurd (List.cons.inj he).1 (ne_of_isNameStart hc (by decide))
  · next he => exact absurd (List.cons.inj he).1 (ne_of_isNameStart hc (by decide))
  · next he => exact absurd (List.cons.inj he).1 (ne_of_isNameStart hc (by decide))
  · rfl

theorem opening?_formed {n : Text} {as : List (Text × Text)} (hn : isWord n = true)
    (has : ∀ a ∈ as, AttributeFormed a) (hall : ∀ a ∈ as, a.2.all isAllowed = true) (closed : Bool)
    (r : Text) :
    opening? (n ++ as.flatMap Markup.attributeText ++ tagEnd closed ++ r) =
      some ((⟨[], n⟩, as.map Attribute.ofWritten, closed), r) := by
  obtain ⟨d, t, ht, hd, hc⟩ : ∃ d t, as.flatMap Markup.attributeText ++ tagEnd closed ++ r = d :: t ∧
      isNameChar d = false ∧ d ≠ ':' := by
    cases as with
    | nil => cases closed with
      | false => exact ⟨'>', r, rfl, by decide, by decide⟩
      | true => exact ⟨' ', '/' :: '>' :: r, rfl, by decide, by decide⟩
    | cons a as => exact ⟨' ', _, rfl, by decide, by decide⟩
  have hattributes := attributes?_formed has hall closed r
  rw [ht] at hattributes
  rw [List.append_assoc, List.append_assoc, ← List.append_assoc (List.flatMap _ _), ht, opening?,
    Name.read?_word hn hd hc]
  simp only [bind, Option.bind_some, hattributes]
  rfl

theorem read?_opening {n : Text} {as : List (Text × Text)} (hn : isWord n = true)
    (has : ∀ a ∈ as, AttributeFormed a) (hall : ∀ a ∈ as, a.2.all isAllowed = true) (closed : Bool)
    (r : Text) :
    read? (['<'] ++ n ++ as.flatMap Markup.attributeText ++ tagEnd closed ++ r) =
      some (opening ⟨[], n⟩ (as.map Attribute.ofWritten) closed, r) := by
  have hopening := opening?_formed hn has hall closed r
  obtain ⟨c, m, rfl, hc⟩ := exists_cons_of_isWord hn
  have hread : read? ('<' :: (c :: m ++ as.flatMap Markup.attributeText ++ tagEnd closed ++ r)) =
      markup? (c :: m ++ as.flatMap Markup.attributeText ++ tagEnd closed ++ r) := rfl
  simp only [List.cons_append, List.nil_append] at hread hopening ⊢
  rw [hread, markup?_of_isNameStart hc, hopening]
  rfl

theorem read?_closing {n : Text} (hn : isWord n = true) (r : Text) :
    read? (['<', '/'] ++ n ++ ['>'] ++ r) = some (closing ⟨[], n⟩, r) := by
  have hread : read? (['<', '/'] ++ n ++ ['>'] ++ r) =
      (closing? (n ++ '>' :: r)).map fun p => (closing p.1, p.2) := by
    simp only [List.append_assoc, List.cons_append, List.nil_append]
    rfl
  have hend : Text.after? ['>'] (skipSpace ('>' :: r)) = some r := by
    rw [skipSpace_of_not (by decide)]
    exact Text.after?_append ['>'] r
  rw [hread, closing?, Name.read?_word hn (by decide) (by decide)]
  simp only [bind, Option.bind_some, hend]
  rfl

theorem read?_comment {t : Text} (ht : '-' ∉ t) (hall : t.all isAllowed = true) (r : Text) :
    read? ("<!-- ".toList ++ t ++ " -->".toList ++ r) = some (aside, r) := by
  have hread : read? ("<!-- ".toList ++ t ++ " -->".toList ++ r) =
      (comment? (([' '] ++ t ++ [' ']) ++ ['-', '-', '>'] ++ r)).map (aside, ·) := by
    have hopen : "<!-- ".toList = ['<', '!', '-', '-', ' '] := by decide
    have hclose : " -->".toList = [' ', '-', '-', '>'] := by decide
    simp only [hopen, hclose, List.append_assoc, List.cons_append, List.nil_append]
    rfl
  have hinner : '-' ∉ [' '] ++ t ++ [' '] := by simp [ht]
  have hdashes : Text.contains ['-', '-'] ([' '] ++ t ++ [' ']) = false := by
    refine Bool.eq_false_iff.2 fun h => hinner ?_
    exact (Text.contains_iff.1 h).subset (by simp)
  have hlast : ([' '] ++ t ++ [' ']).getLast? = some ' ' := List.getLast?_concat
  have hallowed : ([' '] ++ t ++ [' ']).all isAllowed = true := by
    simp only [List.all_append, hall]
    decide
  rw [hread, comment?, Text.cut?_of_notMem hinner]
  simp only [bind, Option.bind_some, hallowed, hdashes, hlast]
  rfl

/-- Character data that marks nothing up. -/
structure CharsFormed (w : Text) : Prop where
  left : '<' ∉ w
  right : '>' ∉ w
  written : ∃ ws, Spells w ws

theorem CharsFormed.append {w v : Text} (hw : CharsFormed w) (hv : CharsFormed v) :
    CharsFormed (w ++ v) where
  left := by simp [hw.left, hv.left]
  right := by simp [hw.right, hv.right]
  written := by
    obtain ⟨ws, hws⟩ := hw.written
    obtain ⟨vs, hvs⟩ := hv.written
    exact ⟨ws ++ vs, hws.append hvs⟩

/-- The characters that character data stands for. -/
def decode (w : Text) : Text := content false ((written? w).getD [])

/-- Character data is read up to other markup, or to the end. -/
theorem read?_decode {w r : Text} (hne : w ≠ []) (hplain : '<' ∉ w) (hr : r.head?.any (· != '<') = false)
    (hall : w.all isAllowed = true) (hend : ¬ [']', ']', '>'] <:+: w)
    (hws : (written? w).isSome = true) : read? (w ++ r) = some (chars (decode w), r) := by
  obtain ⟨ws, hws⟩ := Option.isSome_iff_exists.1 hws
  have hclass : ∀ c ∈ w, (c != '<') = true := by
    intro c hc
    have hne : c ≠ '<' := fun e => hplain (e ▸ hc)
    simpa using hne
  have hend : Text.contains [']', ']', '>'] w = false :=
    Bool.eq_false_iff.2 fun hc => hend (Text.contains_iff.1 hc)
  have hchars : chars? (w ++ r) = some (decode w, r) := by
    rw [chars?, Text.takeWhile_append_of_head? hclass hr, Text.dropWhile_append_of_head? hclass hr, hall,
      hend, decode, hws]
    rfl
  obtain ⟨c, v, rfl⟩ := List.exists_cons_of_ne_nil hne
  have hc : c ≠ '<' := by simpa using hclass c (by simp)
  rw [List.cons_append] at hchars ⊢
  rw [read?, if_neg hc, hchars]
  rfl

theorem read?_chars {w : Text} (hne : w ≠ []) (h : CharsFormed w) (hall : w.all isAllowed = true)
    (r : Text) : read? (w ++ '<' :: r) = some (chars (decode w), '<' :: r) := by
  obtain ⟨ws, hws⟩ := h.written
  have hend : ¬ [']', ']', '>'] <:+: w := fun hc => h.right (hc.subset (by simp))
  exact read?_decode hne h.left rfl hall hend (by rw [hws.written?]; rfl)

end Token
end SiteProject.Xml
