import SiteProject.Proofs.Text.Case
import SiteProject.Proofs.Text.Trim
import SiteProject.Proofs.Text.Word
import SiteProject.Solution.Framework

namespace SiteProject.Solution.Framework

open Text (isBlank trim lower)

variable {raw s number post : Text}

/-- The form of a tag. -/
structure IsTag (t : Text) : Prop where
  start : t.head? = some 'v'
  first : t.head?.any isBlank = false
  last : t.getLast?.any isBlank = false

theorem normalize_of_start (h : (trim raw).head? = some 'v') : normalize raw = trim raw := by
  have hne : trim raw ≠ [] := by
    rintro he
    simp [he] at h
  simp [normalize, hne, h]

theorem normalize_of_version (hv : (trim raw).head? ≠ some 'v') (h : version? (trim raw) = some number) :
    normalize raw = 'v' :: number := by
  have hne : trim raw ≠ [] := by
    rintro he
    simp [he, version?] at h
  simp [normalize, hne, hv, h]

theorem normalize_of_decimal (hv : (trim raw).head? ≠ some 'v') (hn : version? (trim raw) = none)
    (h : decimal? (trim raw) = some (trim raw)) : normalize raw = 'v' :: trim raw := by
  have hne : trim raw ≠ [] := by
    rintro he
    simp [he, decimal?] at h
  simp [normalize, hne, hv, hn, h]

theorem normalize_of_shorthand {m n : Char} (hv : (trim raw).head? ≠ some 'v')
    (hn : version? (trim raw) = none) (hd : decimal? (trim raw) = none)
    (h : shorthand? (trim raw) = some (m, n)) : normalize raw = ['v', m, '.', n] := by
  have hne : trim raw ≠ [] := by
    rintro he
    simp [he, shorthand?] at h
  simp [normalize, hne, hv, hn, hd, h]

theorem mem_of_decimal? (h : decimal? s = some number) : ∀ c ∈ number, c.isDigit = true ∨ c = '.' := by
  have htake {t : Text} : ∀ c ∈ t.takeWhile Char.isDigit, c.isDigit = true :=
    fun _ => List.mem_takeWhile_imp
  unfold decimal? at h
  split at h
  · cases h
  · split at h
    · split at h
      · obtain rfl := Option.some.inj h
        exact fun c hc => .inl (htake c hc)
      · obtain rfl := Option.some.inj h
        intro c hc
        rcases List.mem_append.1 hc with hc | hc
        · exact .inl (htake c hc)
        · exact (List.mem_cons.1 hc).symm.imp_left (htake c)
    · obtain rfl := Option.some.inj h
      exact fun c hc => .inl (htake c hc)

theorem decimal?_of_version? (h : version? s = some number) : ∃ t, decimal? t = some number := by
  induction s with
  | nil => cases h
  | cons c s ih =>
    rcases Option.or_eq_some_iff.1 h with hhere | ⟨-, hrest⟩
    · rw [versionHere?] at hhere
      split at hhere
      · obtain ⟨t, -, ht⟩ := Option.bind_eq_some_iff.1 hhere
        exact ⟨_, ht⟩
      · cases hhere
    · exact ih hrest

theorem isBlank_of_point {c : Char} (h : c.isDigit = true ∨ c = '.') : isBlank c = false := by
  rcases h with h | rfl
  · exact Text.isBlank_of_isDigit h
  · decide

theorem isTag_cons (h : ∀ c ∈ number, c.isDigit = true ∨ c = '.') : IsTag ('v' :: number) where
  start := rfl
  first := show isBlank 'v' = false by decide
  last := Text.getLast?_any_of_forall
    (List.forall_mem_cons.2 ⟨by decide, fun c hc => isBlank_of_point (h c hc)⟩)

theorem digits_of_shorthand? {m n : Char} (h : shorthand? s = some (m, n)) :
    m.isDigit = true ∧ n.isDigit = true := by
  unfold shorthand? at h
  split at h
  · split at h
    · next hall =>
      obtain ⟨rfl, rfl⟩ := Prod.mk.inj (Option.some.inj h)
      simp only [Bool.and_eq_true] at hall
      exact ⟨hall.1.2, hall.2⟩
    · cases h
  · cases h

/-- Whatever is written, the tag begins with `v`, has no blank at either end and is its own tag. -/
theorem isTag_normalize (raw : Text) : IsTag (normalize raw) := by
  unfold normalize
  dsimp only
  split
  · exact ⟨by decide, by decide, by decide⟩
  · split
    · next hv => exact ⟨beq_iff_eq.1 hv, (Text.ends_trim raw).1, (Text.ends_trim raw).2⟩
    · split
      · next hversion =>
        obtain ⟨t, ht⟩ := decimal?_of_version? hversion
        exact isTag_cons (mem_of_decimal? ht)
      · split
        · next hdecimal => exact isTag_cons (mem_of_decimal? (beq_iff_eq.1 hdecimal))
        · split
          · next m n hshort =>
            obtain ⟨hm, hn⟩ := digits_of_shorthand? hshort
            have hpoints : ∀ c ∈ [m, '.', n], c.isDigit = true ∨ c = '.' := by
              intro c hc
              simp only [List.mem_cons, List.not_mem_nil, or_false] at hc
              rcases hc with rfl | rfl | rfl
              · exact .inl hm
              · exact .inr rfl
              · exact .inl hn
            exact isTag_cons hpoints
          · exact ⟨by decide, by decide, by decide⟩

theorem IsTag.normalize_eq {t : Text} (h : IsTag t) : normalize t = t := by
  have htrim := Text.trim_eq_self_iff.2 ⟨h.first, h.last⟩
  have hnormal : normalize t = trim t := normalize_of_start (htrim.symm ▸ h.start)
  rw [hnormal, htrim]

/-- Without the word there is no version. -/
theorem versionHere?_eq_none (h : Text.startsWith versionWord (lower s) = false) : versionHere? s = none := by
  rw [versionHere?, Text.sameLetters_take (by decide), h]
  rfl

theorem version?_eq_none (h : ∀ c ∈ s, c.toLower ≠ 'v') : version? s = none := by
  induction s with
  | nil => rfl
  | cons c s ih =>
    have hc : Text.startsWith versionWord (lower (c :: s)) = false := by
      have hne : 'v' ≠ c.toLower := (h c (by simp)).symm
      change (Text.after? ('v' :: versionWord.tail) (c.toLower :: lower s)).isSome = false
      rw [Text.after?, if_neg hne]
      rfl
    rw [version?, versionHere?_eq_none hc, ih fun d hd => h d (by simp [hd])]
    rfl

/-- One or more digits. -/
def IsDigits (t : Text) : Prop := t ≠ [] ∧ ∀ c ∈ t, c.isDigit = true

instance : DecidablePred IsDigits := fun t =>
  decidable_of_iff (t ≠ [] ∧ t.all Char.isDigit = true) (and_congr_right fun _ => List.all_eq_true)

theorem IsDigits.exists_cons {t : Text} (h : IsDigits t) :
    ∃ c u, t = c :: u ∧ c.isDigit = true ∧ ∀ d ∈ u, d.isDigit = true := by
  obtain ⟨hne, hall⟩ := h
  obtain ⟨c, u, rfl⟩ := List.exists_cons_of_ne_nil hne
  exact ⟨c, u, rfl, List.forall_mem_cons.1 hall⟩

theorem decimal?_append {major minor : Text} (hmajor : IsDigits major) (hminor : IsDigits minor)
    (hpost : post.head?.any Char.isDigit = false) :
    decimal? (major ++ '.' :: minor ++ post) = some (major ++ '.' :: minor) := by
  have hpoint : ('.' :: (minor ++ post)).head?.any Char.isDigit = false := by
    rw [List.head?_cons]
    decide
  have hwhole := Text.takeWhile_append_of_head? hmajor.2 hpoint
  have hrest := Text.dropWhile_append_of_head? hmajor.2 hpoint
  have hfraction := Text.takeWhile_append_of_head? hminor.2 hpost
  obtain ⟨c, w, hw⟩ := List.exists_cons_of_ne_nil hmajor.1
  obtain ⟨d, u, hu⟩ := List.exists_cons_of_ne_nil hminor.1
  rw [List.append_assoc, List.cons_append, decimal?, hwhole, hrest]
  simp only [hfraction]
  simp only [hw, hu]

theorem withoutV_append {c : Char} {letter t : Text} (hc : c.isDigit = true)
    (hletter : letter ∈ [[], ['v'], ['V']]) : withoutV (letter ++ c :: t) = c :: t := by
  simp only [List.mem_cons, List.not_mem_nil, or_false] at hletter
  rcases hletter with rfl | rfl | rfl
  · have hsmall : c ≠ 'v' := by rintro rfl; cases hc
    have hlarge : c ≠ 'V' := by rintro rfl; cases hc
    rw [List.nil_append, withoutV]
    · simpa using hsmall
    · simpa using hlarge
  · rfl
  · rfl

/-- The word, an equals sign and perhaps a `v`, which may come before a number. -/
inductive Mark : Text → Prop
  | intro {word a b letter : Text} (hword : lower word = versionWord) (ha : ∀ c ∈ a, isBlank c = true)
      (hb : ∀ c ∈ b, isBlank c = true) (hletter : letter ∈ [[], ['v'], ['V']]) :
      Mark (word ++ (a ++ '=' :: (b ++ letter)))

theorem Mark.head? {mark : Text} (h : Mark mark) : ∃ c w, mark = c :: w ∧ c.toLower = 'v' := by
  obtain @⟨word, a, b, letter, hword, -, -, -⟩ := h
  cases word with
  | nil => exact absurd hword (by decide)
  | cons c w =>
    have hcons : lower (c :: w) = 'v' :: "ersion".toList := hword.trans (by decide)
    exact ⟨c, _, rfl, (List.cons.inj hcons).1⟩

/-- After a mark comes the number that is read. -/
theorem versionHere?_append {mark t : Text} {c : Char} (h : Mark mark) (hc : c.isDigit = true) :
    versionHere? (mark ++ c :: t) = decimal? (c :: t) := by
  obtain @⟨word, a, b, letter, hword, ha, hb, hletter⟩ := h
  have hlength : versionWord.length = word.length := by rw [← Text.length_lower word, hword]
  have hsame : Text.sameLetters word versionWord = true := by
    rw [Text.sameLetters, hword]
    decide
  have hsign : Text.trimStart (a ++ '=' :: (b ++ (letter ++ c :: t))) = '=' :: (b ++ (letter ++ c :: t)) := by
    rw [Text.trimStart_blanks ha, Text.trimStart_eq_self_iff, List.head?_cons]
    decide
  have hafter : Text.after? ['='] ('=' :: (b ++ (letter ++ c :: t))) = some (b ++ (letter ++ c :: t)) :=
    Text.after?_append ['='] _
  have hnumber : Text.trimStart (b ++ (letter ++ c :: t)) = letter ++ c :: t := by
    rw [Text.trimStart_blanks hb, Text.trimStart_eq_self_iff]
    simp only [List.mem_cons, List.not_mem_nil, or_false] at hletter
    rcases hletter with rfl | rfl | rfl
    · exact Text.isBlank_of_isDigit hc
    · exact show isBlank 'v' = false by decide
    · exact show isBlank 'V' = false by decide
  simp only [List.append_assoc, List.cons_append]
  rw [versionHere?, hlength, List.take_left, List.drop_left, hsame, hsign]
  simp only [if_true, hafter, Option.bind_eq_bind, Option.bind_some, hnumber, withoutV_append hc hletter]

/-- The first place with the word is the one that counts, if a version stands there. -/
theorem version?_append {pre mark r : Text} (hpre : Text.contains versionWord (lower pre) = false)
    (hmark : Mark mark) (h : versionHere? (mark ++ r) = some number) :
    version? (pre ++ (mark ++ r)) = some number := by
  induction pre with
  | nil =>
    obtain ⟨c, w, rfl, -⟩ := hmark.head?
    rw [List.nil_append, List.cons_append, version?, ← List.cons_append, h]
    rfl
  | cons c pre ih =>
    have hnone : Text.startsWith versionWord (lower (c :: (pre ++ (mark ++ r)))) = false := by
      obtain @⟨word, a, b, letter, hword, -, -, -⟩ := hmark
      have hafter := Text.after?_of_unbordered (w := versionWord) (a := lower (c :: pre)) (by decide)
        (List.cons_ne_nil _ _) hpre (lower (a ++ '=' :: (b ++ letter) ++ r))
      rw [← hword, ← Text.lower_append, ← Text.lower_append, hword, List.append_assoc] at hafter
      rw [← List.cons_append, List.append_assoc, Text.startsWith, hafter]
      rfl
    have hrest := ih (Text.contains_eq_false_of_cons (c := c.toLower) hpre)
    rw [List.cons_append, version?, versionHere?_eq_none hnone, hrest]
    rfl

/-- The ways to write the version with these two parts. -/
inductive Spelling (major minor : Text) : Text → Prop
  | plain : Spelling major minor (major ++ '.' :: minor)
  | tag : Spelling major minor ('v' :: (major ++ '.' :: minor))
  /-- After the first mark in the text, which is no tag as a whole. -/
  | marked {pre mark post : Text} (hpre : Text.contains versionWord (lower pre) = false) (hmark : Mark mark)
      (hpost : post.head?.any Char.isDigit = false)
      (hstart : (trim (pre ++ (mark ++ (major ++ '.' :: minor)) ++ post)).head? ≠ some 'v') :
      Spelling major minor (pre ++ (mark ++ (major ++ '.' :: minor)) ++ post)
  | short {net : Text} {m n : Char} (hnet : lower net = "net".toList) (hm : major = [m]) (hn : minor = [n]) :
      Spelling major minor (net ++ [m, n])

theorem toLower_ne_of_isDigit {c : Char} (h : c.isDigit = true) : c.toLower ≠ 'v' := by
  rw [Text.toLower_of_isDigit h]
  rintro rfl
  cases h

section Spellings

variable {major minor : Text}

theorem normalize_number (hmajor : IsDigits major) (hminor : IsDigits minor)
    (h : trim raw = major ++ '.' :: minor) : normalize raw = 'v' :: (major ++ '.' :: minor) := by
  have hversion : version? (major ++ '.' :: minor) = none := by
    refine version?_eq_none fun c hc => ?_
    simp only [List.mem_append, List.mem_cons] at hc
    rcases hc with hc | rfl | hc
    · exact toLower_ne_of_isDigit (hmajor.2 c hc)
    · decide
    · exact toLower_ne_of_isDigit (hminor.2 c hc)
  have hdecimal : decimal? (major ++ '.' :: minor ++ []) = some (major ++ '.' :: minor) :=
    decimal?_append hmajor hminor rfl
  rw [List.append_nil] at hdecimal
  have hstart : (trim raw).head? ≠ some 'v' := by
    obtain ⟨c, u, rfl, hc, -⟩ := hmajor.exists_cons
    rw [h]
    simp only [List.cons_append, List.head?_cons, ne_eq, Option.some.injEq]
    rintro rfl
    cases hc
  rw [← h] at hversion hdecimal ⊢
  exact normalize_of_decimal hstart hversion hdecimal

theorem normalize_short {net : Text} {m n : Char} (hnet : lower net = "net".toList)
    (hm : m.isDigit = true) (hn : n.isDigit = true) (h : trim raw = net ++ [m, n]) :
    normalize raw = ['v', m, '.', n] := by
  obtain ⟨a, b, c, rfl⟩ : ∃ a b c, net = [a, b, c] := by
    rw [← List.length_eq_three, ← Text.length_lower, hnet]
    rfl
  obtain ⟨ha, hb, hc⟩ : a.toLower = 'n' ∧ b.toLower = 'e' ∧ c.toLower = 't' := by
    simpa [lower] using hnet
  have hversion : version? [a, b, c, m, n] = none := by
    refine version?_eq_none fun d hd => ?_
    simp only [List.mem_cons, List.not_mem_nil, or_false] at hd
    rcases hd with rfl | rfl | rfl | rfl | rfl
    · rw [ha]; decide
    · rw [hb]; decide
    · rw [hc]; decide
    · exact toLower_ne_of_isDigit hm
    · exact toLower_ne_of_isDigit hn
  have hdecimal : decimal? [a, b, c, m, n] = none := by
    have ha' : a.isDigit = false := Text.isDigit_of_toLower (by rw [ha]; decide)
    simp [decimal?, ha']
  have hshort : shorthand? [a, b, c, m, n] = some (m, n) := by
    have hsame : Text.sameLetters [a, b, c] ['n', 'e', 't'] = true := by
      rw [Text.sameLetters, hnet]
      decide
    rw [shorthand?, hsame, hm, hn]
    rfl
  have hstart : (trim raw).head? ≠ some 'v' := by
    rw [h]
    rintro hv
    obtain rfl : a = 'v' := by simpa using hv
    exact absurd ha (by decide)
  rw [List.cons_append, List.cons_append, List.cons_append, List.nil_append] at h
  rw [← h] at hversion hdecimal hshort
  exact normalize_of_shorthand hstart hversion hdecimal hshort

theorem normalize_marked {pre mark post : Text} (hmajor : IsDigits major) (hminor : IsDigits minor)
    (hpre : Text.contains versionWord (lower pre) = false) (hmark : Mark mark)
    (hpost : post.head?.any Char.isDigit = false)
    (h : trim raw = trim (pre ++ (mark ++ (major ++ '.' :: minor)) ++ post))
    (hstart : (trim raw).head? ≠ some 'v') : normalize raw = 'v' :: (major ++ '.' :: minor) := by
  have hfirst : (mark ++ (major ++ '.' :: minor)).head?.any isBlank = false := by
    obtain ⟨c, w, rfl, hc⟩ := hmark.head?
    exact Text.isBlank_of_toLower (by rw [hc]; decide)
  have hlast : (mark ++ (major ++ '.' :: minor)).getLast?.any isBlank = false := by
    have hminorLast : mark ++ (major ++ '.' :: minor) = mark ++ (major ++ ['.']) ++ minor := by simp
    rw [hminorLast, List.getLast?_append_of_ne_nil _ hminor.1]
    exact Text.getLast?_any_of_forall fun c hc => Text.isBlank_of_isDigit (hminor.2 c hc)
  have htrim := Text.trim_append (by simp) hfirst hlast pre post
  -- what trimming leaves before and after the version is fit to stand there again
  have hpre' : Text.contains versionWord (lower (Text.trimStart pre)) = false := by
    rw [Bool.eq_false_iff] at hpre ⊢
    intro hc
    have hsuffix : lower (Text.trimStart pre) <:+ lower pre :=
      (List.dropWhile_suffix isBlank).map Char.toLower
    exact hpre (Text.contains_iff.2 ((Text.contains_iff.1 hc).trans hsuffix.isInfix))
  have hnumber := decimal?_append hmajor hminor (Text.head?_trimEnd post hpost)
  obtain ⟨c, u, rfl, hc, -⟩ := hmajor.exists_cons
  have hhere := versionHere?_append (t := u ++ '.' :: minor ++ Text.trimEnd post) hmark hc
  have hversion := version?_append hpre' hmark (hhere.trans hnumber)
  refine normalize_of_version hstart ?_
  rw [h, htrim, ← hversion]
  simp only [List.append_assoc, List.cons_append]

end Spellings

/-- Every text has a tag: it begins with `v`, has no blank at either end, and is its own tag. The ways to
write a version with two parts, in blanks or not, all have the tag of the version. -/
theorem tag_of_normalize :
    (∀ raw, IsTag (normalize raw) ∧ normalize (normalize raw) = normalize raw) ∧
      ∀ {major minor s : Text}, IsDigits major → IsDigits minor → Spelling major minor s →
        ∀ {a b : Text}, (∀ c ∈ a, isBlank c = true) → (∀ c ∈ b, isBlank c = true) →
          normalize (a ++ s ++ b) = 'v' :: (major ++ '.' :: minor) := by
  refine ⟨fun raw => ⟨isTag_normalize raw, (isTag_normalize raw).normalize_eq⟩, ?_⟩
  intro major minor s hmajor hminor hs a b ha hb
  have htrim := Text.trim_surrounded ha hb s
  have hpoints : ∀ c ∈ major ++ '.' :: minor, c.isDigit = true ∨ c = '.' := by
    intro c hc
    simp only [List.mem_append, List.mem_cons] at hc
    rcases hc with hc | hc | hc
    · exact .inl (hmajor.2 c hc)
    · exact .inr hc
    · exact .inl (hminor.2 c hc)
  cases hs with
  | plain =>
    have hself := Text.trim_eq_self_of_forall fun c hc => isBlank_of_point (hpoints c hc)
    exact normalize_number hmajor hminor (htrim.trans hself)
  | tag =>
    have hself := Text.trim_eq_self_iff.2 ⟨(isTag_cons hpoints).first, (isTag_cons hpoints).last⟩
    rw [hself] at htrim
    rw [normalize_of_start (by rw [htrim]; rfl), htrim]
  | marked hpre hmark hpost hstart =>
    exact normalize_marked hmajor hminor hpre hmark hpost htrim (htrim ▸ hstart)
  | @short net m n hnet hm hn =>
    subst hm hn
    have hm := hmajor.2 m (by simp)
    have hn := hminor.2 n (by simp)
    have hblank : ∀ c ∈ net ++ [m, n], isBlank c = false := by
      intro c hc
      simp only [List.mem_append, List.mem_cons, List.not_mem_nil, or_false] at hc
      rcases hc with hc | rfl | rfl
      · have hlower : c.toLower ∈ "net".toList := by
          rw [← hnet]
          exact List.mem_map_of_mem hc
        refine Text.isBlank_of_toLower ?_
        have hword : "net".toList.all (fun d => !isBlank d) = true := by decide
        simpa using List.all_eq_true.1 hword _ hlower
      · exact Text.isBlank_of_isDigit hm
      · exact Text.isBlank_of_isDigit hn
    exact normalize_short hnet hm hn (htrim.trans (Text.trim_eq_self_of_forall hblank))

/-- A moniker with a service release behind the version, which the tag leaves out. -/
def moniker : Text := ".NETFramework, VERSION =\u00a0V4.72.1".toList

theorem tag_of_moniker :
    IsDigits "4".toList ∧ IsDigits "72".toList ∧ Spelling "4".toList "72".toList moniker ∧
      normalize ('\t' :: moniker ++ ['\n']) = "v4.72".toList := by
  have hmajor : IsDigits "4".toList := by decide
  have hminor : IsDigits "72".toList := by decide
  have hmark : Mark "VERSION =\u00a0V".toList :=
    @Mark.intro "VERSION".toList [' '] ['\u00a0'] ['V'] (by decide) (List.all_eq_true.1 rfl)
      (List.all_eq_true.1 rfl) (by decide)
  have hspelling : Spelling "4".toList "72".toList moniker :=
    @Spelling.marked _ _ ".NETFramework, ".toList "VERSION =\u00a0V".toList ".1".toList (by decide) hmark
      (by decide) (by decide)
  obtain ⟨-, htag⟩ := tag_of_normalize
  exact ⟨hmajor, hminor, hspelling,
    htag hmajor hminor hspelling (a := ['\t']) (b := ['\n']) (List.all_eq_true.1 rfl)
      (List.all_eq_true.1 rfl)⟩

end SiteProject.Solution.Framework
