import SiteProject.Proofs.Text.Cut
import SiteProject.Toml.Number
import SiteProject.Toml.Time

namespace SiteProject.Toml

variable {s : Text}

/-- What has been read of a line, with more lines behind what is left of it. -/
def withLines {α : Type} (t : Text) (p : α × Text) : α × Text := (p.1, p.2 ++ '\n' :: t)

/-- More lines behind the line change nothing in what is read. -/
def Stays {α : Type} (read : Text → Option (α × Text)) : Prop :=
  ∀ {s p}, read s = some p → ∀ t, read (s ++ '\n' :: t) = some (withLines t p)

/-- A word that does not begin the line does not begin it with more lines behind. -/
theorem append_line_ne {w : Text} (hw : '\n' ∉ w) (h : ∀ r, s = w ++ r → False) (t r : Text) :
    s ++ '\n' :: t = w ++ r → False := by
  intro he
  obtain ⟨r', hr, -⟩ := Text.exists_append_of_notMem hw he
  exact h r' hr

theorem after?_append_line {w : Text} (hw : '\n' ∉ w) (s t : Text) :
    Text.after? w (s ++ '\n' :: t) = (Text.after? w s).map (· ++ '\n' :: t) := by
  cases h : Text.after? w s with
  | some r =>
    rw [Text.after?_eq_some.1 h, List.append_assoc, Text.after?_append]
    rfl
  | none =>
    rw [Option.map_none, Option.eq_none_iff_forall_not_mem]
    intro r hr
    refine append_line_ne hw (fun r' hr' => ?_) t r (Text.after?_eq_some.1 hr)
    rw [hr', Text.after?_append] at h
    cases h

theorem bind_of_map {β γ : Type} {f : β → β} {g : β → Option γ} {h : γ → γ}
    (hg : ∀ b, g (f b) = (g b).map h) (o : Option β) : (o.map f).bind g = (o.bind g).map h := by
  cases o with
  | none => rfl
  | some b => exact hg b

theorem takeWhile_append_line {p : Char → Bool} (hp : p '\n' = false) (s t : Text) :
    (s ++ '\n' :: t).takeWhile p = s.takeWhile p := by
  induction s with
  | nil => simp [hp]
  | cons c s ih => simp only [List.cons_append, List.takeWhile_cons, ih]

theorem dropWhile_append_line {p : Char → Bool} (hp : p '\n' = false) (s t : Text) :
    (s ++ '\n' :: t).dropWhile p = s.dropWhile p ++ '\n' :: t := by
  induction s with
  | nil => simp [hp]
  | cons c s ih =>
    simp only [List.cons_append, List.dropWhile_cons, ih]
    split <;> rfl

theorem skipSpace_append_line (s t : Text) : skipSpace (s ++ '\n' :: t) = skipSpace s ++ '\n' :: t :=
  dropWhile_append_line (by decide) s t

/-- A line that has nothing left, or only space and a comment. -/
def IsRest (s : Text) : Prop := skipComment (skipSpace s) = []

instance : DecidablePred IsRest := fun s => inferInstanceAs (Decidable (skipComment (skipSpace s) = []))

/-- The next line is read when nothing is left of this one. -/
theorem endLine?_append_line (h : IsRest s) (t : Text) : endLine? (s ++ '\n' :: t) = some t := by
  have hcomment (u : Text) (hu : skipComment u = []) : skipComment (u ++ '\n' :: t) = '\n' :: t := by
    unfold skipComment at hu
    split at hu
    · next u =>
      have hplain := dropWhile_append_line (p := isPlain) (by decide) u t
      rw [hu] at hplain
      exact hplain
    · rw [hu]
      rfl
  rw [endLine?, skipSpace_append_line, hcomment _ h]
  rfl

theorem endLine?_of_isRest (h : IsRest s) : endLine? s = some [] := by
  rw [endLine?, h]

/-- Passing over lines stops at the same character whatever stands behind. -/
theorem skipLines_append {b : Bool} {c : Char} {r : Text} (h : skipLines b s = c :: r) (t : Text) :
    skipLines b (s ++ t) = c :: r ++ t := by
  fun_induction skipLines b s with
  | case1 => cases h
  | case2 b s ih => simp only [List.cons_append, skipLines, if_true, ih h]
  | case3 d s hd hplain ih =>
    rw [List.cons_append, skipLines, if_neg hd, if_pos rfl, if_pos hplain, ih h]
  | case4 d s hd hplain =>
    rw [List.cons_append, skipLines, if_neg hd, if_pos rfl, if_neg hplain, ← List.cons_append, h]
  | case5 b s hd hb ih =>
    rw [List.cons_append, skipLines, if_neg hd, if_neg hb, if_pos rfl, ih h]
  | case6 b d s hd hb hc hspace ih =>
    rw [List.cons_append, skipLines, if_neg hd, if_neg hb, if_neg hc, if_pos hspace, ih h]
  | case7 b d s hd hb hc hspace =>
    rw [List.cons_append, skipLines, if_neg hd, if_neg hb, if_neg hc, if_neg hspace, ← List.cons_append, h]

namespace Quoted

variable {c : Char} {m : Margin} {p : Text × Text}

theorem before_eq_some {r : Option (Text × Text)} :
    before c r = some p ↔ ∃ q, r = some q ∧ (c :: q.1, q.2) = p :=
  Option.map_eq_some_iff

theorem before_map (r : Option (Text × Text)) (t : Text) :
    before c (r.map (withLines t)) = (before c r).map (withLines t) := by
  cases r <;> rfl

theorem stays_basic? : Stays basic? := by
  intro s p h t
  fun_induction basic? s generalizing p with
  | case1 | case7 => cases h
  | case2 s =>
    cases h
    rfl
  | case3 a b c d s ih =>
    obtain ⟨e, he, h⟩ := Option.bind_eq_some_iff.1 h
    obtain ⟨q, hq, rfl⟩ := before_eq_some.1 h
    simp only [List.cons_append, basic?, he, ih hq]
    rfl
  | case4 a b c d e f g j s ih =>
    obtain ⟨u, hu, h⟩ := Option.bind_eq_some_iff.1 h
    obtain ⟨q, hq, rfl⟩ := before_eq_some.1 h
    simp only [List.cons_append, basic?, hu, ih hq]
    rfl
  | case5 c s _ _ ih =>
    obtain ⟨d, hd, h⟩ := Option.bind_eq_some_iff.1 h
    obtain ⟨q, hq, rfl⟩ := before_eq_some.1 h
    have hu : c ≠ 'u' ∧ c ≠ 'U' := by constructor <;> rintro rfl <;> cases hd
    rw [List.cons_append, List.cons_append, basic?]
    · simp only [hd, ih hq]
      rfl
    · exact fun _ _ _ _ _ h => absurd h hu.1
    · exact fun _ _ _ _ _ _ _ _ _ h => absurd h hu.2
  | case6 c s hquote _ _ hescape hplain ih =>
    obtain ⟨q, hq, rfl⟩ := before_eq_some.1 h
    have hne : c ≠ '\\' := by
      rintro rfl
      cases s with
      | nil => cases hq
      | cons d s => exact hescape d s rfl rfl
    rw [List.cons_append, basic?, if_pos hplain, ih hq]
    · rfl
    · exact hquote
    all_goals intros; contradiction

theorem stays_literal? : Stays literal? := by
  intro s p h t
  fun_induction literal? s generalizing p with
  | case1 | case4 => cases h
  | case2 s =>
    cases h
    rfl
  | case3 c s hc hplain ih =>
    obtain ⟨q, hq, rfl⟩ := before_eq_some.1 h
    rw [List.cons_append, literal?, if_pos hplain, ih hq]
    · rfl
    · exact hc

theorem stays_basicLines? : Stays (basicLines? m) := by
  intro s p h t
  fun_induction basicLines? m s generalizing p with
  | case1 | case8 | case10 | case12 | case14 | case16 | case18 | case20 | case22 | case24 | case26
  | case28 => cases h
  | case2 s ih | case4 s ih | case6 s ih =>
    obtain ⟨q, hq, rfl⟩ := before_eq_some.1 h
    simp only [List.cons_append, basicLines?, ih hq, if_true]
    rfl
  | case3 m s hm ih =>
    cases m with
    | off => exact absurd rfl hm
    | _ => simp only [List.cons_append, basicLines?, ih h]
  | case5 m s hm ih | case7 m s hm ih => simp only [List.cons_append, basicLines?, ih h, if_neg hm]
  -- a line feed is no further quote
  | case9 m s hm =>
    cases h
    simp only [List.cons_append, basicLines?, if_neg hm]
    rfl
  | case11 m s hs hm =>
    cases h
    simp only [List.cons_append]
    rw [basicLines?, if_neg hm]
    · rfl
    · exact append_line_ne (w := ['"']) (by decide) hs t
  | case13 m s hs hs' hm =>
    cases h
    simp only [List.cons_append]
    rw [basicLines?, if_neg hm]
    · rfl
    · exact append_line_ne (w := ['"', '"']) (by decide) hs t
    · exact append_line_ne (w := ['"']) (by decide) hs' t
  | case15 m a b c d s hm ih =>
    obtain ⟨e, he, h⟩ := Option.bind_eq_some_iff.1 h
    obtain ⟨q, hq, rfl⟩ := before_eq_some.1 h
    simp only [List.cons_append, basicLines?, if_neg hm, he, ih hq]
    rfl
  | case17 m a b c d e f g j s hm ih =>
    obtain ⟨u, hu, h⟩ := Option.bind_eq_some_iff.1 h
    obtain ⟨q, hq, rfl⟩ := before_eq_some.1 h
    simp only [List.cons_append, basicLines?, if_neg hm, hu, ih hq]
    rfl
  | case19 m s hm ih | case21 m s hm ih | case23 m s hm ih =>
    simp only [List.cons_append, basicLines?, if_neg hm, ih h]
  | case25 m c s _ _ hspace htab hline hm ih =>
    obtain ⟨d, hd, h⟩ := Option.bind_eq_some_iff.1 h
    obtain ⟨q, hq, rfl⟩ := before_eq_some.1 h
    have hu : c ≠ 'u' ∧ c ≠ 'U' := by constructor <;> rintro rfl <;> cases hd
    rw [List.cons_append, List.cons_append, basicLines?, if_neg hm]
    · simp only [hd, ih hq]
      rfl
    · exact fun _ _ _ _ _ h => absurd h hu.1
    · exact fun _ _ _ _ _ _ _ _ _ h => absurd h hu.2
    · exact hspace
    · exact htab
    · exact hline
  | case27 m c s hline hspace htab _ _ hquotes _ _ _ _ _ hescape hm hplain ih =>
    obtain ⟨q, hq, rfl⟩ := before_eq_some.1 h
    have hne : c ≠ '\\' := by
      rintro rfl
      cases s with
      | nil => cases hq
      | cons d s => exact hescape d s rfl rfl
    have hthree (r : Text) (hc : c = '"') : s ++ '\n' :: t = '"' :: '"' :: r → False :=
      append_line_ne (w := ['"', '"']) (by decide) (fun r => hquotes r hc) t r
    rw [List.cons_append, basicLines?, if_neg hm, if_pos hplain, ih hq]
    · rfl
    · exact hline
    · exact hspace
    · exact htab
    · exact fun r hc => hthree _ hc
    · exact fun r hc => hthree _ hc
    · exact fun r hc => hthree _ hc
    all_goals intros; contradiction

theorem stays_literalLines? : Stays literalLines? := by
  intro s p h t
  fun_induction literalLines? s generalizing p with
  | case1 | case7 => cases h
  | case2 s =>
    cases h
    rfl
  | case3 s hs =>
    cases h
    simp only [List.cons_append]
    rw [literalLines?]
    · rfl
    · exact append_line_ne (w := ['\x27']) (by decide) hs t
  | case4 s hs hs' =>
    cases h
    simp only [List.cons_append]
    rw [literalLines?]
    · rfl
    · exact append_line_ne (w := ['\x27', '\x27']) (by decide) hs t
    · exact append_line_ne (w := ['\x27']) (by decide) hs' t
  | case5 s ih =>
    obtain ⟨q, hq, rfl⟩ := before_eq_some.1 h
    simp only [List.cons_append, literalLines?, ih hq]
    rfl
  | case6 c s _ _ hquotes hline hplain ih =>
    obtain ⟨q, hq, rfl⟩ := before_eq_some.1 h
    have hthree (r : Text) (hc : c = '\x27') : s ++ '\n' :: t = '\x27' :: '\x27' :: r → False :=
      append_line_ne (w := ['\x27', '\x27']) (by decide) (fun r => hquotes r hc) t r
    rw [List.cons_append, literalLines?, if_pos hplain, ih hq]
    · rfl
    · exact fun r hc => hthree _ hc
    · exact fun r hc => hthree _ hc
    · exact fun r hc => hthree _ hc
    · exact hline

theorem stays_line? : Stays line? := by
  intro s p h t
  unfold line? at h
  split at h
  · exact stays_basic? h t
  · exact stays_literal? h t
  · cases h

theorem skipLine_append_line {s : Text} (h : s ≠ []) (t : Text) :
    skipLine (s ++ '\n' :: t) = skipLine s ++ '\n' :: t := by
  obtain ⟨c, s, rfl⟩ := List.exists_cons_of_ne_nil h
  by_cases hc : c = '\n'
  · subst hc
    rfl
  · have hnone (u : Text) : afterLine? (c :: u) = none := by
      rw [afterLine?]
      simpa using hc
    simp only [List.cons_append, skipLine, hnone, Option.getD_none]

theorem stays_read? : Stays read? := by
  intro s p h t
  unfold read? at h
  split at h
  · next s =>
    have hs : s ≠ [] := by
      rintro rfl
      cases h
    simp only [List.cons_append, read?, skipLine_append_line hs, stays_basicLines? h t]
  · next s =>
    have hs : s ≠ [] := by
      rintro rfl
      cases h
    simp only [List.cons_append, read?, skipLine_append_line hs, stays_literalLines? h t]
  · next hbasic hliteral =>
    rw [read?]
    · exact stays_line? h t
    · exact append_line_ne (w := ['"', '"', '"']) (by decide) hbasic t
    · exact append_line_ne (w := ['\x27', '\x27', '\x27']) (by decide) hliteral t

/-- A string begins with a quote. -/
theorem read?_of_head? {s : Text} (h : s.head? ≠ some '"' ∧ s.head? ≠ some '\x27') : read? s = none := by
  unfold read?
  split
  · exact absurd rfl h.1
  · exact absurd rfl h.2
  · unfold line?
    split
    · exact absurd rfl h.1
    · exact absurd rfl h.2
    · rfl

end Quoted

section Numbers

variable {isDigit : Char → Bool}

theorem sign_append_line (s t : Text) : sign (s ++ '\n' :: t) = withLines t (sign s) := by
  fun_cases sign s with
  | case1 | case2 => rfl
  | case3 s hminus hplus =>
    rw [sign]
    · rfl
    · exact append_line_ne (w := ['-']) (by decide) hminus t
    · exact append_line_ne (w := ['+']) (by decide) hplus t

theorem moreDigits?_append_line (hd : isDigit '\n' = false) (s t : Text) :
    moreDigits? isDigit (s ++ '\n' :: t) = (moreDigits? isDigit s).map (withLines t) := by
  fun_induction moreDigits? isDigit s with
  | case1 => simp [moreDigits?, hd, withLines]
  | case2 d s h ih => simp only [List.cons_append, moreDigits?, h, if_true, ih, Quoted.before_map]
  | case3 d s h => simp [moreDigits?, h]
  | case4 => simp [moreDigits?, hd]
  | case5 d s hne h ih =>
    rw [List.cons_append, moreDigits?, if_pos h, ih, Quoted.before_map]
    exact hne
  | case6 d s hne h =>
    rw [List.cons_append, moreDigits?, if_neg h]
    · rfl
    · exact hne

theorem digits?_append_line (hd : isDigit '\n' = false) (s t : Text) :
    digits? isDigit (s ++ '\n' :: t) = (digits? isDigit s).map (withLines t) := by
  cases s with
  | nil => simp [digits?, hd]
  | cons c s =>
    simp only [List.cons_append, digits?, moreDigits?_append_line hd]
    split
    · exact Quoted.before_map _ t
    · rfl

theorem decimal?_append_line (s t : Text) :
    decimal? (s ++ '\n' :: t) = (decimal? s).map (withLines t) := by
  fun_cases decimal? s with
  | case1 => rfl
  | case2 s hzero =>
    rw [decimal?]
    · exact digits?_append_line (by decide) s t
    · exact append_line_ne (w := ['0']) (by decide) hzero t

/-- Whether a number is small enough does not depend on what stands behind it. -/
theorem ite_some_map {β γ : Type} {c : Prop} (i j : Decidable c) (f : β → γ) (b : β) :
    @ite _ c i (some (f b)) none = (@ite _ c j (some b) none).map f := by
  by_cases h : c
  · rw [if_pos h, if_pos h, Option.map_some]
  · rw [if_neg h, if_neg h, Option.map_none]

theorem based?_append_line {base : Nat} (hd : isDigit '\n' = false) (s t : Text) :
    based? base isDigit (s ++ '\n' :: t) = (based? base isDigit s).map (· ++ '\n' :: t) := by
  rw [based?, based?, digits?_append_line hd]
  exact bind_of_map (fun p => ite_some_map _ _ (· ++ '\n' :: t) p.2) _

theorem integer?_append_line (s t : Text) :
    integer? (s ++ '\n' :: t) = (integer? s).map (· ++ '\n' :: t) := by
  fun_cases integer? s with
  | case1 s | case2 s | case3 s => exact based?_append_line (by decide) s t
  | case4 s hx ho hb negative r hsign =>
    rw [integer?]
    · simp only [sign_append_line, hsign, withLines, decimal?_append_line]
      exact bind_of_map (fun p => ite_some_map _ _ (· ++ '\n' :: t) p.2) _
    · exact append_line_ne (w := ['0', 'x']) (by decide) hx t
    · exact append_line_ne (w := ['0', 'o']) (by decide) ho t
    · exact append_line_ne (w := ['0', 'b']) (by decide) hb t

theorem exponent?_append_line (s t : Text) :
    exponent? (s ++ '\n' :: t) = (exponent? s).map (withLines t) := by
  cases s with
  | nil => rfl
  | cons c s =>
    simp only [List.cons_append, exponent?, sign_append_line]
    split
    · simp only [withLines, digits?_append_line (show Char.isDigit '\n' = false by decide)]
      cases digits? Char.isDigit (sign s).2 <;> rfl
    · rfl

theorem fraction?_append_line (s t : Text) :
    fraction? (s ++ '\n' :: t) = (fraction? s).map (withLines t) := by
  fun_cases fraction? s with
  | case1 s => exact digits?_append_line (by decide) s t
  | case2 s hpoint =>
    rw [fraction?]
    · rfl
    · exact append_line_ne (w := ['.']) (by decide) hpoint t

theorem unbounded?_append_line (s t : Text) :
    unbounded? (s ++ '\n' :: t) = (unbounded? s).map (· ++ '\n' :: t) := by
  rw [unbounded?, unbounded?, after?_append_line (by decide), after?_append_line (by decide), Option.map_or]

theorem float?_append_line (s t : Text) :
    float? (s ++ '\n' :: t) = (float? s).map (· ++ '\n' :: t) := by
  rw [float?, float?, sign_append_line]
  generalize sign s = p
  obtain ⟨negative, s⟩ := p
  simp only [withLines, unbounded?_append_line, decimal?_append_line]
  rw [Option.map_or]
  congr 1
  refine bind_of_map (fun p => ?_) _
  obtain ⟨whole, s⟩ := p
  have hfraction : (fraction? (s ++ '\n' :: t)).getD ([], s ++ '\n' :: t) =
      withLines t ((fraction? s).getD ([], s)) := by
    rw [fraction?_append_line]
    exact Option.getD_map (withLines t) ([], s) (fraction? s)
  have hexponent (r : Text) : (exponent? (r ++ '\n' :: t)).getD (0, r ++ '\n' :: t) =
      withLines t ((exponent? r).getD (0, r)) := by
    rw [exponent?_append_line]
    exact Option.getD_map (withLines t) (0, r) (exponent? r)
  simp only [withLines] at hfraction hexponent ⊢
  simp only [hfraction, hexponent, List.length_append, Nat.add_right_cancel_iff]
  split
  · rfl
  · exact ite_some_map _ _ (· ++ '\n' :: t) _

end Numbers

namespace Time

theorem number?_append_line {count low high : Nat} (s t : Text) :
    number? count low high (s ++ '\n' :: t) = (number? count low high s).map (withLines t) := by
  by_cases h : count ≤ s.length
  · simp only [number?, List.take_append_of_le_length h, List.drop_append_of_le_length h]
    split <;> rfl
  · have hmem : '\n' ∈ (s ++ '\n' :: t).take count := by
      rw [List.mem_take_iff_getElem]
      exact ⟨s.length, by simp; omega, by simp⟩
    have hlong : ¬ ((s ++ '\n' :: t).take count).all Char.isDigit = true :=
      fun hall => absurd (List.all_eq_true.1 hall _ hmem) (by decide)
    have hshort : ¬ (s.take count).length = count := by
      rw [List.length_take]
      omega
    rw [number?, number?, if_neg fun h => hlong h.2.1, if_neg fun h => hshort h.1]
    rfl

theorem date?_append_line (s t : Text) : date? (s ++ '\n' :: t) = (date? s).map (· ++ '\n' :: t) := by
  rw [date?, number?_append_line]
  refine bind_of_map (fun p => ?_) _
  obtain ⟨year, s⟩ := p
  simp only [withLines, after?_append_line (w := ['-']) (by decide)]
  refine bind_of_map (fun s => ?_) _
  simp only [number?_append_line]
  refine bind_of_map (fun p => ?_) _
  obtain ⟨month, s⟩ := p
  simp only [withLines, after?_append_line (w := ['-']) (by decide)]
  refine bind_of_map (fun s => ?_) _
  simp only [number?_append_line]
  refine bind_of_map (fun p => ?_) _
  rfl

theorem skipFraction_append_line (s t : Text) :
    skipFraction (s ++ '\n' :: t) = skipFraction s ++ '\n' :: t := by
  fun_cases skipFraction s with
  | case1 d s hd =>
    simp only [List.cons_append, skipFraction, hd, if_true,
      dropWhile_append_line (p := Char.isDigit) (by decide)]
  | case2 d s hd => simp only [List.cons_append, skipFraction, if_neg hd]
  | case3 s hs =>
    cases s with
    | nil => rfl
    | cons c s =>
      by_cases hc : c = '.'
      · subst hc
        cases s with
        | nil => rfl
        | cons d s => exact absurd rfl (hs d s)
      · rw [List.cons_append, skipFraction]
        exact fun _ _ h => hc (List.cons.inj h).1

theorem time?_append_line (s t : Text) : time? (s ++ '\n' :: t) = (time? s).map (· ++ '\n' :: t) := by
  rw [time?, number?_append_line]
  refine bind_of_map (fun p => ?_) _
  simp only [withLines, after?_append_line (w := [':']) (by decide)]
  refine bind_of_map (fun s => ?_) _
  simp only [number?_append_line]
  refine bind_of_map (fun p => ?_) _
  simp only [withLines, after?_append_line (w := [':']) (by decide)]
  refine bind_of_map (fun s => ?_) _
  simp only [number?_append_line]
  refine bind_of_map (fun p => ?_) _
  simp only [withLines, skipFraction_append_line]
  rfl

theorem hoursMinutes?_append_line (s t : Text) :
    hoursMinutes? (s ++ '\n' :: t) = (hoursMinutes? s).map (· ++ '\n' :: t) := by
  rw [hoursMinutes?, number?_append_line]
  refine bind_of_map (fun p => ?_) _
  simp only [withLines, after?_append_line (w := [':']) (by decide)]
  refine bind_of_map (fun s => ?_) _
  simp only [number?_append_line]
  refine bind_of_map (fun p => ?_) _
  rfl

theorem offset?_append_line (s t : Text) :
    offset? (s ++ '\n' :: t) = (offset? s).map (· ++ '\n' :: t) := by
  cases s with
  | nil => rfl
  | cons c s =>
    simp only [List.cons_append, offset?, hoursMinutes?_append_line]
    split
    · rfl
    · split <;> rfl

theorem timeOfDate?_append_line (s t : Text) :
    timeOfDate? (s ++ '\n' :: t) = (timeOfDate? s).map (· ++ '\n' :: t) := by
  cases s with
  | nil => rfl
  | cons c s =>
    simp only [List.cons_append, timeOfDate?, time?_append_line]
    split
    · cases time? s with
      | none => rfl
      | some r =>
        simp only [Option.map_some, offset?_append_line, Option.some.injEq]
        exact Option.getD_map (· ++ '\n' :: t) r (offset? r)
    · rfl

theorem read?_append_line (s t : Text) : read? (s ++ '\n' :: t) = (read? s).map (· ++ '\n' :: t) := by
  rw [read?, read?, date?_append_line, time?_append_line, Option.map_or]
  congr 1
  cases date? s with
  | none => rfl
  | some r =>
    simp only [Option.map_some, timeOfDate?_append_line, Option.some.injEq]
    exact Option.getD_map (· ++ '\n' :: t) r (timeOfDate? r)

end Time

end SiteProject.Toml
