import Mathlib.Data.List.Induction
import Mathlib.Data.List.TakeWhile
import SiteProject.Proofs.Text.Trim
import SiteProject.Proofs.Text.Word
import SiteProject.Solution.Properties

namespace SiteProject

namespace Text

/-- Without the carriage return at the end, if there is one. -/
def dropReturn (s : Text) : Text := if s.getLast? = some '\r' then s.dropLast else s

/-- A character that ends no line stands before what the first line is without it. -/
theorem lines_cons {c : Char} {s l : Text} {ls : List Text} (hc : c ≠ '\n')
    (hr : c = '\r' → s.head? ≠ some '\n') (hs : lines s = l :: ls) : lines (c :: s) = (c :: l) :: ls := by
  rw [lines, hs]
  · exact hc
  · rintro t rfl rfl
    exact hr rfl rfl

theorem lines_append_lf {a : Text} (ha : '\n' ∉ a) (b : Text) :
    lines (a ++ '\n' :: b) = dropReturn a :: lines b := by
  induction a with
  | nil => rfl
  | cons c a ih =>
    have hc : c ≠ '\n' := fun e => ha (by simp [e])
    have ih := ih fun h => ha (by simp [h])
    cases a with
    | nil =>
      by_cases hr : c = '\r'
      · subst hr
        rfl
      · rw [List.cons_append, lines_cons hc (fun e => absurd e hr) ih]
        simp [dropReturn, hr]
    | cons x a =>
      have hx : x ≠ '\n' := fun e => ha (by simp [e])
      have hdrop : dropReturn (c :: x :: a) = c :: dropReturn (x :: a) := by
        unfold dropReturn
        rw [List.getLast?_cons_cons]
        split <;> rfl
      rw [List.cons_append, lines_cons hc (fun _ => by simpa using hx) ih, hdrop]

/-- Lines that are written with their endings are read back. -/
theorem lines_flatMap_crlf {ls : List Text} (h : ∀ l ∈ ls, '\n' ∉ l) :
    lines (ls.flatMap (· ++ LineEnding.crlf.text)) = ls := by
  induction ls with
  | nil => rfl
  | cons l ls ih =>
    have hl : '\n' ∉ l ++ ['\r'] := by simpa using h l (by simp)
    have hline : dropReturn (l ++ ['\r']) = l := by simp [dropReturn]
    calc lines ((l :: ls).flatMap (· ++ LineEnding.crlf.text))
      _ = lines ((l ++ ['\r']) ++ '\n' :: ls.flatMap (· ++ LineEnding.crlf.text)) := by
        simp [LineEnding.text]
      _ = l :: ls := by
        rw [lines_append_lf hl, hline, ih fun k hk => h k (by simp [hk])]

end Text

namespace Solution.Properties

open Text (isBlank)

theorem isBlank_of_between {a b c : Char} (hlow : a.val ≤ c.val) (hhigh : c.val ≤ b.val)
    (h : 48 ≤ a.toNat ∧ b.toNat ≤ 122) : isBlank c = false := by
  have hac : a.toNat ≤ c.toNat := UInt32.le_iff_toNat_le.1 hlow
  have hcb : c.toNat ≤ b.toNat := UInt32.le_iff_toNat_le.1 hhigh
  simp only [isBlank, Bool.or_eq_false_iff, Bool.and_eq_false_iff, decide_eq_false_iff_not,
    beq_eq_false_iff_ne]
  omega

theorem isBlank_of_isAlphanum {c : Char} (h : c.isAlphanum = true) : isBlank c = false := by
  rcases Bool.or_eq_true_iff.1 h with hletter | hdigit
  · rcases Bool.or_eq_true_iff.1 hletter with hupper | hlower
    · obtain ⟨hlow, hhigh⟩ : 'A'.val ≤ c.val ∧ c.val ≤ 'Z'.val := of_decide_eq_true hupper
      exact isBlank_of_between hlow hhigh (by decide)
    · obtain ⟨hlow, hhigh⟩ := Bool.and_eq_true_iff.1 hlower
      exact isBlank_of_between (of_decide_eq_true hlow) (of_decide_eq_true hhigh) (by decide)
  · obtain ⟨hlow, hhigh⟩ := Bool.and_eq_true_iff.1 hdigit
    exact isBlank_of_between (of_decide_eq_true hlow) (of_decide_eq_true hhigh) (by decide)

theorem isBlank_of_isKeyChar {c : Char} (h : isKeyChar c = true) : isBlank c = false := by
  simp only [isKeyChar, Bool.or_eq_true, beq_iff_eq] at h
  rcases h with ((h | rfl) | rfl) | rfl
  · exact isBlank_of_isAlphanum h
  · decide
  · decide
  · decide

/-- A line `KEY = "VALUE"`, with blanks around its parts and no quotation mark in the value. -/
def Carries (line key value : Text) : Prop :=
  ∃ s₁ s₂ s₃ s₄ : Text, (∀ c ∈ s₁ ++ s₂ ++ s₃ ++ s₄, isBlank c = true) ∧ '"' ∉ value ∧
    line = s₁ ++ key ++ s₂ ++ '=' :: s₃ ++ '"' :: value ++ '"' :: s₄

theorem afterEquals?_append {s₁ s₂ r : Text} (h₁ : ∀ c ∈ s₁, isBlank c = true)
    (h₂ : ∀ c ∈ s₂, isBlank c = true) (hr : r.head?.any isBlank = false) :
    afterEquals? (s₁ ++ '=' :: (s₂ ++ r)) = some r := by
  have hsign : Text.after? ['='] ('=' :: (s₂ ++ r)) = some (s₂ ++ r) := Text.after?_append ['='] _
  rw [afterEquals?, Text.trimStart, Text.dropWhile_append_of_head? h₁ rfl, hsign,
    Option.map_some, Text.trimStart, Text.dropWhile_append_of_head? h₂ hr]

theorem exists_of_afterEquals? {s r : Text} (h : afterEquals? s = some r) :
    ∃ s₁ s₂ : Text, (∀ c ∈ s₁ ++ s₂, isBlank c = true) ∧ s = s₁ ++ '=' :: (s₂ ++ r) := by
  obtain ⟨t, ht, rfl⟩ := Option.map_eq_some_iff.1 h
  refine ⟨s.takeWhile isBlank, t.takeWhile isBlank, ?_, ?_⟩
  · intro c hc
    rcases List.mem_append.1 hc with hc | hc
    · exact List.mem_takeWhile_imp hc
    · exact List.mem_takeWhile_imp hc
  · calc s
      _ = s.takeWhile isBlank ++ Text.trimStart s := List.takeWhile_append_dropWhile.symm
      _ = s.takeWhile isBlank ++ '=' :: t := by rw [Text.after?_eq_some.1 ht]; rfl
      _ = s.takeWhile isBlank ++ '=' :: (t.takeWhile isBlank ++ Text.trimStart t) := by
        rw [Text.trimStart, List.takeWhile_append_dropWhile]

theorem readLine?_of_carries {line key value : Text} (hne : key ≠ [])
    (hkey : ∀ c ∈ key, isKeyChar c = true) (h : Carries line key value) :
    readLine? line = some (key, value) := by
  obtain ⟨s₁, s₂, s₃, s₄, hb, hv, hline⟩ := h
  simp only [List.mem_append] at hb
  have hline : line = s₁ ++ (key ++ (s₂ ++ '=' :: (s₃ ++ '"' :: (value ++ '"' :: s₄)))) := by
    simpa using hline
  have hstart : (key ++ (s₂ ++ '=' :: (s₃ ++ '"' :: (value ++ '"' :: s₄)))).head?.any isBlank = false := by
    obtain ⟨c, key, rfl⟩ := List.exists_cons_of_ne_nil hne
    exact isBlank_of_isKeyChar (hkey c (by simp))
  -- the key ends where it does: neither a blank nor the sign can be of it
  have hrest : (s₂ ++ '=' :: (s₃ ++ '"' :: (value ++ '"' :: s₄))).head?.any isKeyChar = false := by
    cases s₂ with
    | nil => rfl
    | cons c s₂ =>
      have hc : isBlank c = true := hb c (by simp)
      rw [Bool.eq_false_iff]
      intro hk
      rw [isBlank_of_isKeyChar hk] at hc
      cases hc
  have hsign : afterEquals? (s₂ ++ '=' :: (s₃ ++ '"' :: (value ++ '"' :: s₄))) =
      some ('"' :: (value ++ '"' :: s₄)) :=
    afterEquals?_append (fun c hc => hb c (by simp [hc])) (fun c hc => hb c (by simp [hc])) rfl
  have hquote : Text.after? ['"'] ('"' :: (value ++ '"' :: s₄)) = some (value ++ '"' :: s₄) :=
    Text.after?_append ['"'] _
  have hcut : Text.cut? ['"'] (value ++ '"' :: s₄) = some (value, s₄) := by
    simpa using Text.cut?_of_notMem (w := []) hv s₄
  have hblank : Text.trim s₄ = [] := Text.trim_of_forall fun c hc => hb c (by simp [hc])
  rw [readLine?, hline, Text.trimStart,
    Text.dropWhile_append_of_head? (fun c hc => hb c (by simp [hc])) hstart]
  dsimp only
  rw [Text.takeWhile_append_of_head? hkey hrest, Text.dropWhile_append_of_head? hkey hrest]
  refine Option.bind_eq_some_iff.2 ⟨_, hsign, ?_⟩
  refine Option.bind_eq_some_iff.2 ⟨_, hquote, ?_⟩
  refine Option.bind_eq_some_iff.2 ⟨_, hcut, ?_⟩
  simp [hne, hblank]

theorem carries_of_readLine? {line key value : Text} (h : readLine? line = some (key, value)) :
    Carries line key value := by
  obtain ⟨s, hs, h⟩ := Option.bind_eq_some_iff.1 h
  obtain ⟨t, ht, h⟩ := Option.bind_eq_some_iff.1 h
  obtain ⟨⟨v, u⟩, hv, h⟩ := Option.bind_eq_some_iff.1 h
  dsimp only at h
  split at h
  · next hc =>
    obtain ⟨rfl, rfl⟩ := Prod.mk.inj (Option.some.inj h)
    have hu : Text.trim u = [] := beq_iff_eq.1 (Bool.and_eq_true_iff.1 hc).2
    obtain ⟨s₂, s₃, hb, hline⟩ := exists_of_afterEquals? hs
    refine ⟨line.takeWhile isBlank, s₂, s₃, u, ?_, Text.notMem_of_cut? hv, ?_⟩
    · intro c hm
      rw [List.append_assoc (line.takeWhile isBlank), List.mem_append, List.mem_append] at hm
      rcases hm with (hm | hm) | hm
      · exact List.mem_takeWhile_imp hm
      · exact hb c hm
      · exact Text.all_isBlank_of_trim hu c hm
    · calc line
        _ = line.takeWhile isBlank ++ Text.trimStart line := List.takeWhile_append_dropWhile.symm
        _ = line.takeWhile isBlank ++ ((Text.trimStart line).takeWhile isKeyChar ++
            (s₂ ++ '=' :: (s₃ ++ s))) := by rw [← hline, List.takeWhile_append_dropWhile]
        _ = _ := by
          rw [Text.after?_eq_some.1 ht, Text.append_of_cut? hv]
          simp
  · cases h

/-- The keys that are read, and what they are read into. -/
def fields : List (Text × (Properties → Option Text)) :=
  [("TargetFramework".toList, targetFramework),
   ("TargetFrameworkVersion".toList, targetFrameworkVersion),
   ("Debug.AspNetCompiler.PhysicalPath".toList, debugPhysicalPath),
   ("Release.AspNetCompiler.PhysicalPath".toList, releasePhysicalPath),
   ("ProjectReferences".toList, projectReferences)]

theorem fields_keys : ∀ f ∈ fields, f.1 ≠ [] ∧ ∀ c ∈ f.1, isKeyChar c = true := by
  have h : fields.all (fun f => !f.1.isEmpty && f.1.all isKeyChar) = true := by decide +kernel
  intro f hf
  simpa using List.all_eq_true.1 h f hf

/-- The value in a line with the key. -/
def value? (key line : Text) : Option Text := ((readLine? line).filter (·.1 == key)).map Prod.snd

theorem value?_eq_some {f : Text × (Properties → Option Text)} (hf : f ∈ fields) {line value : Text} :
    value? f.1 line = some value ↔ Carries line f.1 value := by
  obtain ⟨hne, hkey⟩ := fields_keys f hf
  constructor
  · intro h
    obtain ⟨⟨key, v⟩, hp, rfl⟩ := Option.map_eq_some_iff.1 h
    obtain ⟨hr, hk⟩ := Option.filter_eq_some_iff.1 hp
    obtain rfl : key = f.1 := by simpa using hk
    exact carries_of_readLine? hr
  · intro h
    simp [value?, readLine?_of_carries hne hkey h]

theorem value?_eq_none {f : Text × (Properties → Option Text)} (hf : f ∈ fields) {line : Text} :
    value? f.1 line = none ↔ ∀ v, ¬ Carries line f.1 v := by
  rw [Option.eq_none_iff_forall_ne_some]
  exact forall_congr' fun v => not_congr (value?_eq_some hf)

/-- The value of the last of the lines with the key, if there is one. -/
inductive LastValue (key : Text) (ls : List Text) : Option Text → Prop
  | last {before after : List Text} {line value : Text} (he : ls = before ++ line :: after)
      (hc : Carries line key value) (hl : ∀ l ∈ after, ∀ v, ¬ Carries l key v) :
      LastValue key ls (some value)
  | none (hn : ∀ l ∈ ls, ∀ v, ¬ Carries l key v) : LastValue key ls none

theorem last?_filterMap (key : Text) (ls : List Text) :
    last? key (ls.filterMap readLine?) = (ls.filterMap (value? key)).getLast? := by
  have hvalues : ls.filterMap (value? key) =
      ((ls.filterMap readLine?).filter (·.1 == key)).map Prod.snd := by
    rw [List.filter_filterMap, List.map_filterMap]
    rfl
  rw [hvalues, List.getLast?_map, ← List.head?_reverse, ← List.filter_reverse, List.head?_filter]
  rfl

theorem lastValue_getLast? {f : Text × (Properties → Option Text)} (hf : f ∈ fields) (ls : List Text) :
    LastValue f.1 ls (ls.filterMap (value? f.1)).getLast? := by
  induction ls using List.reverseRecOn with
  | nil => exact .none (by simp)
  | append_singleton ls line ih =>
    cases h : value? f.1 line with
    | some v =>
      have hlast : ((ls ++ [line]).filterMap (value? f.1)).getLast? = some v := by simp [h]
      rw [hlast]
      exact .last rfl ((value?_eq_some hf).1 h) (by simp)
    | none =>
      have hline := (value?_eq_none hf).1 h
      have hsame : (ls ++ [line]).filterMap (value? f.1) = ls.filterMap (value? f.1) := by simp [h]
      rw [hsame]
      generalize (ls.filterMap (value? f.1)).getLast? = o at ih ⊢
      cases ih with
      | @last before after l v he hc hl =>
        have hls : ls ++ [line] = before ++ l :: (after ++ [line]) := by simp [he]
        refine .last hls hc ?_
        intro l hm
        rcases List.mem_append.1 hm with hm | hm
        · exact hl l hm
        · exact List.mem_singleton.1 hm ▸ hline
      | none hn =>
        refine .none fun l hm => ?_
        rcases List.mem_append.1 hm with hm | hm
        · exact hn l hm
        · exact List.mem_singleton.1 hm ▸ hline

/-- What may be done to lines: those without any of the keys come and go, and two lines with no key in
common change places. -/
inductive Rearranged : List Text → List Text → Prop
  | refl (ls : List Text) : Rearranged ls ls
  | insert {before after : List Text} {line : Text} (h : ∀ f ∈ fields, ∀ v, ¬ Carries line f.1 v) :
      Rearranged (before ++ after) (before ++ line :: after)
  | swap {before after : List Text} {l k : Text}
      (h : ∀ f ∈ fields, ∀ v w, Carries l f.1 v → ¬ Carries k f.1 w) :
      Rearranged (before ++ l :: k :: after) (before ++ k :: l :: after)
  | symm {ls ks : List Text} (h : Rearranged ls ks) : Rearranged ks ls
  | trans {ls ks js : List Text} (h₁ : Rearranged ls ks) (h₂ : Rearranged ks js) : Rearranged ls js

theorem Rearranged.filterMap_value? {f : Text × (Properties → Option Text)} (hf : f ∈ fields)
    {ls ks : List Text} (h : Rearranged ls ks) :
    ls.filterMap (value? f.1) = ks.filterMap (value? f.1) := by
  induction h with
  | refl ls => rfl
  | insert hn =>
    have hline := (value?_eq_none hf).2 (hn f hf)
    simp [hline]
  | @swap before after l k hn =>
    cases hl : value? f.1 l with
    | none => simp [List.filterMap_cons, hl]
    | some v =>
      have hk := (value?_eq_none hf).2 fun w => hn f hf v w ((value?_eq_some hf).1 hl)
      simp [List.filterMap_cons, hk]
  | symm _ ih => exact ih.symm
  | trans _ _ ih₁ ih₂ => exact ih₁.trans ih₂

theorem rearranged_insert {before after : List Text} {line : Text}
    (h : ∀ f ∈ fields, value? f.1 line = none) : Rearranged (before ++ after) (before ++ line :: after) :=
  .insert fun f hf => (value?_eq_none hf).1 (h f hf)

theorem rearranged_swap {before after : List Text} {l k : Text}
    (h : ∀ f ∈ fields, value? f.1 l = none ∨ value? f.1 k = none) :
    Rearranged (before ++ l :: k :: after) (before ++ k :: l :: after) := by
  refine .swap fun f hf v w hl hk => ?_
  rcases h f hf with h | h
  · exact (value?_eq_none hf).1 h v hl
  · exact (value?_eq_none hf).1 h w hk

end Solution.Properties
end SiteProject
