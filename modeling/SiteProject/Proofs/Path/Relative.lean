import Mathlib.Data.Set.List
import SiteProject.Proofs.Path.Parent
import SiteProject.Proofs.Path.Rooted

namespace SiteProject

namespace Part

/-- The steps of the first place after those with which both places begin. -/
def unshared : List Part → List Part → List Part
  | a :: as, b :: bs => if a = b then unshared as bs else a :: as
  | as, _ => as

/-- Both places begin with the same steps, and as many of them as possible. -/
theorem exists_shared (as bs : List Part) :
    ∃ ps, as = ps ++ unshared as bs ∧ bs = ps ++ unshared bs as ∧
      ∀ a ∈ (unshared as bs).head?, ∀ b ∈ (unshared bs as).head?, a ≠ b := by
  induction as generalizing bs with
  | nil => exact ⟨[], by simp [unshared], by cases bs <;> simp [unshared], by simp [unshared]⟩
  | cons a as ih =>
    cases bs with
    | nil => exact ⟨[], by simp [unshared], by simp [unshared], by simp [unshared]⟩
    | cons b bs =>
      by_cases hab : a = b
      · subst hab
        obtain ⟨ps, ha, hb, hne⟩ := ih bs
        refine ⟨a :: ps, ?_, ?_, ?_⟩
        · simpa [unshared] using ha
        · simpa [unshared] using hb
        · simpa [unshared] using hne
      · exact ⟨[], by simp [unshared, hab], by simp [unshared, Ne.symm hab],
          by simp [unshared, hab, Ne.symm hab]⟩

/-- Up from what is not shared, and down to the target. -/
theorem between_eq {as bs : List Part} (hr : root ∉ unshared bs as) :
    between as bs = List.replicate (unshared as bs).length up ++ unshared bs as := by
  induction as generalizing bs with
  | nil => cases bs <;> simp [unshared]
  | cons a as ih =>
    cases bs with
    | nil => simp [unshared, between_nil_right]
    | cons b bs =>
      by_cases hab : a = b
      · subst hab
        simp only [unshared, if_true] at hr ⊢
        simpa [between] using ih hr
      · simp only [unshared, if_neg hab, if_neg (Ne.symm hab)] at hr ⊢
        have hb : b ≠ root := fun e => hr (by simp [e])
        rw [between_cons_of_ne hab hb, List.length_cons]

theorem between_eq_nil_iff {as bs : List Part} : between as bs = [] ↔ as = bs := by
  induction as generalizing bs with
  | nil => simp [eq_comm]
  | cons a as ih =>
    cases bs with
    | nil => simp [between_nil_right]
    | cons b bs =>
      rw [between]
      split
      · next hab => simp [hab, ih]
      · next hab => split <;> simp [hab]

/-- A target that starts at the root is reached by its own steps. -/
theorem between_root {as bs : List Part} (h : root ∉ as) : between as (root :: bs) = root :: bs := by
  cases as with
  | nil => rfl
  | cons a as =>
    have ha : a ≠ root := fun e => h (by simp [e])
    rw [between, if_neg ha, if_pos rfl]

/-- The steps before others of settled steps are settled. -/
theorem settle_of_settle_append {ps qs : List Part} (h : settle (ps ++ qs) = ps ++ qs) :
    settle ps = ps := by
  induction qs using List.reverseRecOn with
  | nil => simpa using h
  | append_singleton qs z ih =>
    rw [← List.append_assoc] at h
    exact ih (settle_of_settle_concat h)

/-- Taken from the one place, the way leads to the other if names only have to be taken back. -/
theorem settle_append_between {as bs : List Part} (hb : settle bs = bs)
    (hn : ∀ q ∈ unshared as bs, q ∈ Set.range name) (hr : root ∉ unshared bs as) :
    settle (as ++ between as bs) = bs := by
  obtain ⟨ps, has, hbs, -⟩ := exists_shared as bs
  obtain ⟨ns, hns⟩ : unshared as bs ∈ Set.range (List.map name) := by
    rw [Set.range_list_map]
    exact hn
  rw [between_eq hr, ← hns, List.length_map]
  generalize unshared bs as = down at hbs
  rw [← hns] at has
  have hps : ps.foldl push [] = ps.reverse := by
    rw [hbs] at hb
    exact List.reverse_eq_iff.1 (settle_of_settle_append hb)
  have hdown : down.foldl push ps.reverse = bs.reverse := by
    rw [hbs] at hb
    rw [← hps, ← List.foldl_append, hbs]
    exact List.reverse_eq_iff.1 hb
  have hback := foldl_push_back ns.reverse ps.reverse
  rw [List.length_reverse, List.map_reverse] at hback
  have hall : (as ++ (List.replicate ns.length up ++ down)).foldl push [] = bs.reverse := by
    rw [has, List.foldl_append, List.foldl_append, List.foldl_append, hps, foldl_push_names, hback, hdown]
  rw [settle, hall, List.reverse_reverse]

end Part

namespace Path

open SiteProject.Part (IsName IsStep Settled settle)

variable {folder target : Path}

/-- The way from the folder to the target can lead there. -/
def Reaches (folder target : Path) : Prop :=
  target.isAbsolute = true ∨ folder.isAbsolute = false ∧ target.isAbsolute = false ∧
    .up ∉ Part.unshared folder.normalize.parts target.normalize.parts

instance (folder target : Path) : Decidable (Reaches folder target) :=
  inferInstanceAs (Decidable (_ ∨ _))

theorem isStep_of_mem_settle {p : Path} (h : p.isAbsolute = false) {q : Part}
    (hq : q ∈ settle p.parts) : IsStep q := by
  have hs := settle_append_parts [] p
  rw [h, List.nil_append] at hs
  rw [hs] at hq
  exact isStep_of_mem_steps (Part.mem_of_mem_settle hq)

theorem root_notMem_settle {p : Path} (h : p.isAbsolute = false) : .root ∉ settle p.parts := by
  intro hr
  rcases isStep_of_mem_settle h hr with hr | ⟨_, -, hr⟩ <;> cases hr

/-- Between relative paths, too, the way consists of steps and leads from the one to the other. -/
theorem relative_of_relative (hf : folder.isAbsolute = false) (ht : target.isAbsolute = false)
    (hu : .up ∉ Part.unshared folder.normalize.parts target.normalize.parts) :
    ∃ qs, (∀ q ∈ qs, IsStep q ∧ (q = .up ∨ q ∈ target.parts)) ∧
      folder.relative target = ofParts qs ∧
      settle (settle folder.parts ++ qs) = settle target.parts := by
  rw [parts_normalize, parts_normalize] at hu
  obtain ⟨ps, hfolder, htarget, -⟩ := Part.exists_shared (settle folder.parts) (settle target.parts)
  have hdown : ∀ q ∈ Part.unshared (settle target.parts) (settle folder.parts),
      q ∈ settle target.parts := by
    intro q hq
    rw [htarget]
    exact List.mem_append_right ps hq
  have hroot : .root ∉ Part.unshared (settle target.parts) (settle folder.parts) :=
    fun hr => root_notMem_settle ht (hdown _ hr)
  have hnames : ∀ q ∈ Part.unshared (settle folder.parts) (settle target.parts),
      q ∈ Set.range Part.name := by
    intro q hq
    have hm : q ∈ settle folder.parts := by
      rw [hfolder]
      exact List.mem_append_right ps hq
    rcases isStep_of_mem_settle hf hm with rfl | ⟨n, -, rfl⟩
    · exact absurd hq hu
    · exact ⟨n, rfl⟩
  refine ⟨Part.between (settle folder.parts) (settle target.parts), ?_, ?_, ?_⟩
  · intro q hq
    rw [Part.between_eq hroot, List.mem_append] at hq
    rcases hq with hq | hq
    · have hq := List.eq_of_mem_replicate hq
      exact ⟨.inl hq, .inl hq⟩
    · exact ⟨isStep_of_mem_settle ht (hdown q hq), .inr (Part.mem_of_mem_settle (hdown q hq))⟩
  · rw [relative, parts_normalize, parts_normalize]
  · exact Part.settle_append_between (Part.settle_of_settled (settled_settle_parts target)) hnames hroot

/-- From a relative folder the way to an absolute place is the place itself. -/
theorem relative_of_root (hf : folder.isAbsolute = false) (ht : target.isAbsolute = true) :
    folder.relative target = target.normalize := by
  obtain ⟨ns, hns⟩ := settle_parts_of_isAbsolute ht
  rw [relative, parts_normalize, parts_normalize, hns, Part.between_root (root_notMem_settle hf), normalize,
    hns]

/-- Steps that lead to the target lead there as a path and as a declared path. -/
theorem leads_of_steps {qs : List Part} (hq : ∀ q ∈ qs, IsStep q ∧ (q = .up ∨ q ∈ target.parts))
    (hs : settle (settle folder.parts ++ qs) = settle target.parts) :
    (folder.join (ofParts qs)).normalize = target.normalize ∧
      (target.Avoids '\\' →
        (folder.join (Declared.toNative (Declared.ofNative (ofParts qs)))).normalize = target.normalize) := by
  have hsteps : ∀ q ∈ qs, IsStep q := fun q hm => (hq q hm).1
  have hleads : ∀ {p : Path}, p.isAbsolute = false → steps p.text = qs →
      (folder.join p).normalize = target.normalize := by
    intro p ha hp
    rw [normalize_join folder ha, hp, hs]
    rfl
  constructor
  · apply hleads
    · rw [ofParts_of_relative hsteps]
      exact isAbsolute_of_head? (head?_join_text hsteps)
    · rw [ofParts_of_relative hsteps]
      exact steps_join_text hsteps
  · intro hb
    have hbq : ∀ q ∈ qs, '\\' ∉ q.text := by
      intro q hm
      rcases (hq q hm).2 with rfl | hm
      · decide
      · exact hb q hm
    obtain ⟨ha, hp⟩ := Declared.toNative_ofNative hsteps hbq
    exact hleads ha hp

theorem notMem_text_normalize {c : Char} (hc : c ≠ '/') (h : target.Avoids c) :
    c ∉ target.normalize.text := by
  intro hm
  rcases mem_text_ofParts hm with hm | ⟨q, hq, hm⟩
  · exact hc hm
  · exact h q (Part.mem_of_mem_settle hq) hm

/-- An absolute path that is written with backslashes is read back. -/
theorem parts_toNative_ofNative {p : Path} (ha : p.isAbsolute = true) (hb : '\\' ∉ p.text) :
    (Declared.toNative (Declared.ofNative p)).isAbsolute = true ∧
      (Declared.toNative (Declared.ofNative p)).parts = p.parts := by
  have hne : p.isEmpty = false := by
    obtain ⟨_ | ⟨c, t⟩⟩ := p
    · simp [isAbsolute] at ha
    · rfl
  have ho : Declared.ofNative p = Text.replace '/' '\\' p.text := by
    rw [Declared.ofNative, hne]
    rfl
  have habs : (Declared.toNative (Declared.ofNative p)).isAbsolute = true := by
    rw [ho, Declared.isAbsolute_toNative]
    obtain ⟨_ | ⟨c, t⟩⟩ := p
    · simp [isAbsolute] at ha
    · have hc : c = '/' := by simpa [isAbsolute] using ha
      simp [hc, Text.replace, Declared.isSeparator]
  refine ⟨habs, ?_⟩
  rw [parts_eq, parts_eq p, habs, ha, ho, Declared.steps_toNative, Declared.split_replace hb]
  rfl

theorem isEmpty_ofParts {ps : List Part} (h : ∀ p ∈ ps, p.text ≠ []) :
    (ofParts ps).isEmpty = true ↔ ps = [] := by
  unfold ofParts
  split
  · simp [isEmpty]
  · rw [isEmpty, List.isEmpty_iff]
    constructor
    · intro hj
      by_contra hne
      exact Text.join_ne_nil (by simpa using hne) (by simpa using h) hj
    · rintro rfl
      rfl

/-- The way from a folder to a place leads there, also when it is written with backslashes and read back.
It is empty exactly where both are the same. -/
theorem relative_leads (folder target : Path) :
    (Reaches folder target →
      (folder.join (folder.relative target)).normalize = target.normalize ∧
        (target.Avoids '\\' →
          (folder.join (Declared.toNative (Declared.relative folder target))).normalize =
            target.normalize)) ∧
      ((folder.relative target).isEmpty = true ↔ folder.normalize = target.normalize) := by
  constructor
  · intro h
    have hway : (∃ qs, (∀ q ∈ qs, IsStep q ∧ (q = .up ∨ q ∈ target.parts)) ∧
        folder.relative target = ofParts qs ∧ settle (settle folder.parts ++ qs) = settle target.parts) ∨
        folder.isAbsolute = false ∧ target.isAbsolute = true := by
      rcases h with ht | ⟨hf, ht, hu⟩
      · cases hf : folder.isAbsolute with
        | true => exact .inl (relative_of_isAbsolute hf ht)
        | false => exact .inr ⟨rfl, ht⟩
      · exact .inl (relative_of_relative hf ht hu)
    rcases hway with ⟨qs, hq, hr, hs⟩ | ⟨hf, ht⟩
    · rw [Declared.relative, hr]
      exact leads_of_steps hq hs
    · -- the way is the target itself, which stands for itself wherever it is joined to
      rw [Declared.relative, relative_of_root hf ht]
      have habs := isAbsolute_normalize ht
      have hself := (rooted_normalize ht).normalize_eq
      constructor
      · rwa [join, if_pos habs]
      · intro hb
        obtain ⟨ha, hp⟩ := parts_toNative_ofNative habs (notMem_text_normalize (by decide) hb)
        rw [join, if_pos ha, normalize, hp, ← normalize, hself]
  · have htext : ∀ q ∈ Part.between folder.normalize.parts target.normalize.parts, q.text ≠ [] := by
      intro q hq
      rcases Part.mem_of_mem_between hq with rfl | hq
      · decide
      · rw [parts_normalize] at hq
        cases q with
        | name n => exact (isName_of_mem_settle hq).1
        | _ => decide
    rw [relative, isEmpty_ofParts htext, Part.between_eq_nil_iff]
    constructor
    · intro h
      rw [parts_normalize, parts_normalize] at h
      rw [normalize, h, normalize]
    · exact congrArg parts

/-- From one relative folder to another: the first step up is shared, and two names are taken back. -/
theorem sibling_is_reached :
    Reaches ⟨"../shop/./web".toList⟩ ⟨"../lib/x/../Tools".toList⟩ ∧
      (Path.mk "../shop/./web".toList).relative ⟨"../lib/x/../Tools".toList⟩ =
        ⟨"../../lib/Tools".toList⟩ ∧
      ((Path.mk "../shop/./web".toList).join
        ((Path.mk "../shop/./web".toList).relative ⟨"../lib/x/../Tools".toList⟩)).normalize =
          ⟨"../lib/Tools".toList⟩ ∧
      (Path.mk "../lib/x/../Tools".toList).Avoids '\\' ∧
      ((Path.mk "../shop/./web".toList).join (Declared.toNative
        (Declared.relative ⟨"../shop/./web".toList⟩ ⟨"../lib/x/../Tools".toList⟩))).normalize =
          ⟨"../lib/Tools".toList⟩ := by
  have h : Reaches ⟨"../shop/./web".toList⟩ ⟨"../lib/x/../Tools".toList⟩ := by decide
  have hb : (Path.mk "../lib/x/../Tools".toList).Avoids '\\' := by decide
  obtain ⟨hnative, hdeclared⟩ := (relative_leads _ _).1 h
  refine ⟨h, by decide, ?_, hb, ?_⟩
  · rw [hnative]
    decide
  · rw [hdeclared hb]
    decide

/-- The way out of a folder that starts further up than the place is not known. -/
example : ¬ Reaches ⟨"..".toList⟩ ⟨"web".toList⟩ ∧
    ((Path.mk "..".toList).join ((Path.mk "..".toList).relative ⟨"web".toList⟩)).normalize ≠
      ⟨"web".toList⟩ := by decide

end Path
end SiteProject
