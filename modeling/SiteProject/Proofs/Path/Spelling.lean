import SiteProject.Proofs.Path.Settle
import SiteProject.Proofs.Text.Cut

namespace SiteProject.Path

open SiteProject.Part (IsName IsStep Settled settle)

/-- The steps between the separators of a text. -/
def steps (t : Text) : List Part := (Text.split (· == '/') t).filterMap Part.ofSegment?

@[simp]
theorem steps_nil : steps [] = [] := rfl

theorem steps_append_slash (a b : Text) : steps (a ++ '/' :: b) = steps a ++ steps b := by
  rw [steps, Text.split_append_sep a (by simp) b, List.filterMap_append]
  rfl

theorem steps_slash (t : Text) : steps ('/' :: t) = steps t := steps_append_slash [] t

theorem isStep_of_mem_steps {t : Text} {p : Part} (h : p ∈ steps t) : IsStep p := by
  obtain ⟨w, hw, hp⟩ := List.mem_filterMap.1 h
  refine Part.isStep_of_ofSegment? (fun hc => ?_) hp
  simpa using (Text.forall_mem_split hw _ hc).2

theorem isName_of_mem_steps {t n : Text} (h : Part.name n ∈ steps t) : IsName n := by
  rcases isStep_of_mem_steps h with h | ⟨m, hm, h⟩
  · simp at h
  · rwa [Part.name.inj h]

/-- A dot in front is a part of a path that is not absolute. -/
theorem parts_eq (p : Path) :
    p.parts = (if p.isAbsolute then [Part.root]
      else if (Text.split (· == '/') p.text).head? = some ['.'] then [Part.here] else []) ++
      steps p.text := by
  obtain ⟨t⟩ := p
  by_cases ht : t.head? = some '/'
  · obtain ⟨s, rfl⟩ : ∃ s, t = '/' :: s := by
      cases t with
      | nil => simp at ht
      | cons c s => exact ⟨s, by simpa using ht⟩
    change parts ⟨'/' :: s⟩ = _ ++ steps ('/' :: s)
    rw [steps_slash]
    simp [parts, isAbsolute, steps]
  · have ha : isAbsolute ⟨t⟩ = false := by simpa [isAbsolute] using ht
    rw [ha, steps]
    unfold parts
    split
    · next h => simp_all
    · split
      · next h => simp [h, Part.ofSegment?]
      · next h =>
        have hne : (Text.split (· == '/') t).head? ≠ some ['.'] := by
          intro hd
          obtain ⟨ws, hws⟩ := List.head?_eq_some_iff.1 hd
          exact h ws hws
        simp [hne]

theorem mem_parts_of_mem_steps {p : Path} {q : Part} (h : q ∈ steps p.text) : q ∈ p.parts := by
  rw [parts_eq]
  exact List.mem_append_right _ h

theorem mem_steps_of_mem_parts {p : Path} {q : Part} (h : q ∈ p.parts) :
    q = .root ∨ q = .here ∨ q ∈ steps p.text := by
  rw [parts_eq, List.mem_append] at h
  rcases h with h | h
  · split at h
    · exact .inl (by simpa using h)
    · split at h
      · exact .inr (.inl (by simpa using h))
      · simp at h
  · exact .inr (.inr h)

theorem mem_of_mem_steps {t : Text} {q : Part} {c : Char} (hq : q ∈ steps t) (hc : c ∈ q.text) :
    c ∈ t := by
  obtain ⟨w, hw, hp⟩ := List.mem_filterMap.1 hq
  rw [Part.text_of_ofSegment? hp] at hc
  exact (Text.forall_mem_split hw c hc).1

/-- A path's parts but for a dot in front. -/
theorem filter_parts (p : Path) :
    p.parts.filter (· != .here) = (if p.isAbsolute then [Part.root] else []) ++ steps p.text := by
  have hs : (steps p.text).filter (· != .here) = steps p.text := by
    refine List.filter_eq_self.2 fun q hq => ?_
    rcases isStep_of_mem_steps hq with rfl | ⟨n, -, rfl⟩ <;> rfl
  rw [parts_eq, List.filter_append, hs]
  by_cases ha : p.isAbsolute = true
  · simp [ha]
  · by_cases hd : (Text.split (· == '/') p.text).head? = some ['.'] <;> simp [ha, hd]

theorem isName_of_mem_parts {p : Path} {n : Text} (h : Part.name n ∈ p.parts) : IsName n := by
  have hf : Part.name n ∈ p.parts.filter (· != .here) := List.mem_filter.2 ⟨h, rfl⟩
  rw [filter_parts, List.mem_append] at hf
  rcases hf with hf | hf
  · split at hf <;> simp at hf
  · exact isName_of_mem_steps hf

theorem settle_append_parts (ps : List Part) (p : Path) :
    settle (ps ++ p.parts) =
      settle (ps ++ ((if p.isAbsolute then [Part.root] else []) ++ steps p.text)) := by
  rw [← filter_parts, settle, settle, List.foldl_append, List.foldl_append, Part.foldl_push_filter]

theorem settled_settle_parts (p : Path) : Settled (settle p.parts) := by
  have hs : ∀ q ∈ steps p.text, q ≠ .root := by
    intro q hq
    rcases isStep_of_mem_steps hq with rfl | ⟨n, -, rfl⟩ <;> simp
  rw [← List.nil_append p.parts, settle_append_parts, List.nil_append]
  split
  · exact @Part.settled_foldl_push [.root] (steps p.text) (Part.settled_root []) hs
  · exact @Part.settled_foldl_push [] (steps p.text) (Part.settled_up 0 []) hs

/-- An absolute path settles to the root and names below it. -/
theorem settle_parts_of_isAbsolute {p : Path} (h : p.isAbsolute = true) :
    ∃ ns : List Text, settle p.parts = .root :: ns.map .name := by
  have hr : Part.root ∈ settle p.parts := by
    rw [← List.nil_append p.parts, settle_append_parts, h]
    exact List.mem_reverse.2 (@Part.root_mem_foldl_push [.root] (steps p.text) (by simp))
  obtain ⟨base, ns, he, rfl | ⟨k, rfl⟩⟩ := settled_settle_parts p
  · exact ⟨ns, he⟩
  · rw [he, List.mem_append] at hr
    rcases hr with hr | hr
    · exact absurd (List.eq_of_mem_replicate hr) (by simp)
    · simp at hr

theorem isName_of_mem_settle {p : Path} {n : Text} (h : Part.name n ∈ settle p.parts) : IsName n :=
  isName_of_mem_parts (Part.mem_of_mem_settle h)

theorem slash_notMem_of_mem_map {ps : List Part} (h : ∀ p ∈ ps, IsStep p) :
    ∀ w ∈ ps.map Part.text, '/' ∉ w := by
  intro w hw
  obtain ⟨p, hp, rfl⟩ := List.mem_map.1 hw
  exact (h p hp).slash_notMem_text

theorem steps_join_text {ps : List Part} (h : ∀ p ∈ ps, IsStep p) :
    steps (Text.join ['/'] (ps.map Part.text)) = ps := by
  by_cases hne : ps = []
  · subst hne
    rfl
  rw [steps, Text.split_join (by simpa using hne) (slash_notMem_of_mem_map h), List.filterMap_map]
  clear hne
  induction ps with
  | nil => rfl
  | cons p ps ih =>
    rw [List.filterMap_cons, Function.comp_apply, (h p (by simp)).ofSegment?_text]
    exact congrArg (p :: ·) (ih fun q hq => h q (by simp [hq]))

theorem isAbsolute_of_head? {t : Text} (h : t.head? ≠ some '/') : isAbsolute ⟨t⟩ = false := by
  simpa [isAbsolute] using h

theorem head?_join_text {ps : List Part} (h : ∀ p ∈ ps, IsStep p) :
    (Text.join ['/'] (ps.map Part.text)).head? ≠ some '/' := by
  cases ps with
  | nil => simp
  | cons p ps =>
    have hp := h p (by simp)
    rw [List.map_cons, Text.head?_join_cons hp.text_ne_nil]
    intro hc
    exact hp.slash_notMem_text (List.mem_of_mem_head? hc)

theorem ofParts_of_relative {ps : List Part} (h : ∀ p ∈ ps, IsStep p) :
    ofParts ps = ⟨Text.join ['/'] (ps.map Part.text)⟩ := by
  unfold ofParts
  split
  · rcases h .root (by simp) with h | ⟨n, -, h⟩ <;> simp at h
  · rfl

theorem mem_text_ofParts {ps : List Part} {c : Char} (h : c ∈ (ofParts ps).text) :
    c = '/' ∨ ∃ q ∈ ps, c ∈ q.text := by
  have hj {qs : List Part} (h : c ∈ Text.join ['/'] (qs.map Part.text)) :
      c = '/' ∨ ∃ q ∈ qs, c ∈ q.text := by
    rcases Text.mem_join h with h | ⟨w, hw, hc⟩
    · exact .inl (by simpa using h)
    · obtain ⟨q, hq, rfl⟩ := List.mem_map.1 hw
      exact .inr ⟨q, hq, hc⟩
  unfold ofParts at h
  split at h
  · rcases List.mem_cons.1 h with h | h
    · exact .inl h
    · rcases hj h with h | ⟨q, hq, hc⟩
      · exact .inl h
      · exact .inr ⟨q, by simp [hq], hc⟩
  · exact hj h

/-- Settled parts are read back from the path that spells them. -/
theorem parts_ofParts {ps : List Part} (hs : Settled ps) (hn : ∀ n, Part.name n ∈ ps → IsName n) :
    (ofParts ps).parts = ps := by
  obtain ⟨base, ns, rfl, hb⟩ := hs
  have hnames : ∀ p ∈ ns.map Part.name, IsStep p := by
    intro p hp
    obtain ⟨n, hm, rfl⟩ := List.mem_map.1 hp
    exact .inr ⟨n, hn n (by simp [hm]), rfl⟩
  rcases hb with rfl | ⟨k, rfl⟩
  · change parts ⟨'/' :: Text.join ['/'] ((ns.map Part.name).map Part.text)⟩ = _
    rw [parts_eq, steps_slash, steps_join_text hnames]
    rfl
  · have h : ∀ p ∈ List.replicate k Part.up ++ ns.map Part.name, IsStep p := by
      intro p hp
      rcases List.mem_append.1 hp with hp | hp
      · exact .inl (List.eq_of_mem_replicate hp)
      · exact hnames p hp
    generalize List.replicate k Part.up ++ ns.map Part.name = ps at h
    rw [ofParts_of_relative h, parts_eq, steps_join_text h]
    have ha := isAbsolute_of_head? (head?_join_text h)
    have hd : (Text.split (· == '/') (Text.join ['/'] (ps.map Part.text))).head? ≠ some ['.'] := by
      cases ps with
      | nil => decide
      | cons p ps =>
        rw [Text.split_join (by simp) (slash_notMem_of_mem_map h)]
        rcases h p (by simp) with rfl | ⟨n, hn, rfl⟩
        · simp [Part.text]
        · simpa [Part.text] using hn.2.2.1
    simp [ha, hd]

theorem parts_normalize (p : Path) : p.normalize.parts = settle p.parts :=
  parts_ofParts (settled_settle_parts p) fun _ hn => isName_of_mem_settle hn

theorem isAbsolute_join (p : Path) {q : Path} (hq : q.isAbsolute = false) :
    (p.join q).isAbsolute = p.isAbsolute := by
  obtain ⟨t⟩ := p
  cases t with
  | nil => simpa [join, isAbsolute, isEmpty] using hq
  | cons c s =>
    rw [join, hq]
    simp only [Bool.false_eq_true, if_false]
    split <;> rfl

theorem steps_join (p : Path) {q : Path} (hq : q.isAbsolute = false) :
    steps (p.join q).text = steps p.text ++ steps q.text := by
  rw [join, hq]
  simp only [Bool.false_eq_true, if_false]
  split
  · next h =>
    rcases List.eq_nil_or_concat p.text with hp | ⟨s, c, hp⟩
    · simp [hp]
    · have hc : c = '/' := by simpa [isEmpty, hp] using h
      have he : steps (s ++ '/' :: []) = steps s := by
        rw [steps_append_slash, steps_nil, List.append_nil]
      rw [hp, hc, List.concat_eq_append, he]
      simpa using steps_append_slash s q.text
  · exact steps_append_slash p.text q.text

theorem mem_parts_join {p q : Path} {r : Part} (h : r ∈ (p.join q).parts) :
    r = .root ∨ r = .here ∨ r ∈ p.parts ∨ r ∈ steps q.text := by
  rcases mem_steps_of_mem_parts h with h | h | hr
  · exact .inl h
  · exact .inr (.inl h)
  · by_cases ha : q.isAbsolute = true
    · rw [join, if_pos ha] at hr
      exact .inr (.inr (.inr hr))
    · rw [steps_join p (by simpa using ha), List.mem_append] at hr
      rcases hr with hr | hr
      · exact .inr (.inr (.inl (mem_parts_of_mem_steps hr)))
      · exact .inr (.inr (.inr hr))

theorem settle_parts_join (p : Path) {q : Path} (hq : q.isAbsolute = false) :
    settle (p.join q).parts = settle (settle p.parts ++ steps q.text) := by
  have hp := settle_append_parts [] p
  have hj := settle_append_parts [] (p.join q)
  rw [List.nil_append, List.nil_append] at hp hj
  have hs := settled_settle_parts p
  rw [hp] at hs
  rw [hj, hp, Part.settle_append hs, isAbsolute_join p hq, steps_join p hq, List.append_assoc]

/-- A relative path joined to a folder is settled after the folder. -/
theorem normalize_join (p : Path) {q : Path} (hq : q.isAbsolute = false) :
    (p.join q).normalize = ofParts (settle (settle p.parts ++ steps q.text)) := by
  rw [normalize, settle_parts_join p hq]

/-- What is joined counts only by where it starts and by its steps. -/
theorem normalize_join_congr (p : Path) {q r : Path} (ha : q.isAbsolute = r.isAbsolute)
    (hs : steps q.text = steps r.text) : (p.join q).normalize = (p.join r).normalize := by
  cases hr : r.isAbsolute with
  | true =>
    have hq := settle_append_parts [] q
    rw [ha, hs, ← settle_append_parts [] r, List.nil_append, List.nil_append] at hq
    rw [join, join, if_pos (ha.trans hr), if_pos hr, normalize, normalize, hq]
  | false => rw [normalize_join p (ha.trans hr), normalize_join p hr, hs]

end SiteProject.Path
