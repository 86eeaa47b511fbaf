import SiteProject.Proofs.Text.Word
import SiteProject.Proofs.Xml.Prolog
import SiteProject.Proofs.Xml.Within

namespace SiteProject.Xml

theorem numeric?_append {base : Nat} {p : Char → Bool} (hp : p ';' = false) {s r : Text} {c : Char}
    (h : numeric? base p s = some (c, r)) :
    s.takeWhile p ≠ [] ∧ s = s.takeWhile p ++ ';' :: r ∧
      ∀ r', numeric? base p (s.takeWhile p ++ ';' :: r') = some (c, r') := by
  unfold numeric? at h
  split at h
  · cases h
  · next hne =>
    split at h
    · next r₁ hr =>
      obtain ⟨d, hd, he⟩ := Option.map_eq_some_iff.1 h
      obtain ⟨rfl, rfl⟩ := Prod.mk.inj he
      have htake : ∀ c ∈ s.takeWhile p, p c = true := List.all_eq_true.1 List.all_takeWhile
      refine ⟨hne, by rw [← hr, List.takeWhile_append_dropWhile], fun r' => ?_⟩
      have hhead : (';' :: r').head?.any p = false := hp
      rw [numeric?, Text.takeWhile_append_of_head? htake hhead, Text.dropWhile_append_of_head? htake hhead]
      split
      · next hnil => exact absurd hnil hne
      · simp only [hd]
        rfl
    · cases h

/-- A reference is read up to its semicolon. -/
theorem reference?_append {s r : Text} {c : Char} (h : reference? s = some (c, r)) :
    ∃ x, ';' ∉ x ∧ s = x ++ ';' :: r ∧ ∀ r', reference? (x ++ ';' :: r') = some (c, r') := by
  have hdigits {p : Char → Bool} (hp : p ';' = false) (t : Text) : ';' ∉ t.takeWhile p := fun hm => by
    have htrue := List.all_eq_true.1 List.all_takeWhile _ hm
    rw [hp] at htrue
    cases htrue
  unfold reference? at h
  split at h
  · next t =>
    obtain ⟨-, ht, hx⟩ := numeric?_append (by decide) h
    refine ⟨'#' :: 'x' :: t.takeWhile isHexDigit, ?_,
      by rw [List.cons_append, List.cons_append, ← ht], hx⟩
    simp [hdigits (p := isHexDigit) (by decide) t]
  · next t hx =>
    obtain ⟨hne, ht, hread⟩ := numeric?_append (by decide) h
    refine ⟨'#' :: t.takeWhile Char.isDigit, ?_, by rw [List.cons_append, ← ht], fun r' => ?_⟩
    · simp [hdigits (p := Char.isDigit) (by decide) t]
    · obtain ⟨d, u, hd⟩ := List.exists_cons_of_ne_nil hne
      have hdigit : d.isDigit = true := List.all_eq_true.1 List.all_takeWhile d (by rw [hd]; simp)
      have hread := hread r'
      rw [hd] at hread ⊢
      unfold reference?
      split
      · next he =>
        obtain rfl : d = 'x' := (List.cons.inj (List.cons.inj he).2).1
        exact absurd hdigit (by decide)
      · next he =>
        obtain rfl := (List.cons.inj he).2
        exact hread
      · next he => exact absurd rfl (he _)
  · obtain ⟨p, hp, hr⟩ := List.exists_of_findSome?_eq_some h
    obtain ⟨r', hr', he⟩ := Option.map_eq_some_iff.1 hr
    obtain ⟨rfl, rfl⟩ := Prod.mk.inj he
    have hend : ∀ p ∈ namedReferences, ';' ∉ p.1.dropLast ∧ p.1 = p.1.dropLast ++ [';'] := by decide
    obtain ⟨hmem, hlast⟩ := hend p hp
    have hsplit (u : Text) : p.1.dropLast ++ ';' :: u = p.1 ++ u := by
      rw [hlast]
      simp
    refine ⟨p.1.dropLast, hmem, by rw [hsplit, Text.after?_eq_some.1 hr'], fun u => ?_⟩
    rw [hsplit]
    exact reference?_named hp u

/-- A reference that starts in the text ends in it. -/
def Whole (w : Text) : Prop := ∀ p q, w = p ++ '&' :: q → ';' ∈ q

theorem Whole.of_append {w v : Text} (h : Whole (w ++ v)) : Whole v := fun p q hq =>
  h (w ++ p) q (by rw [hq, List.append_assoc])

/-- Where no reference is cut apart, both parts of character data are character data. -/
theorem isSome_written?_append {w v : Text} (hw : Whole w) (h : (written? (w ++ v)).isSome = true) :
    (written? w).isSome = true ∧ (written? v).isSome = true := by
  induction hn : w.length using Nat.strong_induction_on generalizing w with
  | h n ih =>
    cases w with
    | nil => exact ⟨by rw [written?]; rfl, h⟩
    | cons c w =>
      by_cases hc : c = '&'
      · subst hc
        obtain ⟨ws, hws⟩ := Option.isSome_iff_exists.1 h
        rw [List.cons_append, written?, if_pos rfl] at hws
        split at hws
        · cases hws
        · next d r hr =>
          obtain ⟨us, hus, -⟩ := Option.map_eq_some_iff.1 hws
          obtain ⟨x, hx, hsplit, hread⟩ := reference?_append hr
          -- the reference ends at the first semicolon, which is in `w`
          obtain ⟨y, z, rfl, hy⟩ := List.eq_append_cons_of_mem (hw [] w rfl)
          rw [List.append_assoc, List.cons_append] at hsplit
          obtain ⟨rfl, rfl⟩ := Text.append_cons_inj hy hx hsplit
          have hwhole : Whole z := Whole.of_append (w := '&' :: (y ++ [';'])) (by simpa using hw)
          have hlength : z.length < n := by
            rw [← hn]
            simp
            omega
          obtain ⟨hz, hv⟩ := ih _ hlength hwhole (Option.isSome_iff_exists.2 ⟨us, hus⟩) rfl
          rw [written?_ampersand (hread z), Option.isSome_map]
          exact ⟨hz, hv⟩
      · have hwhole : Whole w := Whole.of_append (w := [c]) hw
        rw [List.cons_append, written?_cons_of_ne hc, Option.isSome_map] at h
        rw [written?_cons_of_ne hc, Option.isSome_map]
        exact ih w.length (by simp [← hn]) hwhole h rfl

namespace Token

/-- Character data that is read at once is read in two parts where markup comes between them. -/
theorem read?_append {w b r : Text} {t : Token} (hne : w ≠ []) (hplain : '<' ∉ w) (hw : Whole w)
    (h : read? (w ++ b) = some (t, r)) :
    (∃ u, t = chars u) ∧ (∀ v, read? (w ++ '<' :: v) = some (chars (decode w), '<' :: v)) ∧
      (b = r ∨ ∃ u, read? b = some (chars u, r)) := by
  obtain ⟨c, w', rfl⟩ := List.exists_cons_of_ne_nil hne
  have hclass : ∀ d ∈ c :: w', (d != '<') = true := by
    intro d hd
    have hne : d ≠ '<' := fun e => hplain (e ▸ hd)
    simpa using hne
  have hc : c ≠ '<' := by simpa using hclass c (by simp)
  rw [List.cons_append, read?, if_neg hc, ← List.cons_append] at h
  obtain ⟨⟨u, r'⟩, hu, he⟩ := Option.map_eq_some_iff.1 h
  obtain ⟨rfl, rfl⟩ := Prod.mk.inj he
  simp only [chars?, Option.ite_none_right_eq_some, Option.map_eq_some_iff, Prod.mk.injEq,
    Bool.and_eq_true] at hu
  rw [List.takeWhile_append_of_pos hclass, List.dropWhile_append_of_pos hclass, List.all_append,
    Bool.and_eq_true] at hu
  obtain ⟨⟨⟨hall, hall'⟩, hend⟩, ws, hws, rfl, rfl⟩ := hu
  have hpart {v : Text} (hv : v <:+: (c :: w') ++ b.takeWhile (· != '<')) : ¬ [']', ']', '>'] <:+: v :=
    fun hin => absurd (Text.contains_iff.2 (hin.trans hv)) (by simpa using hend)
  obtain ⟨hleft, hright⟩ := isSome_written?_append hw (Option.isSome_iff_exists.2 ⟨ws, hws⟩)
  refine ⟨⟨_, rfl⟩, fun v => ?_, ?_⟩
  · exact read?_decode hne hplain rfl hall (hpart (List.prefix_append _ _).isInfix) hleft
  · have hb : b.takeWhile (· != '<') ++ b.dropWhile (· != '<') = b := List.takeWhile_append_dropWhile
    by_cases hv : b.takeWhile (· != '<') = []
    · exact .inl (by rw [hv, List.nil_append] at hb; exact hb.symm)
    · have hplain' : '<' ∉ b.takeWhile (· != '<') := fun hm => by
        simpa using List.all_eq_true.1 List.all_takeWhile _ hm
      have hread := read?_decode hv hplain' (Text.head?_dropWhile_any b) hall'
        (hpart (List.suffix_append _ _).isInfix) hright
      rw [hb] at hread
      exact .inr ⟨_, hread⟩

/-- What may stand in a comment. -/
structure CommentFormed (c : Text) : Prop where
  allowed : c.all isAllowed = true
  dashes : ¬ ['-', '-'] <:+: c
  last : c.getLast? ≠ some '-'

def commentText (c : Text) : Text := ['<', '!', '-', '-'] ++ c ++ ['-', '-', '>']

theorem read?_commentText {c : Text} (h : CommentFormed c) (r : Text) :
    read? (commentText c ++ r) = some (aside, r) := by
  have hend : Text.contains ['-', '-', '>'] c = false := by
    refine Bool.eq_false_iff.2 fun hc => h.dashes ?_
    have hprefix : (['-', '-'] : Text) <:+: ['-', '-', '>'] := ⟨[], ['>'], rfl⟩
    exact hprefix.trans (Text.contains_iff.1 hc)
  have hdashes : Text.contains ['-', '-'] c = false :=
    Bool.eq_false_iff.2 fun hc => h.dashes (Text.contains_iff.1 hc)
  have hread : read? (commentText c ++ r) = (comment? (c ++ ['-', '-', '>'] ++ r)).map (aside, ·) := by
    simp only [commentText, List.append_assoc]
    rfl
  rw [hread, comment?, Text.cut?_of_unbordered (by decide) (by decide) hend]
  simp only [Option.bind_eq_bind, Option.bind_some, h.allowed, hdashes, bne_iff_ne.2 h.last]
  rfl

end Token

namespace Progress

/-- Tokens are read one after another. -/
inductive Advances : Progress → Text → Progress → Text → Prop
  | refl (p : Progress) (s : Text) : Advances p s p s
  | step {frame : Frame} {outer : List Frame} {s r s' : Text} {t : Token} {p p' : Progress}
      (hread : Token.read? s = some (t, r)) (hstep : step? frame outer t = some p)
      (h : Advances p r p' s') : Advances (inside frame outer) s p' s'

namespace Advances

variable {p p' : Progress} {s s' : Text}

theorem run?_eq (h : Advances p s p' s') : p.run? s = p'.run? s' := by
  induction h with
  | refl => rfl
  | step hread hstep _ ih => rw [run?_of_read? hread hstep, ih]

/-- What has been read is read again before another rest, where this begins in the same way or with other
markup. -/
theorem local_rest (h : Advances p s p' s') :
    ∃ x, s = x ++ s' ∧
      ∀ r, r.head? = s'.head? ∨ r.head? = some '<' → Advances p (x ++ r) p' r := by
  induction h with
  | refl p s => exact ⟨[], rfl, fun r _ => refl p r⟩
  | @step frame outer s r s' t p p' hread hstep _ ih =>
    obtain ⟨y, rfl, hy⟩ := ih
    obtain ⟨x, -, rfl, hx⟩ := Token.local_read? hread
    refine ⟨x ++ y, by rw [List.append_assoc], fun u hu => ?_⟩
    rw [List.append_assoc]
    refine step (hx (y ++ u) ?_) hstep (hy u hu)
    cases y with
    | nil => exact hu
    | cons c y => exact .inl rfl

end Advances
end Progress

namespace Frame

/-- The frame when character data has been read. -/
def read (f : Frame) (w : Text) : Frame := if w = [] then f else f.add (.text (Token.decode w))

theorem settled_of_read {f : Frame} {w : Text} (h : (f.read w).Settled) :
    f.Settled ∧ f.lead = (f.read w).lead := by
  unfold read at h ⊢
  split
  · next hw =>
    rw [if_pos hw] at h
    exact ⟨h, rfl⟩
  · next hw =>
    rw [if_neg hw] at h
    have hf : f.Settled := by
      refine ⟨fun hnil => ?_, fun t ht => ?_⟩
      · exact h.2 (Token.decode w) (by simp [add, hnil])
      · exact h.2 (t ++ Token.decode w) (by simp [add, ht])
    exact ⟨hf, (hf.add _).2.symm⟩

/-- A comment is read after the character data before it, and character data may follow. Without the comment,
all the character data is read as one. -/
theorem interrupted_aside (f : Frame) (w : Text) :
    Interrupted (f.read w) (f.read w) ((f.read w).add .aside) where
  name := by simp
  attributes := by simp
  scope := by simp
  tags := filter_isTag_add _ _
  lead := settled_add_aside _
  settled h := ⟨h, rfl⟩

theorem interrupted_text (f : Frame) {w : Text} (hw : w ≠ []) (t : Text) :
    Interrupted (f.read w) (f.add (.text t)) ((f.read w).add .aside) where
  name := by simp [read, hw]
  attributes := by simp [read, hw]
  scope := by simp [read, hw]
  tags := by simp [read, hw, filter_isTag_add, Node.isTag]
  lead := settled_add_aside _
  settled h := by
    obtain ⟨hf, hlead⟩ := settled_of_read h
    obtain ⟨hsettled, hadd⟩ := hf.add (.text t)
    exact ⟨hsettled, hadd.trans hlead⟩

theorem Interrupted.add_text {o f f' : Frame} (h : Interrupted o f f') (t : Text) :
    Interrupted o f (f'.add (.text t)) where
  name := by simpa using h.name
  attributes := by simpa using h.attributes
  scope := by simpa using h.scope
  tags := by rw [filter_isTag_add, h.tags]; rfl
  lead := by
    obtain ⟨hsettled, hlead⟩ := h.lead.1.add (.text t)
    exact ⟨hsettled, hlead.trans h.lead.2⟩
  settled := h.settled

end Frame

/-- The rest `b` of a document is in the content of an element of which `o` has been read: after the last
token there may be some character data, in which no reference is cut apart. -/
inductive InContent (s b : Text) : Frame → Prop
  | intro {p : Progress} {t w : Text} {frame : Frame} {outer : List Frame} (hstart : start? s = some (p, t))
      (hreads : p.Advances t (.inside frame outer) (w ++ b)) (hplain : '<' ∉ w) (hwhole : Whole w) :
      InContent s b (frame.read w)

/-- Reading goes on after a comment as it does without it. -/
theorem Progress.run?_commentText {f : Frame} {outer : List Frame} {w b c r : Text} {root : Node}
    (hplain : '<' ∉ w) (hwhole : Whole w) (hc : Token.CommentFormed c)
    (h : run? (inside f outer) (w ++ b) = some (root, r)) :
    ∃ root', run? (inside f outer) (w ++ (Token.commentText c ++ b)) = some (root', r) ∧
      Node.Within (Node.Interrupted (f.read w)) root root' := by
  have haside (g : Frame) : run? (inside g outer) (Token.commentText c ++ b) =
      run? (inside (g.add .aside) outer) b := run?_of_read? (Token.read?_commentText hc b) rfl
  have hdiffer {g g' : Frame} {u : Text} (hg : Frame.Interrupted (f.read w) g g')
      (h : run? (inside g outer) u = some (root, r)) :=
    Differ.run? (.inside (.head (.opened hg) outer)) h
  by_cases hw : w = []
  · subst hw
    rw [List.nil_append, haside]
    exact hdiffer (Frame.interrupted_aside f []) h
  · obtain ⟨t, u, hread⟩ : ∃ t u, Token.read? (w ++ b) = some (t, u) := by
      rw [run?] at h
      split at h
      · cases h
      · next t u hread => exact ⟨t, u, hread⟩
    obtain ⟨⟨t, rfl⟩, hfirst, hrest⟩ := Token.read?_append hw hplain hwhole hread
    have hchars : step? f outer (.chars t) = some (inside (f.add (.text t)) outer) := rfl
    rw [run?_of_read? hread hchars] at h
    have hcomment : Token.commentText c ++ b = '<' :: (['!', '-', '-'] ++ c ++ ['-', '-', '>'] ++ b) := rfl
    have hfirst : run? (inside f outer) (w ++ (Token.commentText c ++ b)) =
        run? (inside (f.read w) outer) (Token.commentText c ++ b) := by
      rw [hcomment, Frame.read, if_neg hw]
      exact run?_of_read? (hfirst _) rfl
    have htext := Frame.interrupted_text f hw t
    rw [hfirst, haside]
    rcases hrest with rfl | ⟨v, hv⟩
    · exact hdiffer htext h
    · have hafter : step? ((f.read w).add .aside) outer (.chars v) =
          some (inside (((f.read w).add .aside).add (.text v)) outer) := rfl
      rw [run?_of_read? hv hafter]
      exact hdiffer (htext.add_text v) h

/-- A document in which a comment is put into the content of an element is read as before, but for the text
that the element starts with. -/
theorem parse?_commentText {s b c : Text} {o : Frame} {root : Node} (h : parse? s = some root)
    (hplace : InContent s b o) (hc : Token.CommentFormed c) :
    ∃ x root', x ≠ [] ∧ s = x ++ b ∧ parse? (x ++ (Token.commentText c ++ b)) = some root' ∧
      Node.Within (Node.Interrupted o) root root' := by
  cases hplace with
  | @intro p t w frame outer hstart hreads hplain hwhole =>
    rw [parse?_eq, hstart] at h
    simp only [Option.bind_some, Option.bind_eq_some_iff, Prod.exists] at h
    obtain ⟨root₁, r, hrun, s', hs', h⟩ := h
    rw [Option.ite_none_right_eq_some] at h
    obtain ⟨hempty, rfl⟩ : s'.isEmpty = true ∧ root₁ = root := by simpa using h
    rw [hreads.run?_eq] at hrun
    obtain ⟨root', hrun', hwithin⟩ := Progress.run?_commentText hplain hwhole hc hrun
    obtain ⟨x, hne, rfl, hx⟩ := stops_start? hstart
    obtain ⟨y, rfl, hy⟩ := hreads.local_rest
    have hhead : (w ++ (Token.commentText c ++ b)).head? = (w ++ b).head? ∨
        (w ++ (Token.commentText c ++ b)).head? = some '<' := by
      cases w with
      | nil => exact .inr rfl
      | cons d w => exact .inl rfl
    have hstart' := hx (y ++ (w ++ (Token.commentText c ++ b)))
    refine ⟨x ++ (y ++ w), root', by simp [hne], by simp only [List.append_assoc], ?_, hwithin⟩
    simp only [List.append_assoc]
    rw [parse?_eq, hstart', Option.bind_some, (hy _ hhead).run?_eq, hrun', Option.bind_some, hs',
      Option.bind_some, if_pos hempty]

end SiteProject.Xml
