import SiteProject.Proofs.Xml.Place
import SiteProject.Proofs.Xml.Tree

namespace SiteProject.Xml

namespace Node

def isTag : Node → Bool
  | element _ _ _ => true
  | text _ => false
  | aside => false

/-- Trees that are related at one place, and the same everywhere else. -/
inductive Within (R : Node → Node → Prop) : Node → Node → Prop
  | here {n n' : Node} (h : R n n') : Within R n n'
  | inside {c c' : Node} (name : Name) (as : List Attribute) (before after : List Node)
      (h : Within R c c') :
      Within R (element name as (before ++ c :: after)) (element name as (before ++ c' :: after))

theorem Within.mono {R R' : Node → Node → Prop} (hR : ∀ {n n'}, R n n' → R' n n') {root root' : Node}
    (h : Within R root root') : Within R' root root' := by
  induction h with
  | here h => exact .here (hR h)
  | inside name as before after _ ih => exact .inside name as before after ih

/-- It is one pair of nodes in which the trees differ. -/
theorem Within.exists_pair {R : Node → Node → Prop} {root root' : Node} (h : Within R root root') :
    ∃ n n', R n n' ∧ Within (fun m m' => m = n ∧ m' = n') root root' := by
  induction h with
  | here h => exact ⟨_, _, h, .here ⟨rfl, rfl⟩⟩
  | inside name as before after _ ih =>
    obtain ⟨n, n', hn, h⟩ := ih
    exact ⟨n, n', hn, .inside name as before after h⟩

end Node

namespace Frame

/-- The text that the element starts with so far. -/
def lead (f : Frame) : Option Text := f.close.leadText?

/-- No more character data can come to the text that the element starts with. -/
def Settled (f : Frame) : Prop := f.children ≠ [] ∧ ∀ t, f.children ≠ [.text t]

@[simp]
theorem add_name (f : Frame) (n : Node) : (f.add n).name = f.name := by
  unfold add
  split <;> rfl

@[simp]
theorem add_attributes (f : Frame) (n : Node) : (f.add n).attributes = f.attributes := by
  unfold add
  split <;> rfl

@[simp]
theorem add_scope (f : Frame) (n : Node) : (f.add n).scope = f.scope := by
  unfold add
  split <;> rfl

theorem add_cases (f : Frame) (n : Node) :
    (∃ t s cs, n = .text t ∧ f.children = .text s :: cs ∧ (f.add n).children = .text (s ++ t) :: cs) ∨
      (f.add n).children = n :: f.children := by
  unfold add
  split
  · next t s cs hcs => exact .inl ⟨t, s, cs, rfl, hcs, rfl⟩
  · exact .inr rfl

theorem filter_isTag_add (f : Frame) (n : Node) :
    (f.add n).children.filter Node.isTag = [n].filter Node.isTag ++ f.children.filter Node.isTag := by
  rcases add_cases f n with ⟨t, s, cs, rfl, hcs, hadd⟩ | hadd
  · rw [hadd, hcs]
    rfl
  · rw [hadd, ← List.filter_append]
    rfl

theorem lead_eq_some {f : Frame} {t : Text} : f.lead = some t ↔ f.children.getLast? = some (.text t) := by
  rw [lead, Node.leadText?_eq_some, close, Node.children, ← List.head?_eq_getElem?, List.head?_reverse]

/-- What comes after a settled text does not change it. -/
theorem Settled.add {f : Frame} (h : f.Settled) (n : Node) :
    (f.add n).Settled ∧ (f.add n).lead = f.lead := by
  obtain ⟨hne, htext⟩ := h
  suffices hadd : (f.add n).Settled ∧ (f.add n).children.getLast? = f.children.getLast? by
    refine ⟨hadd.1, Option.ext fun t => ?_⟩
    rw [lead_eq_some, lead_eq_some, hadd.2]
  rcases add_cases f n with ⟨t, s, cs, rfl, hcs, hadd⟩ | hadd
  · obtain ⟨c, cs, rfl⟩ : ∃ c ds, cs = c :: ds := by
      refine List.exists_cons_of_ne_nil fun hnil => ?_
      exact htext s (by rw [hcs, hnil])
    rw [Settled, hadd, hcs]
    exact ⟨⟨by simp, by simp⟩, by rw [List.getLast?_cons_cons, List.getLast?_cons_cons]⟩
  · obtain ⟨c, cs, hcs⟩ := List.exists_cons_of_ne_nil hne
    rw [Settled, hadd, hcs]
    exact ⟨⟨by simp, by simp⟩, List.getLast?_cons_cons⟩

/-- A comment settles the text before it. -/
theorem settled_add_aside (f : Frame) : (f.add .aside).Settled ∧ (f.add .aside).lead = f.lead := by
  have hadd : (f.add .aside).children = .aside :: f.children := rfl
  refine ⟨⟨by simp [hadd], by simp [hadd]⟩, Option.ext fun t => ?_⟩
  rw [lead_eq_some, lead_eq_some, hadd]
  cases f.children with
  | nil => simp
  | cons c cs => rw [List.getLast?_cons_cons]

end Frame

/-- An element without a comment and with it. When the comment came, `o` had been read: with the comment,
the element starts with the text of `o`. Without it, it does where that text was settled. In both the same
elements follow. -/
inductive Node.Interrupted (o : Frame) : Node → Node → Prop
  | intro {cs cs' : List Node} (htags : cs'.filter isTag = cs.filter isTag)
      (hlead : (element o.name o.attributes cs').leadText? = o.lead)
      (hsettled : o.Settled → (element o.name o.attributes cs).leadText? = o.lead) :
      Interrupted o (element o.name o.attributes cs) (element o.name o.attributes cs')

namespace Frame

/-- What is read of the element, without the comment and with it. -/
structure Interrupted (o f f' : Frame) : Prop where
  name : f.name = o.name ∧ f'.name = o.name
  attributes : f.attributes = o.attributes ∧ f'.attributes = o.attributes
  scope : f'.scope = f.scope
  tags : f'.children.filter Node.isTag = f.children.filter Node.isTag
  lead : f'.Settled ∧ f'.lead = o.lead
  settled : o.Settled → f.Settled ∧ f.lead = o.lead

/-- Frames that differ in the element with the comment: it is open, or one of the nodes of the frames is it or
has it inside. -/
inductive Differ (o : Frame) : Frame → Frame → Prop
  | opened {f f' : Frame} (h : Interrupted o f f') : Differ o f f'
  | closed {c c' : Node} (n : Name) (as : List Attribute) (scope : Scope) (before after : List Node)
      (h : Node.Within (Node.Interrupted o) c c') :
      Differ o ⟨n, as, scope, before ++ c :: after⟩ ⟨n, as, scope, before ++ c' :: after⟩

variable {o f f' : Frame}

theorem Interrupted.add (h : Interrupted o f f') (n : Node) : Interrupted o (f.add n) (f'.add n) where
  name := by simpa using h.name
  attributes := by simpa using h.attributes
  scope := by simpa using h.scope
  tags := by rw [filter_isTag_add, filter_isTag_add, h.tags]
  lead := by
    obtain ⟨hsettled, hlead⟩ := h.lead.1.add n
    exact ⟨hsettled, hlead.trans h.lead.2⟩
  settled ho := by
    obtain ⟨hsettled, hlead⟩ := (h.settled ho).1.add n
    exact ⟨hsettled, hlead.trans (h.settled ho).2⟩

theorem Interrupted.close (h : Interrupted o f f') : Node.Interrupted o f.close f'.close := by
  have hlead := h.lead.2
  have hsettled := fun ho => (h.settled ho).2
  rw [Frame.lead] at hlead hsettled
  rw [Frame.close, Frame.close, h.name.1, h.name.2, h.attributes.1, h.attributes.2] at *
  refine .intro ?_ hlead hsettled
  rw [List.filter_reverse, List.filter_reverse, h.tags]

theorem exists_element_of_within {c c' : Node} (h : Node.Within (Node.Interrupted o) c c') :
    ∃ n as cs cs', c = .element n as cs ∧ c' = .element n as cs' := by
  cases h with
  | inside n as before after _ => exact ⟨n, as, _, _, rfl, rfl⟩
  | here h =>
    cases h with
    | intro => exact ⟨_, _, _, _, rfl, rfl⟩

namespace Differ

theorem scope_eq (h : Differ o f f') : f'.scope = f.scope := by
  cases h with
  | opened h => exact h.scope
  | closed => rfl

theorem name_eq (h : Differ o f f') : f'.name = f.name := by
  cases h with
  | opened h => rw [h.name.1, h.name.2]
  | closed => rfl

theorem add (h : Differ o f f') (n : Node) : Differ o (f.add n) (f'.add n) := by
  cases h with
  | opened h => exact .opened (h.add n)
  | closed m as scope before after h =>
    obtain ⟨k, bs, cs, cs', rfl, rfl⟩ := exists_element_of_within h
    cases before with
    | nil => cases n <;> exact .closed m as scope [_] after h
    | cons b before =>
      cases n with
      | text t =>
        cases b with
        | text s => exact .closed m as scope (.text (s ++ t) :: before) after h
        | element => exact .closed m as scope (_ :: _ :: before) after h
        | aside => exact .closed m as scope (_ :: _ :: before) after h
      | element => exact .closed m as scope (_ :: b :: before) after h
      | aside => exact .closed m as scope (_ :: b :: before) after h

theorem close (h : Differ o f f') : Node.Within (Node.Interrupted o) f.close f'.close := by
  cases h with
  | opened h => exact .here h.close
  | closed m as scope before after h =>
    have hclose (c : Node) : Frame.close ⟨m, as, scope, before ++ c :: after⟩ =
        .element m as (after.reverse ++ c :: before.reverse) := by simp [Frame.close]
    rw [hclose, hclose]
    exact .inside m as _ _ h

end Differ

/-- Open elements of which one differs. -/
inductive DifferIn (o : Frame) : List Frame → List Frame → Prop
  | head {f f' : Frame} (h : Differ o f f') (fs : List Frame) : DifferIn o (f :: fs) (f' :: fs)
  | tail (f : Frame) {fs fs' : List Frame} (h : DifferIn o fs fs') : DifferIn o (f :: fs) (f :: fs')

end Frame

namespace Progress

open SiteProject.Xml.Frame (DifferIn)

/-- Readings of a document without the comment and with it. -/
inductive Differ (o : Frame) : Progress → Progress → Prop
  | inside {f f' : Frame} {fs fs' : List Frame} (h : DifferIn o (f :: fs) (f' :: fs')) :
      Differ o (inside f fs) (inside f' fs')
  | complete {root root' : Node} (h : Node.Within (Node.Interrupted o) root root') :
      Differ o (complete root) (complete root')

variable {o f f' : Frame} {fs fs' : List Frame}

theorem differ_finish (h : DifferIn o fs fs') (n : Node) : Differ o (finish n fs) (finish n fs') := by
  cases h with
  | head h fs => exact .inside (.head (h.add n) fs)
  | tail f h => exact .inside (.tail (f.add n) h)

theorem differ_finish_of_within {c c' : Node} (h : Node.Within (Node.Interrupted o) c c') (fs : List Frame) :
    Differ o (finish c fs) (finish c' fs) := by
  cases fs with
  | nil => exact .complete h
  | cons f fs =>
    obtain ⟨n, as, cs, cs', rfl, rfl⟩ := Frame.exists_element_of_within h
    exact .inside (.head (.closed f.name f.attributes f.scope [] f.children h) fs)

theorem differ_close (h : DifferIn o (f :: fs) (f' :: fs')) :
    f'.name = f.name ∧ Differ o (finish f.close fs) (finish f'.close fs') := by
  cases h with
  | head h => exact ⟨h.name_eq, differ_finish_of_within h.close fs⟩
  | tail f h => exact ⟨rfl, differ_finish h f.close⟩

theorem differ_add (h : DifferIn o (f :: fs) (f' :: fs')) (n : Node) :
    Differ o (inside (f.add n) fs) (inside (f'.add n) fs') := differ_finish h n

theorem differ_openTag? {name : Name} {as : List Attribute} {closed : Bool} {p : Progress}
    (h : DifferIn o (f :: fs) (f' :: fs')) (hp : openTag? (f :: fs) name as closed = some p) :
    ∃ p', openTag? (f' :: fs') name as closed = some p' ∧ Differ o p p' := by
  have hscope : f'.scope = f.scope := by
    cases h with
    | head h => exact h.scope_eq
    | tail => rfl
  simp only [openTag?, List.head?_cons, Option.map_some, Option.getD_some, Option.bind_eq_bind,
    Option.bind_eq_some_iff, Prod.exists] at hp ⊢
  obtain ⟨scope, kept, hk, hp⟩ := hp
  refine ⟨_, ⟨scope, kept, by rw [hscope, hk], rfl⟩, ?_⟩
  obtain rfl := Option.some.inj hp
  cases closed with
  | true => exact differ_finish h _
  | false => exact .inside (.tail _ h)

/-- A token is read in the same way without the comment and with it. -/
theorem differ_step? {t : Token} {p : Progress} (h : DifferIn o (f :: fs) (f' :: fs'))
    (hp : step? f fs t = some p) : ∃ p', step? f' fs' t = some p' ∧ Differ o p p' := by
  cases t with
  | opening name as closed => exact differ_openTag? h hp
  | closing name =>
    obtain ⟨hname, hclose⟩ := differ_close h
    rw [step?, Option.ite_none_right_eq_some] at hp
    obtain ⟨hn, hp⟩ := hp
    obtain rfl := Option.some.inj hp
    exact ⟨_, by rw [step?, hname, if_pos hn], hclose⟩
  | chars t =>
    obtain rfl := Option.some.inj hp
    exact ⟨_, rfl, differ_add h (.text t)⟩
  | aside =>
    obtain rfl := Option.some.inj hp
    exact ⟨_, rfl, differ_add h .aside⟩

/-- The roots differ where the readings did. -/
theorem Differ.run? {p p' : Progress} {s r : Text} {root : Node} (h : Differ o p p')
    (hr : p.run? s = some (root, r)) :
    ∃ root', p'.run? s = some (root', r) ∧ Node.Within (Node.Interrupted o) root root' := by
  fun_induction Progress.run? p s generalizing p' with
  | case1 root s =>
    obtain ⟨rfl, rfl⟩ := Prod.mk.inj (Option.some.inj hr)
    cases h with
    | complete h => exact ⟨_, by rw [Progress.run?], h⟩
  | case2 => cases hr
  | case3 => cases hr
  | case4 s f fs t r' hread p hstep ih =>
    cases h with
    | inside h =>
      obtain ⟨p', hp', hdiffer⟩ := differ_step? h hstep
      obtain ⟨root', hroot', hwithin⟩ := ih hdiffer hr
      exact ⟨root', by rw [run?_of_read? hread hp', hroot'], hwithin⟩

end Progress
end SiteProject.Xml
