import Mathlib.Data.List.Lex
import SiteProject.Xml.Tree

namespace SiteProject

/-- The value at the first of the places where there is one. -/
inductive FirstAt {κ α : Type} (before : κ → κ → Prop) (holds : κ → α → Prop) : Option α → Prop
  | found {k : κ} {a : α} (h : holds k a) (hf : ∀ k' a', holds k' a' → ¬ before k' k) :
      FirstAt before holds (some a)
  | none (h : ∀ k a, ¬ holds k a) : FirstAt before holds none

namespace FirstAt

variable {κ ι α : Type} {before : κ → κ → Prop} {o : Option α}

theorem congr {holds holds' : κ → α → Prop} (h : FirstAt before holds o)
    (hiff : ∀ k a, holds k a ↔ holds' k a) : FirstAt before holds' o := by
  have heq : holds = holds' := by
    funext k a
    exact propext (hiff k a)
  exact heq ▸ h

theorem exists_of_eq_some {holds : κ → α → Prop} {a : α} (h : FirstAt before holds (some a)) :
    ∃ k, holds k a := by
  cases h with
  | found hk _ => exact ⟨_, hk⟩

theorem unique {holds : κ → α → Prop} {o' : Option α} (horder : ∀ k k', before k k' ∨ k = k' ∨ before k' k)
    (hone : ∀ k a a', holds k a → holds k a' → a = a') (h : FirstAt before holds o)
    (h' : FirstAt before holds o') : o = o' := by
  cases h with
  | none h =>
    cases h' with
    | none _ => rfl
    | found hk _ => exact absurd hk (h _ _)
  | @found k a hk hf =>
    cases h' with
    | none h => exact absurd hk (h _ _)
    | @found k' a' hk' hf' =>
      rcases horder k k' with hlt | rfl | hlt
      · exact absurd hlt (hf' _ _ hk)
      · rw [hone k a a' hk hk']
      · exact absurd hlt (hf _ _ hk')

/-- Places within places: the first of all is in the first that has one. -/
theorem lex {value : κ → Option α} {after : ι → ι → Prop} {holds : κ → ι → α → Prop}
    (h : FirstAt before (fun k a => value k = some a) o)
    (hin : ∀ k, FirstAt after (holds k) (value k)) :
    FirstAt (Prod.Lex before after) (fun p a => holds p.1 p.2 a) o := by
  have hsome {k : κ} {i : ι} {a : α} (hi : holds k i a) : ∃ b, value k = some b := by
    cases hv : value k with
    | some b => exact ⟨b, rfl⟩
    | none =>
      have hk := hin k
      rw [hv] at hk
      cases hk with
      | none hn => exact absurd hi (hn i a)
  cases h with
  | none h =>
    refine .none fun p a hp => ?_
    obtain ⟨b, hb⟩ := hsome hp
    exact h p.1 b hb
  | @found k a hk hf =>
    have hinner := hin k
    rw [hk] at hinner
    cases hinner with
    | @found i _ hi hfirst =>
      refine .found (k := (k, i)) hi ?_
      rintro ⟨k', i'⟩ a' hp hlt
      cases hlt with
      | left _ _ hlt =>
        obtain ⟨b, hb⟩ := hsome hp
        exact hf k' b hb hlt
      | right _ hlt => exact hfirst i' a' hp hlt

/-- The same places under other names. -/
theorem rename {after : ι → ι → Prop} {holds : κ → α → Prop} (e : ι → κ)
    (horder : ∀ i j, before (e i) (e j) → after i j) (hsource : ∀ k a, holds k a → ∃ i, e i = k)
    (h : FirstAt after (fun i a => holds (e i) a) o) : FirstAt before holds o := by
  cases h with
  | none h =>
    refine .none fun k a hk => ?_
    obtain ⟨i, rfl⟩ := hsource k a hk
    exact h i a hk
  | found hi hf =>
    refine .found hi fun k a hk hlt => ?_
    obtain ⟨i, rfl⟩ := hsource k a hk
    exact hf i a hk (horder _ _ hlt)

end FirstAt

theorem firstAt_findSome? {α β : Type} (f : α → Option β) (xs : List α) :
    FirstAt (· < ·) (fun (i : Nat) b => xs[i]?.bind f = some b) (xs.findSome? f) := by
  induction xs with
  | nil => exact .none (by simp)
  | cons x xs ih =>
    rw [List.findSome?_cons]
    cases hx : f x with
    | some b => exact .found (k := 0) (by simpa using hx) fun _ _ _ => Nat.not_lt_zero _
    | none =>
      refine ih.rename Nat.succ (fun _ _ => Nat.lt_of_succ_lt_succ) fun i b hb => ?_
      cases i with
      | zero => simp [hx] at hb
      | succ i => exact ⟨i, rfl⟩

namespace Xml.Node

/-- The node at a place. -/
def at? : List Nat → Node → Option Node
  | [], n => some n
  | i :: p, n => n.children[i]?.bind (at? p)

theorem at?_append (p q : List Nat) (n : Node) : n.at? (p ++ q) = (n.at? p).bind (at? q) := by
  induction p generalizing n with
  | nil => rfl
  | cons i p ih =>
    rw [List.cons_append, at?, at?, Option.bind_assoc]
    congr 1
    funext c
    exact ih c

theorem at?_concat (p : List Nat) (i : Nat) (n : Node) :
    n.at? (p ++ [i]) = (n.at? p).bind fun m => m.children[i]? := by
  rw [at?_append]
  congr 1
  funext m
  exact Option.bind_fun_some _

theorem leadText?_eq_some {n : Node} {u : Text} :
    n.leadText? = some u ↔ n.children[0]? = some (.text u) := by
  unfold leadText?
  split
  · simp [children]
  · next hn =>
    constructor
    · intro h
      cases h
    · intro h
      cases n with
      | element n as cs =>
        cases cs with
        | nil => simp [children] at h
        | cons c cs =>
          obtain rfl : c = .text u := by simpa [children] using h
          exact absurd rfl (hn n as u cs)
      | text t => simp [children] at h
      | aside => simp [children] at h

/-- Induction on what is below a node. -/
theorem induction_children {motive : Node → Prop}
    (h : ∀ n, (∀ c ∈ n.children, motive c) → motive n) (n : Node) : motive n := by
  refine h n fun c hc => ?_
  cases n with
  | element n as cs =>
    have hmem : c ∈ cs := hc
    have hlt := List.sizeOf_lt_of_mem hmem
    exact induction_children h c
  | text t => cases hc
  | aside => cases hc
termination_by sizeOf n

theorem descendants_eq (n : Node) : n.descendants = n :: descendantsOf n.children := by
  cases n <;> rfl

theorem findSome?_descendantsOf {α : Type} (f : Node → Option α) (cs : List Node) :
    (descendantsOf cs).findSome? f = cs.findSome? fun c => c.descendants.findSome? f := by
  induction cs with
  | nil => rfl
  | cons c cs ih =>
    rw [descendantsOf, List.findSome?_append, ih, List.findSome?_cons]
    cases c.descendants.findSome? f <;> rfl

/-- What is found first among a node and all below it is at the first place. -/
theorem firstAt_descendants {α : Type} (f : Node → Option α) (root : Node) :
    FirstAt (· < ·) (fun p a => (root.at? p).bind f = some a) (root.descendants.findSome? f) := by
  induction root using induction_children with
  | h root ih =>
    rw [descendants_eq, List.findSome?_cons]
    cases hf : f root with
    | some a => exact .found (k := []) hf fun _ _ _ => List.not_lt_nil _
    | none =>
      have hchild (i : Nat) : FirstAt (· < ·) (fun p a => (root.at? (i :: p)).bind f = some a)
          (root.children[i]?.bind fun c => c.descendants.findSome? f) := by
        cases hc : root.children[i]? with
        | none => exact .none (by simp [at?, hc])
        | some c =>
          have hfirst := ih c (List.mem_of_getElem? hc)
          simpa [at?, hc] using hfirst
      have hall := (firstAt_findSome? (fun c => c.descendants.findSome? f) root.children).lex hchild
      simp only [findSome?_descendantsOf]
      refine hall.rename (fun (p : Nat × List Nat) => p.1 :: p.2) ?_ ?_
      · rintro ⟨i, p⟩ ⟨j, q⟩ hlt
        rcases List.cons_lt_cons_iff.1 hlt with hlt | ⟨rfl, hlt⟩
        · exact .left p q hlt
        · exact .right i hlt
      · intro p a hp
        cases p with
        | nil => simp [at?, hf] at hp
        | cons i p => exact ⟨(i, p), rfl⟩

end Xml.Node
end SiteProject
