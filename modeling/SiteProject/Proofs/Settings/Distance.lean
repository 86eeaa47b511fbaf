import Mathlib.Data.List.Infix
import Mathlib.Order.Bounds.Defs
import SiteProject.Settings.Suggestion

namespace SiteProject.Settings

variable {α : Type} {as bs cs : List α}

/-- One element is put in, taken out or replaced. -/
inductive Edit : List α → List α → Prop
  | insert (before after : List α) (a : α) : Edit (before ++ after) (before ++ a :: after)
  | delete (before after : List α) (a : α) : Edit (before ++ a :: after) (before ++ after)
  | substitute (before after : List α) (a b : α) : Edit (before ++ a :: after) (before ++ b :: after)

/-- So many edits, one after the other. -/
inductive Edits : Nat → List α → List α → Prop
  | nil (as : List α) : Edits 0 as as
  | cons {n : Nat} {as bs cs : List α} (h : Edit as bs) (t : Edits n bs cs) : Edits (n + 1) as cs

theorem Edit.symm (h : Edit as bs) : Edit bs as := by
  cases h with
  | insert before after a => exact .delete before after a
  | delete before after a => exact .insert before after a
  | substitute before after a b => exact .substitute before after b a

theorem Edit.behind (h : Edit as bs) (a : α) : Edit (a :: as) (a :: bs) := by
  cases h with
  | insert before after b => exact .insert (a :: before) after b
  | delete before after b => exact .delete (a :: before) after b
  | substitute before after b c => exact .substitute (a :: before) after b c

theorem Edit.reverse (h : Edit as bs) : Edit as.reverse bs.reverse := by
  cases h with
  | insert before after a => simpa using Edit.insert after.reverse before.reverse a
  | delete before after a => simpa using Edit.delete after.reverse before.reverse a
  | substitute before after a b => simpa using Edit.substitute after.reverse before.reverse a b

namespace Edits

variable {m n : Nat}

theorem behind (h : Edits n as bs) (a : α) : Edits n (a :: as) (a :: bs) := by
  induction h with
  | nil as => exact .nil (a :: as)
  | cons h _ ih => exact .cons (h.behind a) ih

theorem reverse (h : Edits n as bs) : Edits n as.reverse bs.reverse := by
  induction h with
  | nil as => exact .nil as.reverse
  | cons h _ ih => exact .cons h.reverse ih

theorem trans (h : Edits m as bs) (h' : Edits n bs cs) : Edits (m + n) as cs := by
  induction h with
  | nil => rwa [Nat.zero_add]
  | @cons m _ _ _ h _ ih =>
    rw [Nat.add_right_comm]
    exact .cons h (ih h')

theorem symm (h : Edits n as bs) : Edits n bs as := by
  induction h with
  | nil as => exact .nil as
  | cons h _ ih => exact ih.trans (.cons h.symm (.nil _))

theorem eq_of_zero (h : Edits 0 as bs) : as = bs := by
  cases h
  rfl

theorem of_nil (bs : List α) : Edits bs.length [] bs := by
  induction bs with
  | nil => exact .nil []
  | cons b bs ih => exact .cons (.insert [] [] b) (ih.behind b)

end Edits

variable [DecidableEq α]

/-- The edit distance by recursion on both lists. -/
def recursiveDistance : List α → List α → Nat
  | [], bs => bs.length
  | as, [] => as.length
  | a :: as, b :: bs =>
    min (min (recursiveDistance as (b :: bs) + 1) (recursiveDistance (a :: as) bs + 1))
      (recursiveDistance as bs + if a = b then 0 else 1)
termination_by as bs => as.length + bs.length

theorem recursiveDistance_nil_left (bs : List α) : recursiveDistance [] bs = bs.length := by
  rw [recursiveDistance]

theorem recursiveDistance_nil_right (as : List α) : recursiveDistance as [] = as.length := by
  cases as <;> simp [recursiveDistance]

theorem recursiveDistance_cons_cons (a : α) (as : List α) (b : α) (bs : List α) :
    recursiveDistance (a :: as) (b :: bs) =
      min (min (recursiveDistance as (b :: bs) + 1) (recursiveDistance (a :: as) bs + 1))
        (recursiveDistance as bs + if a = b then 0 else 1) := by
  rw [recursiveDistance]

theorem recursiveDistance_cons_cons_cases (a : α) (as : List α) (b : α) (bs : List α) :
    recursiveDistance (a :: as) (b :: bs) = recursiveDistance as (b :: bs) + 1 ∨
      recursiveDistance (a :: as) (b :: bs) = recursiveDistance (a :: as) bs + 1 ∨
        recursiveDistance (a :: as) (b :: bs) = recursiveDistance as bs + if a = b then 0 else 1 := by
  rw [recursiveDistance_cons_cons]
  omega

/-- The two lists are compared from the front on. -/
theorem edits_recursiveDistance (as bs : List α) : Edits (recursiveDistance as bs) as bs := by
  induction as generalizing bs with
  | nil =>
    rw [recursiveDistance_nil_left]
    exact .of_nil bs
  | cons a as iha =>
    induction bs with
    | nil =>
      rw [recursiveDistance_nil_right]
      exact (Edits.of_nil (a :: as)).symm
    | cons b bs ihb =>
      rcases recursiveDistance_cons_cons_cases a as b bs with h | h | h
      · rw [h]
        exact .cons (.delete [] as a) (iha (b :: bs))
      · rw [h]
        exact .cons (.insert [] (a :: as) b) (ihb.behind b)
      · rw [h]
        by_cases hab : a = b
        · rw [if_pos hab, hab]
          exact (iha bs).behind b
        · rw [if_neg hab]
          exact .cons (.substitute [] as a b) ((iha bs).behind b)

theorem recursiveDistance_cons_cons_le (a : α) (as : List α) (b : α) (bs : List α) :
    recursiveDistance (a :: as) (b :: bs) ≤ recursiveDistance as (b :: bs) + 1 ∧
      recursiveDistance (a :: as) (b :: bs) ≤ recursiveDistance (a :: as) bs + 1 ∧
        recursiveDistance (a :: as) (b :: bs) ≤ recursiveDistance as bs + if a = b then 0 else 1 := by
  rw [recursiveDistance_cons_cons]
  omega

theorem recursiveDistance_cons_le (a : α) (as bs : List α) :
    recursiveDistance (a :: as) bs ≤ recursiveDistance as bs + 1 := by
  cases bs with
  | nil => simp [recursiveDistance_nil_right]
  | cons b bs => exact (recursiveDistance_cons_cons_le a as b bs).1

theorem recursiveDistance_le_cons (as : List α) (b : α) (bs : List α) :
    recursiveDistance as (b :: bs) ≤ recursiveDistance as bs + 1 := by
  cases as with
  | nil => simp [recursiveDistance_nil_left]
  | cons a as => exact (recursiveDistance_cons_cons_le a as b bs).2.1

theorem recursiveDistance_le_of_insert (a : α) (as cs : List α) :
    recursiveDistance as cs ≤ recursiveDistance (a :: as) cs + 1 := by
  induction cs with
  | nil =>
    rw [recursiveDistance_nil_right, recursiveDistance_nil_right, List.length_cons]
    omega
  | cons c cs ih =>
    have hle := recursiveDistance_le_cons as c cs
    rcases recursiveDistance_cons_cons_cases a as c cs with h | h | h <;> omega

theorem recursiveDistance_le_of_substitute (a b : α) (as cs : List α) :
    recursiveDistance (a :: as) cs ≤ recursiveDistance (b :: as) cs + 1 := by
  induction cs with
  | nil =>
    rw [recursiveDistance_nil_right, recursiveDistance_nil_right, List.length_cons, List.length_cons]
    omega
  | cons c cs ih =>
    obtain ⟨hdelete, hinsert, hsubstitute⟩ := recursiveDistance_cons_cons_le a as c cs
    rcases recursiveDistance_cons_cons_cases b as c cs with h | h | h
    · omega
    · omega
    · split at hsubstitute <;> omega

theorem recursiveDistance_le_behind (a : α)
    (h : ∀ cs, recursiveDistance as cs ≤ recursiveDistance bs cs + 1) (cs : List α) :
    recursiveDistance (a :: as) cs ≤ recursiveDistance (a :: bs) cs + 1 := by
  induction cs with
  | nil =>
    have hlength := h []
    simp only [recursiveDistance_nil_right, List.length_cons] at hlength ⊢
    omega
  | cons c cs ih =>
    have hall := h (c :: cs)
    have hrest := h cs
    obtain ⟨hdelete, hinsert, hsubstitute⟩ := recursiveDistance_cons_cons_le a as c cs
    rcases recursiveDistance_cons_cons_cases a bs c cs with he | he | he <;> omega

/-- One edit brings a list nearer to another by one at most. -/
theorem recursiveDistance_le_of_edit (h : Edit as bs) (cs : List α) :
    recursiveDistance as cs ≤ recursiveDistance bs cs + 1 := by
  have hbehind (before : List α) {as bs : List α}
      (h : ∀ cs, recursiveDistance as cs ≤ recursiveDistance bs cs + 1) :
      ∀ cs, recursiveDistance (before ++ as) cs ≤ recursiveDistance (before ++ bs) cs + 1 := by
    induction before with
    | nil => exact h
    | cons a before ih => exact recursiveDistance_le_behind a ih
  cases h with
  | insert before after a => exact hbehind before (recursiveDistance_le_of_insert a after) cs
  | delete before after a => exact hbehind before (recursiveDistance_cons_le a after) cs
  | substitute before after a b => exact hbehind before (recursiveDistance_le_of_substitute a b after) cs

theorem recursiveDistance_self (as : List α) : recursiveDistance as as = 0 := by
  induction as with
  | nil => exact recursiveDistance_nil_left []
  | cons a as ih =>
    have h := (recursiveDistance_cons_cons_le a as a as).2.2
    rw [ih, if_pos rfl] at h
    omega

theorem recursiveDistance_le_of_edits {n : Nat} (h : Edits n as bs) : recursiveDistance as bs ≤ n := by
  induction h with
  | nil as => exact Nat.le_of_eq (recursiveDistance_self as)
  | @cons n as bs cs h _ ih =>
    have hstep := recursiveDistance_le_of_edit h cs
    omega

/-- The beginning of the row is given with what it continues, `ws`, from the last element on. -/
theorem nextCells_eq (a : α) (as ws bs : List α) :
    nextCells a (recursiveDistance (a :: as) ws) bs
        (bs.inits.map fun v => recursiveDistance as (v.reverse ++ ws)) =
      bs.inits.tail.map fun v => recursiveDistance (a :: as) (v.reverse ++ ws) := by
  induction bs generalizing ws with
  | nil => rfl
  | cons b bs ih =>
    have hinits (f : List α → Nat) : bs.inits.map f = f [] :: bs.inits.tail.map f := by
      cases bs <;> rfl
    have hrest := ih (b :: ws)
    simp only [List.inits_cons, List.map_cons, List.map_map, List.tail_cons, Function.comp_def,
      List.reverse_cons, List.reverse_nil, List.nil_append, List.append_assoc, List.cons_append]
    rw [hinits, List.reverse_nil, List.nil_append] at hrest ⊢
    rw [nextCells, ← recursiveDistance_cons_cons, hrest]
    exact (hinits fun v => recursiveDistance (a :: as) (v.reverse ++ b :: ws)).symm

theorem lastRow_append (as : List α) (a : α) (bs : List α) :
    lastRow (as ++ [a]) bs = (as.length + 1) :: nextCells a (as.length + 1) bs (lastRow as bs) := by
  simp [lastRow, List.zipIdx_append]

/-- In each cell is the distance of what the rows have gone through to one beginning of the other list. Both
are compared from the last element on, since each row and each cell adds one at the end. -/
theorem lastRow_eq (as bs : List α) :
    lastRow as bs = bs.inits.map fun v => recursiveDistance as.reverse v.reverse := by
  induction as using List.reverseRecOn with
  | nil =>
    apply List.ext_getElem
    · simp [lastRow]
    · intro n hn _
      have hlt : n < bs.length + 1 := by simpa [lastRow] using hn
      simp [lastRow, recursiveDistance_nil_left, Nat.min_eq_left (Nat.le_of_lt_succ hlt)]
  | append_singleton as a ih =>
    have hcells := nextCells_eq a as.reverse [] bs
    simp only [List.append_nil, recursiveDistance_nil_right, List.length_cons, List.length_reverse]
      at hcells
    rw [lastRow_append, ih, hcells, List.reverse_concat]
    cases bs <;> simp [recursiveDistance_nil_right]

theorem distance_eq_recursiveDistance (as bs : List α) :
    distance as bs = recursiveDistance as.reverse bs.reverse := by
  rw [distance, lastRow_eq]
  split
  · next h => rw [h, recursiveDistance_self]
  · simp [List.getD_eq_getElem?_getD]

theorem edits_distance (as bs : List α) : Edits (distance as bs) as bs := by
  have h := (edits_recursiveDistance as.reverse bs.reverse).reverse
  rwa [List.reverse_reverse, List.reverse_reverse, ← distance_eq_recursiveDistance] at h

theorem distance_le_of_edits {n : Nat} (h : Edits n as bs) : distance as bs ≤ n := by
  rw [distance_eq_recursiveDistance]
  exact recursiveDistance_le_of_edits h.reverse

/-- The distance is the least number of edits that lead from one list to the other. -/
theorem isLeast_distance (as bs : List α) : IsLeast {n | Edits n as bs} (distance as bs) :=
  ⟨edits_distance as bs, fun _ => distance_le_of_edits⟩

theorem distance_comm (as bs : List α) : distance as bs = distance bs as :=
  Nat.le_antisymm (distance_le_of_edits (edits_distance bs as).symm)
    (distance_le_of_edits (edits_distance as bs).symm)

theorem distance_eq_zero_iff : distance as bs = 0 ↔ as = bs := by
  constructor
  · intro h
    exact (h ▸ edits_distance as bs).eq_of_zero
  · rintro rfl
    exact if_pos rfl

theorem distance_triangle (as bs cs : List α) : distance as cs ≤ distance as bs + distance bs cs :=
  distance_le_of_edits ((edits_distance as bs).trans (edits_distance bs cs))

end SiteProject.Settings
