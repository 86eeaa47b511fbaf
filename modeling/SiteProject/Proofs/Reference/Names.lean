import Mathlib.Data.List.Basic
import SiteProject.Reference.Placement

namespace SiteProject

namespace Text

theorem le_antisymm {s t : Text} (h : le s t = true) (h' : le t s = true) : s = t := by
  induction s generalizing t with
  | nil =>
    cases t with
    | nil => rfl
    | cons d t => simp [le] at h'
  | cons c s ih =>
    cases t with
    | nil => simp [le] at h
    | cons d t =>
      by_cases hcd : c = d
      · subst hcd
        simp only [le, if_true] at h h'
        rw [ih h h']
      · simp only [le, if_neg hcd, if_neg (Ne.symm hcd), decide_eq_true_eq] at h h'
        omega

theorem le_trans {s t u : Text} (h : le s t = true) (h' : le t u = true) : le s u = true := by
  induction s generalizing t u with
  | nil => simp [le]
  | cons c s ih =>
    cases t with
    | nil => simp [le] at h
    | cons d t =>
      cases u with
      | nil => simp [le] at h'
      | cons e u =>
        simp only [le] at h h' ⊢
        by_cases hcd : c = d
        · subst hcd
          by_cases hce : c = e
          · subst hce
            simp only [if_true] at h h' ⊢
            exact ih h h'
          · simpa [hce] using h'
        · by_cases hde : d = e
          · subst hde
            simpa [hcd] using h
          · have hlt : c.toNat < e.toNat := by
              simp only [if_neg hcd, if_neg hde, decide_eq_true_eq] at h h'
              omega
            have hce : c ≠ e := by
              rintro rfl
              omega
            simpa [hce] using hlt

theorem le_refl (s : Text) : le s s = true := by
  induction s with
  | nil => rfl
  | cons c s ih => simpa [le] using ih

end Text

namespace Reference

namespace Hints

variable {dll hint : Text} {ps : List (Text × Text)}

theorem mem_insertInto {p : Text × Text} (h : p ∈ insertInto dll hint ps) : p = (dll, hint) ∨ p ∈ ps := by
  induction ps with
  | nil => simpa [insertInto] using h
  | cons q ps ih =>
    rw [insertInto] at h
    split at h
    · exact (List.mem_cons.1 h).imp_right (List.mem_cons_of_mem q)
    · split at h
      · exact List.mem_cons.1 h
      · rcases List.mem_cons.1 h with rfl | h
        · exact .inr List.mem_cons_self
        · exact (ih h).imp_right (List.mem_cons_of_mem q)

theorem mem_names_insertInto {name : Text} :
    name ∈ (insertInto dll hint ps).map Prod.fst ↔ name = dll ∨ name ∈ ps.map Prod.fst := by
  induction ps with
  | nil => simp [insertInto]
  | cons q ps ih =>
    rw [insertInto]
    split
    · next hq => simp [hq]
    · split
      · simp
      · rw [List.map_cons, List.mem_cons, ih, List.map_cons, List.mem_cons]
        tauto

/-- The names come in their order, each of them once. -/
def Ordered (ps : List (Text × Text)) : Prop := ps.Pairwise fun p q => Text.le q.1 p.1 = false

/-- Hints stay in the order of their names, each name once. -/
theorem ordered_insertInto (h : Ordered ps) : Ordered (insertInto dll hint ps) := by
  induction ps with
  | nil => exact List.pairwise_singleton _ _
  | cons p ps ih =>
    obtain ⟨hp, hps⟩ := List.pairwise_cons.1 h
    rw [insertInto]
    split
    · next he =>
      subst he
      exact List.pairwise_cons.2 ⟨hp, hps⟩
    · next hne =>
      split
      · next hle =>
        refine List.pairwise_cons.2 ⟨?_, h⟩
        intro q hq
        rw [Bool.eq_false_iff]
        intro hqd
        rcases List.mem_cons.1 hq with rfl | hq
        · exact hne (Text.le_antisymm hqd hle)
        · exact Bool.eq_false_iff.1 (hp q hq) (Text.le_trans hqd hle)
      · next hle =>
        refine List.pairwise_cons.2 ⟨?_, ih hps⟩
        intro q hq
        rcases mem_insertInto hq with rfl | hq
        · simpa using hle
        · exact hp q hq

theorem nodup_names_of_ordered (h : Ordered ps) : (ps.map Prod.fst).Nodup := by
  rw [List.Nodup, List.pairwise_map]
  refine h.imp fun hpq he => ?_
  rw [he, Text.le_refl] at hpq
  cases hpq

theorem mem_names_foldl {placed : List Placed} {hs : Hints} {name : Text} :
    name ∈ (placed.foldl (fun h p => h.insert p.dll p.hint) hs).pairs.map Prod.fst ↔
      name ∈ placed.map Placed.dll ∨ name ∈ hs.pairs.map Prod.fst := by
  induction placed generalizing hs with
  | nil => simp
  | cons p placed ih =>
    rw [List.foldl_cons, ih, insert, mem_names_insertInto, List.map_cons, List.mem_cons]
    tauto

theorem mem_pairs_foldl {placed : List Placed} {hs : Hints} {q : Text × Text}
    (h : q ∈ (placed.foldl (fun h p => h.insert p.dll p.hint) hs).pairs) :
    q ∈ hs.pairs ∨ ∃ p ∈ placed, q = (p.dll, p.hint) := by
  induction placed generalizing hs with
  | nil => exact .inl h
  | cons p placed ih =>
    rcases ih h with h | ⟨p', hp', he⟩
    · rcases mem_insertInto h with he | h
      · exact .inr ⟨p, List.mem_cons_self, he⟩
      · exact .inl h
    · exact .inr ⟨p', List.mem_cons_of_mem p hp', he⟩

theorem ordered_foldl {placed : List Placed} {hs : Hints} (h : Ordered hs.pairs) :
    Ordered (placed.foldl (fun h p => h.insert p.dll p.hint) hs).pairs := by
  induction placed generalizing hs with
  | nil => exact h
  | cons p placed ih => exact ih (ordered_insertInto h)

end Hints

end Reference
end SiteProject
