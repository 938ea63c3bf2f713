import Mathlib.Data.List.Basic
import VectorGraph.Vector.Selection

/-! A selection that is sorted afterwards is the front of the whole list sorted, however it was made. -/
namespace VectorGraph

variable {α : Type} {le : α → α → Bool} {count : Nat} {xs chosen rest : List α}

/-- A split of a list into elements that are chosen and the rest, none of which comes before a chosen one. -/
structure Selects (le : α → α → Bool) (count : Nat) (xs chosen rest : List α) : Prop where
  perm : (chosen ++ rest).Perm xs
  below : ∀ a ∈ chosen, ∀ b ∈ rest, le a b
  length : chosen.length = min count xs.length

theorem Selects.mem_chosen (split : Selects le count xs chosen rest) {a : α} (member : a ∈ chosen) : a ∈ xs :=
  split.perm.subset (List.mem_append_left _ member)

theorem Selects.mem_rest (split : Selects le count xs chosen rest) {a : α} (member : a ∈ rest) : a ∈ xs :=
  split.perm.subset (List.mem_append_right _ member)

/-- A pivot with the elements below it and those from it on. -/
theorem perm_pivot (le : α → α → Bool) (pivot : α) (xs : List α) :
    (xs.filter (fun x => !le pivot x) ++ pivot :: xs.filter (le pivot)).Perm (pivot :: xs) := by
  refine List.perm_middle.trans (.cons _ ?_)
  exact List.perm_append_comm.trans (List.filter_append_perm ..)

section

variable {pivot : α} (trans : ∀ a b c, le a b → le b c → le a c) (total : ∀ a b, le a b || le b a)
include trans total

/-- Choosing among the elements below a pivot leaves the pivot and all from it on to the rest. -/
theorem Selects.among_below (split : Selects le count (xs.filter fun x => !le pivot x) chosen rest)
    (few : count ≤ (xs.filter fun x => !le pivot x).length) :
    Selects le count (pivot :: xs) chosen (rest ++ pivot :: xs.filter (le pivot)) where
  perm := by
    rw [← List.append_assoc]
    exact (split.perm.append_right _).trans (perm_pivot le pivot xs)
  below := by
    intro a member b left
    have low : le a pivot := by
      have out := (List.mem_filter.mp (split.mem_chosen member)).2
      have either := total pivot a
      simp_all
    rcases List.mem_append.mp left with left | left
    · exact split.below a member b left
    · rcases List.mem_cons.mp left with rfl | left
      · exact low
      · exact trans _ _ _ low (List.mem_filter.mp left).2
  length := by
    have bound := List.length_filter_le (fun x => !le pivot x) xs
    rw [split.length, List.length_cons]
    omega

/-- Where the elements below a pivot are too few, they are chosen with the pivot and some from it on. -/
theorem Selects.beyond
    (split : Selects le (count - (xs.filter fun x => !le pivot x).length - 1) (xs.filter (le pivot)) chosen rest)
    (many : (xs.filter fun x => !le pivot x).length < count) :
    Selects le count (pivot :: xs) ((xs.filter fun x => !le pivot x) ++ pivot :: chosen) rest where
  perm := by
    refine .trans ?_ (perm_pivot le pivot xs)
    rw [List.append_assoc, List.cons_append]
    exact (split.perm.cons _).append_left _
  below := by
    intro a member b left
    have high : le pivot b := (List.mem_filter.mp (split.mem_rest left)).2
    rcases List.mem_append.mp member with low | member
    · have out := (List.mem_filter.mp low).2
      have either := total pivot a
      exact trans _ _ _ (by simp_all) high
    · rcases List.mem_cons.mp member with rfl | member
      · exact high
      · exact split.below a member b left
  length := by
    have halves := (perm_pivot le pivot xs).length_eq
    simp only [List.length_append, List.length_cons] at *
    rw [split.length]
    omega

theorem selectLeast_selects (count : Nat) (xs : List α) :
    ∃ rest, Selects le count xs (selectLeast le count xs) rest := by
  match xs with
  | [] => exact ⟨[], by simp [selectLeast], by simp [selectLeast], by simp [selectLeast]⟩
  | pivot :: xs =>
    rw [selectLeast]
    split
    · rename_i few
      obtain ⟨rest, split⟩ := selectLeast_selects count (xs.filter fun x => !le pivot x)
      exact ⟨_, split.among_below trans total few⟩
    · rename_i many
      obtain ⟨rest, split⟩ := selectLeast_selects (count - (xs.filter fun x => !le pivot x).length - 1)
        (xs.filter (le pivot))
      exact ⟨rest, split.beyond trans total (Nat.lt_of_not_le many)⟩
termination_by xs.length
decreasing_by all_goals exact Nat.lt_succ_of_le (List.length_filter_le ..)

/-- Only one list holds given elements in order, so sorting the two parts of a split sorts the whole. -/
theorem Selects.mergeSort_eq (antisymm : ∀ a b, le a b → le b a → a = b)
    (split : Selects le count xs chosen rest) : chosen.mergeSort le = (xs.mergeSort le).take count := by
  have whole : xs.mergeSort le = chosen.mergeSort le ++ rest.mergeSort le := by
    refine List.Perm.eq_of_pairwise (fun a b _ _ => antisymm a b) (List.pairwise_mergeSort trans total _) ?_ ?_
    · refine List.pairwise_append.mpr
        ⟨List.pairwise_mergeSort trans total _, List.pairwise_mergeSort trans total _, ?_⟩
      intro a member b left
      exact split.below a (List.mem_mergeSort.mp member) b (List.mem_mergeSort.mp left)
    · refine (List.mergeSort_perm ..).trans (split.perm.symm.trans ?_)
      exact (List.mergeSort_perm ..).symm.append (List.mergeSort_perm ..).symm
  have length : (chosen.mergeSort le).length = min count (xs.mergeSort le).length := by
    rw [List.length_mergeSort, List.length_mergeSort, split.length]
  rw [List.take_eq_take_min, ← length, whole, List.take_left']
  rfl

end

end VectorGraph
