/-! The least elements of a list, chosen without sorting it. -/
namespace VectorGraph

variable {α : Type}

/-- The `count` least elements under `le`, in no particular order, by splitting at the first element. -/
def selectLeast (le : α → α → Bool) (count : Nat) : List α → List α
  | [] => []
  | pivot :: rest =>
    let below := rest.filter fun x => !le pivot x
    if count ≤ below.length then selectLeast le count below
    else below ++ pivot :: selectLeast le (count - below.length - 1) (rest.filter (le pivot))
termination_by xs => xs.length
decreasing_by
  all_goals
    simp only [List.length_unattach, List.length_cons]
    exact Nat.lt_succ_of_le (Nat.le_trans (List.length_filter_le _ _) (by simp))

end VectorGraph
