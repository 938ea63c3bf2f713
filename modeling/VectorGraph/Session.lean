/-!
A store under a sequence of requests, with one saved copy to go back to.
-/
namespace VectorGraph

structure Session (σ : Type) where
  current : σ
  saved : σ

namespace Session

variable {σ ρ α : Type}

/-- What may be asked of a session besides the requests to its store. -/
inductive Command (ρ : Type) where
  | save
  | swap
  | request (r : ρ)

/-- Before the first `save` the copy is the store as it was built. -/
def start (s : σ) : Session σ := ⟨s, s⟩

/-- Saving and swapping answer nothing. -/
def perform (answer : σ → ρ → α × σ) (s : Session σ) : Command ρ → Option α × Session σ
  | .save => (none, { s with saved := s.current })
  | .swap => (none, ⟨s.saved, s.current⟩)
  | .request r => (some (answer s.current r).1, { s with current := (answer s.current r).2 })

/-- The answers to a sequence of commands. -/
def run (answer : σ → ρ → α × σ) : Session σ → List (Command ρ) → List (Option α)
  | _, [] => []
  | s, c :: cs => (s.perform answer c).1 :: run answer (s.perform answer c).2 cs

end Session

end VectorGraph
