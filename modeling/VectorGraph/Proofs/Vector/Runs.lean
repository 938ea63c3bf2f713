import VectorGraph.Session.Vector
import VectorGraph.Proofs.Session
import VectorGraph.Proofs.Vector.Steps

/-! Every index that requests can lead to is valid, and as wide and as large as it was made. -/
namespace VectorGraph.VectorIndex

variable {x y : VectorIndex} {q : Request} {reply : Except VectorError Reply}

/-- The index is new, but for requests that it has answered. -/
def Reachable (x : VectorIndex) : Prop :=
  ∃ dimension capacity allocator start requests,
    create dimension capacity allocator = .ok start ∧ Session.after answer start requests = x

/-- A request that may leave another index than it meets. -/
def Request.changes : Request → Bool
  | .set .. | .remove _ => true
  | _ => false

/-- What a request does to an index, with its answer. -/
inductive Effect (x : VectorIndex) : Request → Except VectorError Reply → VectorIndex → Prop where
  | stores {id : Id} {slot : Nat} {v : Vec} {y : VectorIndex} : x.Stores id slot v y →
      Effect x (.set id v) (.ok .done) y
  | removes {id : Id} {slot : Nat} {y : VectorIndex} : x.Removes id slot y → Effect x (.remove id) (.ok .done) y
  | refuses {q : Request} (e : VectorError) : Effect x q (.error e) x
  | tells {q : Request} (reply : Reply) : q.changes = false → Effect x q (.ok reply) x

theorem Effect.query (query : q.changes = false) (reply : Except VectorError Reply) : x.Effect q reply x := by
  cases reply with
  | error e => exact .refuses e
  | ok reply => exact .tells reply query

theorem answer_effect (valid : x.Valid) (q : Request) : x.Effect q (x.answer q).1 (x.answer q).2 := by
  cases q with
  | set id v =>
    rcases set_stores valid id v with ⟨e, refused⟩ | ⟨slot, y, stored, step⟩
    · simpa [answer, refused] using .refuses e
    · simpa [answer, stored] using .stores step
  | remove id =>
    rcases remove_cases valid id with ⟨_, refused⟩ | ⟨_, slot, y, removed, step⟩
    · simpa [answer, refused] using .refuses _
    · simpa [answer, removed] using .removes step
  | _ => exact .query rfl _

theorem Effect.valid (effect : x.Effect q reply y) (valid : x.Valid) : y.Valid := by
  cases effect with
  | stores step => exact step.valid valid
  | removes step => exact step.valid valid
  | refuses _ => exact valid
  | tells _ _ => exact valid

theorem answer_valid (x : VectorIndex) (q : Request) (valid : x.Valid) : (x.answer q).2.Valid :=
  (answer_effect valid q).valid valid

theorem Effect.unchanged {e : VectorError} (effect : x.Effect q (.error e) y) : y = x := by
  cases effect
  rfl

theorem Effect.shape (effect : x.Effect q reply y) : y.dimension = x.dimension ∧ y.capacity = x.capacity := by
  cases effect with
  | stores step => exact ⟨step.dimension, step.capacity⟩
  | removes step => exact ⟨step.dimension, step.capacity⟩
  | refuses _ => exact ⟨rfl, rfl⟩
  | tells _ _ => exact ⟨rfl, rfl⟩

theorem after_shape {dimension capacity : Nat} {allocator : Allocator} {start : VectorIndex}
    (created : create dimension capacity allocator = .ok start) (requests : List Request) :
    let x := Session.after answer start requests
    x.Valid ∧ x.dimension = dimension ∧ x.capacity = capacity := by
  obtain ⟨_, rfl⟩ := create_eq_ok_iff.mp created
  refine Session.after_preserves (fun x : VectorIndex => x.Valid ∧ x.dimension = dimension ∧ x.capacity = capacity)
    ?_ ?_ requests
  · rintro x q ⟨valid, dimension, capacity⟩
    have shape := (answer_effect valid q).shape
    exact ⟨answer_valid x q valid, shape.1.trans dimension, shape.2.trans capacity⟩
  · exact ⟨fresh_valid .., rfl, Array.size_replicate⟩

theorem Reachable.valid (reachable : x.Reachable) : x.Valid := by
  obtain ⟨_, _, _, _, requests, created, rfl⟩ := reachable
  exact (after_shape created requests).1

end VectorGraph.VectorIndex
