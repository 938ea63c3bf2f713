import VectorGraph.Session

/-! Runs of a store. What one answer preserves, a run preserves. -/
namespace VectorGraph.Session

variable {σ ρ α : Type}

def after (answer : σ → ρ → α × σ) (s : σ) : List ρ → σ
  | [] => s
  | r :: requests => after answer (answer s r).2 requests

def transcript (answer : σ → ρ → α × σ) (s : σ) : List ρ → List (ρ × α)
  | [] => []
  | r :: requests => (r, (answer s r).1) :: transcript answer (answer s r).2 requests

variable {answer : σ → ρ → α × σ}

theorem transcript_append (s : σ) (first second : List ρ) : transcript answer s (first ++ second) =
    transcript answer s first ++ transcript answer (after answer s first) second := by
  induction first generalizing s with
  | nil => rfl
  | cons r first ih => simp only [List.cons_append, transcript, after, ih]

theorem run_preserves (Invariant : List (ρ × α) → σ → Prop)
    (step : ∀ past s r, Invariant past s → Invariant (past ++ [(r, (answer s r).1)]) (answer s r).2)
    (past : List (ρ × α)) {s : σ} (initial : Invariant past s) (requests : List ρ) :
    Invariant (past ++ transcript answer s requests) (after answer s requests) := by
  induction requests generalizing past s with
  | nil => simpa [transcript, after] using initial
  | cons r requests ih =>
    have later := ih _ (step past s r initial)
    simpa [transcript, after] using later

theorem after_preserves (Invariant : σ → Prop) (step : ∀ s r, Invariant s → Invariant (answer s r).2) {s : σ}
    (initial : Invariant s) (requests : List ρ) : Invariant (after answer s requests) :=
  run_preserves (fun _ => Invariant) (fun _ => step) [] initial requests

variable {permits : σ → ρ → Prop}

def Permitted (answer : σ → ρ → α × σ) (permits : σ → ρ → Prop) (s : σ) : List ρ → Prop
  | [] => True
  | r :: requests => permits s r ∧ Permitted answer permits (answer s r).2 requests

theorem permitted_preserves (Invariant : σ → Prop)
    (step : ∀ s r, Invariant s → permits s r → Invariant (answer s r).2) {s : σ} (initial : Invariant s)
    {requests : List ρ} (permitted : Permitted answer permits s requests) :
    Invariant (after answer s requests) := by
  induction requests generalizing s with
  | nil => exact initial
  | cons r requests ih => exact ih (step s r initial permitted.1) permitted.2

/-- Two sessions whose stores stay alike answer alike, also once they go back to what they have saved. -/
theorem run_translate (Invariant : σ → Prop) (Proper : α → Prop)
    (step : ∀ s r, Invariant s → Invariant (answer s r).2) {translate : σ → σ} {change : α → α}
    (alike : ∀ s r, Invariant s → Proper (answer s r).1 →
      answer (translate s) r = (answer s r).map change translate)
    {s : Session σ} (current : Invariant s.current) (saved : Invariant s.saved) {commands : List (Command ρ)}
    (proper : ∀ a, some a ∈ run answer s commands → Proper a) :
    run answer ⟨translate s.current, translate s.saved⟩ commands =
      (run answer s commands).map (Option.map change) := by
  induction commands generalizing s with
  | nil => rfl
  | cons c commands ih =>
    have rest := fun a member => proper a (List.mem_cons_of_mem _ member)
    cases c with
    | save => exact congrArg (none :: ·) (ih (s := ⟨s.current, s.current⟩) current current rest)
    | swap => exact congrArg (none :: ·) (ih (s := ⟨s.saved, s.current⟩) saved current rest)
    | request r =>
      have same := alike s.current r current (proper _ (List.mem_cons_self ..))
      have later := ih (s := ⟨(answer s.current r).2, s.saved⟩) (step s.current r current) saved rest
      simp only [run, perform, same, List.map_cons]
      exact congrArg (_ :: ·) later

variable {ε β : Type} {refusing : σ → ρ → Except ε β × σ}

theorem ne_error_of_map {γ : Type} {r : Except ε β} {f : β → γ} {e : ε} (other : r.map f ≠ .error e) :
    r ≠ .error e := by
  rintro rfl
  exact other rfl

/-- The requests of a run that are not refused, with their answers. -/
def granted (refusing : σ → ρ → Except ε β × σ) (s : σ) (requests : List ρ) : List (ρ × Except ε β) :=
  (transcript refusing s requests).filter (·.2.isOk)

theorem granted_of_ok {s : σ} {r : ρ} {b : β} (reply : (refusing s r).1 = .ok b) (requests : List ρ) :
    granted refusing s (r :: requests) = (r, .ok b) :: granted refusing (refusing s r).2 requests := by
  simp [granted, transcript, reply, Except.isOk, Except.toBool]

theorem granted_of_error {s : σ} {r : ρ} {e : ε} (reply : (refusing s r).1 = .error e) (requests : List ρ) :
    granted refusing s (r :: requests) = granted refusing (refusing s r).2 requests := by
  simp [granted, transcript, reply, Except.isOk, Except.toBool]

/-- A refused request leaves the store as it was. All that comes later is what it would have been without
the request, so a run can do without its refused requests. -/
structure Atomic (refusing : σ → ρ → Except ε β × σ) (s : σ) : Prop where
  unchanged : ∀ r e, (refusing s r).1 = .error e → (refusing s r).2 = s
  later : ∀ r e requests, (refusing s r).1 = .error e →
    transcript refusing (refusing s r).2 requests = transcript refusing s requests
  answers : ∀ requests, transcript refusing s ((granted refusing s requests).map Prod.fst) =
    granted refusing s requests
  outcome : ∀ requests, after refusing s ((granted refusing s requests).map Prod.fst) =
    after refusing s requests

variable (Invariant : σ → Prop) (step : ∀ s r, Invariant s → Invariant (refusing s r).2)
  (unchanged : ∀ s r e, Invariant s → (refusing s r).1 = .error e → (refusing s r).2 = s)

include step unchanged

theorem granted_suffices {s : σ} (initial : Invariant s) (requests : List ρ) :
    transcript refusing s ((granted refusing s requests).map Prod.fst) = granted refusing s requests ∧
      after refusing s ((granted refusing s requests).map Prod.fst) = after refusing s requests := by
  induction requests generalizing s with
  | nil => exact ⟨rfl, rfl⟩
  | cons r requests ih =>
    have rest := ih (step s r initial)
    cases reply : (refusing s r).1 with
    | error e =>
      -- The rest of the run starts from the store that met the refused request.
      have same := unchanged s r e initial reply
      rw [granted_of_error reply, after, same]
      exact same ▸ rest
    | ok b =>
      rw [granted_of_ok reply, List.map_cons, transcript, after, after, reply, rest.1, rest.2]
      exact ⟨rfl, rfl⟩

theorem atomic_of_unchanged {s : σ} (initial : Invariant s) : Atomic refusing s where
  unchanged := fun r e => unchanged s r e initial
  later := by
    intro r e requests refused
    rw [unchanged s r e initial refused]
  answers := fun requests => (granted_suffices Invariant step unchanged initial requests).1
  outcome := fun requests => (granted_suffices Invariant step unchanged initial requests).2

end VectorGraph.Session
