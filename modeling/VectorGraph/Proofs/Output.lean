import VectorGraph.Output

/-! A run puts out what its parts put out, one after the other, and with the log off only its lines are seen. -/
namespace VectorGraph

variable {α β ε δ : Type}

theorem mapError_eq_ok_iff {answer : Except ε α} {f : ε → δ} {a : α} : answer.mapError f = .ok a ↔ answer = .ok a := by
  rcases answer with e | b
  · exact ⟨nofun, nofun⟩
  · exact ⟨fun | rfl => rfl, fun | rfl => rfl⟩

namespace Run

variable {r : Run α} {f : α → Run β} {entries : List Entry} {a : α} {b : β}

theorem bind_of_ok (ended : r = ⟨entries, .ok a⟩) : r >>= f = ⟨entries ++ (f a).entries, (f a).result⟩ := by
  rw [ended]
  rfl

theorem bind_of_error {e : Report} (ended : r.result = .error e) : r >>= f = ⟨r.entries, .error e⟩ := by
  obtain ⟨_, _⟩ := r
  obtain rfl := ended
  rfl

theorem bind_eq_ok_iff : r >>= f = ⟨entries, .ok b⟩ ↔
    ∃ first a later, r = ⟨first, .ok a⟩ ∧ f a = ⟨later, .ok b⟩ ∧ entries = first ++ later := by
  constructor
  · intro ended
    rcases r with ⟨first, e | a⟩
    · cases ended
    · rw [bind_of_ok rfl, mk.injEq] at ended
      exact ⟨first, a, (f a).entries, rfl, by rw [← ended.2], ended.1.symm⟩
  · rintro ⟨first, a, later, rfl, next, rfl⟩
    rw [bind_of_ok rfl, next]

theorem pure_eq_ok_iff {a' : α} : (pure a : Run α) = ⟨entries, .ok a'⟩ ↔ entries = [] ∧ a = a' := by
  rw [show (pure a : Run α) = ⟨[], .ok a⟩ from rfl, mk.injEq, Except.ok.injEq, eq_comm (a := [])]

theorem call_eq_ok_iff {events : List Event} {answer : Except ε α} {f : ε → Report} :
    call events (answer.mapError f) = ⟨entries, .ok a⟩ ↔ entries = events.map .event ∧ answer = .ok a := by
  rw [call, mk.injEq, mapError_eq_ok_iff, eq_comm (b := entries)]

theorem forM_of_ok {as : List α} {f : α → Run Unit} (each : ∀ a ∈ as, ∃ entries, f a = ⟨entries, .ok ()⟩) :
    ∃ entries, as.forM f = ⟨entries, .ok ()⟩ := by
  induction as with
  | nil => exact ⟨[], rfl⟩
  | cons a as ih =>
    obtain ⟨first, now⟩ := each a List.mem_cons_self
    obtain ⟨later, rest⟩ := ih fun other member => each other (List.mem_cons_of_mem _ member)
    exact ⟨first ++ later, bind_eq_ok_iff.mpr ⟨first, (), later, now, rest, rfl⟩⟩

end Run

/-- The lines alone. -/
def printed (entries : List Entry) : List String :=
  entries.filterMap fun
    | .line text => some text
    | .event _ => none

def unlines (ls : List String) : String := .join (ls.map (· ++ "\n"))

@[simp] theorem printed_append (es fs : List Entry) : printed (es ++ fs) = printed es ++ printed fs :=
  List.filterMap_append

@[simp] theorem printed_lines (ls : List String) : printed (ls.map .line) = ls := by
  rw [printed, List.filterMap_map]
  exact List.filterMap_some

@[simp] theorem printed_events (events : List Event) : printed (events.map .event) = [] := by
  rw [printed, List.filterMap_map, List.filterMap_eq_nil_iff]
  exact fun _ _ => rfl

/-- The time does not matter to a subscriber that does not show it. -/
theorem render_of_timeless (write : Event → String) (entries : List Entry) :
    Subscriber.render (fun _ => write) entries = .join (entries.map (Entry.text write)) := by
  have same : entries.mapIdx (fun _ entry => entry.text write) = entries.map (Entry.text write) :=
    List.ext_getElem (by simp) (by simp)
  rw [Subscriber.render, same]

theorem render_off (entries : List Entry) : Subscriber.off.render entries = unlines (printed entries) := by
  refine (render_of_timeless (fun _ => "") entries).trans ?_
  induction entries with
  | nil => rfl
  | cons entry entries ih => cases entry <;> simp_all [printed, unlines, Entry.text, String.join_cons]

end VectorGraph
