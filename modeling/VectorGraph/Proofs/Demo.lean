import VectorGraph.Proofs.Demo.Building

/-! The demonstration finds out of a configuration only whether there is room, and prints the capacities of the graph.
Its log goes to where it prints, and tells more: the capacity of the index, the file that was read, and a dimension that
is not used. -/
namespace VectorGraph.Demo

variable {s : HybridStore} {c : Config} {allocator : Allocator} {d : Directory} {entries : List Entry}

theorem showSimilar_of_stored (valid : s.Valid) {entry : String × NodeId} (stored : s.vectors.contains entry.2.id) :
    ∃ entries, showSimilar d s entry.1 entry.2 = ⟨entries, .ok ()⟩ := by
  rcases HybridStore.similarNodes_cases valid entry.2 count with ⟨missing, _⟩ | ⟨_, hits, found, _⟩
  · simp [stored] at missing
  · exact ⟨_, by simp only [showSimilar, found]; rfl⟩

theorem showSimilar_resize (valid : s.Valid) : showSimilar d (s.resize c) = showSimilar d s := by
  unfold showSimilar
  rw [HybridStore.similarNodes_resize valid]

/-- The block of statistics, line by line. -/
def block (s : Statistics) : List String := [
  "\x7b",
  "  \"node_count\": " ++ toString s.nodeCount ++ ",",
  "  \"edge_count\": " ++ toString s.edgeCount ++ ",",
  "  \"property_count\": " ++ toString s.propertyCount ++ ",",
  "  \"node_capacity\": " ++ toString s.nodeCapacity ++ ",",
  "  \"edge_capacity\": " ++ toString s.edgeCapacity ++ ",",
  "  \"property_capacity\": " ++ toString s.propertyCapacity,
  "\x7d"]

theorem writeInteger_toNat (n : UInt64) : Json.writeInteger n.toNat = (toString n).toList := by
  have positive : ¬ (n.toNat : Int) < 0 := by omega
  have digits : toString n = .ofList (Nat.toDigits 10 n.toNat) := rfl
  simp [Json.writeInteger, signed, positive, digits]

theorem pretty_statistics (s : Statistics) :
    .ofList ((Statistics.form.toJson s).pretty 0) = "\n".intercalate (block s) := by
  have keys : ∀ name ∈ Statistics.form.fields.map (·.name), Json.writeString name = '"' :: name.toList ++ ['"'] := by
    decide
  simp only [Statistics.form, Json.Field.size, List.map_cons, List.map_nil, List.forall_mem_cons] at keys
  rw [← String.toList_inj]
  simp [Statistics.form, Json.Form.toJson, Json.Field.size, Json.pretty, Json.prettyMembers, Json.compact, Json.newline,
    List.replicate, keys, writeInteger_toNat, block]

/-- The lines that show the statistics in the end, up to the first item. -/
def table (c : GraphConfig) : List String := [
  "=== Graph Statistics ===",
  "\n".intercalate (block ⟨6, 4, 0, c.nodeCapacity, c.edgeCapacity, c.propertyCapacity⟩),
  "",
  "=== Similar Nodes (k = 3) ==="]

/-- All that a run puts out that has room. -/
def transcript (before : List Event) (c : Config) (built hits : List Entry) : List Entry :=
  banner.map .line ++ (before ++ warning c ++ creation c).map .event ++ built ++ (table c.graph).map .line ++ hits

/-- All that a run prints that has room. -/
def report (c : GraphConfig) (hits : List String) : List String := banner ++ table c ++ hits

theorem printed_transcript {built : List Entry} (quiet : printed built = []) (before : List Event) (c : Config)
    (hits : List Entry) : printed (transcript before c built hits) = report c.graph (printed hits) := by
  simp [transcript, report, quiet]

theorem demonstrate_of_build {hits : List Entry} (built : build c allocator = ⟨entries, .ok (d, s)⟩)
    (listed : d.forM (fun (name, node) => showSimilar d s name node) = ⟨hits, .ok ()⟩) :
    demonstrate c allocator =
      ⟨entries ++ (statistics s.graph ++ ["=== Similar Nodes (k = 3) ==="]).map .line ++ hits, .ok ()⟩ := by
  simp only [demonstrate, Run.bind_of_ok built, Run.print, Run.bind_of_ok rfl, listed]
  simp
  rfl

theorem exists_hits (stands : Stands c d s) :
    ∃ hits, d.forM (fun (name, node) => showSimilar d s name node) = ⟨hits, .ok ()⟩ :=
  Run.forM_of_ok fun _ member => showSimilar_of_stored stands.valid (stands.stored _ member)

theorem demonstrate_result : (demonstrate (adopted c) allocator).result = .ok () ↔ Suffices c allocator := by
  constructor
  · intro granted
    rcases built : build (adopted c) allocator with ⟨entries, e | ⟨d, s⟩⟩
    · rw [demonstrate, Run.bind_of_error (congrArg Run.result built)] at granted
      cases granted
    · exact suffices_of_build built
  · intro enough
    obtain ⟨_, d, s, built⟩ := build_of_suffices enough
    obtain ⟨_, listed⟩ := exists_hits (stands_of_build built)
    rw [demonstrate_of_build built listed]

/-- Building and searching put out the same whatever room there is. -/
theorem exists_entries : ∃ built hits, printed built = [] ∧ ∀ c allocator, Suffices c allocator →
    (demonstrate (adopted c) allocator).entries =
      (creation c).map .event ++ built ++ (table c.graph).map .line ++ hits := by
  -- They are those of the store with the least room, since no search and no edge list depends on room.
  obtain ⟨_, d, s, built⟩ := build_of_suffices least_suffices
  have valid := (stands_of_build built).valid
  obtain ⟨hits, listed⟩ := exists_hits (stands_of_build built)
  obtain ⟨stock, g, stored, linked, created, added, linking, rfl, _⟩ := build_eq_ok_iff.mp built
  refine ⟨stored ++ (linked ++ [.event (readyEvent g)]), hits, ?_, fun c allocator enough => ?_⟩
  · rw [printed_append, printed_append, printed_addItems added, printed_addLinks linking]
    rfl
  · have again := build_resize enough created added linking
    have told := (stands_of_build again).statistics
    rw [← showSimilar_resize (c := c) valid] at listed
    rw [demonstrate_of_build again listed, statistics, told, pretty_statistics]
    simp [table]

theorem program_eq (before : List Event) : program (.call before (.ok c)) allocator =
    ⟨banner.map .line ++ (before ++ warning c).map .event ++ (demonstrate (adopted c) allocator).entries,
      (demonstrate (adopted c) allocator).result⟩ := by
  simp only [program, Run.print, Run.call, Run.bind_of_ok rfl]
  simp

theorem exists_transcript : ∃ built hits, printed built = [] ∧ ∀ before c allocator, Suffices c allocator →
    program (.call before (.ok c)) allocator = ⟨transcript before c built hits, .ok ()⟩ := by
  obtain ⟨built, hits, quiet, told⟩ := exists_entries
  refine ⟨built, hits, quiet, fun before c allocator enough => ?_⟩
  rw [program_eq, told c allocator enough, demonstrate_result.mpr enough, transcript]
  simp

/-- The ways to run with a configuration, with what is logged when it is read. -/
inductive Given (c : Config) : List Event → (Subscriber → Allocator → Outcome) → Prop where
  | outright : Given c [] fun subscriber allocator => run (.ok c) subscriber allocator
  | inFile (path : String) (content : Option ByteArray) : Config.ofFile content = .ok c →
      Given c [loadingEvent path] fun subscriber allocator => runOnFile path content subscriber allocator

theorem Given.eq_outcome {before : List Event} {go : Subscriber → Allocator → Outcome} (given : Given c before go) :
    go = fun subscriber allocator => outcome (program (.call before (.ok c)) allocator) subscriber := by
  cases given with
  | outright => rfl
  | inFile path content read =>
    funext subscriber allocator
    rw [runOnFile, load, read]
    rfl

section

variable (entries : List Entry) (result : Except Report Unit) (subscriber : Subscriber)

theorem exitCode_outcome : (outcome ⟨entries, result⟩ subscriber).exitCode = 0 ↔ result = .ok () := by
  rcases result with e | _ <;> simp [outcome]

theorem stdout_outcome : (outcome ⟨entries, result⟩ subscriber).stdout = subscriber.render entries := by
  rcases result with e | _ <;> rfl

end

/-- Nothing but the lines can be told apart with the log off, and nothing at all besides the standard output. -/
theorem outcome_of_printed {es fs : List Entry} (same : printed es = printed fs) (result : Except Report Unit) :
    outcome ⟨es, result⟩ .off = outcome ⟨fs, result⟩ .off ∧ ∀ subscriber,
      (outcome ⟨es, result⟩ subscriber).exitCode = (outcome ⟨fs, result⟩ subscriber).exitCode ∧
      (outcome ⟨es, result⟩ subscriber).stderr = (outcome ⟨fs, result⟩ subscriber).stderr := by
  rcases result with e | _ <;> simp [outcome, render_off, same]

/-- What a run has to do with its configuration: it succeeds where there is room, and what it puts out names the
capacities and warns of a dimension that is not used. With the log off, no run can be told from one with another
dimension. -/
structure SeesRoom (c : Config) (before : List Event) (built hits : List Entry)
    (go : Subscriber → Allocator → Outcome) : Prop where
  exitCode : ∀ subscriber allocator, (go subscriber allocator).exitCode = 0 ↔ Suffices c allocator
  stdout : ∀ subscriber allocator, Suffices c allocator →
    (go subscriber allocator).stdout = subscriber.render (transcript before c built hits)
  quiet : ∀ allocator, Suffices c allocator → (go .off allocator).stdout = unlines (report c.graph (printed hits))
  dimension : ∀ dimension before' go', Given { c with vector.dimension := dimension } before' go' → ∀ allocator,
    go' .off allocator = go .off allocator ∧ ∀ subscriber,
      (go' subscriber allocator).exitCode = (go subscriber allocator).exitCode ∧
      (go' subscriber allocator).stderr = (go subscriber allocator).stderr

/-- A run succeeds where the tables have room for the items and the links and an index of dimension three can be made
with room for the items. With the log off, the outputs of two runs that succeed differ in nothing but the three
capacities. With the log on, they also differ in what is logged of the capacities, of the file that the configuration
was read from, and of a dimension that is not used. -/
theorem run_sees_room_alone :
    ∃ built hits, ∀ c before go, Given c before go → SeesRoom c before built hits go := by
  obtain ⟨built, hits, quiet, told⟩ := exists_transcript
  refine ⟨built, hits, fun c before go given => ?_⟩
  obtain rfl := given.eq_outcome
  exact {
    exitCode := by
      intro subscriber allocator
      rw [program_eq, exitCode_outcome, demonstrate_result]
    stdout := by
      intro subscriber allocator enough
      rw [told before c allocator enough, stdout_outcome]
    quiet := by
      intro allocator enough
      rw [told before c allocator enough, stdout_outcome, render_off, printed_transcript quiet]
    dimension := by
      intro dimension before' go' given' allocator
      obtain rfl := given'.eq_outcome
      simp only [program_eq]
      exact outcome_of_printed (by simp only [printed_append, printed_events]; rfl) _ }

/-- The least room with a dimension of zero, the default room with a dimension of 128 in an empty file, too little room
for the last item, and no memory at all. -/
theorem run_sees_room_alone_least :
    let small : Config := ⟨⟨6, 4, 1⟩, ⟨0, 6⟩⟩
    let tight : Config := ⟨⟨6, 4, 1⟩, ⟨3, 5⟩⟩
    (run (.ok small)).exitCode = 0 ∧ (run (.ok {})).exitCode = 0 ∧ (run (.ok tight)).exitCode ≠ 0 ∧
      (run (.ok small) .off ⟨fun _ _ => false⟩).exitCode ≠ 0 ∧
      (∀ path, runOnFile path (some "".toUTF8) = run (.ok {})) ∧
      ∃ built hits,
        (∀ subscriber, (run (.ok small) subscriber).stdout = subscriber.render (transcript [] small built hits)) ∧
        (∀ subscriber path, (runOnFile path (some "".toUTF8) subscriber).stdout =
          subscriber.render (transcript [loadingEvent path] {} built hits)) ∧
        (run (.ok small)).stdout = unlines (report ⟨6, 4, 1⟩ (printed hits)) ∧
        (run (.ok {})).stdout = unlines (report ⟨1024, 4096, 1024⟩ (printed hits)) := by
  intro small tight
  obtain ⟨built, hits, told⟩ := run_sees_room_alone
  have enough : Suffices small .addressSpace := ⟨by decide, by decide, by decide, by decide, _, rfl⟩
  have wide : Suffices {} .addressSpace :=
    ⟨by decide, by decide, by decide, by decide, _, VectorIndex.create_eq_ok_iff.mpr ⟨by decide, rfl⟩⟩
  have empty (path : String) : Given {} [loadingEvent path] fun subscriber allocator =>
      runOnFile path (some "".toUTF8) subscriber allocator := .inFile path _ (by decide +kernel)
  have narrow := told small [] _ .outright
  have usual := told {} [] _ .outright
  refine ⟨(narrow.exitCode _ _).mpr enough, (usual.exitCode _ _).mpr wide, fun granted => ?_, fun granted => ?_,
    fun path => (usual.dimension _ _ _ (empty path) _).1, built, hits, fun subscriber => narrow.stdout _ _ enough,
    fun subscriber path => (told _ _ _ (empty path)).stdout _ _ wide, narrow.quiet _ enough, usual.quiet _ wide⟩
  · exact absurd (((told tight [] _ .outright).exitCode _ _).mp granted).slots (by decide)
  · obtain ⟨x, made⟩ := ((narrow.exitCode _ _).mp granted).vectors
    cases made

/-- A dimension that is not used makes a difference to what is written where the log is on. -/
theorem run_tells_dimension :
    let subscriber := Subscriber.lines (fun _ => "2024-05-01T12:00:00.000000Z") .info
    let other : Config := { least with vector.dimension := 5 }
    (run (.ok least) subscriber).exitCode = 0 ∧ (run (.ok other) subscriber).exitCode = 0 ∧
      (run (.ok other) subscriber).stdout ≠ (run (.ok least) subscriber).stdout := by
  intro subscriber other
  obtain ⟨built, hits, _, told⟩ := exists_transcript
  have enough : Suffices other .addressSpace := ⟨by decide, by decide, by decide, by decide, _, rfl⟩
  have first : run (.ok least) subscriber = outcome ⟨transcript [] least built hits, .ok ()⟩ subscriber :=
    congrArg (outcome · subscriber) (told [] least _ least_suffices)
  have second : run (.ok other) subscriber = outcome ⟨transcript [] other built hits, .ok ()⟩ subscriber :=
    congrArg (outcome · subscriber) (told [] other _ enough)
  refine ⟨?_, ?_, fun same => ?_⟩
  · rw [first, exitCode_outcome]
  · rw [second, exitCode_outcome]
  · -- Without the line of the warning the second output would be the first.
    have rendered (entries : List Entry) :
        subscriber.render entries = .join (entries.map (Entry.text (subscriber 0))) :=
      render_of_timeless (subscriber 0) entries
    have fits : warning least = [] := rfl
    have created : creation other = creation least := rfl
    have shown : table other.graph = table least.graph := rfl
    rw [first, second, stdout_outcome, stdout_outcome, rendered, rendered] at same
    have silent : String.join ((warning other).map (subscriber 0)) = "" := by
      simpa [transcript, fits, created, shown, Function.comp_def, Entry.text] using same
    exact absurd silent (by decide +kernel)

end VectorGraph.Demo
