import VectorGraph.Proofs.Hybrid.Runs
import VectorGraph.Proofs.Vector.Map

/-! A new node starts without a vector. The index never looks at generations, and a node that was deleted behind
its back leaves its vector there, also when its slot is taken again. It is the arena that tells the two nodes
apart, because no handle of a vector is one that is still to be issued. -/
namespace VectorGraph

namespace Graph

/-- What a granted request adds to the history of the nodes. -/
def Request.nodeEvents : Request → Reply → List Arena.Event
  | .createNode, .created id => [.issued id]
  | .deleteNode n, _ => [.retired n.id]
  | _, _ => []

theorem Effect.nodeHistory {g h : Graph} {q : Request} {reply : Reply} (effect : g.Effect q (.ok reply) h) :
    g.nodes.records.Continues (q.nodeEvents reply) h.nodes.records := by
  cases effect with
  | addsNode adds => exact adds.nodes.history
  | dropsNode _ drops => exact drops.nodeHistory
  | addsEdge adds => exact adds.nodes.history
  | dropsEdge _ drops => exact drops.nodes.history
  | addsProperty _ _ | dropsProperty _ _ _ => exact Arena.continues_refl _
  | tells _ query =>
    cases q with
    | createNode | deleteNode _ => cases query
    | _ => exact Arena.continues_refl _

end Graph

namespace HybridStore

variable {s t : HybridStore} {q : Request} {reply : Except Refusal Reply} {n : NodeId} {id : Id}
  {past : List Arena.Event}

/-- What a request adds to the history of the nodes, by its answer. -/
def nodeEvents : Request × Except Refusal Reply → List Arena.Event
  | (.graph q, .ok (.graph reply)) => q.nodeEvents reply
  | (.createNode _, .ok (.created n)) => [.issued n.id]
  | (.deleteNode n, .ok _) => [.retired n.id]
  | _ => []

def nodeHistory (transcript : List (Request × Except Refusal Reply)) : List Arena.Event :=
  transcript.flatMap nodeEvents

@[simp] theorem nodeEvents_error (q : Request) (e : Refusal) : nodeEvents (q, .error e) = [] := by
  cases q <;> rfl

theorem nodeEvents_query (query : q.changes = false) (reply : Reply) : nodeEvents (q, .ok reply) = [] := by
  cases q with
  | graph r =>
    cases reply with
    | graph told =>
      cases r with
      | createNode | deleteNode _ => cases query
      | _ => rfl
    | _ => rfl
  | createNode _ | deleteNode _ => cases query
  | _ => rfl

theorem Effect.nodeHistory (effect : s.Effect q reply t) :
    s.graph.nodes.records.Continues (nodeEvents (q, reply)) t.graph.nodes.records := by
  cases effect with
  | @graph _ inner _ effect =>
    cases inner with
    | error e =>
      rw [effect.unchanged]
      exact Arena.continues_refl _
    | ok told => exact effect.nodeHistory
  | vectors _ => exact Arena.continues_refl _
  | addsNode adds _ => exact adds.nodes.history
  | setsVector _ _ => exact Arena.continues_refl _
  | dropsNode _ drops _ => exact drops.nodeHistory
  | refuses e =>
    rw [nodeEvents_error]
    exact Arena.continues_refl _
  | tells told query =>
    rw [nodeEvents_query query]
    exact Arena.continues_refl _

/-- How a vector comes to be stored under a handle that has none: by a request to the index, for a live node, or
together with a new node. -/
inductive Brings (s : HybridStore) : Id → Request → Except Refusal Reply → Prop where
  | direct {id : Id} (v : Vec) (reply : Except Refusal Reply) : Brings s id (.vectors (.set id v)) reply
  | live {n : NodeId} (v : Vec) (reply : Except Refusal Reply) : s.graph.nodes.contains n →
      Brings s n.id (.setVector n v) reply
  | created {n : NodeId} (v : Vec) : Brings s n.id (.createNode v) (.ok (.created n))

theorem Effect.brings (effect : s.Effect q reply t) (valid : s.Valid) (stored : t.vectors.contains id) :
    s.vectors.contains id ∨ s.Brings id q reply := by
  cases effect with
  | graph _ | refuses _ | tells _ _ => exact .inl stored
  | vectors effect =>
    cases effect with
    | stores step =>
      rcases (step.contains valid.vectors id).mp stored with rfl | old
      · exact .inr (.direct _ _)
      · exact .inl old
    | removes step => exact .inl ((VectorIndex.Forgets.removed step).contains valid.vectors id |>.mp stored).2
    | refuses _ | tells _ _ => exact .inl stored
  | addsNode _ step =>
    rcases (step.contains valid.vectors id).mp stored with rfl | old
    · exact .inr (.created _)
    · exact .inl old
  | setsVector node step =>
    rcases (step.contains valid.vectors id).mp stored with rfl | old
    · exact .inr (.live _ _ node)
    · exact .inl old
  | dropsNode _ _ step => exact .inl ((step.contains valid.vectors id).mp stored).2

theorem Effect.creates (effect : s.Effect q reply t) (made : .issued n.id ∈ nodeEvents (q, reply)) :
    t.vectors = s.vectors ∨ ∃ slot v, s.vectors.Stores n.id slot v t.vectors := by
  cases effect with
  | graph _ | refuses _ | tells _ _ => exact .inl rfl
  | vectors _ | setsVector _ _ | dropsNode _ _ _ => simp [nodeEvents] at made
  | addsNode _ step =>
    obtain rfl : n = _ := by simpa [nodeEvents] using made
    exact .inr ⟨_, _, step⟩

/-- A vector goes straight to the index only under a handle that the creation of a node has returned. -/
def Request.Grounded (past : List Arena.Event) : Request → Prop
  | .vectors (.set id _) => id ∈ Arena.issues past
  | _ => True

/-- Every request of a run is grounded in the history that it meets. -/
def Grounded (past : List Arena.Event) : List (Request × Except Refusal Reply) → Prop
  | [] => True
  | entry :: rest => entry.1.Grounded past ∧ Grounded (past ++ nodeEvents entry) rest

/-- All handles that vectors are stored under have been issued to nodes. -/
structure Known (past : List Arena.Event) (s : HybridStore) : Prop where
  valid : s.Valid
  nodes : s.graph.nodes.records.Follows past
  stored : ∀ id, s.vectors.contains id → id ∈ Arena.issues past

theorem Known.step (known : Known past s) (q : Request) (grounded : q.Grounded past)
    (bounded : Arena.Bounded (past ++ nodeEvents (q, (s.answer q).1))) :
    Known (past ++ nodeEvents (q, (s.answer q).1)) (s.answer q).2 := by
  have effect := answer_effect known.valid q
  refine ⟨effect.valid known.valid, effect.nodeHistory past known.nodes bounded, fun id stored => ?_⟩
  rw [Arena.issues_append, List.mem_append]
  generalize (s.answer q).1 = reply at effect ⊢
  rcases effect.brings known.valid stored with old | brings
  · exact .inl (known.stored id old)
  · cases brings with
    | direct _ _ => exact .inl grounded
    | live _ _ node =>
      have force := (known.nodes.inForce _).mp node
      exact .inl (List.mem_filterMap.mpr ⟨_, force.mem, rfl⟩)
    | created _ => exact .inr (by simp [nodeEvents, Arena.issues, Arena.Event.issued?])

theorem grounded_append {first second : List (Request × Except Refusal Reply)} :
    Grounded past (first ++ second) ↔ Grounded past first ∧ Grounded (past ++ nodeHistory first) second := by
  induction first generalizing past with
  | nil => simp [Grounded, nodeHistory]
  | cons entry first ih => simp [Grounded, nodeHistory, ih, and_assoc]

theorem nodeHistory_append (first second : List (Request × Except Refusal Reply)) :
    nodeHistory (first ++ second) = nodeHistory first ++ nodeHistory second := List.flatMap_append

theorem nodeHistory_run (s : HybridStore) (q : Request) (requests : List Request) :
    nodeHistory (Session.transcript answer s (q :: requests)) =
      nodeEvents (q, (s.answer q).1) ++ nodeHistory (Session.transcript answer (s.answer q).2 requests) :=
  List.flatMap_cons

theorem Known.after (known : Known past s) (requests : List Request)
    (grounded : Grounded past (Session.transcript answer s requests))
    (bounded : Arena.Bounded (past ++ nodeHistory (Session.transcript answer s requests))) :
    Known (past ++ nodeHistory (Session.transcript answer s requests)) (Session.after answer s requests) := by
  induction requests generalizing past s with
  | nil => simpa [Session.transcript, nodeHistory, Session.after] using known
  | cons q requests ih =>
    obtain ⟨here, rest⟩ := grounded
    rw [nodeHistory_run, ← List.append_assoc] at bounded ⊢
    exact ih (known.step q here bounded.left) rest bounded

theorem Known.fresh {more : List Arena.Event} (known : Known (past ++ more) s) (issued : .issued id ∈ more) :
    id ∉ Arena.issues past := by
  have distinct := known.nodes.distinct
  rw [Arena.issues_append] at distinct
  have new : id ∈ Arena.issues more := List.mem_filterMap.mpr ⟨_, issued, rfl⟩
  exact fun old => List.disjoint_of_nodup_append distinct old new

/-- The handle under which a request asks for a vector to be stored. -/
def Request.target? : Request → Option Id
  | .vectors (.set id _) => some id
  | .setVector n _ => some n.id
  | _ => none

/-- A node without a vector stays so until a request stores one for it. -/
theorem Known.stays_bare (known : Known past s) (issued : id ∈ Arena.issues past)
    (bare : s.vectors.contains id = false) {requests : List Request}
    (grounded : Grounded past (Session.transcript answer s requests))
    (bounded : Arena.Bounded (past ++ nodeHistory (Session.transcript answer s requests)))
    (unset : ∀ q ∈ requests, q.target? ≠ some id) :
    (Session.after answer s requests).vectors.contains id = false := by
  induction requests generalizing past s with
  | nil => exact bare
  | cons q requests ih =>
    obtain ⟨here, rest⟩ := grounded
    rw [nodeHistory_run, ← List.append_assoc] at bounded
    have next := known.step q here bounded.left
    refine ih next ?_ ?_ rest bounded fun r member => unset r (by simp [member])
    · rw [Arena.issues_append]
      exact List.mem_append_left _ issued
    · rw [Bool.eq_false_iff]
      intro stored
      have other := unset q (by simp)
      rcases (answer_effect known.valid q).brings known.valid stored with old | brings
      · simp [bare] at old
      · generalize (s.answer q).1 = reply at brings next
        cases brings with
        | direct _ _ | live _ _ _ => exact other rfl
        | created _ => exact next.fresh (by simp [nodeEvents]) issued

variable {start : HybridStore} {nodeCapacity edgeCapacity propertyCapacity dimension capacity : Nat}
  {allocator : Allocator}

theorem create_known
    (graph : Graph.create nodeCapacity edgeCapacity propertyCapacity = .ok start.graph)
    (vectors : VectorIndex.create dimension capacity allocator = .ok start.vectors) : Known [] start := by
  have valid := Graph.create_valid graph
  obtain ⟨⟨nodes, _⟩, made⟩ := Graph.create_eq_ok_iff.mp graph
  obtain ⟨_, empty⟩ := VectorIndex.create_eq_ok_iff.mp vectors
  refine ⟨⟨valid, ?_⟩, ?_, fun id stored => ?_⟩
  · rw [empty]
    exact VectorIndex.fresh_valid ..
  · rw [made]
    exact Arena.create_follows (Arena.create_eq_ok_iff.mpr ⟨nodes, rfl⟩)
  · simp [empty, VectorIndex.contains_eq_isSome] at stored

/-- A node is made with no vector under its handle, and making it takes no vector away and replaces none. One that
is made without a vector gets none until a request stores it. The parts are new at the start, and what they do on
their own comes as requests to them. -/
theorem new_nodes_start_bare
    (graph : Graph.create nodeCapacity edgeCapacity propertyCapacity = .ok start.graph)
    (vectors : VectorIndex.create dimension capacity allocator = .ok start.vectors) (earlier : List Request) (q : Request)
    (later : List Request)
    (grounded : Grounded [] (Session.transcript answer start (earlier ++ q :: later)))
    (bounded : Arena.Bounded (nodeHistory (Session.transcript answer start (earlier ++ q :: later)))) :
    let s := Session.after answer start earlier
    let t := (s.answer q).2
    ∀ n : NodeId, .issued n.id ∈ nodeEvents (q, (s.answer q).1) →
      s.vectors.contains n.id = false ∧ (∀ id v, s.vectors.get? id = some v → t.vectors.get? id = some v) ∧
      (q = .graph .createNode → (∀ r ∈ later, r.target? ≠ some n.id) →
        t.vectors.contains n.id = false ∧ (Session.after answer t later).vectors.contains n.id = false) := by
  intro s t n made
  rw [Session.transcript_append, grounded_append, List.nil_append] at grounded
  rw [Session.transcript_append, nodeHistory_append] at bounded
  obtain ⟨first, here, rest⟩ := grounded
  have before := (create_known graph vectors).after earlier first (by simpa using bounded.left)
  rw [List.nil_append] at before
  rw [nodeHistory_run, ← List.append_assoc] at bounded
  have next := before.step q here bounded.left
  have bare : s.vectors.contains n.id = false := by
    rw [Bool.eq_false_iff]
    exact fun stored => next.fresh made (before.stored n.id stored)
  refine ⟨bare, fun id v stored => ?_, ?_⟩
  · rcases (answer_effect before.valid q).creates made with same | ⟨slot, w, step⟩
    · exact same ▸ stored
    · have other : id ≠ n.id := by
        rintro rfl
        simp [VectorIndex.contains_eq_isSome, stored] at bare
      rw [step.get? before.valid.vectors, if_neg other, stored]
  · rintro rfl unset
    have issued : n.id ∈ Arena.issues (nodeHistory (Session.transcript answer start earlier) ++
        nodeEvents (.graph .createNode, (s.answer (.graph .createNode)).1)) :=
      List.mem_filterMap.mpr ⟨_, List.mem_append_right _ made, rfl⟩
    exact ⟨bare, next.stays_bare issued bare rest bounded unset⟩

/-- A node is deleted in the graph alone, so that its vector stays and can still be replaced. The node that takes
its slot has no part in that. -/
theorem new_nodes_start_bare_reuse :
    let a : NodeId := ⟨.ofParts 0 1⟩
    let b : NodeId := ⟨.ofParts 0 2⟩
    let v : Vec := #[.zero]
    let w : Vec := #[.infinity]
    let earlier := [.graph .createNode, .vectors (.set a.id v), .graph (.deleteNode a)]
    let later := [.vectors (.set a.id w)]
    ∃ start, ofConfig ⟨⟨1, 1, 1⟩, ⟨1, 2⟩⟩ = .ok start ∧
      let run := Session.transcript answer start (earlier ++ .graph .createNode :: later)
      let s := Session.after answer start earlier
      Grounded [] run ∧ nodeHistory run = [.issued a.id, .retired a.id, .issued b.id] ∧
        s.vectors.get? a.id = some v ∧ s.vectors.contains b.id = false ∧
        (Session.after answer (s.answer (.graph .createNode)).2 later).vectors.contains b.id = false := by
  intro a b v w earlier later
  let index : VectorIndex := .fresh 1 2
  let start : HybridStore := ⟨.fresh 1 1 1, index⟩
  let run := Session.transcript answer start (earlier ++ .graph .createNode :: later)
  have created : ofConfig ⟨⟨1, 1, 1⟩, ⟨1, 2⟩⟩ = .ok start := rfl
  obtain ⟨graph, vectors⟩ := ofConfig_parts created
  have history : nodeHistory run = [.issued a.id, .retired a.id, .issued b.id] := by decide +kernel
  have grounded : Grounded [] run := by
    refine ⟨trivial, ?_, trivial, trivial, ?_, trivial⟩
    · show a.id ∈ Arena.issues _
      decide +kernel
    · show a.id ∈ Arena.issues _
      decide +kernel
  have bounded : Arena.Bounded (nodeHistory run) := by
    intro slot
    exact Nat.lt_of_le_of_lt List.countP_le_length (by rw [history]; decide)
  have holds : (Session.after answer start earlier).vectors.Holds (Finmap.insert a.id v ∅) :=
    ((VectorIndex.create_holds vectors).set a.id v (by decide) rfl (.inr (by decide))).1
  obtain ⟨bare, _, stays⟩ :=
    new_nodes_start_bare graph vectors earlier (.graph .createNode) later grounded bounded b (by decide +kernel)
  have unset : ∀ r ∈ later, r.target? ≠ some b.id := by decide
  refine ⟨start, created, grounded, history, ?_, bare, (stays rfl unset).2⟩
  rw [holds.lookup]
  exact Finmap.lookup_insert _

end HybridStore

end VectorGraph
