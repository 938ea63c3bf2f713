import VectorGraph.Proofs.Yaml.Flow

/-!
The events and items of a text that is one flow mapping. Every member gives the event of its key and those of its
value, and the mapping goes on after it where it was.
-/
namespace VectorGraph.Yaml

namespace EventSource

/-- Steps with their events. -/
inductive Emits : EventSource → List Event → EventSource → Prop
  | nil (c : EventSource) : Emits c [] c
  | cons {c d f : EventSource} {e : Event} {es : List Event} (place : c.place ≠ .done) (step : c.step = .ok (e, d))
      (rest : Emits d es f) : Emits c (e :: es) f

variable {c d f : EventSource} {es es' : List Event}

theorem Emits.trans (first : Emits c es d) (second : Emits d es' f) : Emits c (es ++ es') f := by
  induction first with
  | nil => exact second
  | cons place step _ ih => exact .cons place step (ih second)

theorem run_emits (emits : Emits c es d) (count : Nat) :
    run (es.length + count) c = (es ++ (run count d).1, (run count d).2) := by
  induction emits with
  | nil c => simp
  | cons place step _ ih =>
    rw [List.length_cons, Nat.add_right_comm, run, if_neg place, step]
    simp [ih]

/-- The kinds of the tokens that are left. -/
def Sees (c : EventSource) (kinds : List TokenKind) : Prop := c.tokens.map (·.kind) = kinds

variable {kind : TokenKind} {kinds : List TokenKind}

theorem Sees.next (sees : c.Sees (kind :: kinds)) : ∃ t, c.next = .ok t ∧ t.kind = kind ∧ c.skip.Sees kinds := by
  obtain ⟨tokens, flaw, place, outer, marks, handles⟩ := c
  obtain ⟨t, ts, rfl, same, rest⟩ := List.map_eq_cons_iff.1 sees
  exact ⟨t, rfl, same, rest⟩

theorem properties_none {p : Properties} (sees : c.Sees (kind :: kinds)) (anchor : ∀ name, kind ≠ .anchor name)
    (tag : ∀ handle suffix, kind ≠ .tag handle suffix) (count : Nat) : properties count p c = .ok (p, c) := by
  obtain ⟨t, next, rfl, -⟩ := sees.next
  cases count with
  | zero => rfl
  | succ count =>
    rw [properties, next]
    cases kind : t.kind <;> simp_all [bind, Except.bind, pure, Except.pure]

theorem node_scalar {style : ScalarStyle} {text : String} (sees : c.Sees (.scalar style text :: kinds))
    (block : Bool) : ∃ mark d, c.node block false = .ok (⟨.scalar none none style text, mark⟩, d) ∧ d.Sees kinds ∧
      d.place = c.outer.headD .done ∧ d.outer = c.outer.drop 1 := by
  obtain ⟨t, next, same, rest⟩ := sees.next
  refine ⟨t.start, c.skip.leave, ?_, rest, rfl, rfl⟩
  rw [node, next]
  have properties := properties_none (p := {}) sees (by simp) (by simp) 3
  simp [bind, Except.bind, same, properties, next, resolveTag, emit]

theorem node_mapping (sees : c.Sees (.flowMappingStart :: kinds)) (block : Bool) :
    ∃ mark, c.node block false = .ok (⟨.mappingStart none none, mark⟩, c.go (.flowMappingKey true)) := by
  obtain ⟨t, next, same, rest⟩ := sees.next
  refine ⟨t.start, ?_⟩
  rw [node, next]
  have properties := properties_none (p := {}) sees (by simp) (by simp) 3
  simp [bind, Except.bind, same, properties, next, resolveTag, emit]

def flowMember (c : EventSource) : Step := do
  let t ← c.next
  match t.kind with
  | .key =>
    let c := c.skip
    c.nodeUnless [.value, .flowEntry, .flowMappingEnd] (.flowMappingValue false) false false (← c.next).start
  | .flowMappingEnd => c.close .mappingEnd t.start
  | _ => (c.enter (.flowMappingValue true)).node false false

theorem flowMappingKey_eq (c : EventSource) (first : Bool) : c.flowMappingKey first = (do
    let t ← c.next
    let d ← (c.opened first t.start).separated first .flowMapping .noMappingEnd .flowMappingEnd
    d.flowMember) :=
  rfl

theorem flowMappingKey_open {t : Token} (next : c.next = .ok t) (sees : c.skip.Sees (kind :: kinds)) :
    c.flowMappingKey true = flowMember { c.skip with marks := t.start :: c.marks } := by
  obtain ⟨u, next', -, -⟩ := sees.next
  have next' : EventSource.next { c.skip with marks := t.start :: c.marks } = .ok u := next'
  rw [flowMappingKey_eq, next]
  simp [opened, separated, next', bind, Except.bind, pure, Except.pure]

theorem flowMappingKey_comma (sees : c.Sees (.flowEntry :: kinds)) :
    c.flowMappingKey false = c.skip.flowMember := by
  obtain ⟨t, next, same, -⟩ := sees.next
  rw [flowMappingKey_eq, next]
  simp [same, opened, separated, next, bind, Except.bind, pure, Except.pure]

theorem flowMappingKey_last (sees : c.Sees (.flowMappingEnd :: kinds)) : c.flowMappingKey false = c.flowMember := by
  obtain ⟨t, next, same, -⟩ := sees.next
  rw [flowMappingKey_eq, next]
  simp [same, opened, separated, next, bind, Except.bind, pure, Except.pure]

theorem flowMember_key {style : ScalarStyle} {text : String} (sees : c.Sees (.key :: .scalar style text :: kinds)) :
    ∃ mark d, c.flowMember = .ok (⟨.scalar none none style text, mark⟩, d) ∧ d.Sees kinds ∧
      d.place = .flowMappingValue false ∧ d.outer = c.outer := by
  obtain ⟨t, next, same, rest⟩ := sees.next
  obtain ⟨u, next', same', -⟩ := rest.next
  obtain ⟨mark, d, node, left, place, outer⟩ := node_scalar (c := c.skip.enter (.flowMappingValue false)) rest false
  refine ⟨mark, d, ?_, left, place, outer⟩
  simp [flowMember, bind, Except.bind, next, same, next', nodeUnless, same', node]

theorem flowMember_close (sees : c.Sees (.flowMappingEnd :: kinds)) :
    ∃ mark d, c.flowMember = .ok (⟨.mappingEnd, mark⟩, d) ∧ d.Sees kinds ∧ d.place = c.outer.headD .done ∧
      d.outer = c.outer.drop 1 := by
  obtain ⟨t, next, same, rest⟩ := sees.next
  refine ⟨t.start, { c.skip.leave with marks := c.marks.drop 1 }, ?_, rest, rfl, rfl⟩
  simp [flowMember, bind, Except.bind, next, same, close, emit]

/-- The token at which a place within a flow mapping begins. -/
def opening (first : Bool) : TokenKind := if first then .flowMappingStart else .flowEntry

theorem step_key {first : Bool} {style : ScalarStyle} {text : String} (place : c.place = .flowMappingKey first)
    (sees : c.Sees (opening first :: .key :: .scalar style text :: kinds)) :
    ∃ mark d, c.step = .ok (⟨.scalar none none style text, mark⟩, d) ∧ d.Sees kinds ∧
      d.place = .flowMappingValue false ∧ d.outer = c.outer := by
  obtain ⟨t, next, -, rest⟩ := sees.next
  rw [step, place]
  cases first with
  | true =>
    simp only [flowMappingKey_open next rest]
    exact flowMember_key (c := { c.skip with marks := t.start :: c.marks }) rest
  | false =>
    simp only [flowMappingKey_comma sees]
    exact flowMember_key rest

theorem step_close {first : Bool} (place : c.place = .flowMappingKey first)
    (sees : c.Sees ((if first then [.flowMappingStart] else []) ++ .flowMappingEnd :: kinds)) :
    ∃ mark d, c.step = .ok (⟨.mappingEnd, mark⟩, d) ∧ d.Sees kinds ∧ d.place = c.outer.headD .done ∧
      d.outer = c.outer.drop 1 := by
  rw [step, place]
  cases first with
  | true =>
    obtain ⟨t, next, -, rest⟩ := sees.next
    simp only [flowMappingKey_open next rest]
    exact flowMember_close (c := { c.skip with marks := t.start :: c.marks }) rest
  | false =>
    simp only [flowMappingKey_last sees]
    exact flowMember_close sees

theorem step_value {kind : TokenKind} (place : c.place = .flowMappingValue false)
    (sees : c.Sees (.value :: kind :: kinds)) (entry : kind ≠ .flowEntry) (last : kind ≠ .flowMappingEnd) :
    c.step = (c.skip.enter (.flowMappingKey false)).node false false := by
  obtain ⟨t, next, same, rest⟩ := sees.next
  obtain ⟨u, next', same', rest'⟩ := rest.next
  rw [step, place]
  simp only [flowMappingValue]
  rw [next]
  simp [bind, Except.bind, same, next', nodeUnless, same', entry, last]

theorem step_streamStart (place : c.place = .streamStart) (sees : c.Sees (kind :: kinds)) :
    ∃ mark d, c.step = .ok (⟨.streamStart, mark⟩, d) ∧ d.Sees kinds ∧ d.place = .documentStart true ∧
      d.outer = c.outer := by
  obtain ⟨t, next, -, rest⟩ := sees.next
  refine ⟨t.start, c.skip.go (.documentStart true), ?_, rest, rfl, rfl⟩
  rw [step, place]
  simp [streamStart, next, bind, Except.bind, emit]

theorem step_documentStart (place : c.place = .documentStart true) (sees : c.Sees (.flowMappingStart :: kinds)) :
    ∃ mark d, c.step = .ok (⟨.documentStart, mark⟩, d) ∧ d.Sees (.flowMappingStart :: kinds) ∧ d.place = .blockNode ∧
      d.outer = .documentEnd :: c.outer := by
  obtain ⟨t, next, same, -⟩ := sees.next
  refine ⟨t.start, (EventSource.go { c with handles := c.handles ++ defaultHandles } .blockNode).enter .documentEnd, ?_,
    sees, rfl, rfl⟩
  rw [step, place]
  simp [documentStart, directives, next, same, opensDocument, bind, Except.bind, emit]
  rfl

theorem step_documentEnd (place : c.place = .documentEnd) (sees : c.Sees [.streamEnd]) :
    ∃ mark d, c.step = .ok (⟨.documentEnd, mark⟩, d) ∧ d.Sees [.streamEnd] ∧ d.place = .documentStart false := by
  obtain ⟨t, next, same, -⟩ := sees.next
  refine ⟨t.start, { c with place := .documentStart false, handles := [] }, ?_, sees, rfl⟩
  rw [step, place]
  simp [documentEnd, next, same, bind, Except.bind, emit]

theorem step_streamEnd (place : c.place = .documentStart false) (sees : c.Sees [.streamEnd]) :
    ∃ mark d, c.step = .ok (⟨.streamEnd, mark⟩, d) ∧ d.place = .done := by
  obtain ⟨t, next, same, -⟩ := sees.next
  have kept : c.skipEnds = c := by
    obtain ⟨tokens, flaw, place, outer, marks, handles⟩ := c
    obtain ⟨u, ts, rfl, kind, -⟩ := List.map_eq_cons_iff.1 sees
    simp [skipEnds, kind]
  refine ⟨t.start, c.skip.go .done, ?_, rfl⟩
  rw [step, place]
  simp [documentStart, kept, next, same, bind, Except.bind, emit]

end EventSource

open EventSource

/-- Events of one document that add items with these contents. -/
def Adds (es : List Event) (contents : List Content) : Prop := ∀ flaw (b : Document.Builder) rest, ∃ b',
  Document.Builder.addAll flaw b (es ++ rest) = Document.Builder.addAll flaw b' rest ∧
    b'.document.flaw = b.document.flaw ∧
    b'.document.items.toList.map (·.content) = b.document.items.toList.map (·.content) ++ contents

variable {es es' : List Event} {cs cs' : List Content}

theorem Adds.append (first : Adds es cs) (second : Adds es' cs') : Adds (es ++ es') (cs ++ cs') := by
  intro flaw b rest
  obtain ⟨b₁, same₁, flaw₁, items₁⟩ := first flaw b (es' ++ rest)
  obtain ⟨b₂, same₂, flaw₂, items₂⟩ := second flaw b₁ rest
  exact ⟨b₂, by rw [List.append_assoc, same₁, same₂], flaw₂.trans flaw₁, by rw [items₂, items₁, List.append_assoc]⟩

theorem adds_scalar (style : ScalarStyle) (text : String) (mark : Mark) :
    Adds [⟨.scalar none none style text, mark⟩] [.scalar ⟨none, style, text⟩] := fun _ b _ =>
  ⟨b.addItem (.scalar ⟨none, style, text⟩) mark, by
    simp [Document.Builder.addAll, Document.Builder.isLost, Document.Builder.add, Document.Builder.addAnchor], rfl,
    by simp [Document.Builder.addItem]⟩

theorem adds_mappingStart (mark : Mark) : Adds [⟨.mappingStart none none, mark⟩] [.mappingStart] := fun _ b _ =>
  ⟨b.addItem .mappingStart mark, by
    simp [Document.Builder.addAll, Document.Builder.isLost, Document.Builder.add, Document.Builder.addAnchor], rfl,
    by simp [Document.Builder.addItem]⟩

theorem adds_mappingEnd (mark : Mark) : Adds [⟨.mappingEnd, mark⟩] [.mappingEnd] := fun _ b _ =>
  ⟨b.addItem .mappingEnd mark, by
    simp [Document.Builder.addAll, Document.Builder.isLost, Document.Builder.add], rfl,
    by simp [Document.Builder.addItem]⟩

namespace Piece

variable {c : EventSource} {rest : List TokenKind}

/-- The tokens of the value are read as one node, which goes on where the source is to go on. -/
structure Parsed (p : Piece) : Prop where
  opens : ∃ kind kinds, p.kinds = kind :: kinds ∧ kind ≠ .flowEntry ∧ kind ≠ .flowMappingEnd
  node : ∀ (c : EventSource) (block : Bool) (rest : List TokenKind), c.Sees (p.kinds ++ rest) →
    ∃ e d es f, c.node block false = .ok (e, d) ∧ Emits d es f ∧ f.Sees rest ∧ f.place = c.outer.headD .done ∧
      f.outer = c.outer.drop 1 ∧ Adds (e :: es) p.contents ∧ es.length < p.kinds.length

theorem parsed_number (n : UInt64) : (number n).Parsed where
  opens := ⟨_, _, rfl, by simp, by simp⟩
  node c block rest sees := by
    obtain ⟨mark, d, node, left, place, outer⟩ := node_scalar (c := c) sees block
    exact ⟨_, d, [], d, node, .nil d, left, place, outer, adds_scalar _ _ mark, by simp [number]⟩

theorem emits_member {name : String} {p : Piece} {first : Bool} (parsed : p.Parsed)
    (place : c.place = .flowMappingKey first) (sees : c.Sees (opening first :: (memberKinds (name, p) ++ rest))) :
    ∃ es d, Emits c es d ∧ d.Sees rest ∧ d.place = .flowMappingKey false ∧ d.outer = c.outer ∧
      Adds es (memberContents (name, p)) ∧ es.length ≤ (memberKinds (name, p)).length := by
  obtain ⟨mark, d, key, left, after, outer⟩ := step_key place sees
  obtain ⟨kind, kinds, kindsEq, entry, last⟩ := parsed.opens
  have left' : d.Sees (.value :: kind :: (kinds ++ rest)) := by simpa [kindsEq] using left
  have value := step_value after left' entry last
  obtain ⟨t, -, -, skipped⟩ := left'.next
  obtain ⟨e, d', es, f, node, emits, left'', place', outer', adds, short⟩ := parsed.node
    (d.skip.enter (.flowMappingKey false)) false rest (by rw [kindsEq]; exact skipped)
  refine ⟨_, f, .cons (by simp [place]) key (.cons (by simp [after]) (value.trans node) emits), left'', place',
    outer'.trans outer, (adds_scalar _ _ mark).append adds, ?_⟩
  simp only [memberKinds, List.length_cons, List.length_append]
  omega

theorem emits_members {ms : List (String × Piece)} (parsed : ∀ m ∈ ms, m.2.Parsed)
    (place : c.place = .flowMappingKey false)
    (sees : c.Sees ((ms.flatMap fun m => .flowEntry :: memberKinds m) ++ .flowMappingEnd :: rest)) :
    ∃ es d, Emits c es d ∧ d.Sees rest ∧ d.place = c.outer.headD .done ∧ d.outer = c.outer.drop 1 ∧
      Adds es (ms.flatMap memberContents ++ [.mappingEnd]) ∧
      es.length ≤ (ms.flatMap fun m => .flowEntry :: memberKinds m).length + 1 := by
  induction ms generalizing c with
  | nil =>
    obtain ⟨mark, d, close, left, after, outer⟩ := step_close place sees
    exact ⟨_, d, .cons (by simp [place]) close (.nil d), left, after, outer, adds_mappingEnd mark, by simp⟩
  | cons m ms ih =>
    rw [List.flatMap_cons, List.append_assoc] at sees
    obtain ⟨es, d, emits, left, after, outer, adds, short⟩ :=
      emits_member (parsed m List.mem_cons_self) place sees
    obtain ⟨es', f, emits', left', after', outer', adds', short'⟩ :=
      ih (fun n mem => parsed n (List.mem_cons_of_mem m mem)) after left
    refine ⟨es ++ es', f, emits.trans emits', left', outer ▸ after', outer ▸ outer', ?_, ?_⟩
    · rw [List.flatMap_cons, List.append_assoc]
      exact adds.append adds'
    · have short : es.length ≤ (memberKinds m).length := short
      rw [List.flatMap_cons, List.length_append, List.length_append, List.length_cons]
      omega

theorem parsed_mapping {ms : List (String × Piece)} (parsed : ∀ m ∈ ms, m.2.Parsed) : (mapping ms).Parsed where
  opens := ⟨_, _, rfl, by simp, by simp⟩
  node c block rest sees := by
    obtain ⟨mark, node⟩ := node_mapping (c := c) sees block
    let d := c.go (.flowMappingKey true)
    have start : d.place = .flowMappingKey true := rfl
    cases ms with
    | nil =>
      obtain ⟨mark', f, close, left, place, outer⟩ := step_close start sees
      exact ⟨_, d, _, f, node, .cons (by simp [d, go]) close (.nil f), left, place, outer,
        (adds_mappingStart mark).append (adds_mappingEnd mark'), by simp [mapping, separated]⟩
    | cons m ms =>
      have sees : d.Sees (opening true :: (memberKinds (m.1, m.2) ++
          ((ms.flatMap fun m => .flowEntry :: memberKinds m) ++ .flowMappingEnd :: rest))) := by
        simpa [mapping, separated, opening, d, go, Sees] using sees
      obtain ⟨es, d', emits, left, after, outer, adds, short⟩ :=
        emits_member (parsed m List.mem_cons_self) start sees
      obtain ⟨es', f, emits', left', after', outer', adds', short'⟩ :=
        emits_members (fun n mem => parsed n (List.mem_cons_of_mem m mem)) after left
      refine ⟨_, d, es ++ es', f, node, emits.trans emits', left', outer ▸ after', outer ▸ outer', ?_, ?_⟩
      · have all := (adds_mappingStart mark).append (adds.append adds')
        simpa [mapping] using all
      · have short : es.length ≤ (memberKinds m).length := short
        simp only [mapping, separated, List.length_cons, List.length_append, List.length_nil]
        omega

theorem emits_stream {p : Piece} {ts : List Token} (parsed : p.Parsed)
    (mapping : ∃ kinds, p.kinds = .flowMappingStart :: kinds)
    (kinds : ts.map (·.kind) = .streamStart :: (p.kinds ++ [.streamEnd])) :
    ∃ es d m₁ m₂ m₃ m₄, Emits (.start ts none) (⟨.streamStart, m₁⟩ :: ⟨.documentStart, m₂⟩ :: (es ++
        [⟨.documentEnd, m₃⟩, ⟨.streamEnd, m₄⟩])) d ∧
      d.place = .done ∧ Adds es p.contents ∧ es.length ≤ p.kinds.length := by
  obtain ⟨rest, opens⟩ := mapping
  obtain ⟨m₁, c₁, step₁, sees₁, place₁, outer₁⟩ := step_streamStart (c := .start ts none) rfl kinds
  have sees₁ : c₁.Sees (.flowMappingStart :: (rest ++ [.streamEnd])) := by simpa [opens] using sees₁
  obtain ⟨m₂, c₂, step₂, sees₂, place₂, outer₂⟩ := step_documentStart place₁ sees₁
  obtain ⟨e, c₃, es, c₄, node, emits, sees₄, place₄, outer₄, adds, short⟩ :=
    parsed.node c₂ true [.streamEnd] (by simpa [opens] using sees₂)
  rw [outer₂] at place₄
  obtain ⟨m₃, c₅, step₃, sees₅, place₅⟩ := step_documentEnd place₄ sees₄
  obtain ⟨m₄, c₆, step₄, place₆⟩ := step_streamEnd place₅ sees₅
  have step : c₂.step = .ok (e, c₃) := by rw [EventSource.step, place₂]; exact node
  have last : Emits c₄ [⟨.documentEnd, m₃⟩, ⟨.streamEnd, m₄⟩] c₆ :=
    .cons (by simp [place₄]) step₃ (.cons (by simp [place₅]) step₄ (.nil c₆))
  refine ⟨e :: es, c₆, m₁, m₂, m₃, m₄, ?_, place₆, adds, short⟩
  exact .cons (by simp [EventSource.start]) step₁ (.cons (by simp [place₁]) step₂
    (.cons (by simp [place₂]) step (emits.trans last)))

/-- A value whose text becomes its tokens, and these its items. -/
structure Regular (p : Piece) : Prop where
  scanned : p.Scanned
  clean : p.Clean
  parsed : p.Parsed

theorem Regular.number (n : UInt64) : (Piece.number n).Regular := ⟨scanned_number n, clean_number n, parsed_number n⟩

theorem Regular.mapping {ms : List (String × Piece)} (keys : ∀ m ∈ ms, IsKey m.1) (regular : ∀ m ∈ ms, m.2.Regular) :
    (Piece.mapping ms).Regular where
  scanned := scanned_mapping keys fun m mem => (regular m mem).scanned
  clean := clean_mapping keys fun m mem => (regular m mem).clean
  parsed := parsed_mapping fun m mem => (regular m mem).parsed

theorem read_mapping {ms : List (String × Piece)} (keys : ∀ m ∈ ms, IsKey m.1) (regular : ∀ m ∈ ms, m.2.Regular) :
    ∃ d, Stream.read (mapping ms).json.compact = ⟨d, false⟩ ∧ d.flaw = none ∧
      d.items.toList.map (·.content) = (mapping ms).contents := by
  obtain ⟨ts, tokens, kinds⟩ := tokens_mapping keys (fun m mem => (regular m mem).scanned)
    fun m mem => (regular m mem).clean
  obtain ⟨es, d, m₁, m₂, m₃, m₄, emits, done, adds, short⟩ :=
    emits_stream (Regular.mapping keys regular).parsed ⟨_, rfl⟩ kinds
  obtain ⟨b, added, flaw, items⟩ := adds none {} [⟨.documentEnd, m₃⟩, ⟨.streamEnd, m₄⟩]
  have all : events (mapping ms).json.compact = (⟨.streamStart, m₁⟩ :: ⟨.documentStart, m₂⟩ :: (es ++
        [⟨.documentEnd, m₃⟩, ⟨.streamEnd, m₄⟩]), none) := by
    have length := congrArg List.length kinds
    simp only [List.length_map, List.length_cons, List.length_append, List.length_nil] at length
    obtain ⟨count, enough⟩ : ∃ count, 6 * ts.length + 6 = es.length + 4 + (count + 1) :=
      ⟨6 * ts.length + 1 - es.length, by omega⟩
    have run := run_emits emits (count + 1)
    have stopped : EventSource.run (count + 1) d = ([], none) := by simp [EventSource.run, done]
    simp only [List.length_cons, List.length_append, List.length_nil, stopped, List.append_nil] at run
    rw [events, tokens]
    simp only [enough]
    exact run
  refine ⟨b.document, ?_, flaw, by simpa using items⟩
  have document : Document.Builder.addAll none {} (⟨.streamStart, m₁⟩ :: ⟨.documentStart, m₂⟩ :: (es ++
        [⟨.documentEnd, m₃⟩, ⟨.streamEnd, m₄⟩])) = (b.document, [⟨.streamEnd, m₄⟩]) := by
    rw [Document.Builder.addAll, if_neg (by simp), if_neg (by simp [Document.Builder.isLost]), Document.Builder.addAll,
      if_neg (by simp), if_neg (by simp [Document.Builder.isLost])]
    simp only [Document.Builder.add]
    rw [added]
    simp [Document.Builder.addAll]
  rw [Stream.read, all]
  simp [document, flaw]

end Piece

end VectorGraph.Yaml
