import VectorGraph.Yaml.Token
import Mathlib.Logic.Relation
import Mathlib.Tactic.IntervalCases

/-!
The tokens of flow mappings on one line. Within flow collections no block begins or ends and a key is told by its
quotes and colon, so a step is settled by the character that comes next.
-/
namespace VectorGraph.Yaml

theorem Cursor.advance_zero (c : Cursor) : c.advance 0 = c := by
  simp [Cursor.advance, byteLength]

/-- A character that neither white space nor a comment begins with. -/
def IsSolid (c : Char) : Prop := isBlank c = false ∧ isBreak c = false ∧ c ≠ '#' ∧ c ≠ '\ufeff'

namespace Lexer

/-- One round that takes something off the text. -/
def Advance (s t : Lexer) : Prop :=
  s.isDone = false ∧ s.step = .ok t ∧ t.cursor.rest.length < s.cursor.rest.length

abbrev Advances : Lexer → Lexer → Prop := Relation.ReflTransGen Advance

variable {s t : Lexer} {c : Char} {cs rest : List Char}

/-- The length of the text is enough for as many rounds. -/
theorem run_advances (advances : Advances s t) {count : Nat} (enough : s.cursor.rest.length + 2 ≤ count) :
    ∃ count', t.cursor.rest.length + 2 ≤ count' ∧ run none count s = run none count' t := by
  induction advances with
  | refl => exact ⟨count, enough, rfl⟩
  | tail _ last ih =>
    obtain ⟨count, enough, same⟩ := ih
    obtain ⟨notDone, ok, shorter⟩ := last
    obtain ⟨count, rfl⟩ := Nat.exists_eq_succ_of_ne_zero (by omega : count ≠ 0)
    exact ⟨count, by omega, by rw [same]; simp [run, notDone, ok]⟩

theorem toNextToken_solid (next : s.cursor.rest = c :: cs) (solid : IsSolid c) :
    s.toNextToken s.cursor.rest = s := by
  obtain ⟨blank, break', comment, mark⟩ := solid
  simp only [isBlank, Bool.or_eq_false_iff, beq_eq_false_iff_ne] at blank
  have peek : s.cursor.peek = some c := by simp [Cursor.peek, next]
  have stays (p : Char → Bool) (fails : p c = false) : s.cursor.skipWhile p = s.cursor := by
    simp [Cursor.skipWhile, Cursor.takeWhile, next, fails, Cursor.advance_zero]
  rw [next, toNextToken]
  simp [peek, mark, blank, stays, Cursor.skipComment, comment, break']

/-- Within flow collections and no block; the keys that are noted belong to collections further out. -/
structure Inside (s : Lexer) : Prop where
  notDone : s.isDone = false
  flow : 0 < s.depth
  indents : s.indents = []
  outer : ∀ k ∈ s.keys, k.depth < s.depth
  optional : ∀ k ∈ s.keys, k.required = false

/-- The next token that begins after some rounds, with the tokens taken and the collections still open. -/
structure Reaches (s t : Lexer) (kinds : List TokenKind) (rest : List Char) (depth : Nat) (allowed : Bool) :
    Prop where
  advances : Advances s t
  notDone : t.isDone = false
  depth : t.depth = depth
  indents : t.indents = s.indents
  keys : t.keys ⊆ s.keys
  rest : t.cursor.rest = rest
  tokens : t.tokens.map (·.kind) = kinds.reverse ++ s.tokens.map (·.kind)
  allowed : t.keyAllowed = allowed

theorem dropStale_optional (optional : ∀ k ∈ s.keys, k.required = false) :
    s.dropStale = .ok { s with keys := s.keys.filter (!s.isStale ·) } := by
  have kept : s.keys.reverse.find? (fun key => s.isStale key && key.required) = none := by
    simp only [List.find?_eq_none, List.mem_reverse]
    intro k mem
    simp [optional k mem]
  simp [dropStale, kept]

/-- A round within flow collections takes one token, and gives up no key but those too far back. -/
theorem step_flow (flow : 0 < s.depth) (optional : ∀ k ∈ s.keys, k.required = false)
    (next : s.cursor.rest = c :: cs) (solid : IsSolid c) :
    s.step = (do (← { s with keys := s.keys.filter (!s.isStale ·) }.token).dropStale) := by
  have closed : ∀ keys, ({ s with keys } : Lexer).closeBlocks s.cursor.mark.column = { s with keys } := fun keys => by
    simp [closeBlocks, inFlow, flow]
  rw [step, toNextToken_solid next solid, dropStale_optional optional]
  exact congrArg (fun s : Lexer => do (← s.token).dropStale) (closed _)

theorem reaches_of_token {kind : TokenKind} {depth : Nat} {allowed : Bool} (inside : s.Inside)
    (next : s.cursor.rest = c :: cs) (solid : IsSolid c)
    (token : ∀ keys ⊆ s.keys, ∃ t, ({ s with keys } : Lexer).token = .ok t ∧ t.isDone = false ∧ t.depth = depth ∧
      t.indents = s.indents ∧ t.keys ⊆ s.keys ∧ t.cursor.rest = rest ∧
      t.tokens.map (·.kind) = kind :: s.tokens.map (·.kind) ∧ t.keyAllowed = allowed)
    (shorter : rest.length < (c :: cs).length) : ∃ t, s.Reaches t [kind] rest depth allowed := by
  obtain ⟨t, taken, notDone, atDepth, indents, kept, left, tokens, may⟩ :=
    token (s.keys.filter (!s.isStale ·)) fun _ mem => (List.mem_filter.1 mem).1
  have optional : ∀ k ∈ t.keys, k.required = false := fun k mem => inside.optional k (kept mem)
  refine ⟨{ t with keys := t.keys.filter (!t.isStale ·) }, ?_, notDone, atDepth, indents,
    fun _ mem => kept ((List.mem_filter.1 mem).1), left, tokens, may⟩
  refine .single ⟨inside.notDone, ?_, ?_⟩
  · rw [step_flow inside.flow inside.optional next solid, taken]
    exact dropStale_optional optional
  · rw [next]
    exact left ▸ shorter

theorem key?_inside (inside : s.Inside) {keys : List PendingKey} (sub : keys ⊆ s.keys) :
    ({ s with keys } : Lexer).key? = none := by
  cases keys with
  | nil => rfl
  | cons k keys =>
    have outer := inside.outer k (sub List.mem_cons_self)
    simp [key?, Option.filter, Nat.ne_of_lt outer]

theorem reaches_comma (inside : s.Inside) (next : s.cursor.rest = ',' :: cs) :
    ∃ t, s.Reaches t [.flowEntry] cs s.depth true := by
  refine reaches_of_token inside next (by unfold IsSolid; decide) (fun keys sub => ?_) (by simp)
  have token : ({ s with keys } : Lexer).token = ({ s with keys } : Lexer).flowEntry := by
    simp [token, Cursor.peek, next, Cursor.atDocumentIndicator]
  rw [token, flowEntry, dropKey, key?_inside inside sub]
  exact ⟨_, rfl, rfl, rfl, rfl, sub, by simp [take, push, Cursor.advance, next], rfl, rfl⟩

/-- A mapping as a value: no key may begin here. -/
theorem reaches_openBrace (inside : s.Inside) (next : s.cursor.rest = '\x7b' :: cs) (value : s.keyAllowed = false) :
    ∃ t, s.Reaches t [.flowMappingStart] cs (s.depth + 1) true := by
  refine reaches_of_token inside next (by unfold IsSolid; decide) (fun keys sub => ?_) (by simp)
  have token : ({ s with keys } : Lexer).token = ({ s with keys } : Lexer).openFlow .flowMappingStart := by
    simp [token, Cursor.peek, next, Cursor.atDocumentIndicator]
  rw [token, openFlow, saveKey]
  simp only [value, Bool.false_eq_true, if_false]
  exact ⟨_, rfl, rfl, rfl, rfl, sub, by simp [take, push, Cursor.advance, next], rfl, rfl⟩

theorem reaches_closeBrace (inside : s.Inside) (next : s.cursor.rest = '\x7d' :: cs) :
    ∃ t, s.Reaches t [.flowMappingEnd] cs (s.depth - 1) false := by
  refine reaches_of_token inside next (by unfold IsSolid; decide) (fun keys sub => ?_) (by simp)
  have token : ({ s with keys } : Lexer).token = ({ s with keys } : Lexer).closeFlow .flowMappingEnd := by
    simp [token, Cursor.peek, next, Cursor.atDocumentIndicator]
  rw [token, closeFlow, dropKey, key?_inside inside sub]
  exact ⟨_, rfl, rfl, rfl, rfl, sub, by simp [take, push, Cursor.advance, next], rfl, rfl⟩

theorem mem_digits {c : Char} (digit : c.isDigit = true) : c ∈ ['0', '1', '2', '3', '4', '5', '6', '7', '8', '9'] := by
  have bounds : 48 ≤ c.toNat ∧ c.toNat ≤ 57 := by
    simpa [Char.isDigit, UInt32.le_iff_toNat_le] using digit
  obtain ⟨low, high⟩ := bounds
  rw [← Char.ofNat_toNat c]
  generalize c.toNat = n at low high
  interval_cases n <;> decide

theorem digit_plain {c : Char} (digit : c.isDigit = true) :
    IsSolid c ∧ isIndicator c = false ∧ isBlankOrEnd (some c) = false ∧ Plain.isFlowIndicator c = false ∧
      c ≠ '.' ∧ c ≠ ':' := by
  have mem := mem_digits digit
  simp only [List.mem_cons, List.not_mem_nil, or_false] at mem
  unfold IsSolid
  rcases mem with rfl | rfl | rfl | rfl | rfl | rfl | rfl | rfl | rfl | rfl <;> decide

theorem token_plain (next : s.cursor.rest = c :: cs) (indicator : isIndicator c = false)
    (blank : isBlankOrEnd (some c) = false) (point : c ≠ '.') : s.token = s.plainScalar := by
  have indicator := indicator
  simp only [isIndicator, List.contains_cons, List.contains_nil, Bool.or_false, Bool.or_eq_false_iff,
    beq_eq_false_iff_ne] at indicator
  simp [token, Cursor.peek, next, Cursor.atDocumentIndicator, indicator, blank, point, isIndicator]

/-- What ends a value within a flow mapping. -/
def Closes (rest : List Char) : Prop := ∃ c cs, rest = c :: cs ∧ (c = ',' ∨ c = '\x7d')

theorem run_digits {ds : List Char} (digits : ∀ c ∈ ds, c.isDigit = true) (closes : Closes rest) :
    Plain.run true (ds ++ rest) = (ds, false) := by
  induction ds with
  | nil =>
    obtain ⟨c, cs, rfl, rfl | rfl⟩ := closes <;> simp [Plain.run, isBlankOrEnd, isBlank, isBreak, Plain.isFlowIndicator]
  | cons d ds ih =>
    have later := ih fun c mem => digits c (List.mem_cons_of_mem d mem)
    obtain ⟨-, -, blank, flow, -, colon⟩ := digit_plain (digits d List.mem_cons_self)
    simp [Plain.run, blank, flow, colon, later]

theorem read_digits {ds : List Char} {c : Cursor} (digits : ∀ c ∈ ds, c.isDigit = true) (some_digit : ds ≠ [])
    (next : c.rest = ds ++ rest) (closes : Closes rest) :
    Plain.read true 0 c = .ok (ds, (c.advance ds.length).mark, false, c.advance ds.length) := by
  have taken := run_digits digits closes
  have after : (c.advance ds.length).rest = rest := by simp [Cursor.advance, next]
  obtain ⟨d, ds, rfl⟩ := List.exists_cons_of_ne_nil some_digit
  obtain ⟨solid, -, -, -, point, -⟩ := digit_plain (digits d List.mem_cons_self)
  have minus : d ≠ '-' := by
    rintro rfl
    exact absurd (digits '-' List.mem_cons_self) (by decide)
  have document : c.atDocumentIndicator = false := by
    simp [Cursor.atDocumentIndicator, next, minus, point]
  have comment : c.peek ≠ some '#' := by
    simp [Cursor.peek, next, solid.2.2.1]
  have text : c.rest = d :: (ds ++ rest) := next
  have parts : Plain.parts true 0 c.mark c.rest ⟨[], {}, c.mark⟩ c
      = .ok (⟨(d :: ds).reverse, {}, (c.advance (d :: ds).length).mark⟩, c.advance (d :: ds).length) := by
    have last : (c.advance (d :: ds).length).peek.isNone = false ∧
        isBlankOrEnd (c.advance (d :: ds).length).peek = false := by
      rw [Cursor.peek, after]
      obtain ⟨e, cs, rfl, rfl | rfl⟩ := closes <;> exact ⟨rfl, rfl⟩
    rw [List.length_cons] at last
    have taken : Plain.run true c.rest = (d :: ds, false) := by rw [next, taken]
    rw [text, Plain.parts, taken]
    simp [document, comment, last, Gap.text]
  rw [Plain.read, parts]
  simp [bind, Except.bind, pure, Except.pure]

theorem reaches_number {ds : List Char} (digits : ∀ c ∈ ds, c.isDigit = true) (some_digit : ds ≠ [])
    (inside : s.Inside) (next : s.cursor.rest = ds ++ rest) (closes : Closes rest) (value : s.keyAllowed = false) :
    ∃ t, s.Reaches t [.scalar .plain (.ofList ds)] rest s.depth false := by
  have read := read_digits digits some_digit next closes
  obtain ⟨d, ds, rfl⟩ := List.exists_cons_of_ne_nil some_digit
  obtain ⟨solid, indicator, blank, -, point, -⟩ := digit_plain (digits d List.mem_cons_self)
  have next : s.cursor.rest = d :: (ds ++ rest) := next
  have shorter : rest.length < (d :: (ds ++ rest)).length := by
    simp only [List.length_cons, List.length_append]
    omega
  refine reaches_of_token inside next solid (fun keys sub => ?_) shorter
  have flow : inFlow { s with keys } = true := by simp [inFlow, inside.flow]
  have indent : indent { s with keys } + 1 = 0 := by simp [indent, inside.indents]
  have token : ({ s with keys } : Lexer).token = .ok
      { ({ s with keys } : Lexer).push (.scalar .plain (.ofList (d :: ds))) s.cursor.mark
          (s.cursor.advance (d :: ds).length).mark with
        cursor := s.cursor.advance (d :: ds).length, keyAllowed := false } := by
    rw [token_plain (s := { s with keys }) next indicator blank point, plainScalar, saveKey]
    simp only [value, Bool.false_eq_true, if_false]
    show (Plain.read (inFlow { s with keys }) (Lexer.indent { s with keys } + 1) s.cursor >>= _) = _
    rw [flow, indent, read]
    rfl
  exact ⟨_, token, rfl, rfl, rfl, sub, by simp [Cursor.advance, next], rfl, rfl⟩

theorem nameChar_plain {c : Char} (name : isNameChar c = true) :
    isBlankOrEnd (some c) = false ∧ c ≠ '\\' ∧ c ≠ '\'' ∧ c ≠ '"' := by
  have ne {d : Char} (other : isNameChar d = false) : c ≠ d := by
    rintro rfl
    simp [name] at other
  simp [isBlankOrEnd, isBlank, isBreak, ne (d := ' ') rfl, ne (d := '\t') rfl, ne (d := '\n') rfl, ne (d := '\r') rfl,
    ne (d := '\u0085') rfl, ne (d := '\u2028') rfl, ne (d := '\u2029') rfl, ne (d := '\\') rfl, ne (d := '\'') rfl,
    ne (d := '"') rfl]

theorem read_quote {bound text : List Char} {start : Mark} {c : Cursor} (next : c.rest = '"' :: rest)
    (some_bound : bound ≠ []) : Quoted.read false start bound text c = .ok (text.reverse, c.skip) := by
  obtain ⟨b, bound, rfl⟩ := List.exists_cons_of_ne_nil some_bound
  simp [Quoted.read, Cursor.atDocumentIndicator, Cursor.peek, next]

theorem read_quoted {name : List Char} {c : Cursor} (plain : ∀ c ∈ name, isNameChar c = true)
    (next : c.rest = '"' :: (name ++ '"' :: rest)) :
    Quoted.read false c.mark c.rest [] c.skip = .ok (name, (c.skip.advance name.length).skip) := by
  have column : c.skip.mark.column ≠ 0 := by simp [Cursor.skip, Cursor.advance]
  have after : c.skip.rest = name ++ '"' :: rest := by simp [Cursor.skip, Cursor.advance, next]
  cases name with
  | nil => exact (read_quote after (by simp [next])).trans (by simp [Cursor.advance_zero])
  | cons d ds =>
    obtain ⟨blank, backslash, single, quote⟩ := nameChar_plain (plain d List.mem_cons_self)
    have taken : c.skip.takeWhile (fun d => !isBlankOrEnd (some d) && d != '\\' && d != '\'' && d != '"')
        = d :: ds := by
      rw [Cursor.takeWhile, after, List.takeWhile_append_of_pos]
      · simp
      · intro e mem
        simp [nameChar_plain (plain e mem)]
    have left : (c.skip.advance (d :: ds).length).rest = '"' :: rest := by
      rw [Cursor.advance, after]
      simp
    have close : Quoted.read false c.mark (d :: ds ++ '"' :: rest) (d :: ds).reverse _ = _ := read_quote left (by simp)
    have peek : c.skip.peek = some d := by rw [Cursor.peek, after]; rfl
    rw [next, Quoted.read]
    simp only [Cursor.atDocumentIndicator, peek, taken]
    simpa [column, blank, backslash, quote] using close

theorem step_quoted {name : List Char} (plain : ∀ c ∈ name, isNameChar c = true) (short : byteLength name ≤ 1022)
    (inside : s.Inside) (next : s.cursor.rest = '"' :: (name ++ '"' :: cs)) (allowed : s.keyAllowed = true) :
    ∃ t keys, s.step = .ok t ∧ t.cursor.rest = cs ∧ t.depth = s.depth ∧ t.indents = s.indents ∧ keys ⊆ s.keys ∧
      t.keys = ⟨s.depth, s.count, false, s.cursor.mark⟩ :: keys ∧ t.count = s.count + 1 ∧
      (∃ start stop, t.tokens = ⟨.scalar .doubleQuoted (.ofList name), start, stop⟩ :: s.tokens) ∧
      t.isStale ⟨s.depth, s.count, false, s.cursor.mark⟩ = false := by
  let key : PendingKey := ⟨s.depth, s.count, false, s.cursor.mark⟩
  let old := s.keys.filter (!s.isStale ·)
  have sub : old ⊆ s.keys := fun _ mem => (List.mem_filter.1 mem).1
  let after := (s.cursor.skip.advance name.length).skip
  let t : Lexer := { ({ s with keys := key :: old } : Lexer).push (.scalar .doubleQuoted (.ofList name)) s.cursor.mark
    after.mark with cursor := after, keyAllowed := false }
  have token : ({ s with keys := old } : Lexer).token = .ok t := by
    have dispatch : ({ s with keys := old } : Lexer).token = ({ s with keys := old } : Lexer).quotedScalar false := by
      simp [token, Cursor.peek, next, Cursor.atDocumentIndicator]
    have save : ({ s with keys := old } : Lexer).saveKey = .ok { s with keys := key :: old } := by
      rw [saveKey, dropKey, key?_inside inside sub]
      simp [allowed, inFlow, inside.flow, bind, Except.bind, pure, Except.pure, key]
    rw [dispatch, quotedScalar, save]
    show (Quoted.read false s.cursor.mark s.cursor.rest [] s.cursor.skip >>= _) = _
    rw [read_quoted plain next]
    rfl
  have left : after.rest = cs := by simp [after, Cursor.skip, Cursor.advance, next]
  have fresh : t.isStale key = false := by
    have line : after.mark.line = s.cursor.mark.line := rfl
    have index : after.mark.index = s.cursor.mark.index + (byteLength name + 2) := by
      have size : ('"' : Char).utf8Size = 1 := rfl
      simp [after, Cursor.skip, Cursor.advance, next, byteLength, size]
      omega
    simp only [isStale, t, key, line, index, Bool.or_eq_false_iff, decide_eq_false_iff_not]
    omega
  have optional : ∀ k ∈ t.keys, k.required = false := by
    intro k mem
    rcases List.mem_cons.1 mem with rfl | mem
    · rfl
    · exact inside.optional k (sub mem)
  have dropped : t.dropStale = .ok { t with keys := key :: old.filter (!t.isStale ·) } := by
    have kept : t.keys.filter (!t.isStale ·) = key :: old.filter (!t.isStale ·) :=
      List.filter_cons_of_pos (by simp [fresh])
    rw [dropStale_optional optional, kept]
  refine ⟨{ t with keys := key :: old.filter (!t.isStale ·) }, old.filter (!t.isStale ·), ?_, left, rfl, rfl,
    fun _ mem => sub (List.mem_filter.1 mem).1, rfl, rfl, ⟨_, _, rfl⟩, fresh⟩
  rw [step_flow inside.flow inside.optional next (by unfold IsSolid; decide), token]
  exact dropped

theorem step_colon {key : PendingKey} {keys : List PendingKey} (flow : 0 < s.depth)
    (noted : s.keys = key :: keys) (depth : key.depth = s.depth) (fresh : s.isStale key = false)
    (optional : ∀ k ∈ s.keys, k.required = false) (next : s.cursor.rest = ':' :: cs) :
    ∃ t start stop mark, s.step = .ok t ∧ t.cursor.rest = cs ∧ t.depth = s.depth ∧ t.indents = s.indents ∧
      t.keys ⊆ keys ∧ t.tokens = ⟨.value, start, stop⟩ :: s.tokens.insertIdx (s.count - key.token) ⟨.key, mark, mark⟩ ∧
      t.keyAllowed = false := by
  let old := keys.filter (!s.isStale ·)
  have kept : s.keys.filter (!s.isStale ·) = key :: old := by simp [noted, fresh, old]
  have dispatch : ({ s with keys := key :: old } : Lexer).token = ({ s with keys := key :: old } : Lexer).value := by
    simp [token, Cursor.peek, next, Cursor.atDocumentIndicator, inFlow, flow]
  let t : Lexer := take { ({ s with keys := old } : Lexer).insert key.token .key key.mark with keyAllowed := false } 1
    .value
  have token : ({ s with keys := key :: old } : Lexer).token = .ok t := by
    have first : ({ s with keys := key :: old } : Lexer).key? = some key := by
      simp [key?, Option.filter, depth]
    have within : inFlow (({ s with keys := old } : Lexer).insert key.token .key key.mark) = true := by
      simp [inFlow, insert, flow]
    rw [dispatch, value, first]
    simp only [openBlock, List.drop_one, List.tail_cons, within]
    simp [t]
  have still : ∀ k ∈ t.keys, k.required = false := fun k mem =>
    optional k (noted ▸ List.mem_cons_of_mem key (List.mem_filter.1 mem).1)
  refine ⟨{ t with keys := t.keys.filter (!t.isStale ·) }, _, _, _, ?_, ?_, rfl, rfl, ?_, rfl, rfl⟩
  · rw [step_flow flow optional next (by unfold IsSolid; decide), kept, token]
    exact dropStale_optional still
  · simp [t, take, push, insert, Cursor.advance, next]
  · exact fun k mem => (List.mem_filter.1 (List.mem_filter.1 mem).1).1

theorem reaches_key {name : List Char} (plain : ∀ c ∈ name, isNameChar c = true) (short : byteLength name ≤ 1022)
    (inside : s.Inside) (next : s.cursor.rest = '"' :: (name ++ '"' :: ':' :: cs)) (allowed : s.keyAllowed = true) :
    ∃ t, s.Reaches t [.key, .scalar .doubleQuoted (.ofList name), .value] cs s.depth false := by
  obtain ⟨t, keys, quoted, left, depth, indents, sub, noted, count, ⟨start, stop, tokens⟩, fresh⟩ :=
    step_quoted plain short inside next allowed
  have optional : ∀ k ∈ t.keys, k.required = false := by
    intro k mem
    rcases List.mem_cons.1 (noted ▸ mem) with rfl | mem
    · rfl
    · exact inside.optional k (sub mem)
  obtain ⟨u, start', stop', mark, colon, left', depth', indents', sub', tokens', allowed'⟩ :=
    step_colon (depth ▸ inside.flow) noted depth.symm fresh optional left
  have place : t.count - s.count = 1 := by omega
  refine ⟨u, ?_, ?_, depth'.trans depth, indents'.trans indents, fun k mem => sub (sub' mem), left', ?_, allowed'⟩
  · refine .tail (.single ⟨inside.notDone, quoted, ?_⟩) ⟨?_, colon, ?_⟩
    · rw [left, next]
      simp
      omega
    · simp [isDone, tokens]
    · rw [left', left]
      simp
  · simp [isDone, tokens']
  · simp [tokens', tokens, place]

theorem Reaches.inside {u : Lexer} {kinds : List TokenKind} {depth : Nat} {allowed : Bool} (inside : s.Inside)
    (reaches : s.Reaches u kinds rest depth allowed) (deep : s.depth ≤ depth) : u.Inside where
  notDone := reaches.notDone
  flow := reaches.depth ▸ inside.flow.trans_le deep
  indents := reaches.indents.trans inside.indents
  outer k mem := reaches.depth ▸ (inside.outer k (reaches.keys mem)).trans_le deep
  optional k mem := inside.optional k (reaches.keys mem)

theorem Reaches.trans {u : Lexer} {kinds kinds' : List TokenKind} {rest' : List Char} {depth depth' : Nat}
    {allowed allowed' : Bool} (first : s.Reaches t kinds rest depth allowed)
    (second : t.Reaches u kinds' rest' depth' allowed') : s.Reaches u (kinds ++ kinds') rest' depth' allowed' where
  advances := first.advances.trans second.advances
  notDone := second.notDone
  depth := second.depth
  indents := second.indents.trans first.indents
  keys := fun _ mem => first.keys (second.keys mem)
  rest := second.rest
  tokens := by rw [second.tokens, first.tokens, List.reverse_append, List.append_assoc]
  allowed := second.allowed

end Lexer

end VectorGraph.Yaml
