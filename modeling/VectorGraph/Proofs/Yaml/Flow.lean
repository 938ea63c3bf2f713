import VectorGraph.Json.Value
import VectorGraph.Proofs.Yaml.Lexing
import VectorGraph.Yaml.Document

/-!
JSON values read as YAML. A compact JSON object is one flow mapping, whose tokens, events and items are those of
its members one after another.
-/
namespace VectorGraph

namespace Yaml

open Lexer

/-- What a value of a flow mapping is as JSON, as tokens, and as items of a document. -/
structure Piece where
  json : Json
  kinds : List TokenKind
  contents : List Content

/-- Parts one after another, with a separator between any two. -/
def separated {α β : Type} (separator : α) (f : β → List α) : List β → List α
  | [] => []
  | b :: bs => f b ++ bs.flatMap fun b => separator :: f b

theorem separated_cons {α β : Type} (separator : α) (f : β → List α) (b c : β) (bs : List β) :
    separated separator f (b :: c :: bs) = f b ++ separator :: separated separator f (c :: bs) := by
  simp [separated]

namespace Piece

def number (n : UInt64) : Piece where
  json := .integer n.toNat
  kinds := [.scalar .plain (.ofList (Nat.toDigits 10 n.toNat))]
  contents := [.scalar ⟨none, .plain, .ofList (Nat.toDigits 10 n.toNat)⟩]

def memberText (m : String × Json) : List Char := Json.writeString m.1 ++ ':' :: m.2.compact

def memberKinds (m : String × Piece) : List TokenKind :=
  [.key, .scalar .doubleQuoted m.1, .value] ++ m.2.kinds

def memberContents (m : String × Piece) : List Content := .scalar ⟨none, .doubleQuoted, m.1⟩ :: m.2.contents

def mapping (ms : List (String × Piece)) : Piece where
  json := .object (ms.map fun m => (m.1, m.2.json))
  kinds := .flowMappingStart :: (separated .flowEntry memberKinds ms ++ [.flowMappingEnd])
  contents := .mappingStart :: (ms.flatMap memberContents ++ [.mappingEnd])

theorem compactMembers_eq (ms : List (String × Json)) : Json.compactMembers ms = separated ',' memberText ms := by
  induction ms with
  | nil => rfl
  | cons m ms ih =>
    cases ms with
    | nil => simp [Json.compactMembers, separated, memberText]
    | cons m' ms => simp [Json.compactMembers, separated, memberText, ih]

variable {s : Lexer} {rest : List Char}

/-- Within a flow mapping the text of the value becomes its tokens. -/
def Scanned (p : Piece) : Prop := ∀ (s : Lexer) (rest : List Char), s.Inside → s.keyAllowed = false →
  s.cursor.rest = p.json.compact ++ rest → Closes rest → ∃ t, s.Reaches t p.kinds rest s.depth false

/-- A name of letters, digits and the like that can stand before a colon. -/
def IsKey (name : String) : Prop := (∀ c ∈ name.toList, isNameChar c = true) ∧ byteLength name.toList ≤ 1022

theorem isKey_of_all {name : String} (all : name.toList.all isNameChar = true) (short : byteLength name.toList ≤ 1022) :
    IsKey name :=
  ⟨List.all_eq_true.1 all, short⟩

theorem text_number (n : UInt64) : (number n).json.compact = Nat.toDigits 10 n.toNat := by
  have nonneg : ¬((n.toNat : Int) < 0) := by omega
  simp [number, Json.compact, Json.writeInteger, signed, nonneg]

theorem scanned_number (n : UInt64) : (number n).Scanned := by
  intro s rest inside value next closes
  have digits : ∀ c ∈ Nat.toDigits 10 n.toNat, c.isDigit = true := fun c mem =>
    Nat.isDigit_of_mem_toDigits (by decide) (by decide) mem
  exact reaches_number digits Nat.toDigits_ne_nil inside (text_number n ▸ next) closes value

theorem nameChar_bounds {c : Char} (name : isNameChar c = true) : 32 ≤ c.toNat ∧ c.toNat ≤ 126 := by
  delta isNameChar Char.isAlphanum Char.isAlpha Char.isUpper Char.isLower Char.isDigit at name
  simp only [Bool.or_eq_true, Bool.and_eq_true, decide_eq_true_eq, beq_iff_eq, UInt32.le_iff_toNat_le] at name
  rcases name with (((⟨low, high⟩ | ⟨low, high⟩) | ⟨low, high⟩) | rfl) | rfl
  · exact ⟨le_trans (by decide) low, le_trans high (by decide)⟩
  · exact ⟨le_trans (by decide) low, le_trans high (by decide)⟩
  · exact ⟨le_trans (by decide) low, le_trans high (by decide)⟩
  · decide
  · decide

theorem escapeChar_nameChar {c : Char} (name : isNameChar c = true) : Json.escapeChar c = [c] := by
  have above : ¬c.toNat < 32 := by have := nameChar_bounds name; omega
  obtain ⟨-, backslash, -, quote⟩ := nameChar_plain name
  unfold Json.escapeChar
  split
  · exact absurd rfl quote
  · exact absurd rfl backslash
  iterate 5 exact absurd (by decide) above
  · simp [above]

theorem writeString_key {name : String} (key : IsKey name) : Json.writeString name = '"' :: (name.toList ++ ['"']) := by
  have same : ∀ cs : List Char, (∀ c ∈ cs, isNameChar c = true) → cs.flatMap Json.escapeChar = cs := by
    intro cs plain
    induction cs with
    | nil => rfl
    | cons c cs ih =>
      rw [List.flatMap_cons, escapeChar_nameChar (plain c List.mem_cons_self),
        ih fun c mem => plain c (List.mem_cons_of_mem _ mem)]
      rfl
  simp [Json.writeString, same name.toList key.1]

theorem reaches_member {name : String} {p : Piece} (key : IsKey name) (scanned : p.Scanned) (inside : s.Inside)
    (allowed : s.keyAllowed = true) (next : s.cursor.rest = memberText (name, p.json) ++ rest) (closes : Closes rest) :
    ∃ t, s.Reaches t (memberKinds (name, p)) rest s.depth false := by
  have next : s.cursor.rest = '"' :: (name.toList ++ '"' :: ':' :: (p.json.compact ++ rest)) := by
    rw [next, memberText, writeString_key key]
    simp
  obtain ⟨t, first⟩ := reaches_key key.1 key.2 inside next allowed
  obtain ⟨u, second⟩ := scanned t rest (first.inside inside le_rfl) first.allowed first.rest closes
  rw [String.ofList_toList] at first
  rw [first.depth] at second
  exact ⟨u, first.trans second⟩

theorem reaches_members {m : String × Piece} {ms : List (String × Piece)} (keys : ∀ m' ∈ m :: ms, IsKey m'.1)
    (scanned : ∀ m' ∈ m :: ms, m'.2.Scanned) (inside : s.Inside) (allowed : s.keyAllowed = true)
    (next : s.cursor.rest = separated ',' memberText ((m :: ms).map fun m => (m.1, m.2.json)) ++ rest)
    (closes : Closes rest) : ∃ t, s.Reaches t (separated .flowEntry memberKinds (m :: ms)) rest s.depth false := by
  have key := keys m List.mem_cons_self
  have value := scanned m List.mem_cons_self
  induction ms generalizing m s with
  | nil =>
    obtain ⟨t, reaches⟩ := reaches_member key value inside allowed (by simpa [separated] using next) closes
    exact ⟨t, by simpa [separated] using reaches⟩
  | cons m' ms ih =>
    rw [List.map_cons, List.map_cons, separated_cons, List.append_assoc, List.cons_append] at next
    obtain ⟨t, first⟩ := reaches_member key value inside allowed next ⟨_, _, rfl, .inl rfl⟩
    have within := first.inside inside le_rfl
    obtain ⟨u, comma⟩ := reaches_comma within first.rest
    have within' := comma.inside within le_rfl
    have keys n (mem : n ∈ m' :: ms) := keys n (List.mem_cons_of_mem m mem)
    have scanned n (mem : n ∈ m' :: ms) := scanned n (List.mem_cons_of_mem m mem)
    obtain ⟨v, rest⟩ := ih keys scanned within' comma.allowed comma.rest (keys m' List.mem_cons_self)
      (scanned m' List.mem_cons_self)
    rw [separated_cons]
    have depth : u.depth = s.depth := comma.depth.trans first.depth
    have all := (first.trans comma).trans rest
    rw [depth] at all
    exact ⟨v, by simpa using all⟩

theorem reaches_inside {ms : List (String × Piece)} (keys : ∀ m ∈ ms, IsKey m.1) (scanned : ∀ m ∈ ms, m.2.Scanned)
    (inside : s.Inside) (allowed : s.keyAllowed = true)
    (next : s.cursor.rest = Json.compactMembers (ms.map fun m => (m.1, m.2.json)) ++ '\x7d' :: rest) :
    ∃ t, s.Reaches t (separated .flowEntry memberKinds ms ++ [.flowMappingEnd]) rest (s.depth - 1) false := by
  rw [compactMembers_eq] at next
  cases ms with
  | nil => exact reaches_closeBrace inside next
  | cons m ms =>
    obtain ⟨t, first⟩ := reaches_members keys scanned inside allowed next ⟨_, _, rfl, .inr rfl⟩
    obtain ⟨u, close⟩ := reaches_closeBrace (first.inside inside le_rfl) first.rest
    rw [first.depth] at close
    exact ⟨u, first.trans close⟩

theorem scanned_mapping {ms : List (String × Piece)} (keys : ∀ m ∈ ms, IsKey m.1) (scanned : ∀ m ∈ ms, m.2.Scanned) :
    (mapping ms).Scanned := by
  intro s rest inside value next closes
  have next : s.cursor.rest = '\x7b' :: (Json.compactMembers (ms.map fun m => (m.1, m.2.json)) ++ '\x7d' :: rest) := by
    simpa [mapping, Json.compact] using next
  obtain ⟨t, first⟩ := reaches_openBrace inside next value
  obtain ⟨u, close⟩ := reaches_inside keys scanned (first.inside inside (by omega)) first.allowed first.rest
  rw [first.depth] at close
  exact ⟨u, first.trans close⟩

/-- The opening brace of the whole text, where a key could begin. -/
theorem advance_start (cs : List Char) : ∃ t, Advance (.start ('\x7b' :: cs)) t ∧ t.Inside ∧ t.depth = 1 ∧
    t.keyAllowed = true ∧ t.cursor.rest = cs ∧ t.tokens.map (·.kind) = [.flowMappingStart, .streamStart] := by
  let s : Lexer := .start ('\x7b' :: cs)
  let t : Lexer := take { s with keys := [⟨0, 1, false, {}⟩], depth := 1, keyAllowed := true } 1 .flowMappingStart
  have solid : IsSolid '\x7b' := by
    unfold IsSolid
    decide
  have optional : ∀ k ∈ t.keys, k.required = false := by simp [t, take, push]
  have token : s.token = .ok t := by
    have dispatch : s.token = s.openFlow .flowMappingStart := by
      simp [s, Lexer.token, Lexer.start, Cursor.peek, Cursor.atDocumentIndicator]
    rw [dispatch]
    rfl
  refine ⟨{ t with keys := t.keys.filter (!t.isStale ·) },
    ⟨rfl, ?_, by simp [t, s, take, push, Cursor.advance, Lexer.start]⟩, ?_, rfl, rfl, rfl, rfl⟩
  · show s.step = _
    rw [step, toNextToken_solid rfl solid]
    show (s.token >>= Lexer.dropStale) = _
    rw [token]
    exact dropStale_optional optional
  · exact {
      notDone := rfl
      flow := Nat.one_pos
      indents := rfl
      outer := fun k mem => by
        have mem := (List.mem_filter.1 mem).1
        simp only [t, take, push, List.mem_cons, List.not_mem_nil, or_false] at mem
        subst mem
        exact Nat.one_pos
      optional := fun k mem => optional k (List.mem_filter.1 mem).1 }

theorem dropKey_optional (optional : ∀ k ∈ s.keys, k.required = false) :
    ∃ keys, keys ⊆ s.keys ∧ s.dropKey = .ok { s with keys } := by
  unfold dropKey
  cases noted : s.key? with
  | none => exact ⟨s.keys, fun _ mem => mem, rfl⟩
  | some key =>
    have mem : key ∈ s.keys := List.mem_of_mem_head? (Option.eq_some_of_filter_eq_some noted)
    exact ⟨s.keys.drop 1, fun _ mem => List.mem_of_mem_drop mem, by simp [optional key mem]⟩

theorem closeBlocks_none (indents : s.indents = []) (column : Int) : s.closeBlocks column = s := by
  unfold closeBlocks
  split
  · rfl
  · simp only [indents]
    show { s with indents := [] } = s
    rw [← indents]

theorem step_end (indents : s.indents = []) (optional : ∀ k ∈ s.keys, k.required = false) (next : s.cursor.rest = []) :
    ∃ t mark, s.step = .ok t ∧ t.tokens = ⟨.streamEnd, mark, mark⟩ :: s.tokens := by
  have still : s.toNextToken s.cursor.rest = s := by rw [next]; rfl
  let m := s.cursor.mark
  let mark := if m.column = 0 then m else { m with line := m.line + 1, column := 0 }
  let old := s.keys.filter (!s.isStale ·)
  let ended : Lexer := { s with keys := old, cursor := { s.cursor with mark } }
  have optional : ∀ k ∈ old, k.required = false := fun k mem => optional k (List.mem_filter.1 mem).1
  obtain ⟨keys, sub, dropped⟩ := dropKey_optional (s := ended) optional
  let t : Lexer := { ended with keys, keyAllowed := false }.push .streamEnd mark mark
  have token : ({ s with keys := old } : Lexer).token = .ok t := by
    have dispatch : ({ s with keys := old } : Lexer).token = ({ s with keys := old } : Lexer).streamEnd := by
      simp [Lexer.token, Cursor.peek, next]
    rw [dispatch, streamEnd]
    show (((ended.closeBlocks (-1)).dropKey) >>= _) = _
    rw [closeBlocks_none (s := ended) indents, dropped]
    rfl
  refine ⟨{ t with keys := t.keys.filter (!t.isStale ·) }, mark, ?_, rfl⟩
  rw [step, still, dropStale_optional ‹_›]
  show ((({ s with keys := old } : Lexer).closeBlocks m.column).token >>= Lexer.dropStale) = _
  rw [closeBlocks_none (s := { s with keys := old }) indents, token]
  exact dropStale_optional fun k mem => optional k (sub mem)

theorem run_end {count : Nat} (enough : 2 ≤ count) (notDone : s.isDone = false) (indents : s.indents = [])
    (optional : ∀ k ∈ s.keys, k.required = false) (next : s.cursor.rest = []) :
    ∃ mark, run none count s = ((⟨.streamEnd, mark, mark⟩ :: s.tokens).reverse, none) := by
  obtain ⟨count, rfl⟩ : ∃ n, count = n + 2 := ⟨count - 2, by omega⟩
  obtain ⟨t, mark, ok, tokens⟩ := step_end indents optional next
  have done : t.isDone = true := by simp [isDone, tokens]
  exact ⟨mark, by simp [run, notDone, ok, done, tokens]⟩

theorem find?_none {block offset : Nat} {text : List Char} (clean : ∀ c ∈ text, isControl c = false) :
    Barrier.find? block offset text = none := by
  induction text generalizing block offset with
  | nil => rfl
  | cons c cs ih =>
    simp [Barrier.find?, clean c List.mem_cons_self, ih fun c mem => clean c (List.mem_cons_of_mem _ mem)]

/-- No control character stands in the text of the value. -/
def Clean (p : Piece) : Prop := ∀ c ∈ p.json.compact, isControl c = false

theorem nameChar_clean {c : Char} (name : isNameChar c = true) : isControl c = false := by
  simp [isControl, nameChar_bounds name]

theorem clean_number (n : UInt64) : (number n).Clean := by
  intro c mem
  rw [text_number] at mem
  have digit := Nat.isDigit_of_mem_toDigits (by decide) (by decide) mem
  exact nameChar_clean (by simp [isNameChar, Char.isAlphanum, digit])

theorem mem_separated {α β : Type} {separator a : α} {f : β → List α} {bs : List β}
    (mem : a ∈ separated separator f bs) : a = separator ∨ ∃ b ∈ bs, a ∈ f b := by
  cases bs with
  | nil => simp [separated] at mem
  | cons b bs =>
    simp only [separated, List.mem_append, List.mem_flatMap, List.mem_cons] at mem
    rcases mem with mem | ⟨c, other, rfl | mem⟩
    · exact .inr ⟨b, List.mem_cons_self, mem⟩
    · exact .inl rfl
    · exact .inr ⟨c, List.mem_cons_of_mem b other, mem⟩

theorem clean_mapping {ms : List (String × Piece)} (keys : ∀ m ∈ ms, IsKey m.1) (clean : ∀ m ∈ ms, m.2.Clean) :
    (mapping ms).Clean := by
  intro c mem
  simp only [mapping, Json.compact, compactMembers_eq, List.mem_cons, List.mem_append, List.not_mem_nil,
    or_false] at mem
  rcases mem with (rfl | inner) | rfl
  · rfl
  · rcases mem_separated inner with rfl | ⟨_, present, inner⟩
    · rfl
    · obtain ⟨m, member, rfl⟩ := List.mem_map.1 present
      rw [memberText, writeString_key (keys m member)] at inner
      simp only [List.cons_append, List.mem_cons, List.mem_append, List.not_mem_nil, or_false] at inner
      rcases inner with rfl | (name | rfl) | rfl | value
      · rfl
      · exact nameChar_clean ((keys m member).1 c name)
      · rfl
      · rfl
      · exact clean m member c value
  · rfl

theorem tokens_mapping {ms : List (String × Piece)} (keys : ∀ m ∈ ms, IsKey m.1) (scanned : ∀ m ∈ ms, m.2.Scanned)
    (clean : ∀ m ∈ ms, m.2.Clean) :
    ∃ ts, tokens (mapping ms).json.compact = (ts, none) ∧
      ts.map (·.kind) = .streamStart :: ((mapping ms).kinds ++ [.streamEnd]) := by
  have text : (mapping ms).json.compact
      = '\x7b' :: (Json.compactMembers (ms.map fun m => (m.1, m.2.json)) ++ ['\x7d']) := by
    simp [mapping, Json.compact]
  obtain ⟨t, first, inside, depth, allowed, next, kinds⟩ :=
    advance_start (Json.compactMembers (ms.map fun m => (m.1, m.2.json)) ++ ['\x7d'])
  obtain ⟨u, close⟩ := reaches_inside keys scanned inside allowed next
  have long : (Lexer.start (mapping ms).json.compact).cursor.rest.length + 2 ≤ (mapping ms).json.compact.length + 2 :=
    le_rfl
  rw [text] at long
  obtain ⟨count, enough, same⟩ := run_advances (.head first close.advances) long
  have enough : 2 ≤ count := by omega
  obtain ⟨mark, ended⟩ := run_end enough close.notDone (close.indents.trans inside.indents)
    (fun k mem => inside.optional k (close.keys mem)) close.rest
  refine ⟨(⟨.streamEnd, mark, mark⟩ :: u.tokens).reverse, ?_, ?_⟩
  · rw [tokens, find?_none (clean_mapping keys clean), ← ended, ← same, text]
  · simp [close.tokens, kinds, mapping]

end Piece

end Yaml

end VectorGraph
