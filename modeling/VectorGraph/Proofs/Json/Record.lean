import VectorGraph.Json.Record
import VectorGraph.Proofs.Json.Numeral

/-!
Records are read back from their texts. A field returns an update where its reader gives that update for what
the field writes; words, handles and links return what the record holds. A record whose members have distinct
names is then read back member by member, so what it reads to is settled by what its fields return.
-/

namespace VectorGraph.Json

namespace Reader

variable {α β : Type} {cs rest rest' : List Char}

theorem bind_ok {r : Reader α} {f : α → Reader β} {v : α} (read : r cs = .ok (v, rest)) :
    (r >>= f) cs = f v rest := by
  show (r cs >>= fun p => f p.1 p.2) = f v rest
  rw [read]
  rfl

theorem bind_error {r : Reader α} {f : α → Reader β} {fault : Fault} (failed : r cs = .error fault) :
    (r >>= f) cs = .error fault := by
  show (r cs >>= fun p => f p.1 p.2) = .error fault
  rw [failed]
  rfl

theorem pure_apply (v : α) (cs : List Char) : (pure v : Reader α) cs = .ok (v, cs) := rfl

theorem control_digits : ∀ n < 32,
    List.replicate (4 - (Text.hexDigits n).length) '0' ++ Text.hexDigits n
        = ['0', '0', Nat.digitChar (n / 16), Nat.digitChar (n % 16)] ∧
      Text.hexNumber? ['0', '0', Nat.digitChar (n / 16), Nat.digitChar (n % 16)] = some n ∧
      isHighSurrogate n = false ∧ isLowSurrogate n = false := by
  decide

theorem string?_escapeChar (c : Char) (rest : List Char) :
    string? (escapeChar c ++ rest) = (string? rest).map fun (s, cs) => (c :: s, cs) := by
  unfold escapeChar
  split
  iterate 7 simp [string?, escape?]
  split
  · rename_i control
    obtain ⟨digits, number, high, low⟩ := control_digits c.toNat control
    simp [digits, string?, number, high, low]
  · rename_i control
    simp only [List.cons_append, List.nil_append]
    rw [string?.eq_def]
    split <;> simp_all

theorem string?_flatMap (s rest : List Char) :
    string? (s.flatMap escapeChar ++ '"' :: rest) = some (s, rest) := by
  induction s with
  | nil => simp [string?]
  | cons c s ih => rw [List.flatMap_cons, List.append_assoc, string?_escapeChar, ih]; rfl

theorem char_cons (c : Char) (cs : List Char) : char c (c :: cs) = .ok ((), cs) := by simp [char, word]

theorem string_writeString (s : String) (rest : List Char) :
    string (writeString s ++ rest) = .ok (s, rest) := by
  have taken : ofOption string? (s.toList.flatMap escapeChar ++ '"' :: rest) = .ok (s.toList, rest) := by
    rw [ofOption, string?_flatMap]
  unfold string writeString
  rw [List.cons_append, List.cons_append, List.append_assoc, bind_ok (char_cons _ _), List.singleton_append,
    bind_ok taken, pure_apply, String.ofList_toList]

theorem space_cons {c : Char} (other : isSpace c = false) : space (c :: cs) = .ok ((), c :: cs) := by
  simp [space, other]

theorem peek_cons (c : Char) (cs : List Char) : peek (c :: cs) = .ok (some c, c :: cs) := rfl

theorem isSpace_of_startsNumber {c : Char} (starts : startsNumber c = true) : isSpace c = false := by
  cases space : isSpace c with
  | false => rfl
  | true =>
    simp only [isSpace, Bool.or_eq_true, beq_iff_eq] at space
    rcases space with ((rfl | rfl) | rfl) | rfl <;> simp [startsNumber] at starts

theorem starts_of_read? {n : Numeral} (read : Numeral.read? cs = some (n, rest)) :
    ∃ c cs', cs = c :: cs' ∧ startsNumber c = true := by
  match cs with
  | [] => simp [Numeral.read?, Numeral.whole?, Numeral.digits?] at read
  | c :: cs =>
    refine ⟨c, cs, rfl, ?_⟩
    by_cases minus : c = '-'
    · simp [startsNumber, minus]
    · cases digit : c.isDigit with
      | true => simp [startsNumber, digit]
      | false =>
        have refused : Numeral.whole? (c :: cs) = none := by
          simp [Numeral.whole?, Numeral.digits?, List.span_eq_takeWhile_dropWhile, digit]
        unfold Numeral.read? at read
        split at read
        simp_all

theorem number_read {n : Numeral} {x : Number} (read : Numeral.read? cs = some (n, rest))
    (value : n.value? = some x) : number cs = .ok (x, rest) := by
  have taken : ofOption Numeral.read? cs = .ok (n, rest) := by rw [ofOption, read]
  unfold number
  rw [bind_ok taken]
  simp [value, pure_apply]

theorem ofNumber_read {n : Numeral} {x : Number} {convert : Number → Except Mismatch α} {a : α} (expected : String)
    (read : Numeral.read? cs = some (n, rest)) (value : n.value? = some x) (converted : convert x = .ok a) :
    ofNumber expected convert cs = .ok (a, rest) := by
  obtain ⟨c, cs, rfl, starts⟩ := starts_of_read? read
  unfold ofNumber
  rw [bind_ok (space_cons (isSpace_of_startsNumber starts)), bind_ok (peek_cons c cs)]
  simp only [starts, if_true]
  rw [bind_ok (number_read read value), converted]
  rfl

theorem read?_writeInteger (w : UInt64) (ends : Stops rest) :
    ∃ n, Numeral.read? (writeInteger w.toNat ++ rest) = some (n, rest) ∧ n.value? = some (.unsigned w.toNat) := by
  let d : Decimal := ⟨w.toNat, 0⟩
  have digits : Nat.ofDigitChars 10 d.digitList 0 = w.toNat := d.ofDigitChars_digitList
  refine ⟨⟨false, d.digitList, [], none, false⟩, ?_, ?_⟩
  · have text : writeInteger w.toNat = (⟨false, d.digitList, [], none, false⟩ : Numeral).text := by
      simp [writeInteger, Numeral.text, Numeral.point, Numeral.power, signed, Decimal.digitList, d]
    rw [text]
    exact Numeral.read?_text {
      whole := d.isDigit_of_mem_digitList
      whole_ne_nil := d.digitList_ne_nil
      leads := d.digitList_lead
      fraction := by simp
      exponent := by simp
      isFloat := rfl } ends
  · rw [Numeral.value?_whole rfl rfl (digits ▸ w.toNat_lt), digits]

theorem uint64_writeInteger (expected : String) (w : UInt64) (ends : Stops rest) :
    uint64 expected (writeInteger w.toNat ++ rest) = .ok (w, rest) := by
  obtain ⟨n, read, value⟩ := read?_writeInteger w ends
  have taken : uint64 expected (writeInteger w.toNat ++ rest) = .ok (.ofNat w.toNat, rest) :=
    ofNumber_read expected read value rfl
  rw [taken, UInt64.ofNat_toNat]

theorem optional_null {r : Reader α} : optional r ("null".toList ++ rest) = .ok (none, rest) := rfl

theorem optional_writeInteger (expected : String) (w : UInt64) (ends : Stops rest) :
    optional (uint64 expected) (writeInteger w.toNat ++ rest) = .ok (some w, rest) := by
  obtain ⟨n, read, value⟩ := read?_writeInteger w ends
  have word := uint64_writeInteger expected w ends
  obtain ⟨c, cs, text, starts⟩ := starts_of_read? read
  rw [text] at word ⊢
  unfold optional
  rw [bind_ok (space_cons (isSpace_of_startsNumber starts)), bind_ok (peek_cons c cs)]
  have other : c ≠ 'n' := by
    rintro rfl
    simp [startsNumber] at starts
  simp [other, bind_ok word, pure_apply]

end Reader

namespace Field

open Reader

variable {α : Type}

/-- Reading what the field writes of a record gives this update, whatever ends the text. -/
def Returns (f : Field α) (v : α) (update : α → α) : Prop :=
  ∀ rest, Stops rest → f.read ((f.write v).compact ++ rest) = .ok (update, rest)

/-- Reading what the field writes of a record fails, whatever follows. -/
def Refuses (f : Field α) (v : α) (fault : Fault) : Prop :=
  ∀ rest, f.read ((f.write v).compact ++ rest) = .error fault

variable {name : String} {v : α}

theorem Returns.of_read {β : Type} {f : Field α} {r : Reader β} {set : β → α → α} {x : β}
    (reader : f.read = r >>= fun y => pure (set y))
    (read : ∀ rest, Stops rest → r ((f.write v).compact ++ rest) = .ok (x, rest)) : f.Returns v (set x) := by
  intro rest ends
  rw [reader, bind_ok (read rest ends), pure_apply]

theorem Returns.word {get : α → UInt64} {set : UInt64 → α → α} : (word name get set).Returns v (set (get v)) :=
  .of_read rfl fun _ => uint64_writeInteger "u64" (get v)

theorem Returns.id {get : α → Id} {set : Id → α → α} : (id name get set).Returns v (set (get v)) :=
  Returns.word

theorem Returns.ref {kind : Kind} {get : α → Ref kind} {set : Ref kind → α → α} :
    (ref name get set).Returns v (set (get v)) :=
  Returns.id

theorem Returns.link {kind : Kind} {get : α → Option (Ref kind)} {set : Option (Ref kind) → α → α} :
    (link name get set).Returns v (set (get v)) := by
  intro rest ends
  simp only [Field.link]
  cases get v with
  | none =>
    simp only [Json.compact]
    rw [bind_ok optional_null, pure_apply, Option.map_none]
  | some ref =>
    simp only [Json.compact]
    rw [bind_ok (optional_writeInteger "u64" ref.id.raw ends), pure_apply]
    rfl

theorem Returns.float64 {get : α → Binary64} {set : Binary64 → α → α} {x : Binary64}
    (read : ∀ rest, Stops rest → Reader.float64 (writeBinary64 (get v) ++ rest) = .ok (x, rest)) :
    (float64 name get set).Returns v (set x) :=
  .of_read rfl read

theorem Returns.float32 {get : α → Binary32} {set : Binary32 → α → α} {x : Binary32}
    (read : ∀ rest, Stops rest → Reader.float32 (writeBinary32 (get v) ++ rest) = .ok (x, rest)) :
    (float32 name get set).Returns v (set x) :=
  .of_read rfl read

theorem Returns.flag {get : α → Bool} {set : Bool → α → α} : (flag name get set).Returns v (set (get v)) := by
  have read (b : Bool) (rest : List Char) : Reader.bool ((Json.bool b).compact ++ rest) = .ok (b, rest) := by
    cases b <;> rfl
  exact .of_read rfl fun rest _ => read (get v) rest

end Field

namespace Form

open Reader

variable {α : Type} {form : Form α} {v w : α}

/-- The members of some fields, after a comma unless they are the first. -/
def membersText (first : Bool) (v : α) : List (Field α) → List Char
  | [] => []
  | f :: fs => (if first then [] else [',']) ++ (writeString f.name ++ ':' ::
      ((f.write v).compact ++ membersText false v fs))

theorem compactMembers_eq (fields : List (Field α)) (v : α) :
    compactMembers (fields.map fun f => (f.name, f.write v)) = membersText true v fields := by
  induction fields with
  | nil => rfl
  | cons f fs ih =>
    cases fs with
    | nil => simp [compactMembers, membersText]
    | cons g fs =>
      simp only [List.map_cons] at ih
      simp [compactMembers, membersText, ih]

theorem membersText_append (first : Bool) (v : α) (todo later : List (Field α)) :
    membersText first v (todo ++ later) = membersText first v todo ++ membersText (first && todo.isEmpty) v later := by
  induction todo generalizing first with
  | nil => simp [membersText]
  | cons f fs ih => simp [membersText, ih]

theorem stops_member (first : Bool) (v : α) (f : Field α) (fields : List (Field α)) (rest : List Char) :
    Stops (membersText first v (f :: fields) ++ rest) := by
  cases first <;> simp [Stops, membersText, writeString]

theorem stops_membersText (v : α) (fields : List (Field α)) {after : List Char} (ends : Stops after) :
    Stops (membersText false v fields ++ after) := by
  cases fields with
  | nil => exact ends
  | cons f fs => exact stops_member false v f fs after

theorem members_field {f : Field α} {first : Bool} {seen : List String} {count : Nat} {after : List Char}
    (found : form.fields.find? (·.name == f.name) = some f) (fresh : f.name ∉ seen) :
    form.members (count + 1) first w seen ((if first then [] else [',']) ++ (writeString f.name ++ ':' ::
        ((f.write v).compact ++ after)))
      = (f.read >>= fun update => form.members count false (update w) (f.name :: seen))
          ((f.write v).compact ++ after) := by
  let tail := f.name.toList.flatMap escapeChar ++ '"' :: ':' :: ((f.write v).compact ++ after)
  have text : writeString f.name ++ ':' :: ((f.write v).compact ++ after) = '"' :: tail := by
    simp [writeString, tail]
  have name := string_writeString f.name (':' :: ((f.write v).compact ++ after))
  rw [text] at name ⊢
  have quote : space ('"' :: tail) = .ok ((), '"' :: tail) := space_cons rfl
  have colon : space (':' :: ((f.write v).compact ++ after)) = .ok ((), ':' :: ((f.write v).compact ++ after)) :=
    space_cons rfl
  have comma : space (',' :: '"' :: tail) = .ok ((), ',' :: '"' :: tail) := space_cons rfl
  rw [members]
  cases first <;>
    simp [bind_ok quote, bind_ok comma, bind_ok (peek_cons _ _), bind_ok (char_cons _ _), bind_ok name, found, fresh,
      bind_ok colon]

theorem members_cons {f : Field α} {first : Bool} {seen : List String} {count : Nat} {update : α → α}
    {after : List Char} (found : form.fields.find? (·.name == f.name) = some f) (fresh : f.name ∉ seen)
    (returns : f.Returns v update) (ends : Stops after) :
    form.members (count + 1) first w seen ((if first then [] else [',']) ++ (writeString f.name ++ ':' ::
        ((f.write v).compact ++ after)))
      = form.members count false (update w) (f.name :: seen) after := by
  rw [members_field found fresh, bind_ok (returns after ends)]

theorem find?_name {done todo : List (Field α)} {f : Field α} (fields : form.fields = done ++ f :: todo)
    (distinct : (form.fields.map (·.name)).Nodup) : form.fields.find? (·.name == f.name) = some f := by
  rw [fields] at distinct ⊢
  rw [List.find?_append, List.find?_eq_none.2, Option.none_or, List.find?_cons_of_pos (by simp)]
  intro g mem
  simp only [List.map_append, List.map_cons, List.nodup_append, List.mem_map, List.mem_cons] at distinct
  simpa using distinct.2.2 g.name ⟨g, mem, rfl⟩ f.name (.inl rfl)

theorem name_fresh {done todo : List (Field α)} {f : Field α} (fields : form.fields = done ++ f :: todo)
    (distinct : (form.fields.map (·.name)).Nodup) : f.name ∉ (done.map (·.name)).reverse := by
  rw [fields, List.map_append, List.map_cons] at distinct
  rw [List.mem_reverse]
  exact fun mem => (List.nodup_append.1 distinct).2.2 _ mem _ (by simp) rfl

/-- The members of some fields in turn, by induction on them: each is found under its name, was not read before,
and leaves its update. -/
theorem members_membersText (done : List (Field α)) {todo later : List (Field α)} {updates : List (α → α)}
    (first : Bool) (count : Nat) (w : α) {after : List Char} (fields : form.fields = done ++ (todo ++ later))
    (distinct : (form.fields.map (·.name)).Nodup) (returns : List.Forall₂ (·.Returns v ·) todo updates)
    (ends : Stops after) :
    form.members (todo.length + count) first w (done.map (·.name)).reverse (membersText first v todo ++ after)
      = form.members count (first && todo.isEmpty) (updates.foldl (fun w u => u w) w)
          ((done ++ todo).map (·.name)).reverse after := by
  induction returns generalizing done first w with
  | nil => simp [membersText]
  | @cons f update todo updates returns _ ih =>
    have read := ih (done ++ [f]) false (update w) (by simp [fields])
    rw [membersText, List.append_assoc, List.append_assoc, List.cons_append, List.append_assoc, List.length_cons,
      Nat.add_right_comm, members_cons (find?_name fields distinct) (name_fresh fields distinct) returns
        (stops_membersText v todo ends)]
    simpa using read

theorem members_brace (count : Nat) (first : Bool) (w : α) (seen : List String) (rest : List Char) :
    form.members (count + 1) first w seen ('\x7d' :: rest) = .ok ((w, seen), '\x7d' :: rest) := by
  have brace : space ('\x7d' :: rest) = .ok ((), '\x7d' :: rest) := space_cons rfl
  simp [members, bind_ok brace, bind_ok (peek_cons _ _), pure_apply]

theorem length_le_membersText (first : Bool) (v : α) (fields : List (Field α)) :
    fields.length ≤ (membersText first v fields).length := by
  induction fields generalizing first with
  | nil => simp
  | cons f fs ih =>
    have rest := ih false
    simp only [membersText, List.length_cons, List.length_append]
    omega

theorem read_toJson (form : Form α) (v : α) (rest : List Char) : form.read ((form.toJson v).compact ++ rest) =
    ((fun cs => form.members (cs.length + 1) true form.blank [] cs) >>= fun p : α × List String =>
      match form.missing? p.2 with
      | some name => mismatch (.missingField name)
      | none => char '\x7d' >>= fun _ => return p.1 : Reader α)
      (membersText true v form.fields ++ '\x7d' :: rest) := by
  have text : (form.toJson v).compact ++ rest = '\x7b' :: (membersText true v form.fields ++ '\x7d' :: rest) := by
    simp [toJson, Json.compact, compactMembers_eq]
  have brace : space ('\x7b' :: (membersText true v form.fields ++ '\x7d' :: rest)) = .ok ((), _) := space_cons rfl
  rw [text, read, bind_ok brace, bind_ok (peek_cons _ _)]
  simp only [object]
  exact bind_ok (char_cons _ _)

/-- Every member has its character, so the members of some fields leave a count for those that are left. -/
theorem exists_count {todo later : List (Field α)} (fields : form.fields = todo ++ later) (v : α) (rest : List Char) :
    ∃ count, (membersText true v form.fields ++ '\x7d' :: rest).length + 1 = todo.length + (count + 1) := by
  have atLeast := length_le_membersText true v form.fields
  have parts := congrArg List.length fields
  refine ⟨(membersText true v form.fields ++ '\x7d' :: rest).length - todo.length, ?_⟩
  rw [List.length_append] at *
  omega

theorem read_compact {updates : List (α → α)} (rest : List Char) (distinct : (form.fields.map (·.name)).Nodup)
    (returns : List.Forall₂ (·.Returns v ·) form.fields updates) :
    form.read ((form.toJson v).compact ++ rest) = .ok (updates.foldl (fun w u => u w) form.blank, rest) := by
  have whole : form.fields = form.fields ++ [] := (List.append_nil _).symm
  obtain ⟨count, enough⟩ := exists_count whole v rest
  have members := members_membersText [] true (count + 1) form.blank whole distinct returns (stops_brace rest)
  rw [members_brace, ← enough, List.nil_append] at members
  have complete : form.missing? (form.fields.map (·.name)).reverse = none := by
    simp only [missing?, Option.map_eq_none_iff, List.find?_eq_none]
    intro f mem
    simp only [Bool.and_eq_true, Bool.not_eq_true', List.contains_eq_mem, List.mem_reverse, not_and,
      decide_eq_false_iff_not, not_not]
    exact fun _ => List.mem_map_of_mem mem
  rw [read_toJson]
  refine (bind_ok (r := fun cs => form.members (cs.length + 1) true form.blank [] cs) members).trans ?_
  simp only [complete]
  rw [bind_ok (char_cons _ _), pure_apply]

theorem read_compact_refused {before later : List (Field α)} {f : Field α} {updates : List (α → α)} {fault : Fault}
    (rest : List Char) (fields : form.fields = before ++ f :: later) (distinct : (form.fields.map (·.name)).Nodup)
    (returns : List.Forall₂ (·.Returns v ·) before updates) (refuses : f.Refuses v fault) :
    form.read ((form.toJson v).compact ++ rest) = .error fault := by
  obtain ⟨count, enough⟩ := exists_count fields v rest
  have members := members_membersText [] true (count + 1) form.blank fields distinct returns
    (stops_member (true && before.isEmpty) v f later ('\x7d' :: rest))
  rw [← List.append_assoc, ← membersText_append, ← fields, ← enough, membersText, List.append_assoc,
    List.append_assoc, List.cons_append, List.append_assoc, List.nil_append,
    members_field (find?_name fields distinct) (name_fresh fields distinct), bind_error (refuses _)] at members
  rw [read_toJson]
  exact bind_error (r := fun cs => form.members (cs.length + 1) true form.blank [] cs) members

theorem run_compact {updates : List (α → α)} (distinct : (form.fields.map (·.name)).Nodup)
    (returns : List.Forall₂ (·.Returns v ·) form.fields updates) :
    form.read.run (.ofList (form.toJson v).compact) = .ok (updates.foldl (fun w u => u w) form.blank) := by
  have read := read_compact [] distinct returns
  rw [List.append_nil] at read
  simp [run, String.toList_ofList, read]

theorem run_compact_refused {before later : List (Field α)} {f : Field α} {updates : List (α → α)} {fault : Fault}
    (fields : form.fields = before ++ f :: later) (distinct : (form.fields.map (·.name)).Nodup)
    (returns : List.Forall₂ (·.Returns v ·) before updates) (refuses : f.Refuses v fault) :
    form.read.run (.ofList (form.toJson v).compact) = .error fault := by
  have read := read_compact_refused [] fields distinct returns refuses
  rw [List.append_nil] at read
  simp [run, String.toList_ofList, read]

end Form

end VectorGraph.Json
