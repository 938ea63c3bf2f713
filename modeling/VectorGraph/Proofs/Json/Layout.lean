import VectorGraph.Proofs.Json.Whole
import Mathlib.Data.List.Nodup

/-!
The layouts in which a record can stand in a text: an object with its members in any order among others, or an
array of its members. What the reader takes of either is settled by what it takes of each member, provided
that the members have distinct names and each is read whole.
-/
namespace VectorGraph.Json

open Reader

variable {α : Type} {t rest rest' : List Char}

/-- What is left of the inside of an object, at its start or after a member. -/
inductive Remaining : Bool → List (List Char × List Char) → List Char → Prop
  | nil {first : Bool} {b : List Char} (blank : Blank b) : Remaining first [] b
  | cons {first : Bool} {a b n c d v t : List Char} {ms : List (List Char × List Char)} (blank : Blank a)
      (before : Blank b) (name : IsLiteral n) (named : Blank c) (gap : Blank d) (value : Derives .value v)
      (rest : Remaining false ms t) :
      Remaining first ((n, v) :: ms)
        (a ++ ((if first then [] else [',']) ++ (b ++ '"' :: (n ++ '"' :: (c ++ ':' :: (d ++ (v ++ t)))))))

theorem Blank.append {a b : List Char} (first : Blank a) (second : Blank b) : Blank (a ++ b) := fun c mem =>
  (List.mem_append.1 mem).elim (first c) (second c)

theorem Remaining.after {m : List Char × List Char} {ms : List (List Char × List Char)} {a : List Char}
    (blank : Blank a) (remaining : Remaining true (m :: ms) t) : Remaining false (m :: ms) (a ++ ',' :: t) := by
  cases remaining with
  | cons first before name named gap value rest =>
    have next : Remaining false _ _ := .cons blank (first.append before) name named gap value rest
    simpa using next

theorem Derives.remaining {ms : List (List Char × List Char)} (members : Derives (.members ms) t) :
    Remaining true ms t := by
  induction ms generalizing t with
  | nil => exact .nil members.blank_of_members
  | cons m ms ih =>
    cases members with
    | lastMember member =>
      cases member with
      | member before name named item =>
        cases item with
        | item gap value after =>
          have next : Remaining true _ _ := .cons (a := []) blank_nil before name named gap value (.nil after)
          exact next
    | moreMembers member members =>
      cases member with
      | member before name named item =>
        cases item with
        | item gap value after =>
          have next : Remaining true _ _ := .cons (a := []) blank_nil before name named gap value
            ((ih members).after after)
          simpa using next

theorem Remaining.stops {ms : List (List Char × List Char)} (remaining : Remaining false ms t) (rest : List Char) :
    Stops (t ++ '\x7d' :: rest) := by
  cases remaining with
  | nil blank => exact stops_blank blank (stops_brace rest)
  | cons blank =>
    simp only [Bool.false_eq_true, if_false, List.append_assoc, List.cons_append, List.nil_append]
    exact stops_blank blank (stops_comma _)

theorem Remaining.length_le {first : Bool} {ms : List (List Char × List Char)} (remaining : Remaining first ms t) :
    ms.length ≤ t.length := by
  induction remaining with
  | nil => simp
  | cons =>
    simp only [List.length_append, List.length_cons]
    omega

def Named (name : String) (m : List Char × List Char) : Prop := Spells name.toList m.1

theorem Named.unique {name other : String} {m : List Char × List Char} (named : Named name m) (same : Named other m) :
    name = other := by
  have first : string? (m.1 ++ ['"']) = some (_, []) := string?_spells named
  have second : string? (m.1 ++ ['"']) = some (_, []) := string?_spells same
  rw [first] at second
  simp only [Option.some.injEq, Prod.mk.injEq, and_true] at second
  exact String.toList_inj.1 second

/-- A name without escapes stands for itself. -/
theorem named_iff {name : String} {n v : List Char} (plain : ∀ c ∈ n, IsPlain c) :
    Named name (n, v) ↔ name = .ofList n := by
  have self : Named (.ofList n) (n, v) := by simpa [Named] using spells_self plain
  exact ⟨fun named => named.unique self, fun same => same ▸ self⟩

namespace Form

variable {form : Form α}

/-- No two members have the name of the same field. -/
def Once (form : Form α) (ms : List (List Char × List Char)) : Prop :=
  ms.Pairwise fun m m' => ∀ f ∈ form.fields, Named f.name m → ¬Named f.name m'

theorem members_close {first : Bool} {count : Nat} {w : α} {seen : List String} {b : List Char} (blank : Blank b) :
    form.members (count + 1) first w seen (b ++ '\x7d' :: rest) = .ok ((w, seen), '\x7d' :: rest) := by
  rw [members, bind_ok (space_until blank rfl), bind_ok (peek_cons _ _)]
  simp [pure_apply]

theorem members_member {first : Bool} {count : Nat} {w : α} {seen : List String} {name : String}
    {a b n c cs : List Char} (blank : Blank a) (before : Blank b) (spells : Spells name.toList n) (named : Blank c) :
    form.members (count + 1) first w seen
        (a ++ ((if first then [] else [',']) ++ (b ++ '"' :: (n ++ '"' :: (c ++ ':' :: cs)))))
      = match form.fields.find? (·.name == name) with
        | some field =>
          if name ∈ seen then .error (.mismatch (.duplicateField name))
          else (do form.members count false ((← field.read) w) (name :: seen)) cs
        | none => (do Reader.skip; form.members count false w seen) cs := by
  have named : space (c ++ ':' :: cs) = .ok ((), ':' :: cs) := space_until named rfl
  have literal : Reader.string ('"' :: (n ++ '"' :: (c ++ ':' :: cs))) = .ok (name, c ++ ':' :: cs) := by
    have taken : ofOption string? (n ++ '"' :: (c ++ ':' :: cs)) = .ok (name.toList, c ++ ':' :: cs) := by
      rw [ofOption, string?_spells spells]
    rw [Reader.string, bind_ok (char_cons _ _), bind_ok taken, pure_apply, String.ofList_toList]
  have quote : space (b ++ '"' :: (n ++ '"' :: (c ++ ':' :: cs))) = .ok ((), _) := space_until before rfl
  have start : space (a ++ (b ++ '"' :: (n ++ '"' :: (c ++ ':' :: cs)))) = .ok ((), _) :=
    (space_blank blank _).trans quote
  have comma : space (a ++ ',' :: (b ++ '"' :: (n ++ '"' :: (c ++ ':' :: cs)))) = .ok ((), _) :=
    space_until blank rfl
  rw [members]
  cases found : form.fields.find? (·.name == name) <;> cases first <;> by_cases repeated : name ∈ seen <;>
    simp [bind_ok start, bind_ok comma, bind_ok quote, bind_ok (peek_cons _ _), bind_ok (char_cons _ _),
      bind_ok literal, bind_ok named, found, repeated, mismatch_bind]

/-- The name of a member that is read. -/
theorem exists_name {first : Bool} {count : Nat} {w : α} {seen : List String} {a b n cs : List Char}
    {p : (α × List String) × List Char} (blank : Blank a) (before : Blank b) (literal : IsLiteral n)
    (read : form.members (count + 1) first w seen
      (a ++ ((if first then [] else [',']) ++ (b ++ '"' :: (n ++ '"' :: cs)))) = .ok p) :
    ∃ name : String, Spells name.toList n := by
  have quote : space (b ++ '"' :: (n ++ '"' :: cs)) = .ok ((), _) := space_until before rfl
  have start : space (a ++ (b ++ '"' :: (n ++ '"' :: cs))) = .ok ((), _) := (space_blank blank _).trans quote
  have comma : space (a ++ ',' :: (b ++ '"' :: (n ++ '"' :: cs))) = .ok ((), _) := space_until blank rfl
  obtain ⟨name, rest', taken⟩ : ∃ name rest', Reader.string ('"' :: (n ++ '"' :: cs)) = .ok (name, rest') := by
    rw [members] at read
    cases first <;>
      simp [bind_ok start, bind_ok comma, bind_ok quote, bind_ok (peek_cons _ _), bind_ok (char_cons _ _)] at read <;>
      exact (bind_eq_ok read).imp fun _ => .imp fun _ => And.left
  rw [Reader.string, bind_ok (char_cons _ _)] at taken
  obtain ⟨s, rest'', taken, -⟩ := bind_eq_ok taken
  have taken : string? (n ++ '"' :: cs) = some (s, rest'') := by
    unfold ofOption at taken
    split at taken <;> simp_all
  exact ⟨.ofList s, by simpa using (spells_of_string? literal taken).1⟩

/-- What reading members tells of their names: no field is named twice, none that was seen before is named again, and
the names that were seen after are theirs. -/
structure Tells (form : Form α) (ms : List (List Char × List Char)) (before after : List String) : Prop where
  once : form.Once ms
  fresh : ∀ m ∈ ms, ∀ f ∈ form.fields, Named f.name m → f.name ∉ before
  seen : ∀ name ∈ after, name ∈ before ∨ ∃ m ∈ ms, Named name m

theorem Tells.cons_known {m : List Char × List Char} {ms : List (List Char × List Char)} {before after : List String}
    {name : String} (named : Named name m) (fresh : name ∉ before) (tells : form.Tells ms (name :: before) after) :
    form.Tells (m :: ms) before after where
  once := by
    refine .cons (fun m' mem f field same again => ?_) tells.once
    exact tells.fresh m' mem f field again (same.unique named ▸ List.mem_cons_self)
  fresh m' mem f field same := by
    rcases List.mem_cons.1 mem with rfl | mem
    · exact same.unique named ▸ fresh
    · exact fun seen => tells.fresh m' mem f field same (List.mem_cons_of_mem _ seen)
  seen x mem := by
    rcases tells.seen x mem with mem | ⟨m', mem, same⟩
    · rcases List.mem_cons.1 mem with rfl | mem
      · exact .inr ⟨m, List.mem_cons_self, named⟩
      · exact .inl mem
    · exact .inr ⟨m', List.mem_cons_of_mem _ mem, same⟩

theorem Tells.cons_unknown {m : List Char × List Char} {ms : List (List Char × List Char)}
    {before after : List String} (unknown : ∀ f ∈ form.fields, ¬Named f.name m) (tells : form.Tells ms before after) :
    form.Tells (m :: ms) before after where
  once := .cons (fun _ _ f field same _ => unknown f field same) tells.once
  fresh m' mem f field same := by
    rcases List.mem_cons.1 mem with rfl | mem
    · exact absurd same (unknown f field)
    · exact tells.fresh m' mem f field same
  seen x mem := (tells.seen x mem).imp_right fun ⟨m', mem, same⟩ => ⟨m', List.mem_cons_of_mem _ mem, same⟩

theorem members_sound {first : Bool} {ms : List (List Char × List Char)} {count : Nat} {w w' : α}
    {seen seen' : List String} (regular : ∀ f ∈ form.fields, Regular f.read) (remaining : Remaining first ms t)
    (read : form.members count first w seen (t ++ '\x7d' :: rest) = .ok ((w', seen'), rest')) :
    rest' = '\x7d' :: rest ∧ form.Tells ms seen seen' := by
  induction remaining generalizing count w seen with
  | nil blank =>
    cases count with
    | zero => cases read
    | succ count =>
      rw [members_close blank] at read
      cases read
      exact ⟨rfl, .nil, by simp, fun _ => .inl⟩
  | @cons first a b n c d v t ms blank before literal named gap value remaining ih =>
    cases count with
    | zero => cases read
    | succ count =>
      simp only [List.append_assoc, List.cons_append] at read
      obtain ⟨name, spells⟩ := exists_name blank before literal read
      rw [members_member blank before spells named] at read
      cases found : form.fields.find? (·.name == name) with
      | some f =>
        simp only [found] at read
        split at read
        · cases read
        · rename_i fresh
          obtain ⟨u, rest'', taken, later⟩ := bind_eq_ok read
          have member := List.mem_of_find?_eq_some found
          rw [(regular f member).spaced d gap] at taken
          obtain rfl := (regular f member).whole _ _ _ _ value (remaining.stops rest) taken
          obtain ⟨closed, tells⟩ := ih later
          exact ⟨closed, tells.cons_known spells fresh⟩
      | none =>
        simp only [found] at read
        rw [bind_ok (skip_value gap value (remaining.stops rest))] at read
        obtain ⟨closed, tells⟩ := ih read
        refine ⟨closed, tells.cons_unknown fun g field same => ?_⟩
        simpa [same.unique spells] using List.find?_eq_none.1 found g field

/-- An update that takes over one field of a record and leaves the others. -/
structure Copies (form : Form α) (f : Field α) (v : α) (update : α → α) : Prop where
  own : ∀ w, f.write (update w) = f.write v
  others : ∀ w, ∀ g ∈ form.fields, g.name ≠ f.name → g.write (update w) = g.write w

/-- A text from which a field takes what it writes of a record. -/
def Takes (form : Form α) (f : Field α) (v : α) (t : List Char) : Prop :=
  ∃ update, form.Copies f v update ∧ ∀ rest, Stops rest → f.read (t ++ rest) = .ok (update, rest)

/-- Members of which every known one is named once and can be taken. -/
structure Readable (form : Form α) (v : α) (seen : List String) (ms : List (List Char × List Char)) : Prop where
  names : ∀ m ∈ ms, ∃ name, Named name m
  once : form.Once ms
  fresh : ∀ m ∈ ms, ∀ f ∈ form.fields, Named f.name m → f.name ∉ seen
  takes : ∀ m ∈ ms, ∀ f ∈ form.fields, Named f.name m → form.Takes f v m.2

/-- What reading members does to a record and the names seen. -/
structure Leaves (form : Form α) (v : α) (ms : List (List Char × List Char)) (before after : α × List String) :
    Prop where
  seen : ∀ name ∈ before.2, name ∈ after.2
  held : ∀ f ∈ form.fields, (∃ m ∈ ms, Named f.name m) → f.name ∈ after.2 ∧ f.write after.1 = f.write v
  left : ∀ f ∈ form.fields, (∀ m ∈ ms, ¬Named f.name m) → f.write after.1 = f.write before.1

variable {v w : α} {seen : List String} {m : List Char × List Char} {ms : List (List Char × List Char)}

theorem Readable.tail (readable : form.Readable v seen (m :: ms)) : form.Readable v seen ms where
  names m' mem := readable.names m' (List.mem_cons_of_mem m mem)
  once := (List.pairwise_cons.1 readable.once).2
  fresh m' mem := readable.fresh m' (List.mem_cons_of_mem m mem)
  takes m' mem := readable.takes m' (List.mem_cons_of_mem m mem)

theorem Readable.tail_known {f : Field α} (readable : form.Readable v seen (m :: ms)) (field : f ∈ form.fields)
    (named : Named f.name m) : form.Readable v (f.name :: seen) ms where
  names := readable.tail.names
  once := readable.tail.once
  fresh m' mem g known same twice := by
    rcases List.mem_cons.1 twice with same' | seen
    · exact (List.pairwise_cons.1 readable.once).1 m' mem f field named (same' ▸ same)
    · exact readable.tail.fresh m' mem g known same seen
  takes := readable.tail.takes

theorem Leaves.cons_unknown {after : α × List String} (unknown : ∀ f ∈ form.fields, ¬Named f.name m)
    (leaves : form.Leaves v ms (w, seen) after) : form.Leaves v (m :: ms) (w, seen) after where
  seen := leaves.seen
  held f known := by
    rintro ⟨m', mem, same⟩
    rcases List.mem_cons.1 mem with rfl | mem
    · exact absurd same (unknown f known)
    · exact leaves.held f known ⟨m', mem, same⟩
  left f known absent := leaves.left f known fun m' mem => absent m' (List.mem_cons_of_mem m mem)

/-- The member is taken over, and no later one changes what it left. -/
theorem Leaves.cons_known {f : Field α} {update : α → α} {after : α × List String}
    (distinct : (form.fields.map (·.name)).Nodup) (readable : form.Readable v seen (m :: ms)) (field : f ∈ form.fields)
    (named : Named f.name m) (copies : form.Copies f v update)
    (leaves : form.Leaves v ms (update w, f.name :: seen) after) : form.Leaves v (m :: ms) (w, seen) after where
  seen name mem := leaves.seen name (List.mem_cons_of_mem _ mem)
  held g known := by
    rintro ⟨m', mem, same⟩
    rcases List.mem_cons.1 mem with rfl | mem
    · obtain rfl := List.inj_on_of_nodup_map distinct known field (same.unique named)
      have later := leaves.left g known fun m'' mem => (List.pairwise_cons.1 readable.once).1 m'' mem g known named
      exact ⟨leaves.seen _ List.mem_cons_self, later.trans (copies.own w)⟩
    · exact leaves.held g known ⟨m', mem, same⟩
  left g known absent := by
    have other : g.name ≠ f.name := fun same => absent m List.mem_cons_self (same ▸ named)
    exact (leaves.left g known fun m' mem => absent m' (List.mem_cons_of_mem m mem)).trans
      (copies.others w g known other)

theorem members_complete {first : Bool} {count : Nat} (rest : List Char) (distinct : (form.fields.map (·.name)).Nodup)
    (spaced : ∀ f ∈ form.fields, Spaced f.read) (remaining : Remaining first ms t) (enough : ms.length < count)
    (readable : form.Readable v seen ms) :
    ∃ after, form.members count first w seen (t ++ '\x7d' :: rest) = .ok (after, '\x7d' :: rest) ∧
      form.Leaves v ms (w, seen) after := by
  induction remaining generalizing count w seen with
  | nil blank =>
    obtain ⟨count, rfl⟩ := Nat.exists_eq_succ_of_ne_zero (by omega : count ≠ 0)
    exact ⟨(w, seen), members_close blank, by simp, by simp, by simp⟩
  | @cons first a b n c d x t ms blank before literal named gap value remaining ih =>
    obtain ⟨count, rfl⟩ := Nat.exists_eq_succ_of_ne_zero (by omega : count ≠ 0)
    rw [List.length_cons, Nat.add_lt_add_iff_right] at enough
    obtain ⟨name, spells⟩ := readable.names (n, x) List.mem_cons_self
    simp only [List.append_assoc, List.cons_append]
    rw [members_member blank before spells named]
    cases found : form.fields.find? (·.name == name) with
    | some f =>
      have field := List.mem_of_find?_eq_some found
      obtain rfl : f.name = name := by simpa using List.find?_some found
      obtain ⟨update, copies, taken⟩ := readable.takes (n, x) List.mem_cons_self f field spells
      have taken : f.read (d ++ (x ++ (t ++ '\x7d' :: rest))) = .ok (update, _) :=
        (spaced f field d gap _).trans (taken _ (remaining.stops rest))
      obtain ⟨after, read, leaves⟩ := ih (w := update w) enough (readable.tail_known field spells)
      refine ⟨after, ?_, leaves.cons_known distinct readable field spells copies⟩
      simp only [readable.fresh (n, x) List.mem_cons_self f field spells, if_false]
      exact (bind_ok taken).trans read
    | none =>
      obtain ⟨after, read, leaves⟩ := ih (w := w) enough readable.tail
      refine ⟨after, ?_, leaves.cons_unknown fun g known same => ?_⟩
      · exact (bind_ok (skip_value gap value (remaining.stops rest))).trans read
      · simpa [same.unique spells] using List.find?_eq_none.1 found g known

/-- Members with distinct names, each read whole, that together determine the record. -/
structure Lawful (form : Form α) : Prop where
  distinct : (form.fields.map (·.name)).Nodup
  regular : ∀ f ∈ form.fields, Regular f.read
  determined : ∀ v w, (∀ f ∈ form.fields, f.write v = f.write w) → v = w

/-- A member that may be left out of an object that holds a record. -/
def LeftOut (form : Form α) (v : α) (f : Field α) : Prop :=
  f.absence ≠ .refused ∧ f.write v = f.write form.blank

theorem missing?_eq_none : form.missing? seen = none ↔ ∀ f ∈ form.fields, f.absence = .refused → f.name ∈ seen := by
  simp [missing?]

theorem object_sound (regular : ∀ f ∈ form.fields, Regular f.read) (members : Derives (.members ms) t)
    (read : form.object ('\x7b' :: (t ++ '\x7d' :: rest)) = .ok (w, rest')) :
    rest' = rest ∧ form.Once ms ∧ ∀ f ∈ form.fields, f.absence = .refused → ∃ m ∈ ms, Named f.name m := by
  rw [object, bind_ok (char_cons _ _)] at read
  obtain ⟨⟨w', seen'⟩, rest'', taken, later⟩ := bind_eq_ok read
  obtain ⟨rfl, tells⟩ := members_sound regular members.remaining taken
  cases missing : form.missing? seen' with
  | some name => simp [missing, Reader.mismatch] at later
  | none =>
    simp only [missing] at later
    rw [bind_ok (char_cons _ _), pure_apply] at later
    cases later
    refine ⟨rfl, tells.once, fun f field refused => ?_⟩
    simpa using tells.seen f.name (missing?_eq_none.1 missing f field refused)

/-- An object whose members can be taken, and that leaves out none of the others that differ from the blank record. -/
theorem object_complete (lawful : form.Lawful) (members : Derives (.members ms) t) (readable : form.Readable v [] ms)
    (leftOut : ∀ f ∈ form.fields, (∀ m ∈ ms, ¬Named f.name m) → form.LeftOut v f) (rest : List Char) :
    form.object ('\x7b' :: (t ++ '\x7d' :: rest)) = .ok (v, rest) := by
  have remaining := members.remaining
  have enough : ms.length < (t ++ '\x7d' :: rest).length + 1 := by
    have := remaining.length_le
    rw [List.length_append]
    omega
  obtain ⟨⟨w, seen⟩, read, leaves⟩ := members_complete (w := form.blank) rest lawful.distinct
    (fun f field => (lawful.regular f field).spaced) remaining enough readable
  have complete : form.missing? seen = none := missing?_eq_none.2 fun f field refused => by
    by_cases named : ∃ m ∈ ms, Named f.name m
    · exact (leaves.held f field named).1
    · exact absurd refused (leftOut f field (by simpa using named)).1
  obtain rfl : w = v := lawful.determined w v fun f field => by
    by_cases named : ∃ m ∈ ms, Named f.name m
    · exact (leaves.held f field named).2
    · have absent : ∀ m ∈ ms, ¬Named f.name m := by simpa using named
      exact (leaves.left f field absent).trans (leftOut f field absent).2.symm
  rw [object, bind_ok (char_cons _ _)]
  refine (bind_ok (r := fun cs => form.members (cs.length + 1) true form.blank [] cs) read).trans ?_
  simp only [complete]
  rw [bind_ok (char_cons _ _), pure_apply]

end Form

/-- What is left of the inside of an array, at its start or after a value. -/
inductive RemainingItems : Bool → List (List Char) → List Char → Prop
  | nil {first : Bool} {b : List Char} (blank : Blank b) : RemainingItems first [] b
  | cons {first : Bool} {a d v t : List Char} {vs : List (List Char)} (blank : Blank a) (gap : Blank d)
      (value : Derives .value v) (rest : RemainingItems false vs t) :
      RemainingItems first (v :: vs) (a ++ ((if first then [] else [',']) ++ (d ++ (v ++ t))))

theorem RemainingItems.after {v : List Char} {vs : List (List Char)} {a : List Char} (blank : Blank a)
    (remaining : RemainingItems true (v :: vs) t) : RemainingItems false (v :: vs) (a ++ ',' :: t) := by
  cases remaining with
  | cons first gap value rest =>
    have next : RemainingItems false _ _ := .cons blank (first.append gap) value rest
    simpa using next

theorem Derives.remainingItems {vs : List (List Char)} (items : Derives (.items vs) t) : RemainingItems true vs t := by
  induction vs generalizing t with
  | nil => exact .nil items.blank_of_items
  | cons v vs ih =>
    cases items with
    | lastItem item =>
      cases item with
      | item gap value after =>
        have next : RemainingItems true _ _ := .cons (a := []) blank_nil gap value (.nil after)
        exact next
    | moreItems item items =>
      cases item with
      | item gap value after =>
        have next : RemainingItems true _ _ := .cons (a := []) blank_nil gap value
          ((ih items).after after)
        simpa using next

theorem RemainingItems.stops {vs : List (List Char)} (remaining : RemainingItems false vs t) (rest : List Char) :
    Stops (t ++ ']' :: rest) := by
  cases remaining with
  | nil blank => exact stops_blank blank (stops_bracket rest)
  | cons blank =>
    simp only [Bool.false_eq_true, if_false, List.append_assoc, List.cons_append, List.nil_append]
    exact stops_blank blank (stops_comma _)

theorem RemainingItems.space {first : Bool} {v : List Char} {vs : List (List Char)}
    (remaining : RemainingItems first (v :: vs) t) (rest : List Char) :
    ∃ c cs, Reader.space (t ++ rest) = .ok ((), c :: cs) ∧ c ≠ ']' := by
  cases remaining with
  | cons blank gap value =>
    cases first with
    | false => exact ⟨',', _, by simpa using space_until blank rfl, by decide⟩
    | true =>
      obtain ⟨c, cs, rfl, other, bracket, -⟩ := value.starts
      exact ⟨c, _, by simpa using (space_blank blank _).trans (space_until gap other), bracket⟩

namespace Form

variable {form : Form α} {v w : α} {vs : List (List Char)} {fields : List (Field α)} {place : Nat}

theorem items_item {f : Field α} {a d x cs : List Char} (blank : Blank a) (gap : Blank d) (value : Derives .value x)
    (spaced : Spaced f.read) :
    form.items (f :: fields) place w (a ++ ((if place = 0 then [] else [',']) ++ (d ++ (x ++ cs))))
      = (do form.items fields (place + 1) ((← f.read) w)) (x ++ cs) := by
  obtain ⟨c, x, rfl, other, bracket, -⟩ := value.starts
  have value : space (d ++ c :: (x ++ cs)) = .ok ((), _) := space_until gap other
  have start : space (a ++ (d ++ c :: (x ++ cs))) = .ok ((), _) := (space_blank blank _).trans value
  have comma : space (a ++ ',' :: (d ++ c :: (x ++ cs))) = .ok ((), _) := space_until blank rfl
  rw [items, List.cons_append]
  by_cases first : place = 0
  · simp only [first, if_true, List.nil_append]
    rw [bind_ok start, bind_ok (peek_cons _ _)]
    simp [bracket]
  · simp only [first, if_false, List.cons_append, List.nil_append]
    rw [bind_ok comma, bind_ok (peek_cons _ _)]
    simp only [Option.some.injEq, Char.reduceEq, if_false, ne_eq, first, not_false_eq_true, if_true]
    rw [bind_ok (char_cons _ _)]
    exact (spaced.bind _) d gap _

theorem items_close {f : Field α} {b : List Char} (blank : Blank b) :
    form.items (f :: fields) place w (b ++ ']' :: rest) =
      if f.absence = .allowed then form.items fields (place + 1) w (']' :: rest)
      else .error (.mismatch (.wrongLength place form.sizeTitle)) := by
  rw [items, bind_ok (space_until blank rfl), bind_ok (peek_cons _ _)]
  by_cases allowed : f.absence = .allowed <;> simp [allowed, Reader.mismatch]

theorem items_sound {first : Bool} (regular : ∀ f ∈ fields, Regular f.read) (remaining : RemainingItems first vs t)
    (start : first = decide (place = 0)) (read : form.items fields place w (t ++ ']' :: rest) = .ok (v, rest')) :
    ∃ first vs t, RemainingItems first vs t ∧ rest' = t ++ ']' :: rest := by
  induction fields generalizing first vs t place w with
  | nil =>
    cases read
    exact ⟨first, vs, t, remaining, rfl⟩
  | cons f fields ih =>
    have later g (mem : g ∈ fields) := regular g (List.mem_cons_of_mem f mem)
    cases remaining with
    | nil blank =>
      rw [items_close blank] at read
      split at read
      · exact ih later (t := []) (.nil blank_nil) rfl read
      · cases read
    | @cons _ a d x t vs blank gap value remaining =>
      subst start
      have regular := regular f List.mem_cons_self
      simp only [decide_eq_true_iff, List.append_assoc] at read
      rw [items_item blank gap value regular.spaced] at read
      obtain ⟨u, rest'', taken, read⟩ := bind_eq_ok read
      obtain rfl := regular.whole _ _ _ _ value (remaining.stops rest) taken
      exact ih later remaining (by simp) read

theorem array_sound (regular : ∀ f ∈ form.fields, Regular f.read) (derives : Derives (.items vs) t)
    (read : form.array ('[' :: (t ++ ']' :: rest)) = .ok (w, rest')) : rest' = rest := by
  rw [array, bind_ok (char_cons _ _)] at read
  obtain ⟨w', rest'', taken, read⟩ := bind_eq_ok read
  obtain ⟨first, vs, t, remaining, rfl⟩ := items_sound regular derives.remainingItems rfl taken
  cases remaining with
  | nil blank =>
    rw [bind_ok (space_until blank rfl), bind_ok (char_cons _ _), pure_apply] at read
    cases read
    rfl
  | cons blank gap value remaining =>
    obtain ⟨c, cs, gap, bracket⟩ := (RemainingItems.cons blank gap value remaining).space (']' :: rest)
    rw [bind_ok gap] at read
    obtain ⟨_, _, closed, -⟩ := bind_eq_ok read
    simp [Reader.char, Reader.word, bracket.symm] at closed

theorem items_complete {first : Bool} (rest : List Char) (spaced : ∀ f ∈ fields, Spaced f.read)
    (fieldsOf : ∀ f ∈ fields, f ∈ form.fields) (distinct : (fields.map (·.name)).Nodup)
    (remaining : RemainingItems first vs t) (start : first = decide (place = 0))
    (takes : List.Forall₂ (form.Takes · v ·) fields vs) :
    ∃ w' b, form.items fields place w (t ++ ']' :: rest) = .ok (w', b ++ ']' :: rest) ∧ Blank b ∧
      (∀ f ∈ fields, f.write w' = f.write v) ∧
      ∀ f ∈ form.fields, f.name ∉ fields.map (·.name) → f.write w' = f.write w := by
  induction takes generalizing first t place w with
  | nil =>
    cases remaining with
    | nil blank => exact ⟨w, t, rfl, blank, by simp, by simp⟩
  | @cons f x fields vs takes later ih =>
    obtain ⟨update, copies, taken⟩ := takes
    obtain ⟨fresh, distinct⟩ := List.nodup_cons.1 distinct
    cases remaining with
    | @cons _ a d x t vs blank gap value remaining =>
      subst start
      have next : false = decide (place + 1 = 0) := by simp
      obtain ⟨w', b, read, closed, held, left⟩ := ih (w := update w)
        (fun g mem => spaced g (List.mem_cons_of_mem f mem)) (fun g mem => fieldsOf g (List.mem_cons_of_mem f mem))
        distinct remaining next
      refine ⟨w', b, ?_, closed, fun g mem => ?_, fun g known absent => ?_⟩
      · simp only [decide_eq_true_iff, List.append_assoc]
        rw [items_item blank gap value (spaced f List.mem_cons_self)]
        exact (bind_ok (taken _ (remaining.stops rest))).trans read
      · rcases List.mem_cons.1 mem with rfl | mem
        · exact (left g (fieldsOf g List.mem_cons_self) fresh).trans (copies.own w)
        · exact held g mem
      · rw [List.map_cons, List.mem_cons, not_or] at absent
        exact (left g known absent.2).trans (copies.others w g known absent.1)

theorem array_complete (lawful : form.Lawful) (derives : Derives (.items vs) t)
    (takes : List.Forall₂ (form.Takes · v ·) form.fields vs) (rest : List Char) :
    form.array ('[' :: (t ++ ']' :: rest)) = .ok (v, rest) := by
  have start : true = decide (0 = 0) := rfl
  obtain ⟨w, b, read, blank, held, -⟩ := items_complete (w := form.blank) rest
    (fun f field => (lawful.regular f field).spaced) (fun _ field => field) lawful.distinct derives.remainingItems start
    takes
  obtain rfl := lawful.determined w v held
  rw [array, bind_ok (char_cons _ _), bind_ok read, bind_ok (space_until blank rfl), bind_ok (char_cons _ _),
    pure_apply]

end Form

end VectorGraph.Json
