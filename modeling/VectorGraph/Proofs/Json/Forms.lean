import VectorGraph.Json.Forms
import VectorGraph.Proofs.Json.Layout

/-!
The records without floats are read from every layout.
-/
namespace VectorGraph

namespace Json

open Reader

variable {α : Type} {t rest : List Char}

namespace Form

variable {form : Form α} {v w : α} {ms : List (List Char × List Char)}

theorem read_object {b : List Char} (blank : Blank b) (cs : List Char) :
    form.read (b ++ '\x7b' :: cs) = form.object ('\x7b' :: cs) := by
  rw [read, bind_ok (space_until blank rfl), bind_ok (peek_cons _ _)]
  rfl

theorem read_array {b : List Char} (blank : Blank b) (cs : List Char) :
    form.read (b ++ '[' :: cs) = form.array ('[' :: cs) := by
  rw [read, bind_ok (space_until blank rfl), bind_ok (peek_cons _ _)]
  rfl

theorem regular_read (regular : ∀ f ∈ form.fields, Regular f.read) : Regular form.read where
  spaced := spaced_space.bind _
  whole t rest x rest' value ends read := by
    obtain ⟨c, cs, rfl, other, -⟩ := value.starts
    by_cases brace : c = '\x7b'
    · subst brace
      obtain ⟨ms, t, rfl, members⟩ := value.object_inv
      have object : form.object _ = form.read _ := (read_object blank_nil (t ++ '\x7d' :: rest)).symm
      exact (object_sound regular members (object.trans (by simpa using read))).1
    by_cases bracket : c = '['
    · subst bracket
      obtain ⟨vs, t, rfl, items⟩ := value.array_inv
      have array : form.array _ = form.read _ := (read_array blank_nil (t ++ ']' :: rest)).symm
      exact array_sound regular items (array.trans (by simpa using read))
    rw [Form.read, List.cons_append, bind_ok (space_cons other), bind_ok (peek_cons _ _)] at read
    obtain ⟨e, refused⟩ := refuse_refuses (α := α) form.title (c :: (cs ++ rest))
    simp only [Option.some.injEq, brace, bracket, imp_self] at read
    simp [refused] at read

/-- The texts of a record whose members have texts of their own: an object of them in any order, with others among
them and without some that may be left out, or an array of them all. -/
inductive Text (form : Form α) (Value : Field α → List Char → Prop) (v : α) : List Char → Prop
  | object {ms : List (List Char × List Char)} {t : List Char} (derives : Derives (.members ms) t)
      (names : ∀ m ∈ ms, ∃ name, Named name m) (once : form.Once ms)
      (values : ∀ m ∈ ms, ∀ f ∈ form.fields, Named f.name m → Value f m.2)
      (leftOut : ∀ f ∈ form.fields, (∀ m ∈ ms, ¬Named f.name m) → form.LeftOut v f) :
      Text form Value v ('\x7b' :: (t ++ ['\x7d']))
  | array {vs : List (List Char)} {t : List Char} (derives : Derives (.items vs) t)
      (values : List.Forall₂ Value form.fields vs) : Text form Value v ('[' :: (t ++ [']']))

theorem read_text {Value : Field α → List Char → Prop} {b : List Char} (lawful : form.Lawful)
    (takes : ∀ f ∈ form.fields, ∀ t, Value f t → form.Takes f v t) (text : form.Text Value v t) (blank : Blank b)
    (rest : List Char) : form.read (b ++ (t ++ rest)) = .ok (v, rest) := by
  cases text with
  | @object ms t derives names once values leftOut =>
    have readable : form.Readable v [] ms := {
      names
      once
      fresh := by simp
      takes := fun m mem f field named => takes f field m.2 (values m mem f field named) }
    simpa using (read_object blank _).trans (object_complete lawful derives readable leftOut rest)
  | @array vs t derives values =>
    have takes : List.Forall₂ (form.Takes · v ·) form.fields vs := by
      rw [List.forall₂_iff_get] at values ⊢
      exact ⟨values.1, fun i field item => takes _ (List.get_mem _ _) _ (values.2 i field item)⟩
    simpa using (read_array blank _).trans (array_complete lawful derives takes rest)

/-- Two members have this name. -/
def Repeats (name : String) (ms : List (List Char × List Char)) : Prop :=
  ∃ m m', List.Sublist [m, m'] ms ∧ Named name m ∧ Named name m'

theorem Once.not_repeats {f : Field α} (once : form.Once ms) (field : f ∈ form.fields) : ¬Repeats f.name ms := by
  rintro ⟨m, m', sub, named, again⟩
  exact List.pairwise_iff_forall_sublist.1 once sub f field named again

theorem read_object_refuses {b : List Char} (regular : ∀ f ∈ form.fields, Regular f.read) (blank : Blank b)
    (members : Derives (.members ms) t)
    (fails : (∃ f ∈ form.fields, Repeats f.name ms) ∨
      ∃ f ∈ form.fields, f.absence = .refused ∧ ∀ m ∈ ms, ¬Named f.name m) :
    ∃ e, form.read (b ++ '\x7b' :: (t ++ '\x7d' :: rest)) = .error e := by
  cases read : form.read (b ++ '\x7b' :: (t ++ '\x7d' :: rest)) with
  | error e => exact ⟨e, rfl⟩
  | ok p =>
    obtain ⟨w, rest'⟩ := p
    obtain ⟨-, once, all⟩ := object_sound regular members ((read_object blank _).symm.trans read)
    rcases fails with ⟨f, field, repeats⟩ | ⟨f, field, refused, absent⟩
    · exact absurd repeats (once.not_repeats field)
    · obtain ⟨m, mem, named⟩ := all f field refused
      exact absurd named (absent m mem)

theorem run_eq_ok {r : Reader α} {cs a : List Char} {v : α} (read : r cs = .ok (v, a)) (blank : Blank a) :
    r.run (.ofList cs) = .ok v := by
  have blank : a.all isSpace = true := List.all_eq_true.2 blank
  simp [Reader.run, String.toList_ofList, read, blank]

theorem run_refuses {r : Reader α} {cs : List Char} (refuses : ∃ e, r cs = .error e) :
    ∃ e, r.run (.ofList cs) = .error e := by
  obtain ⟨e, refused⟩ := refuses
  exact ⟨e, by simp [Reader.run, String.toList_ofList, refused]⟩

/-- A member's text as the library writes it. -/
def Plain (v : α) (f : Field α) (t : List Char) : Prop := t = (f.write v).compact

/-- The record is read from every layout and from its own text, and no object that names a field twice is one. -/
structure ReadsBack (form : Form α) (Value : α → Field α → List Char → Prop) : Prop where
  text : ∀ v t b a, form.Text (Value v) v t → Blank b → Blank a → form.read.run (.ofList (b ++ (t ++ a))) = .ok v
  compact : ∀ v, form.read.run (.ofList (form.toJson v).compact) = .ok v
  repeated : ∀ f ∈ form.fields, ∀ ms t b a, Derives (.members ms) t → Repeats f.name ms → Blank b →
    ∃ e, form.read.run (.ofList (b ++ '\x7b' :: (t ++ '\x7d' :: a))) = .error e

/-- No object without this member is the record. -/
def Requires (form : Form α) (f : Field α) : Prop :=
  ∀ ms t b a, Derives (.members ms) t → (∀ m ∈ ms, ¬Named f.name m) → Blank b →
    ∃ e, form.read.run (.ofList (b ++ '\x7b' :: (t ++ '\x7d' :: a))) = .error e

theorem Lawful.requires (lawful : form.Lawful) {f : Field α} (field : f ∈ form.fields)
    (refused : f.absence = .refused) : form.Requires f := fun _ _ _ _ members absent blank =>
  run_refuses (read_object_refuses lawful.regular blank members (.inr ⟨f, field, refused, absent⟩))

theorem Lawful.readsBack {Value : α → Field α → List Char → Prop} (lawful : form.Lawful)
    (takes : ∀ v, ∀ f ∈ form.fields, ∀ t, Value v f t → form.Takes f v t)
    (compact : ∀ v, form.read.run (.ofList (form.toJson v).compact) = .ok v) : form.ReadsBack Value where
  text v _ _ a text before after := run_eq_ok (read_text lawful (takes v) text before a) after
  compact
  repeated f field _ _ _ _ members repeats blank :=
    run_refuses (read_object_refuses lawful.regular blank members (.inl ⟨f, field, repeats⟩))

end Form

theorem Field.Returns.size {name : String} {absence : Absence} {v : α} {get : α → UInt64} {set : UInt64 → α → α} :
    (Field.size name absence get set).Returns v (set (get v)) :=
  .of_read rfl fun _ => uint64_writeInteger "usize" (get v)

theorem Field.Returns.form {β : Type} {form : Form β} {name : String} {v : α} {get : α → β} {set : β → α → α}
    (read : ∀ rest, form.read ((form.toJson (get v)).compact ++ rest) = .ok (get v, rest)) :
    (form.field name get set).Returns v (set (get v)) :=
  .of_read rfl fun rest _ => read rest

theorem Form.Takes.of_returns {form : Form α} {f : Field α} {v : α} {update : α → α} (returns : f.Returns v update)
    (own : ∀ w, f.write (update w) = f.write v)
    (others : ∀ w, ∀ g ∈ form.fields, g.name ≠ f.name → g.write (update w) = g.write w) :
    ∀ t, Form.Plain v f t → form.Takes f v t := by
  rintro t rfl
  exact ⟨update, ⟨own, others⟩, returns⟩

theorem integer_word {a b : UInt64} : Json.integer a.toNat = Json.integer b.toNat ↔ a = b := by
  simp [UInt64.toNat_inj]

theorem ref_raw {kind : Kind} {a b : Ref kind} : a.id.raw = b.id.raw ↔ a = b := by
  constructor
  · rintro same
    cases a with | mk a => cases a; cases b with | mk b => cases b; simpa using same
  · rintro rfl
    rfl

/-- The members determine the record, and so does its text. -/
theorem Form.Lawful.toJson_inj {form : Form α} (lawful : form.Lawful) {v w : α} (same : form.toJson v = form.toJson w) :
    v = w := by
  refine lawful.determined v w fun f field => ?_
  simp only [Form.toJson, Json.object.injEq, List.map_inj_left, Prod.mk.injEq, true_and] at same
  exact same f field

namespace Field

variable {name : String} {absence : Absence} {v w : α}

theorem write_size {get : α → UInt64} {set : UInt64 → α → α} :
    (size name absence get set).write v = (size name absence get set).write w ↔ get v = get w :=
  integer_word

theorem write_ref {kind : Kind} {get : α → Ref kind} {set : Ref kind → α → α} :
    (ref name get set).write v = (ref name get set).write w ↔ get v = get w :=
  integer_word.trans ref_raw

theorem write_link {kind : Kind} {get : α → Option (Ref kind)} {set : Option (Ref kind) → α → α} :
    (link name get set).write v = (link name get set).write w ↔ get v = get w := by
  simp only [link]
  cases get v <;> cases get w <;> simp [UInt64.toNat_inj, ref_raw]

end Field

end Json

open Json

theorem Node.form_lawful : Node.form.Lawful where
  distinct := by decide
  regular := by
    simp only [Node.form, List.forall_mem_cons]
    exact ⟨Field.regular_ref, Field.regular_link, Field.regular_link, Field.regular_link, Field.regular_link, by simp⟩
  determined v w same := by
    simp only [Node.form, List.forall_mem_cons, Field.write_ref, Field.write_link] at same
    obtain ⟨id, ⟨outFirst, outLast⟩, ⟨inFirst, inLast⟩⟩ := v
    obtain ⟨id', ⟨outFirst', outLast'⟩, ⟨inFirst', inLast'⟩⟩ := w
    simp_all

theorem Node.form_takes (v : Node) : ∀ f ∈ Node.form.fields, ∀ t, Form.Plain v f t → Node.form.Takes f v t := by
  simp only [Node.form, List.forall_mem_cons, List.not_mem_nil, false_imp_iff, implies_true, and_true]
  refine ⟨.of_returns .ref (fun _ => rfl) fun w => ?_, .of_returns .link (fun _ => rfl) fun w => ?_,
    .of_returns .link (fun _ => rfl) fun w => ?_, .of_returns .link (fun _ => rfl) fun w => ?_,
    .of_returns .link (fun _ => rfl) fun w => ?_⟩ <;>
  simp [Field.ref, Field.id, Field.word, Field.link]

theorem Node.form_readsBack : Node.form.ReadsBack Form.Plain :=
  Node.form_lawful.readsBack Node.form_takes fun v =>
    Form.run_compact (by decide) <| show List.Forall₂ (Field.Returns · v ·) Node.form.fields _ from
      .cons .ref <| .cons .link <| .cons .link <| .cons .link <| .cons .link .nil

theorem Statistics.form_lawful : Statistics.form.Lawful where
  distinct := by decide
  regular := by
    simp only [Statistics.form, List.forall_mem_cons, List.not_mem_nil, false_imp_iff, implies_true, and_true]
    exact ⟨Field.regular_size, Field.regular_size, Field.regular_size, Field.regular_size, Field.regular_size,
      Field.regular_size⟩
  determined v w same := by
    simp only [Statistics.form, List.forall_mem_cons, Field.write_size] at same
    cases v
    cases w
    simp_all

theorem Statistics.form_takes (v : Statistics) :
    ∀ f ∈ Statistics.form.fields, ∀ t, Form.Plain v f t → Statistics.form.Takes f v t := by
  simp only [Statistics.form, List.forall_mem_cons, List.not_mem_nil, false_imp_iff, implies_true, and_true]
  refine ⟨?_, ?_, ?_, ?_, ?_, ?_⟩ <;>
  · refine .of_returns .size (fun _ => rfl) fun w => ?_
    simp [Field.size]

theorem Statistics.form_readsBack : Statistics.form.ReadsBack Form.Plain :=
  Statistics.form_lawful.readsBack Statistics.form_takes fun v =>
    Form.run_compact (by decide) <| show List.Forall₂ (Field.Returns · v ·) Statistics.form.fields _ from
      .cons .size <| .cons .size <| .cons .size <| .cons .size <| .cons .size <| .cons .size .nil

/-- Settings under distinct names that are set one by one and together determine their record. -/
structure Setting.Independent {α : Type} (settings : List (Setting α)) : Prop where
  distinct : (settings.map (·.name)).Nodup
  own : ∀ s ∈ settings, ∀ n v, s.get (s.set n v) = n
  others : ∀ s ∈ settings, ∀ s' ∈ settings, s'.name ≠ s.name → ∀ n v, s'.get (s.set n v) = s'.get v
  determined : ∀ v w, (∀ s ∈ settings, s.get v = s.get w) → v = w

theorem GraphConfig.settings_independent : Setting.Independent GraphConfig.settings where
  distinct := by decide
  own := by simp [GraphConfig.settings]
  others := by simp [GraphConfig.settings]
  determined v w same := by
    cases v
    cases w
    simpa [GraphConfig.settings] using same

theorem VectorConfig.settings_independent : Setting.Independent VectorConfig.settings where
  distinct := by decide
  own := by simp [VectorConfig.settings]
  others := by simp [VectorConfig.settings]
  determined v w same := by
    cases v
    cases w
    simpa [VectorConfig.settings] using same

namespace Setting.Independent

variable {α : Type} {settings : List (Setting α)} {name : String} {blank : α}

theorem form_lawful (independent : Setting.Independent settings) :
    (⟨name, blank, settings.map (·.field)⟩ : Form α).Lawful where
  distinct := by simpa [Setting.field, Function.comp_def, Json.Field.size] using independent.distinct
  regular f field := by
    obtain ⟨s, -, rfl⟩ := List.mem_map.1 field
    exact Field.regular_size
  determined v w same := independent.determined v w fun s mem => Field.write_size.1 (same _ (List.mem_map_of_mem mem))

theorem form_takes (independent : Setting.Independent settings) (v : α) :
    ∀ f ∈ settings.map (·.field), ∀ t, Form.Plain v f t →
      (⟨name, blank, settings.map (·.field)⟩ : Form α).Takes f v t := by
  intro f field
  obtain ⟨s, mem, rfl⟩ := List.mem_map.1 field
  refine .of_returns .size (fun w => Field.write_size.2 (independent.own s mem _ w)) fun w g field other => ?_
  obtain ⟨s', mem', rfl⟩ := List.mem_map.1 field
  exact Field.write_size.2 (independent.others s mem s' mem' other _ w)

end Setting.Independent

theorem GraphConfig.form_returns (v : GraphConfig) : List.Forall₂ (Json.Field.Returns · v ·) GraphConfig.form.fields
    (GraphConfig.settings.map fun s => s.set (s.get v)) :=
  .cons .size <| .cons .size <| .cons .size .nil

theorem VectorConfig.form_returns (v : VectorConfig) : List.Forall₂ (Json.Field.Returns · v ·) VectorConfig.form.fields
    (VectorConfig.settings.map fun s => s.set (s.get v)) :=
  .cons .size <| .cons .size .nil

theorem GraphConfig.form_readsBack : GraphConfig.form.ReadsBack Form.Plain :=
  settings_independent.form_lawful.readsBack settings_independent.form_takes fun v =>
    Form.run_compact (by decide) (form_returns v)

theorem VectorConfig.form_readsBack : VectorConfig.form.ReadsBack Form.Plain :=
  settings_independent.form_lawful.readsBack settings_independent.form_takes fun v =>
    Form.run_compact (by decide) (form_returns v)

/-- Either part of a configuration can have any of its texts. -/
def Config.Nested (c : Config) (f : Json.Field Config) (t : List Char) : Prop :=
  f.name = "graph" ∧ GraphConfig.form.Text (Form.Plain c.graph) c.graph t ∨
    f.name = "vector" ∧ VectorConfig.form.Text (Form.Plain c.vector) c.vector t

theorem Config.form_lawful : Config.form.Lawful where
  distinct := by decide
  regular := by
    simp only [Config.form, List.forall_mem_cons, List.not_mem_nil, false_imp_iff, implies_true, and_true]
    exact ⟨(Form.regular_read GraphConfig.settings_independent.form_lawful.regular).map _,
      (Form.regular_read VectorConfig.settings_independent.form_lawful.regular).map _⟩
  determined v w same := by
    simp only [Config.form, List.forall_mem_cons] at same
    have graph : v.graph = w.graph := GraphConfig.settings_independent.form_lawful.toJson_inj same.1
    have vector : v.vector = w.vector := VectorConfig.settings_independent.form_lawful.toJson_inj same.2.1
    cases v
    cases w
    simp_all

theorem Config.form_takes (c : Config) : ∀ f ∈ Config.form.fields, ∀ t, c.Nested f t → Config.form.Takes f c t := by
  simp only [Config.form, List.forall_mem_cons, List.not_mem_nil, false_imp_iff, implies_true, and_true]
  constructor
  · rintro t (⟨-, text⟩ | ⟨vector, -⟩)
    · have read := Form.read_text (b := []) GraphConfig.settings_independent.form_lawful
        (GraphConfig.settings_independent.form_takes c.graph) text blank_nil
      exact ⟨fun w => { w with graph := c.graph }, ⟨fun _ => rfl, by simp [Form.field]⟩, fun rest _ =>
        Reader.bind_ok (read rest)⟩
    · simp [Form.field] at vector
  · rintro t (⟨graph, -⟩ | ⟨-, text⟩)
    · simp [Form.field] at graph
    · have read := Form.read_text (b := []) VectorConfig.settings_independent.form_lawful
        (VectorConfig.settings_independent.form_takes c.vector) text blank_nil
      exact ⟨fun w => { w with vector := c.vector }, ⟨fun _ => rfl, by simp [Form.field]⟩, fun rest _ =>
        Reader.bind_ok (read rest)⟩

theorem Config.form_returns (c : Config) : List.Forall₂ (Json.Field.Returns · c ·) Config.form.fields
    [fun w => { w with graph := c.graph }, fun w => { w with vector := c.vector }] :=
  .cons (.form fun rest => Form.read_compact rest (by decide) (GraphConfig.form_returns c.graph)) <|
    .cons (.form fun rest => Form.read_compact rest (by decide) (VectorConfig.form_returns c.vector)) .nil

theorem Config.form_readsBack : Config.form.ReadsBack Config.Nested :=
  Config.form_lawful.readsBack Config.form_takes fun c => Form.run_compact (by decide) (form_returns c)

/-- Every record without floats is read back: from an object of its members in any order, with any others among them
and without members that the blank record already has, if these may be left out; from an array of its members; and from
its own text. An object that repeats a member is refused, and so is one that lacks the handle of a node or a count of
the statistics. -/
theorem records_layouts : Node.form.ReadsBack Form.Plain ∧ Statistics.form.ReadsBack Form.Plain ∧
    GraphConfig.form.ReadsBack Form.Plain ∧ VectorConfig.form.ReadsBack Form.Plain ∧
    Config.form.ReadsBack Config.Nested ∧ (∀ f ∈ Node.form.fields, f.name = "id" → Node.form.Requires f) ∧
    ∀ f ∈ Statistics.form.fields, Statistics.form.Requires f := by
  refine ⟨Node.form_readsBack, Statistics.form_readsBack, GraphConfig.form_readsBack, VectorConfig.form_readsBack,
    Config.form_readsBack, fun f field name => Node.form_lawful.requires field ?_, fun f field =>
    Statistics.form_lawful.requires field ?_⟩
  · revert f
    simp [Node.form, Json.Field.ref, Json.Field.id, Json.Field.word, Json.Field.link]
  · revert f
    simp [Statistics.form, Json.Field.size]

/-- A node in two members of an object, after one that it does not have. -/
theorem records_layouts_shuffled :
    Node.form.read.run "\x7b\"note\":[true],\"out_head\":7,\"id\":4294967297\x7d"
      = .ok { id := ⟨⟨4294967297⟩⟩, outgoing := { first := some ⟨⟨7⟩⟩ } } := by
  have number (t : List Char) (whole : IsWhole t) : Derives (.item t) ([] ++ (t ++ [])) :=
    .item blank_nil (.number whole.isNumber) blank_nil
  have member {v t : List Char} (n : List Char) (plain : ∀ c ∈ n, IsPlain c) (item : Derives (.item v) t) :
      Derives (.member n v) ([] ++ '"' :: (n ++ '"' :: ([] ++ ':' :: t))) :=
    .member blank_nil (isLiteral_self plain) blank_nil item
  have note := Derives.item blank_nil
    (.array (.lastItem (.item blank_nil (.word (w := "true") (by simp)) blank_nil))) blank_nil
  have small := number "7".toList ⟨⟨by simp, List.all_eq_true.1 rfl⟩, by simp⟩
  have large := number "4294967297".toList ⟨⟨by simp, List.all_eq_true.1 rfl⟩, by simp⟩
  have members := Derives.moreMembers (member "note".toList (plain_of_all rfl) note) <|
    .moreMembers (member "out_head".toList (plain_of_all rfl) small) <|
      .lastMember (member "id".toList (plain_of_all rfl) large)
  let node : Node := { id := ⟨⟨4294967297⟩⟩, outgoing := { first := some ⟨⟨7⟩⟩ } }
  have text : Node.form.Text (Form.Plain node) node _ := .object members
    (by simp (disch := exact plain_of_all rfl) [named_iff])
    (by simp (disch := exact plain_of_all rfl) [named_iff, Form.Once, Node.form, Json.Field.ref, Json.Field.link,
      Json.Field.id, Json.Field.word])
    (by
      simp (disch := exact plain_of_all rfl) [named_iff, Node.form, Json.Field.ref, Json.Field.link, Json.Field.id,
        Json.Field.word]
      exact ⟨rfl, show "4294967297".toList = writeInteger 4294967297 by decide +kernel⟩)
    (by
      simp (disch := exact plain_of_all rfl) [named_iff, Node.form, Json.Field.ref, Json.Field.link, Json.Field.id,
        Json.Field.word]
      exact ⟨⟨by decide, rfl⟩, ⟨by decide, rfl⟩, ⟨by decide, rfl⟩⟩)
  simpa using records_layouts.1.text node _ [] [] text blank_nil blank_nil

end VectorGraph
