import VectorGraph.Config.Yaml
import VectorGraph.Proofs.Json.Forms
import VectorGraph.Proofs.Yaml.Forms

/-!
Configurations given by some of their settings. The compact JSON of such a choice is also YAML, and both readings
set the chosen settings and leave the others at their defaults.
-/
namespace VectorGraph

/-- Some of the settings of a record in some order, each with a number. -/
structure Choice {α : Type} (settings : List (Setting α)) where
  members : List (Setting α × UInt64)
  known : ∀ m ∈ members, m.1 ∈ settings
  distinct : (members.map (·.1.name)).Nodup

namespace Choice

variable {α : Type} {settings : List (Setting α)} {blank v : α}

def json (choice : Choice settings) : Json := .object (choice.members.map fun m => (m.1.name, .integer m.2.toNat))

/-- The record has the chosen settings, and the others of the blank one. -/
structure Replaces (choice : Choice settings) (blank v : α) : Prop where
  chosen : ∀ m ∈ choice.members, m.1.get v = m.2
  others : ∀ s ∈ settings, s.name ∉ choice.members.map (·.1.name) → s.get v = s.get blank

def empty : Choice settings := ⟨[], by simp, .nil⟩

def all (independent : Setting.Independent settings) (v : α) : Choice settings where
  members := settings.map fun s => (s, s.get v)
  known := by simp
  distinct := by simpa [Function.comp_def] using independent.distinct

def apply (choice : Choice settings) (v : α) : α := choice.members.foldl (fun v m => m.1.set m.2 v) v

/-- Settings are set one by one, by induction on them. -/
theorem replaces_apply (independent : Setting.Independent settings) (choice : Choice settings) (blank : α) :
    choice.Replaces blank (choice.apply blank) := by
  obtain ⟨ms, known, distinct⟩ := choice
  induction ms generalizing blank with
  | nil => exact ⟨by simp, fun _ _ _ => rfl⟩
  | cons m ms ih =>
    rw [List.map_cons, List.nodup_cons] at distinct
    have present := known m List.mem_cons_self
    obtain ⟨chosen, others⟩ := ih (m.1.set m.2 blank) (fun n mem => known n (List.mem_cons_of_mem m mem)) distinct.2
    refine ⟨fun n mem => ?_, fun s mem absent => ?_⟩
    · rcases List.mem_cons.1 mem with rfl | mem
      · exact (others n.1 present distinct.1).trans (independent.own n.1 present _ _)
      · exact chosen n mem
    · rw [List.map_cons, List.mem_cons, not_or] at absent
      exact (others s mem absent.2).trans (independent.others m.1 present s mem absent.1 _ _)

theorem Replaces.eq_blank (independent : Setting.Independent settings)
    (replaces : (empty : Choice settings).Replaces blank v) : v = blank :=
  independent.determined v blank fun s mem => replaces.others s mem (by simp [empty])

theorem Replaces.eq_all {w : α} (independent : Setting.Independent settings)
    (replaces : (all independent v).Replaces blank w) : w = v :=
  independent.determined w v fun s mem => replaces.chosen (s, s.get v) (List.mem_map_of_mem mem)

end Choice

/-- Some settings of a configuration. Either part may be absent, and either may come first. -/
structure Config.Excerpt where
  graph : Option (Choice GraphConfig.settings)
  vector : Option (Choice VectorConfig.settings)
  graphFirst : Bool

namespace Config.Excerpt

def parts {β : Type} (e : Excerpt) (ofGraph : Choice GraphConfig.settings → β)
    (ofVector : Choice VectorConfig.settings → β) : List β :=
  let graph := (e.graph.map ofGraph).toList
  let vector := (e.vector.map ofVector).toList
  if e.graphFirst then graph ++ vector else vector ++ graph

def json (e : Excerpt) : Json := .object (e.parts (("graph", ·.json)) (("vector", ·.json)))

/-- The configuration has the given settings and otherwise the defaults. -/
structure Gives (e : Excerpt) (c : Config) : Prop where
  graph : (e.graph.getD .empty).Replaces {} c.graph
  vector : (e.vector.getD .empty).Replaces {} c.vector

/-- The configuration to which the settings are added one by one. -/
def config (e : Excerpt) : Config := ⟨(e.graph.getD .empty).apply {}, (e.vector.getD .empty).apply {}⟩

def all (c : Config) : Excerpt :=
  ⟨some (.all GraphConfig.settings_independent c.graph), some (.all VectorConfig.settings_independent c.vector), true⟩

variable {β γ : Type} {e : Excerpt} {ofGraph : Choice GraphConfig.settings → β}
  {ofVector : Choice VectorConfig.settings → β}

theorem mem_parts {b : β} : b ∈ e.parts ofGraph ofVector ↔
    (∃ choice, e.graph = some choice ∧ ofGraph choice = b) ∨
      ∃ choice, e.vector = some choice ∧ ofVector choice = b := by
  unfold parts
  cases e.graphFirst <;> simp [or_comm]

theorem map_parts (f : β → γ) : (e.parts ofGraph ofVector).map f = e.parts (f ∘ ofGraph) (f ∘ ofVector) := by
  obtain ⟨g, v, first⟩ := e
  cases first <;> cases g <;> cases v <;> simp [parts]

theorem forall₂_parts {R : β → γ → Prop} {ofGraph' : Choice GraphConfig.settings → γ}
    {ofVector' : Choice VectorConfig.settings → γ} (graph : ∀ choice, R (ofGraph choice) (ofGraph' choice))
    (vector : ∀ choice, R (ofVector choice) (ofVector' choice)) :
    List.Forall₂ R (e.parts ofGraph ofVector) (e.parts ofGraph' ofVector') := by
  obtain ⟨g, v, first⟩ := e
  cases first <;> cases g <;> cases v <;> simp [parts, graph, vector]

theorem distinct_parts : (e.parts (fun _ => "graph") fun _ => "vector").Nodup := by
  obtain ⟨g, v, first⟩ := e
  cases first <;> cases g <;> cases v <;> simp [parts]

theorem gives_config (e : Excerpt) : e.Gives e.config :=
  ⟨Choice.replaces_apply GraphConfig.settings_independent _ _,
    Choice.replaces_apply VectorConfig.settings_independent _ _⟩

theorem Gives.eq_all {c d : Config} (gives : (all c).Gives d) : d = c := by
  cases c
  cases d
  exact congrArg₂ Config.mk (gives.graph.eq_all GraphConfig.settings_independent)
    (gives.vector.eq_all VectorConfig.settings_independent)

theorem json_all (c : Config) : (all c).json = Config.form.toJson c := rfl

end Config.Excerpt

open Yaml (Piece)

theorem GraphConfig.settings_keys : ∀ s ∈ GraphConfig.settings, Piece.IsKey s.name := by
  simp only [settings, List.forall_mem_cons]
  exact ⟨Piece.isKey_of_all rfl (by decide), Piece.isKey_of_all rfl (by decide), Piece.isKey_of_all rfl (by decide),
    by simp⟩

theorem VectorConfig.settings_keys : ∀ s ∈ VectorConfig.settings, Piece.IsKey s.name := by
  simp only [settings, List.forall_mem_cons]
  exact ⟨Piece.isKey_of_all rfl (by decide), Piece.isKey_of_all rfl (by decide), by simp⟩

namespace Choice

variable {α : Type} {settings : List (Setting α)}

def pieces (choice : Choice settings) : List (String × Piece) := choice.members.map fun m => (m.1.name, .number m.2)

theorem json_eq (choice : Choice settings) : choice.json = (Piece.mapping choice.pieces).json := by
  simp [json, Piece.mapping, pieces, Piece.number]

theorem keys (keys : ∀ s ∈ settings, Piece.IsKey s.name) (choice : Choice settings) :
    ∀ m ∈ choice.pieces, Piece.IsKey m.1 := by
  simp only [pieces, List.forall_mem_map]
  exact fun m mem => keys m.1 (choice.known m mem)

theorem regular (keys : ∀ s ∈ settings, Piece.IsKey s.name) (choice : Choice settings) :
    (Piece.mapping choice.pieces).Regular := by
  refine .mapping (choice.keys keys) ?_
  simp only [pieces, List.forall_mem_map]
  exact fun m _ => .number m.2

theorem takesAll {name : String} {blank : α} (independent : Setting.Independent settings) (choice : Choice settings) :
    (⟨name, blank, settings.map (·.yaml)⟩ : Yaml.Form α).TakesAll choice.pieces
      (choice.members.map fun m => m.1.set m.2) := by
  simp only [Yaml.Form.TakesAll, pieces, List.forall₂_map_left_iff, List.forall₂_map_right_iff, List.forall₂_same]
  intro m mem
  refine ⟨m.1.yaml, ?_, Yaml.Field.takes_size m.2⟩
  have present := choice.known m mem
  have named : settings.find? ((·.name == m.1.name) ∘ Setting.yaml) = some m.1 := by
    cases found : settings.find? (·.name == m.1.name) with
    | none => simpa using List.find?_eq_none.1 found m.1 present
    | some s =>
      obtain rfl := List.inj_on_of_nodup_map independent.distinct (List.mem_of_find?_eq_some found) present
        (by simpa using List.find?_some found)
      exact found
  rw [List.find?_map, named]
  rfl

theorem field_takes {β : Type} {name title : String} {blank : α} {set : α → β → β}
    (independent : Setting.Independent settings) (choice : Choice settings) :
    ((⟨title, blank, settings.map (·.yaml)⟩ : Yaml.Form α).field name set).Takes (Piece.mapping choice.pieces)
      (set (choice.apply blank)) := by
  have takes : ((⟨title, blank, settings.map (·.yaml)⟩ : Yaml.Form α).field name set).Takes _ _ :=
    Yaml.Form.field_takes (choice.takesAll independent)
      (by simpa [pieces, Function.comp_def] using choice.distinct)
  rw [List.foldl_map] at takes
  exact takes

end Choice

namespace Config.Excerpt

variable {e : Excerpt}

def pieces (e : Excerpt) : List (String × Piece) :=
  e.parts (("graph", .mapping ·.pieces)) (("vector", .mapping ·.pieces))

theorem json_eq (e : Excerpt) : e.json = (Piece.mapping e.pieces).json := by
  simp only [json, Piece.mapping, pieces, map_parts, Function.comp_def, Choice.json_eq]

theorem config_eq (e : Excerpt) : (e.parts (fun choice (c : Config) => { c with graph := choice.apply {} })
    fun choice c => { c with vector := choice.apply {} }).foldl (fun c u => u c) {} = e.config := by
  obtain ⟨g, v, first⟩ := e
  cases first <;> cases g <;> cases v <;> rfl

theorem key_parts {γ : Type} {m : String × γ} {ofGraph : Choice GraphConfig.settings → γ}
    {ofVector : Choice VectorConfig.settings → γ} (mem : m ∈ e.parts (("graph", ofGraph ·)) (("vector", ofVector ·))) :
    Piece.IsKey m.1 := by
  rcases mem_parts.1 mem with ⟨choice, -, rfl⟩ | ⟨choice, -, rfl⟩
  · show Piece.IsKey "graph"
    exact Piece.isKey_of_all rfl (by decide)
  · show Piece.IsKey "vector"
    exact Piece.isKey_of_all rfl (by decide)

theorem regular_pieces (e : Excerpt) : ∀ m ∈ e.pieces, m.2.Regular := by
  intro m mem
  rcases mem_parts.1 mem with ⟨choice, -, rfl⟩ | ⟨choice, -, rfl⟩
  · exact choice.regular GraphConfig.settings_keys
  · exact choice.regular VectorConfig.settings_keys

theorem distinct_pieces (e : Excerpt) : (e.pieces.map (·.1)).Nodup := by
  rw [pieces, map_parts]
  exact distinct_parts

theorem ofYaml_json (e : Excerpt) : Config.ofYaml (.ofList e.json.compact) = .ok e.config := by
  have takes : Config.yaml.TakesAll e.pieces (e.parts (fun choice c => { c with graph := choice.apply {} })
      fun choice c => { c with vector := choice.apply {} }) :=
    forall₂_parts (fun choice => ⟨_, rfl, choice.field_takes GraphConfig.settings_independent⟩)
      (fun choice => ⟨_, rfl, choice.field_takes VectorConfig.settings_independent⟩)
  have read := Yaml.Form.ofText_takes takes e.distinct_pieces (fun _ => key_parts) e.regular_pieces
  rw [Config.ofYaml, json_eq, read]
  exact congrArg Except.ok e.config_eq

end Config.Excerpt

namespace Json

variable {ms : List (String × Json)}

theorem key_plain {name : String} (key : Piece.IsKey name) : ∀ c ∈ name.toList, IsPlain c := fun c mem =>
  have ⟨_, backslash, _, quote⟩ := Yaml.Lexer.nameChar_plain (key.1 c mem)
  ⟨quote, backslash, (Piece.nameChar_bounds (key.1 c mem)).1⟩

theorem derives_member {name : String} {v : Json} (key : Piece.IsKey name) (value : Derives .value v.compact) :
    Derives (.member name.toList v.compact) (Piece.memberText (name, v)) := by
  have member := Derives.member blank_nil (isLiteral_self (key_plain key)) blank_nil (.item blank_nil value blank_nil)
  simpa [Piece.memberText, Piece.writeString_key key] using member

/-- Members of which every name can stand before a colon and every value has a text. -/
structure Keyed (ms : List (String × Json)) : Prop where
  keys : ∀ m ∈ ms, Piece.IsKey m.1
  values : ∀ m ∈ ms, Derives .value m.2.compact

/-- The text of an object's members, by induction on them. -/
theorem Keyed.derives (keyed : Keyed ms) :
    Derives (.members (ms.map fun m => (m.1.toList, m.2.compact))) (compactMembers ms) := by
  obtain ⟨keys, values⟩ := keyed
  rw [Piece.compactMembers_eq]
  induction ms with
  | nil => exact .noMember blank_nil
  | cons m ms ih =>
    have member := derives_member (keys m List.mem_cons_self) (values m List.mem_cons_self)
    have rest := ih (fun n mem => keys n (List.mem_cons_of_mem m mem))
      fun n mem => values n (List.mem_cons_of_mem m mem)
    cases ms with
    | nil => simpa [Yaml.separated] using Derives.lastMember member
    | cons n ms =>
      rw [List.map_cons, List.map_cons, Yaml.separated_cons]
      exact .moreMembers member rest

theorem derives_integer (n : UInt64) : Derives .value (integer n.toNat).compact := by
  let d : Decimal := ⟨n.toNat, 0⟩
  have whole : IsWhole d.digitList := ⟨⟨d.digitList_ne_nil, d.isDigit_of_mem_digitList⟩, d.digitList_lead⟩
  have text : (integer n.toNat).compact = d.digitList := Piece.text_number n
  rw [text]
  exact .number whole.isNumber

/-- The compact text of an object that has the members of a record, apart from those that the blank record has. -/
theorem Form.text_object {α : Type} {form : Form α} {Value : Field α → List Char → Prop} {v : α}
    (keyed : Keyed ms) (distinct : (ms.map (·.1)).Nodup)
    (values : ∀ m ∈ ms, ∀ f ∈ form.fields, f.name = m.1 → Value f m.2.compact)
    (leftOut : ∀ f ∈ form.fields, f.name ∉ ms.map (·.1) → form.LeftOut v f) :
    form.Text Value v (Json.object ms).compact := by
  have named {m : String × Json} (mem : m ∈ ms) {name : String} {t : List Char} :
      Named name (m.1.toList, t) ↔ name = m.1 := by
    rw [named_iff (key_plain (keyed.keys m mem)), String.ofList_toList]
  rw [Json.compact]
  refine .object keyed.derives ?_ ?_ ?_ ?_
  · simp only [List.forall_mem_map]
    exact fun m mem => ⟨m.1, (named mem).2 rfl⟩
  · exact List.pairwise_map.2 <| (List.pairwise_map.1 distinct).imp_of_mem fun first second other f _ same again =>
      other (((named first).1 same).symm.trans ((named second).1 again))
  · simp only [List.forall_mem_map]
    exact fun m mem f field same => values m mem f field ((named mem).1 same)
  · simp only [List.forall_mem_map]
    refine fun f field absent => leftOut f field fun mem => ?_
    obtain ⟨m, mem, same⟩ := List.mem_map.1 mem
    exact absent m mem ((named mem).2 same.symm)

end Json

namespace Choice

open Json

variable {α : Type} {settings : List (Setting α)} {blank v : α}

theorem keyed (keys : ∀ s ∈ settings, Piece.IsKey s.name) (choice : Choice settings) :
    Keyed (choice.members.map fun m => (m.1.name, .integer m.2.toNat)) where
  keys := by
    simp only [List.forall_mem_map]
    exact fun m mem => keys m.1 (choice.known m mem)
  values := by
    simp only [List.forall_mem_map]
    exact fun m _ => derives_integer m.2

theorem text_json {name : String} (keys : ∀ s ∈ settings, Piece.IsKey s.name)
    (independent : Setting.Independent settings) (choice : Choice settings) (replaces : choice.Replaces blank v) :
    (⟨name, blank, settings.map (·.field)⟩ : Form α).Text (Form.Plain v) v choice.json.compact := by
  refine Form.text_object (choice.keyed keys) ?_ ?_ ?_
  · simpa [Function.comp_def] using choice.distinct
  · simp only [List.forall_mem_map]
    intro m mem s present same
    obtain rfl := List.inj_on_of_nodup_map independent.distinct present (choice.known m mem) same
    simp [Form.Plain, Setting.field, Field.size, replaces.chosen m mem]
  · simp only [List.forall_mem_map, List.map_map]
    intro s present absent
    exact ⟨by simp [Setting.field, Field.size], Field.write_size.2 (replaces.others s present absent)⟩

end Choice

namespace Config.Excerpt

open Json

theorem keyed (e : Excerpt) : Keyed (e.parts (("graph", ·.json)) (("vector", ·.json))) where
  keys _ := key_parts
  values m mem := by
    rcases mem_parts.1 mem with ⟨choice, -, rfl⟩ | ⟨choice, -, rfl⟩
    · exact .object (choice.keyed GraphConfig.settings_keys).derives
    · exact .object (choice.keyed VectorConfig.settings_keys).derives

theorem run_json (e : Excerpt) {c : Config} (gives : e.Gives c) :
    Config.form.read.run (.ofList e.json.compact) = .ok c := by
  have text : Config.form.Text c.Nested c e.json.compact := by
    refine Form.text_object e.keyed ?_ (fun m mem f field same => ?_) (fun f field absent => ?_)
    · rw [map_parts]
      exact distinct_parts
    · rcases mem_parts.1 mem with ⟨choice, given, rfl⟩ | ⟨choice, given, rfl⟩
      · have replaces := gives.graph
        rw [given] at replaces
        exact .inl ⟨same, choice.text_json GraphConfig.settings_keys GraphConfig.settings_independent replaces⟩
      · have replaces := gives.vector
        rw [given] at replaces
        exact .inr ⟨same, choice.text_json VectorConfig.settings_keys VectorConfig.settings_independent replaces⟩
    · simp only [Config.form, List.mem_cons, List.not_mem_nil, or_false] at field
      rcases field with rfl | rfl
      · have unset : e.graph = none := Option.eq_none_iff_forall_ne_some.2 fun choice given =>
          absent (List.mem_map.2 ⟨_, mem_parts.2 (.inl ⟨choice, given, rfl⟩), rfl⟩)
        have replaces := gives.graph
        rw [unset] at replaces
        exact ⟨by simp [Form.field],
          congrArg GraphConfig.form.toJson (replaces.eq_blank GraphConfig.settings_independent)⟩
      · have unset : e.vector = none := Option.eq_none_iff_forall_ne_some.2 fun choice given =>
          absent (List.mem_map.2 ⟨_, mem_parts.2 (.inr ⟨choice, given, rfl⟩), rfl⟩)
        have replaces := gives.vector
        rw [unset] at replaces
        exact ⟨by simp [Form.field],
          congrArg VectorConfig.form.toJson (replaces.eq_blank VectorConfig.settings_independent)⟩
  simpa using Config.form_readsBack.text c e.json.compact [] [] text blank_nil blank_nil

end Config.Excerpt

/-- The compact JSON of some settings in any order is accepted both as YAML and as JSON, and both readings are the
default configuration with these settings replaced. So the JSON of a whole configuration is read as YAML too. -/
theorem Config.excerpts_agree : (∀ e : Config.Excerpt, ∃ c, e.Gives c ∧
      Config.ofYaml (.ofList e.json.compact) = .ok c ∧ Config.form.read.run (.ofList e.json.compact) = .ok c) ∧
    ∀ c, Config.ofYaml (.ofList (Config.form.toJson c).compact) = .ok c := by
  refine ⟨fun e => ⟨e.config, e.gives_config, e.ofYaml_json, e.run_json e.gives_config⟩, fun c => ?_⟩
  have gives := (Excerpt.all c).gives_config
  have same : (Excerpt.all c).config = c := gives.eq_all
  have read := (Excerpt.all c).ofYaml_json
  rwa [Excerpt.json_all, same] at read

end VectorGraph
