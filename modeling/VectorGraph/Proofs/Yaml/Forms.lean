import VectorGraph.Proofs.Json.Numeral
import VectorGraph.Proofs.Yaml.Events
import VectorGraph.Yaml.Reader

/-!
Records read from the items of a document. A field takes the items of a value where it turns them into an update and
leaves those after them; a record takes those of a mapping whose members its fields take.
-/
namespace VectorGraph.Yaml

open Piece

theorem Reader.bind_ok {α β : Type} {r : Reader α} {f : α → Reader β} {v : α} {items rest : List Item}
    (read : r items = .ok (v, rest)) : (r >>= f) items = f v rest := by
  show (r items >>= fun p => f p.1 p.2) = f v rest
  rw [read]
  rfl

theorem Reader.next_cons (item : Item) (items : List Item) : Reader.next (item :: items) = .ok (item, items) := rfl

theorem Reader.peek_cons (item : Item) (items : List Item) : Reader.peek (item :: items) = .ok (item, item :: items) :=
  rfl

open Reader

theorem uint64?_digits (n : UInt64) : uint64? (.ofList (Nat.toDigits 10 n.toNat)) = some n := by
  let d : Decimal := ⟨n.toNat, 0⟩
  have value {c : Char} (digit : c.isDigit = true) : digitValue c = c.toNat - '0'.toNat ∧ digitValue c < 10 := by
    simp only [digitValue, digit, if_true, true_and]
    simp only [Char.isDigit, Bool.and_eq_true, decide_eq_true_eq, UInt32.le_iff_toNat_le] at digit
    have high : c.toNat ≤ 57 := digit.2
    have zero : '0'.toNat = 48 := rfl
    omega
  have folds (cs : List Char) (digits : ∀ c ∈ cs, c.isDigit = true) (m : Nat) :
      cs.foldl (fun n c => 10 * n + digitValue c) m = Nat.ofDigitChars 10 cs m := by
    induction cs generalizing m with
    | nil => simp
    | cons c cs ih =>
      rw [Nat.ofDigitChars_cons, List.foldl_cons, (value (digits c List.mem_cons_self)).1]
      exact ih (fun c mem => digits c (List.mem_cons_of_mem _ mem)) _
  have number : digits? 10 d.digitList = some n.toNat := by
    have small : d.digitList.any (10 ≤ digitValue ·) = false := List.any_eq_false.2 fun c mem => by
      simpa using (value (d.isDigit_of_mem_digitList c mem)).2
    have some_digit : d.digitList.isEmpty = false := by simp [d.digitList_ne_nil]
    simp only [digits?, some_digit, small, Bool.or_self, Bool.false_eq_true, if_false]
    rw [folds _ d.isDigit_of_mem_digitList, d.ofDigitChars_digitList]
  have unsigned : unsigned? (.ofList d.digitList) = some n.toNat := by
    have lead := d.digitList_lead
    have digits := d.isDigit_of_mem_digitList
    rw [unsigned?, String.toList_ofList]
    generalize d.digitList = cs at number lead digits
    have padded : isPadded cs = false := by
      unfold isPadded
      split
      · exact absurd rfl (lead _ _)
      · rfl
    have decimal : magnitude? cs = digits? 10 cs := by
      unfold magnitude?
      split
      iterate 3 exact absurd rfl (lead _ _)
      · rfl
    split
    · simp at digits
    · simp [padded, decimal, number]
  show uint64? (.ofList d.digitList) = some n
  rw [uint64?, unsigned]
  simp [n.toNat_lt]

namespace Field

variable {α : Type}

/-- The field takes the items of the value and gives an update. -/
def Takes (f : Field α) (p : Piece) (update : α → α) : Prop :=
  ∀ d path (items : List Item) rest, items.map (·.content) = p.contents ++ rest →
    ∃ items', f.read d path items = .ok (update, items') ∧ items'.map (·.content) = rest

theorem takes_size {name : String} {set : UInt64 → α → α} (n : UInt64) :
    (size name set).Takes (number n) (set n) := by
  intro d path items rest contents
  obtain ⟨item, items, rfl, content, rest⟩ := List.map_eq_cons_iff.1 contents
  refine ⟨items, ?_, rest⟩
  have one : Reader.sizeOf path item items = .ok (n, items) := by
    simp [Reader.sizeOf, content, Scalar.mayBeInteger, uint64?_digits]
    rfl
  have read : Reader.size d path (item :: items) = .ok (n, items) := by
    rw [Reader.size, bind_ok (next_cons _ _)]
    simpa [dereference, content] using one
  exact bind_ok read

end Field

namespace Form

variable {α β : Type} {form : Form α} {ms : List (String × Piece)} {updates : List (α → α)}

/-- Values that fields of the record take, each with its update. -/
def TakesAll (form : Form α) : List (String × Piece) → List (α → α) → Prop :=
  List.Forall₂ fun m update => ∃ f, form.fields.find? (·.name == m.1) = some f ∧ f.Takes m.2 update

theorem entries_takes {d : Document} {path : Path} {mark : Mark} {count : Nat} {v : α} {seen : List String}
    {items : List Item} {rest : List Content} (takes : form.TakesAll ms updates) (distinct : (ms.map (·.1)).Nodup)
    (fresh : ∀ m ∈ ms, m.1 ∉ seen) (enough : ms.length < count)
    (contents : items.map (·.content) = ms.flatMap memberContents ++ .mappingEnd :: rest) :
    ∃ items', form.entries d path mark count v seen items = .ok (updates.foldl (fun v u => u v) v, items') ∧
      items'.map (·.content) = rest := by
  induction takes generalizing count v seen items with
  | nil =>
    obtain ⟨count, rfl⟩ := Nat.exists_eq_succ_of_ne_zero (by omega : count ≠ 0)
    obtain ⟨item, items, rfl, content, rest⟩ := List.map_eq_cons_iff.1 contents
    refine ⟨items, ?_, rest⟩
    rw [entries, bind_ok (peek_cons _ _), if_pos content]
    rfl
  | @cons m update ms updates takes later ih =>
    obtain ⟨count, rfl⟩ := Nat.exists_eq_succ_of_ne_zero (by omega : count ≠ 0)
    obtain ⟨f, found, takes⟩ := takes
    rw [List.map_cons, List.nodup_cons] at distinct
    rw [List.length_cons, Nat.add_lt_add_iff_right] at enough
    rw [List.flatMap_cons, List.append_assoc] at contents
    obtain ⟨item, items, rfl, content, contents⟩ := List.map_eq_cons_iff.1 contents
    have key : Reader.key d path (item :: items) = .ok (m.1, items) := by
      rw [Reader.key, bind_ok (next_cons _ _)]
      simp [dereference, content]
      rfl
    obtain ⟨items, read, contents⟩ := takes d (some m.1 :: path) items _ contents
    have fresh' : ∀ n ∈ ms, n.1 ∉ m.1 :: seen := fun n mem => by
      rw [List.mem_cons, not_or]
      exact ⟨fun same => distinct.1 (same ▸ List.mem_map_of_mem mem), fresh n (List.mem_cons_of_mem m mem)⟩
    obtain ⟨items, read', rest⟩ := ih (v := update v) distinct.2 fresh' enough contents
    refine ⟨items, ?_, rest⟩
    rw [entries, bind_ok (peek_cons _ _), if_neg (by simp [content])]
    simp only [content]
    rw [bind_ok key]
    have unseen : seen.contains m.1 = false := by simpa using fresh m List.mem_cons_self
    simp only [found, unseen, Bool.false_eq_true, if_false]
    exact (bind_ok read).trans read'

theorem read_takes (d : Document) (path : Path) {items : List Item} {rest : List Content}
    (takes : form.TakesAll ms updates) (distinct : (ms.map (·.1)).Nodup)
    (contents : items.map (·.content) = (mapping ms).contents ++ rest) :
    ∃ items', form.read d path items = .ok (updates.foldl (fun v u => u v) form.blank, items') ∧
      items'.map (·.content) = rest := by
  obtain ⟨item, items, rfl, content, inner⟩ := List.map_eq_cons_iff.1 contents
  have enough : ms.length < items.length + 1 := by
    have length := congrArg List.length inner
    have each : ms.length ≤ (ms.flatMap memberContents).length := by
      clear * -
      induction ms with
      | nil => simp
      | cons m ms ih =>
        simp only [List.flatMap_cons, List.length_append, List.length_cons, memberContents]
        omega
    simp only [List.length_map, List.append_eq, List.length_append] at length
    omega
  have inner : items.map (·.content) = ms.flatMap memberContents ++ .mappingEnd :: rest := by simpa using inner
  have fresh : ∀ m ∈ ms, m.1 ∉ [] := by simp
  obtain ⟨items', read, rest⟩ := entries_takes takes distinct fresh enough inner
  refine ⟨items', ?_, rest⟩
  rw [Form.read, bind_ok (next_cons _ _)]
  simpa [dereference, content, ofItem] using read

theorem field_takes {name : String} {set : α → β → β} (takes : form.TakesAll ms updates)
    (distinct : (ms.map (·.1)).Nodup) :
    (form.field name set).Takes (mapping ms) (set (updates.foldl (fun v u => u v) form.blank)) := by
  intro d path items rest contents
  obtain ⟨items', read, rest⟩ := read_takes d path takes distinct contents
  exact ⟨items', bind_ok read, rest⟩

theorem ofText_takes (takes : form.TakesAll ms updates) (distinct : (ms.map (·.1)).Nodup)
    (keys : ∀ m ∈ ms, IsKey m.1) (regular : ∀ m ∈ ms, m.2.Regular) :
    form.ofText (.ofList (mapping ms).json.compact) = .ok (updates.foldl (fun v u => u v) form.blank) := by
  obtain ⟨d, stream, flaw, contents⟩ := read_mapping keys regular
  have whole : d.items.toList.map (·.content) = (mapping ms).contents ++ [] := by rw [contents, List.append_nil]
  obtain ⟨items, read, -⟩ := read_takes d [] takes distinct whole
  obtain ⟨item, items', shape⟩ : ∃ item items', d.items.toList = item :: items' := by
    obtain ⟨item, items', shape, -⟩ := List.map_eq_cons_iff.1 contents
    exact ⟨item, items', shape⟩
  rw [shape] at read
  rw [ofText, String.toList_ofList, stream]
  simp [flaw, shape, read, Except.map]

end Form

end VectorGraph.Yaml
