import Mathlib.Data.List.Basic
import Mathlib.Data.Prod.Lex
import VectorGraph.Proofs.Id

/-! Handles stand one to one for slots with generations: in their numbers, in their order and in their texts. -/
namespace VectorGraph.Id

variable {slot generation : Nat} {id a b : Id}

/-- The generation fills the high half of a handle and the slot the low half, with no bit in common. -/
theorem raw_ofParts_eq_or (slots : slot + 1 < UInt32.size) (generations : generation < UInt32.size) :
    (ofParts slot generation).raw = UInt64.ofNat generation <<< 32 ||| UInt64.ofNat (slot + 1) := by
  have fits {n : Nat} (small : n < UInt32.size) : (UInt64.ofNat n).toNat = n :=
    UInt64.toNat_ofNat_of_lt' (Nat.lt_trans small (by decide))
  have room : generation <<< 32 < 18446744073709551616 := by
    rw [Nat.shiftLeft_eq]
    simp only [UInt32.size] at generations
    omega
  have high : (UInt64.ofNat generation <<< 32).toNat = generation <<< 32 := by
    rw [UInt64.toNat_shiftLeft, fits generations]
    exact Nat.mod_eq_of_lt room
  apply UInt64.toNat_inj.mp
  calc (ofParts slot generation).raw.toNat
      = generation <<< 32 + (slot + 1) := by rw [raw_ofParts slots generations, Nat.shiftLeft_eq]
    _ = generation <<< 32 ||| (slot + 1) := Nat.shiftLeft_add_eq_or_of_lt slots generation
    _ = _ := by rw [UInt64.toNat_or, high, fits slots]

theorem slot?_eq_none_iff : id.slot? = none ↔ id.raw.toUInt32 = 0 := by
  simp [slot?, ← UInt32.toNat_inj]

theorem slot?_lt (held : id.slot? = some slot) : slot + 1 < UInt32.size := by
  rw [← slot?_eq_some_iff.mp held]
  exact Nat.mod_lt _ (by decide)

theorem ofParts_slot? (held : id.slot? = some slot) : ofParts slot id.generation = id := by
  have slots := slot?_lt held
  have generations := id.generation_lt
  exact eq_of_parts (slot?_ofParts slots generations) held (generation_ofParts slots generations)

/-- The slot never fills the low half, so it counts only between handles of one generation. -/
theorem le_iff_lex {i j : Nat} (left : a.slot? = some i) (right : b.slot? = some j) :
    a ≤ b ↔ toLex (a.generation, i) ≤ toLex (b.generation, j) := by
  have here := slot?_lt left
  have there := slot?_lt right
  have raws : a ≤ b ↔ a.raw.toNat ≤ b.raw.toNat := UInt64.le_iff_toNat_le
  rw [raws, a.raw_eq, b.raw_eq, slot?_eq_some_iff.mp left, slot?_eq_some_iff.mp right, Prod.Lex.toLex_le_toLex]
  simp only [UInt32.size] at *
  omega

theorem toList_text (held : id.slot? = some slot) :
    id.text.toList = Nat.toDigits 10 slot ++ 'v' :: Nat.toDigits 10 id.generation := by
  simp [text, held, Nat.toString_eq_repr]

theorem separator_not_mem (n : Nat) : 'v' ∉ Nat.toDigits 10 n := by
  intro member
  have digit := Nat.isDigit_of_mem_toDigits (by decide) (by decide) member
  simp at digit

theorem toDigits_injective : Function.Injective (Nat.toDigits 10) :=
  Function.LeftInverse.injective (g := fun digits => Nat.ofDigitChars 10 digits 0) fun _ =>
    Nat.ofDigitChars_ten_toDigits

/-- The letter between the two numbers is no digit, so both can be told from the text. -/
theorem eq_of_text {i j : Nat} (left : a.slot? = some i) (right : b.slot? = some j) (same : a.text = b.text) :
    a = b := by
  have digits := congrArg String.toList same
  rw [toList_text left, toList_text right,
    List.append_cons_inj_of_notMem (separator_not_mem i) (separator_not_mem a.generation)] at digits
  obtain ⟨slots, _, generations⟩ := digits
  obtain rfl := toDigits_injective slots
  exact eq_of_parts left right (toDigits_injective generations)

/-- Handles with a slot and pairs of a slot and a generation determine each other, and the pairs tell the order of the
handles and are told by their texts. -/
theorem encoding_exact :
    (∀ slot generation, slot + 1 < UInt32.size → generation < UInt32.size →
      (ofParts slot generation).raw = UInt64.ofNat generation <<< 32 ||| UInt64.ofNat (slot + 1) ∧
        ofParts slot generation ≠ null ∧ (ofParts slot generation).slot? = some slot ∧
        (ofParts slot generation).generation = generation) ∧
      (∀ id : Id, id.raw.toUInt32 ≠ 0 → ∃ slot, id.slot? = some slot ∧ slot + 1 < UInt32.size ∧
        id.generation < UInt32.size ∧ ofParts slot id.generation = id) ∧
      (∀ id : Id, id.raw.toUInt32 = 0 → id.slot? = none) ∧
      ∀ (a b : Id) (i j : Nat), a.slot? = some i → b.slot? = some j →
        (a.text = b.text → a = b) ∧ (a ≤ b ↔ toLex (a.generation, i) ≤ toLex (b.generation, j)) := by
  refine ⟨?_, ?_, fun id => slot?_eq_none_iff.mpr, fun a b i j left right =>
    ⟨eq_of_text left right, le_iff_lex left right⟩⟩
  · intro slot generation slots generations
    have held := slot?_ofParts slots generations
    exact ⟨raw_ofParts_eq_or slots generations, ne_null_of_slot? held, held, generation_ofParts slots generations⟩
  · intro id low
    obtain ⟨slot, held⟩ := Option.ne_none_iff_exists'.mp (mt slot?_eq_none_iff.mp low)
    exact ⟨slot, held, slot?_lt held, id.generation_lt, ofParts_slot? held⟩

/-- The last slot in its last generation, where every bit is set; a handle spelled by its number; a later generation of
an earlier slot; and a generation without a slot. -/
theorem encoding_exact_ends :
    let last : Id := ofParts 4294967294 4294967295
    let spelled : Id := ⟨0x200000004⟩
    last.raw = 0xFFFFFFFFFFFFFFFF ∧ last.slot? = some 4294967294 ∧ last.generation = 4294967295 ∧
      spelled.text = "3v2" ∧ (ofParts 3 2).text = "3v2" ∧ spelled = ofParts 3 2 ∧
      ofParts 9 1 ≤ spelled ∧ (∃ slot, spelled.slot? = some slot ∧ ofParts slot spelled.generation = spelled) ∧
      (⟨0x500000000⟩ : Id).slot? = none := by
  intro last spelled
  obtain ⟨built, read, slotless, pairs⟩ := encoding_exact
  obtain ⟨raw, _, slot, generation⟩ := built 4294967294 4294967295 (by decide) (by decide)
  obtain ⟨texts, _⟩ := pairs spelled (ofParts 3 2) 3 3 (by decide) (by decide)
  obtain ⟨_, order⟩ := pairs (ofParts 9 1) spelled 9 3 (by decide) (by decide)
  obtain ⟨own, held, _, _, same⟩ := read spelled (by decide)
  refine ⟨raw.trans (by decide), slot, generation, by decide +kernel, by decide +kernel, texts (by decide +kernel),
    order.mpr (by decide), ⟨own, held, same⟩, slotless _ (by decide)⟩

end VectorGraph.Id
