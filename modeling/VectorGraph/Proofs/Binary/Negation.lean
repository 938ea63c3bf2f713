import VectorGraph.Proofs.Binary.Narrowing

/-!
Negation of unpacked numbers. Rounding is to nearest, so it makes no difference to a negation, nor do packing and
unpacking: the two differences of two numbers are negations of each other, or both zero. A product has the sign of its
factors together, so that a number and its negation have the same square.
-/
namespace VectorGraph.Pattern

open Float.Model Float.Model.UnpackedFloat

variable {format : Format} {u v : UnpackedFloat} {s : Sign}

theorem neg_neg (u : UnpackedFloat) : u.neg.neg = u := by
  rcases u with (_ | _) | _ | (_ | _) | ⟨_ | _, m, e, positive⟩ <;> rfl

theorem roundWithAccuracy_neg (s : Sign) (m : Nat) (e : Int) (accuracy : Accuracy) :
    roundWithAccuracy format (-s) m e accuracy = (roundWithAccuracy format s m e accuracy).neg := by
  unfold roundWithAccuracy
  dsimp only
  generalize shiftToTargetExponent format _ _ .exact = final
  by_cases zero : final.1.mantissa = 0
  · rw [dif_pos zero, dif_pos zero]
    rfl
  · rw [dif_neg zero, dif_neg zero]
    rfl

theorem round_neg (s : Sign) (m : Nat) (e : Int) :
    UnpackedFloat.round format (-s) m e = (UnpackedFloat.round format s m e).neg :=
  roundWithAccuracy_neg ..

/-- Zero is apart: it has the sign that is asked for, and that of its negation is the same. -/
theorem normalize_neg {n : Int} (nonzero : n ≠ 0) (e : Int) (s : Sign) :
    UnpackedFloat.normalize format (-n) e s = (UnpackedFloat.normalize format n e s).neg := by
  rcases lt_or_gt_of_ne nonzero with below | above
  · have lt : compare n 0 = .lt := compare_lt_iff_lt.mpr below
    have gt : compare (-n) 0 = .gt := compare_gt_iff_gt.mpr (by omega)
    simp only [UnpackedFloat.normalize, lt, gt]
    exact round_neg .negative ..
  · have gt : compare n 0 = .gt := compare_gt_iff_gt.mpr above
    have lt : compare (-n) 0 = .lt := compare_lt_iff_lt.mpr (by omega)
    simp only [UnpackedFloat.normalize, lt, gt, Int.neg_neg]
    exact round_neg .positive ..

/-- Equal but for the sign. Zeros are, whichever signs they have. -/
def Opposite (u v : UnpackedFloat) : Prop :=
  v = u.neg ∨ ∃ s t, u = .zero s ∧ v = .zero t

theorem opposite_sub (u v : UnpackedFloat) : Opposite (u.sub format v) (v.sub format u) := by
  rcases u with s | _ | s | ⟨s, m, e, positive⟩ <;> rcases v with t | _ | t | ⟨t, n, f, positive'⟩
  case finite.finite =>
    delta UnpackedFloat.sub
    simp only [decreaseExponent, min_comm f e]
    generalize s.apply _ = a
    generalize t.apply _ = b
    by_cases same : a = b
    · subst same
      exact .inr ⟨.positive, .positive, by simp [UnpackedFloat.normalize], by simp [UnpackedFloat.normalize]⟩
    · left
      rw [← normalize_neg (sub_ne_zero.mpr same), neg_sub]
  case infinity.infinity => cases s <;> cases t <;> exact .inl rfl
  case zero.zero => cases s <;> cases t <;> exact .inr ⟨_, _, rfl, rfl⟩
  case zero.infinity | zero.finite | finite.infinity => exact .inl (neg_neg _).symm
  all_goals exact .inl rfl

theorem Opposite.mul_self (opposite : Opposite u v) : u.mul format u = v.mul format v := by
  rcases opposite with rfl | ⟨s, t, rfl, rfl⟩
  · rcases u with (_ | _) | _ | (_ | _) | ⟨_ | _, m, e, positive⟩ <;> rfl
  · cases s <;> cases t <;> rfl

theorem unpackSign_packComponents (s : Sign) (e : BitVec format.exponentBits)
    (m : BitVec format.mantissaBitsWithoutImplicit) : unpackSign (packComponents format s e m) = s.toBitVec := by
  refine BitVec.eq_of_getLsbD_eq fun i single => ?_
  obtain rfl : i = 0 := by omega
  delta unpackSign
  simp [packComponents, BitVec.getLsbD_append, BitVec.getElem_append]

theorem ofBitVec_toBitVec (s : Sign) : Sign.ofBitVec s.toBitVec = s := by
  cases s <;> rfl

theorem unpack_packComponents_neg (s : Sign) (e : BitVec format.exponentBits)
    (m : BitVec format.mantissaBitsWithoutImplicit) :
    UnpackedFloat.unpack format (packComponents format (-s) e m)
      = (UnpackedFloat.unpack format (packComponents format s e m)).neg := by
  have same : unpackMantissa (packComponents format (-s) e m) = unpackMantissa (packComponents format s e m) := by
    rw [unpackMantissa_packComponents, unpackMantissa_packComponents]
  unfold UnpackedFloat.unpack
  dsimp only
  rw [unpackExponent_packComponents, unpackExponent_packComponents, unpackSign_packComponents,
    unpackSign_packComponents, ofBitVec_toBitVec, ofBitVec_toBitVec]
  by_cases outside : e = -.ofNat _ 1
  · rw [if_pos outside, if_pos outside, same, apply_ite UnpackedFloat.neg]
    rfl
  rw [if_neg outside, if_neg outside]
  by_cases subnormal : e = .ofNat _ 0
  · rw [if_pos subnormal, if_pos subnormal]
    by_cases zero : unpackMantissa (packComponents format s e m) = .ofNat _ 0
    · rw [dif_pos zero, dif_pos (same.trans zero)]
      rfl
    · rw [dif_neg zero, dif_neg (same ▸ zero)]
      exact (UnpackedFloat.finite.injEq ..).mpr ⟨rfl, by rw [same], rfl⟩
  · rw [if_neg subnormal, if_neg subnormal]
    exact (UnpackedFloat.finite.injEq ..).mpr ⟨rfl, by rw [same], rfl⟩

theorem unpack_pack_neg (u : UnpackedFloat) :
    UnpackedFloat.unpack Format.binary32 (UnpackedFloat.pack Format.binary32 u.neg)
      = (UnpackedFloat.unpack Format.binary32 (UnpackedFloat.pack Format.binary32 u)).neg := by
  cases u with
  | notANumber => rfl
  | infinity s => exact unpack_packComponents_neg ..
  | zero s => exact unpack_packComponents_neg ..
  | finite s m e positive =>
    have neg : (UnpackedFloat.finite s m e positive).neg = .finite (-s) m e positive := rfl
    rw [neg]
    delta UnpackedFloat.pack
    dsimp only
    split
    · exact unpack_packComponents_neg ..
    split <;> exact unpack_packComponents_neg ..

theorem Opposite.unpack_pack (opposite : Opposite u v) :
    Opposite (UnpackedFloat.unpack Format.binary32 (UnpackedFloat.pack Format.binary32 u))
      (UnpackedFloat.unpack Format.binary32 (UnpackedFloat.pack Format.binary32 v)) := by
  rcases opposite with rfl | ⟨s, t, rfl, rfl⟩
  · exact .inl (unpack_pack_neg u)
  · exact .inr ⟨s, t, by cases s <;> rfl, by cases t <;> rfl⟩

end VectorGraph.Pattern
