import Mathlib
import TokenMetadata.Proofs.Curve.Lift

/-!
# How many points there are

There are at most two points for each `x` and the point at infinity, so the order of the generator
goes into their number once or twice. No point is its own negative, so the number is odd. The order
is therefore the number of all points, and every point vanishes when it is taken that often.
-/

namespace TokenMetadata.Curve

/-- A point is found again from its `x` and the parity of its `y`. -/
theorem eq_of_isOdd {P Q : curve.Point} {x y z : Residue} (hP : toPoint P = .affine x y)
    (hQ : toPoint Q = .affine x z) (hparity : isOdd y = isOdd z) : P = Q := by
  have hlift : liftX x.val (isOdd y) = some (toPoint P) :=
    liftX_eq_some_iff.mpr ⟨x, y, hP, rfl, onCurve_of_toPoint hP, rfl⟩
  have hlift' : liftX x.val (isOdd y) = some (toPoint Q) :=
    liftX_eq_some_iff.mpr ⟨x, z, hQ, rfl, onCurve_of_toPoint hQ, hparity.symm⟩
  exact toPoint_injective (Option.some.inj (hlift.symm.trans hlift'))

/-- The `x` of a point and the parity of its `y`. -/
def compress : curve.Point → Option (ZMod fieldPrime × Bool)
  | .zero => none
  | .some x y _ => some (x, isOdd (residue y))

theorem compress_injective : Function.Injective compress := by
  intro P Q h
  cases P with
  | zero =>
    cases Q with
    | zero => rfl
    | some x y hxy => cases h
  | some x y hxy =>
    cases Q with
    | zero => cases h
    | some x' y' hxy' =>
      obtain ⟨rfl, hparity⟩ := Prod.mk.inj (Option.some.inj h)
      exact eq_of_isOdd rfl rfl hparity

instance : Finite curve.Point := Finite.of_injective compress compress_injective

theorem card_point_le : Nat.card curve.Point ≤ 2 * fieldPrime + 1 := by
  refine (Nat.card_le_card_of_injective compress compress_injective).trans_eq ?_
  rw [Finite.card_option, Nat.card_prod, Nat.card_zmod, Nat.card_eq_fintype_card, Fintype.card_bool,
    Nat.mul_comm]

theorem groupOrder_dvd_card : groupOrder ∣ Nat.card curve.Point := by
  rw [← addOrderOf_base]
  exact addOrderOf_dvd_natCard base

/-- No point but infinity is its own negative. -/
theorem eq_zero_of_two_nsmul {P : curve.Point} (h : 2 • P = 0) : P = 0 := by
  cases hP : toPoint P with
  | infinity => exact toPoint_injective hP
  | affine x y =>
    have hself : P = -P := eq_neg_of_add_eq_zero_left (by rwa [two_nsmul] at h)
    have hneg := toPoint_neg hP
    rw [← hself, hP] at hneg
    have hy : y ≠ 0 := y_ne_zero (onCurve_of_toPoint hP)
    have hparity := isOdd_neg hy
    rw [← (Point.affine.inj hneg).2] at hparity
    exact absurd hparity.symm (Bool.not_ne_self _)

theorem not_two_dvd_card : ¬ 2 ∣ Nat.card curve.Point := by
  intro heven
  obtain ⟨P, hP⟩ := exists_prime_addOrderOf_dvd_card' 2 heven
  have hzero : P = 0 := eq_zero_of_two_nsmul (hP ▸ addOrderOf_nsmul_eq_zero P)
  rw [hzero, addOrderOf_zero] at hP
  cases hP

/-- The generator's multiples are all points. -/
theorem card_point : Nat.card curve.Point = groupOrder := by
  obtain ⟨k, hk⟩ := groupOrder_dvd_card
  have hle := card_point_le
  have hodd := not_two_dvd_card
  have hpos : 0 < Nat.card curve.Point := Nat.card_pos
  rw [hk] at hle hodd hpos ⊢
  have hsmall : k < 3 := by
    by_contra hlarge
    have hthree : groupOrder * 3 ≤ groupOrder * k := Nat.mul_le_mul_left _ (not_lt.mp hlarge)
    have hbound : 2 * fieldPrime + 1 < groupOrder * 3 := by decide
    omega
  interval_cases k
  · omega
  · rfl
  · exact absurd (Dvd.intro_left _ rfl) hodd

theorem groupOrder_nsmul (P : curve.Point) : groupOrder • P = 0 := by
  rw [← card_point]
  exact card_nsmul_eq_zero'

theorem sub_nsmul_eq {e : Nat} (he : e ≤ groupOrder) (P : curve.Point) :
    (groupOrder - e) • P = -(e • P) := by
  rw [sub_nsmul P he, groupOrder_nsmul, zero_add]

end TokenMetadata.Curve
