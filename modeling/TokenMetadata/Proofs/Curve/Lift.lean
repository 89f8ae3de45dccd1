import Mathlib
import TokenMetadata.Proofs.Curve.Order

/-!
# Points from one coordinate

The curve has no point with `y = 0`, because the negative of seven is no cube. Two points with one
`x` are therefore told apart by the parity of `y`, and the root that the power gives finds both.
-/

namespace TokenMetadata.Curve

theorem mul_self_residue_iff {a b : Residue} : a * a = b * b ↔ a = b ∨ a = -b := by
  obtain ⟨u, rfl⟩ := residue_surjective a
  obtain ⟨v, rfl⟩ := residue_surjective b
  rw [← residue_mul, ← residue_mul, ← residue_neg, residue_inj, residue_inj, residue_inj,
    mul_self_eq_mul_self_iff]

/-- The power finds a root of every square, because the prime is 3 modulo 4. -/
theorem sqrt?_mul_self (a : Residue) : ∃ r, Residue.sqrt? (a * a) = some r ∧ (r = a ∨ r = -a) := by
  obtain ⟨u, rfl⟩ := residue_surjective a
  have hroot : u ^ ((fieldPrime + 1) / 2) * u ^ ((fieldPrime + 1) / 2) = u * u := by
    rw [← pow_add, show (fieldPrime + 1) / 2 + (fieldPrime + 1) / 2 = fieldPrime + 1 by decide,
      pow_succ, ZMod.pow_card]
  have hpow : (residue u * residue u).pow ((fieldPrime + 1) / 4) =
      residue (u ^ ((fieldPrime + 1) / 2)) := by
    rw [← residue_mul, residue_pow, ← sq, ← pow_mul,
      show 2 * ((fieldPrime + 1) / 4) = (fieldPrime + 1) / 2 by decide]
  have hsquare : residue (u ^ ((fieldPrime + 1) / 2)) * residue (u ^ ((fieldPrime + 1) / 2)) =
      residue u * residue u := by
    rw [← residue_mul, hroot, residue_mul]
  refine ⟨residue (u ^ ((fieldPrime + 1) / 2)), ?_, mul_self_residue_iff.mp hsquare⟩
  rw [Residue.sqrt?, hpow]
  exact if_pos hsquare

theorem mul_self_of_sqrt? {a r : Residue} (h : Residue.sqrt? a = some r) : r * r = a := by
  simp only [Residue.sqrt?, Option.ite_none_right_eq_some] at h
  obtain ⟨hroot, hr⟩ := h
  rw [← Option.some.inj hr, hroot]

theorem y_ne_zero {x y : Residue} (h : OnCurve x y) : y ≠ 0 := by
  rintro rfl
  obtain ⟨u, rfl⟩ := residue_surjective x
  have hzero : (0 : Residue) = residue 0 := rfl
  have hseven : (7 : Residue) = residue 7 := (residue_natCast 7).symm
  rw [OnCurve, rightSide, hzero, hseven, ← residue_mul, ← residue_mul, ← residue_mul,
    ← residue_add, residue_inj, mul_zero] at h
  have hcube : u ^ 3 = ((fieldPrime - 7 : Nat) : ZMod fieldPrime) := by
    rw [Nat.cast_sub (by decide), ZMod.natCast_self]
    linear_combination -h
  have hu : u ≠ 0 := by
    rintro rfl
    exact absurd h (by decide)
  have hfull : ((fieldPrime - 7 : Nat) : ZMod fieldPrime) ^ ((fieldPrime - 1) / 3) = 1 := by
    rw [← hcube, ← pow_mul, show 3 * ((fieldPrime - 1) / 3) = fieldPrime - 1 by decide,
      ZMod.pow_card_sub_one_eq_one hu]
  rw [Certificate.pow_eq_one_iff (by decide)] at hfull
  revert hfull
  decide +kernel

/-- Whether a residue is odd. -/
def isOdd (y : Residue) : Bool := decide (y.val % 2 = 1)

theorem isOdd_neg {y : Residue} (h : y ≠ 0) : isOdd (-y) = !isOdd y := by
  have hpos : 0 < y.val := Nat.pos_of_ne_zero fun hval => h (Fin.ext hval)
  have hneg : (-y).val = fieldPrime - y.val := by
    rw [Fin.val_neg, if_neg h]
  have hlt := y.isLt
  have hodd : fieldPrime % 2 = 1 := by decide
  rw [isOdd, isOdd, hneg, ← decide_not, decide_eq_decide]
  omega

theorem onCurve_neg {x y : Residue} (h : OnCurve x y) : OnCurve x (-y) :=
  (mul_self_residue_iff.mpr (.inr rfl)).trans h

/-- Of the two points with one `x`, one has an odd `y` and one an even `y`. -/
theorem exists_isOdd {x y : Residue} (h : OnCurve x y) (odd : Bool) :
    ∃ z, OnCurve x z ∧ isOdd z = odd := by
  by_cases hparity : isOdd y = odd
  · exact ⟨y, h, hparity⟩
  · refine ⟨-y, onCurve_neg h, ?_⟩
    rw [isOdd_neg (y_ne_zero h), Bool.not_eq_eq_eq_not]
    exact Bool.eq_not.mpr hparity

theorem liftX_val (x : Residue) (odd : Bool) :
    liftX x.val odd = (Residue.sqrt? (rightSide x)).map fun y =>
      .affine x (if isOdd y = odd then y else -y) := by
  rw [liftX, dif_pos x.isLt]
  rfl

/-- A coordinate is lifted to the point on the curve with the parity that is asked for. -/
theorem liftX_eq_some_iff {n : Nat} {odd : Bool} {p : Point} :
    liftX n odd = some p ↔ ∃ x y, p = .affine x y ∧ x.val = n ∧ OnCurve x y ∧ isOdd y = odd := by
  constructor
  · intro h
    by_cases hn : n < fieldPrime
    · obtain ⟨x, rfl⟩ : ∃ x : Residue, x.val = n := ⟨⟨n, hn⟩, rfl⟩
      rw [liftX_val] at h
      obtain ⟨r, hr, rfl⟩ := Option.map_eq_some_iff.mp h
      have hcurve : OnCurve x r := mul_self_of_sqrt? hr
      by_cases hparity : isOdd r = odd
      · rw [if_pos hparity]
        exact ⟨x, r, rfl, rfl, hcurve, hparity⟩
      · rw [if_neg hparity]
        refine ⟨x, -r, rfl, rfl, onCurve_neg hcurve, ?_⟩
        rw [isOdd_neg (y_ne_zero hcurve), Bool.not_eq_eq_eq_not]
        exact Bool.eq_not.mpr hparity
    · rw [liftX, dif_neg hn] at h
      cases h
  · rintro ⟨x, y, rfl, rfl, hcurve, rfl⟩
    obtain ⟨r, hr, hsign⟩ := sqrt?_mul_self y
    rw [liftX_val, ← show y * y = rightSide x from hcurve, hr, Option.map_some]
    rcases hsign with rfl | rfl
    · rw [if_pos rfl]
    · have hflip : isOdd (-y) ≠ isOdd y := by
        rw [isOdd_neg (y_ne_zero hcurve)]
        exact Bool.not_ne_self _
      rw [if_neg hflip, neg_neg]

end TokenMetadata.Curve
