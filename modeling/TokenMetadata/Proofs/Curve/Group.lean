import Mathlib
import TokenMetadata.Proofs.Curve.Prime

/-!
# Points form a group

Residues are the integers modulo a prime, and chord and tangent are those of a Weierstrass curve
over them. Sums and multiples of points are therefore the sums and multiples of its group.
-/

namespace TokenMetadata.Curve

/-- The residue of an integer modulo the prime. -/
def residue (x : ZMod fieldPrime) : Residue := ⟨x.val, x.val_lt⟩

theorem residue_injective : Function.Injective residue := fun _ _ h =>
  ZMod.val_injective fieldPrime (Fin.mk.inj h)

theorem residue_inj {x y : ZMod fieldPrime} : residue x = residue y ↔ x = y :=
  residue_injective.eq_iff

theorem residue_surjective : Function.Surjective residue := fun x =>
  ⟨x.val, Fin.ext (ZMod.val_cast_of_lt x.isLt)⟩

theorem residue_add (x y : ZMod fieldPrime) : residue (x + y) = residue x + residue y :=
  Fin.ext (ZMod.val_add x y)

theorem residue_mul (x y : ZMod fieldPrime) : residue (x * y) = residue x * residue y :=
  Fin.ext (ZMod.val_mul x y)

theorem residue_neg (x : ZMod fieldPrime) : residue (-x) = -residue x :=
  Fin.ext (ZMod.neg_val' x)

theorem residue_sub (x y : ZMod fieldPrime) : residue (x - y) = residue x - residue y := by
  rw [sub_eq_add_neg, residue_add, residue_neg, Fin.sub_eq_add_neg]

theorem residue_natCast (n : Nat) : residue n = Fin.ofNat fieldPrime n :=
  Fin.ext (ZMod.val_natCast fieldPrime n)

theorem residue_pow (x : ZMod fieldPrime) (e : Nat) : (residue x).pow e = residue (x ^ e) := by
  have hcast : x ^ e = ((x.val ^ e : Nat) : ZMod fieldPrime) := by
    rw [Nat.cast_pow, ZMod.natCast_zmod_val]
  rw [hcast, residue_natCast, Residue.pow, powMod_eq]
  exact Fin.ext (Nat.mod_mod _ _)

/-- Fermat's power is the inverse, also of zero. -/
theorem residue_inv (x : ZMod fieldPrime) : (residue x).inv = residue x⁻¹ := by
  rw [Residue.inv, residue_pow, residue_inj]
  by_cases hx : x = 0
  · rw [hx, inv_zero]
    exact zero_pow (by decide)
  · refine eq_inv_of_mul_eq_one_left ?_
    rw [← pow_succ]
    exact ZMod.pow_card_sub_one_eq_one hx

/-- The curve `y ^ 2 = x ^ 3 + 7`. -/
def curve : WeierstrassCurve.Affine (ZMod fieldPrime) := ⟨0, 0, 0, 0, 7⟩

/-- The point in residues. -/
def toPoint : curve.Point → Point
  | .zero => .infinity
  | .some x y _ => .affine (residue x) (residue y)

theorem toPoint_injective : Function.Injective toPoint := by
  intro P Q h
  cases P with
  | zero =>
    cases Q with
    | zero => rfl
    | some x y hxy => cases h
  | some x y hxy =>
    cases Q with
    | zero => cases h
    | some x' y' hxy' =>
      obtain ⟨hx, hy⟩ := Point.affine.inj h
      obtain rfl := residue_inj.mp hx
      obtain rfl := residue_inj.mp hy
      rfl

theorem negY_eq (x y : ZMod fieldPrime) : curve.negY x y = -y := by
  simp [WeierstrassCurve.Affine.negY, curve]

theorem addX_eq (x₁ x₂ l : ZMod fieldPrime) : curve.addX x₁ x₂ l = l * l - x₁ - x₂ := by
  simp [WeierstrassCurve.Affine.addX, curve, sq]

theorem addY_eq (x₁ x₂ y₁ l : ZMod fieldPrime) :
    curve.addY x₁ x₂ y₁ l = -(l * (curve.addX x₁ x₂ l - x₁) + y₁) := by
  rw [WeierstrassCurve.Affine.addY, negY_eq, WeierstrassCurve.Affine.negAddY]

theorem slope_residue {x₁ y₁ x₂ y₂ : ZMod fieldPrime} (h : ¬ (x₁ = x₂ ∧ y₁ = -y₂)) :
    Point.slope (residue x₁) (residue y₁) (residue x₂) (residue y₂) =
      residue (curve.slope x₁ x₂ y₁ y₂) := by
  by_cases hx : x₁ = x₂
  · have hy : y₁ ≠ curve.negY x₂ y₂ := fun hy => h ⟨hx, hy.trans (negY_eq x₂ y₂)⟩
    have hthree : (3 : Residue) = residue 3 := (residue_natCast 3).symm
    rw [Point.slope, if_pos (residue_inj.mpr hx), WeierstrassCurve.Affine.slope_of_Y_ne hx hy,
      hthree, ← residue_mul, ← residue_mul, ← residue_add, residue_inv, ← residue_mul, residue_inj,
      negY_eq, div_eq_mul_inv, sub_neg_eq_add]
    simp [curve, sq]
  · rw [Point.slope, if_neg (fun hr => hx (residue_inj.mp hr)),
      WeierstrassCurve.Affine.slope_of_X_ne hx, ← residue_sub, ← residue_sub, residue_inv,
      ← residue_mul, div_eq_mul_inv]

theorem toPoint_add (P Q : curve.Point) : toPoint (P + Q) = (toPoint P).add (toPoint Q) := by
  cases P with
  | zero =>
    rw [← WeierstrassCurve.Affine.Point.zero_def, zero_add]
    rfl
  | some x₁ y₁ h₁ =>
    cases Q with
    | zero =>
      rw [← WeierstrassCurve.Affine.Point.zero_def, add_zero]
      rfl
    | some x₂ y₂ h₂ =>
      change _ = Point.add (.affine (residue x₁) (residue y₁)) (.affine (residue x₂) (residue y₂))
      have hopposite : residue x₁ = residue x₂ ∧ residue y₁ = -residue y₂ ↔
          x₁ = x₂ ∧ y₁ = -y₂ := by
        rw [← residue_neg, residue_inj, residue_inj]
      by_cases h : x₁ = x₂ ∧ y₁ = -y₂
      · have hy : y₁ = curve.negY x₂ y₂ := h.2.trans (negY_eq x₂ y₂).symm
        rw [Point.add, if_pos (hopposite.mpr h), WeierstrassCurve.Affine.Point.add_of_Y_eq h.1 hy]
        rfl
      · have hne : ¬ (x₁ = x₂ ∧ y₁ = curve.negY x₂ y₂) := by rwa [negY_eq]
        rw [Point.add, if_neg (fun hr => h (hopposite.mp hr)),
          WeierstrassCurve.Affine.Point.add_some hne]
        simp only [toPoint, slope_residue h, addY_eq, addX_eq, residue_neg, residue_add, residue_sub,
          residue_mul]

/-- Doubling along the bits of the factor adds up copies. -/
theorem multipleBits_toPoint {width k : Nat} (P : curve.Point) (h : k < 2 ^ width) :
    Point.multipleBits width k (toPoint P) = toPoint (k • P) := by
  induction width generalizing k P with
  | zero =>
    obtain rfl : k = 0 := by simpa using h
    rw [zero_nsmul]
    rfl
  | succ width ih =>
    have hhalf : k / 2 < 2 ^ width := by
      rw [pow_succ] at h
      omega
    rw [Point.multipleBits, ← toPoint_add, ih _ hhalf, ← toPoint_add, ← two_nsmul, ← mul_nsmul']
    rcases Nat.mod_two_eq_zero_or_one k with heven | hodd
    · have hk : k / 2 * 2 = k := by omega
      rw [heven, if_neg (by decide), hk]
    · have hk : 1 + k / 2 * 2 = k := by omega
      rw [if_pos hodd]
      nth_rewrite 1 [← one_nsmul P]
      rw [← add_nsmul, hk]

theorem multiple_toPoint (k : Nat) (P : curve.Point) :
    Point.multiple k (toPoint P) = toPoint (k • P) :=
  multipleBits_toPoint P Nat.lt_log2_self

end TokenMetadata.Curve
