import Mathlib
import TokenMetadata.Proofs.Curve.Group

/-!
# Multiples without inverses

Doubling and adding work on fractions whose denominators are powers of one number, so that a
multiple is found without division. A step that has no sum of its own makes the number zero, and it
stays zero from there on: it is enough to look at it once, at the end.
-/

namespace TokenMetadata.Curve

/-- The point with the coordinates `x / z ^ 2` and `y / z ^ 3`. -/
structure Scaled (F : Type) where
  x : F
  y : F
  z : F

namespace Scaled

section Steps

variable {F : Type} [Add F] [Sub F] [Mul F]

def double (s : Scaled F) : Scaled F :=
  let yy := s.y * s.y
  let q := s.x * yy + s.x * yy + (s.x * yy + s.x * yy)
  let m := s.x * s.x + s.x * s.x + s.x * s.x
  let x := m * m - (q + q)
  let w := yy * yy + yy * yy + (yy * yy + yy * yy)
  ⟨x, m * (q - x) - (w + w), s.y * s.z + s.y * s.z⟩

/-- Adds the point `(x, y)`. -/
def shift (x y : F) (s : Scaled F) : Scaled F :=
  let h := x * (s.z * s.z) - s.x
  let r := y * (s.z * s.z * s.z) - s.y
  let v := s.x * (h * h)
  let x := r * r - h * h * h - (v + v)
  ⟨x, r * (v - x) - s.y * (h * h * h), s.z * h⟩

/-- The multiple of the point `(x, y)` by `k`, which has `width` bits behind the highest. -/
def climb [OfNat F 1] (x y : F) : (width k : Nat) → Scaled F
  | 0, _ => ⟨x, y, 1⟩
  | width + 1, k =>
    let s := double (climb x y width (k / 2))
    if k % 2 = 1 then shift x y s else s

end Steps

/-- The fraction stands for the coordinates `x` and `y`. -/
def Represents {F : Type} [Zero F] [Mul F] (s : Scaled F) (x y : F) : Prop :=
  s.z ≠ 0 ∧ s.x = x * (s.z * s.z) ∧ s.y = y * (s.z * s.z * s.z)

instance {F : Type} [Zero F] [Mul F] [DecidableEq F] (s : Scaled F) (x y : F) :
    Decidable (s.Represents x y) :=
  inferInstanceAs (Decidable (_ ∧ _))

variable {s : Scaled (ZMod fieldPrime)} {x y u v : ZMod fieldPrime}

theorem Represents.unique (h : s.Represents x y) (h' : s.Represents u v) : x = u ∧ y = v := by
  obtain ⟨hz, hx, hy⟩ := h
  have hzz := mul_ne_zero hz hz
  exact ⟨mul_right_cancel₀ hzz (hx.symm.trans h'.2.1),
    mul_right_cancel₀ (mul_ne_zero hzz hz) (hy.symm.trans h'.2.2)⟩

theorem double_z : s.double.z = 2 * s.y * s.z := by
  rw [double]
  ring

theorem shift_z : (shift u v s).z = s.z * (u * (s.z * s.z) - s.x) := rfl

theorem Represents.two_mul_y_ne_zero (h : s.Represents x y) (hz : s.double.z ≠ 0) :
    2 * y ≠ 0 := by
  intro hy
  apply hz
  rw [double_z, h.2.2]
  linear_combination s.z ^ 4 * hy

theorem Represents.x_ne (h : s.Represents x y) (hz : (shift u v s).z ≠ 0) : x ≠ u := by
  rintro rfl
  apply hz
  rw [shift_z, h.2.1, sub_self, mul_zero]

/-- The slope of the tangent is `3 * x ^ 2 / (2 * y)`. -/
theorem Represents.double (h : s.Represents x y) (hz : s.double.z ≠ 0) :
    s.double.Represents (curve.addX x x (curve.slope x x y y))
      (curve.addY x x y (curve.slope x x y y)) := by
  have hy := h.two_mul_y_ne_zero hz
  have hne : y ≠ curve.negY x y := by
    rwa [negY_eq, ne_eq, eq_neg_iff_add_eq_zero, ← two_mul]
  have hslope : curve.slope x x y y * (2 * y) = 3 * x ^ 2 := by
    rw [WeierstrassCurve.Affine.slope_of_Y_ne rfl hne, negY_eq, sub_neg_eq_add, ← two_mul,
      div_mul_cancel₀ _ hy]
    simp [curve]
  refine ⟨hz, ?_, ?_⟩
  · rw [addX_eq, double_z, Scaled.double, h.2.1, h.2.2]
    linear_combination -s.z ^ 8 * (curve.slope x x y y * (2 * y) + 3 * x ^ 2) * hslope
  · rw [addY_eq, addX_eq, double_z, Scaled.double, h.2.1, h.2.2]
    linear_combination s.z ^ 12 * ((curve.slope x x y y * (2 * y)) ^ 2 +
      3 * x ^ 2 * (curve.slope x x y y * (2 * y)) + 9 * x ^ 4 - 12 * x * y ^ 2) * hslope

theorem Represents.shift (h : s.Represents x y) (hz : (shift u v s).z ≠ 0) :
    (Scaled.shift u v s).Represents (curve.addX x u (curve.slope x u y v))
      (curve.addY x u y (curve.slope x u y v)) := by
  have hx := h.x_ne hz
  have hslope : curve.slope x u y v * (x - u) = y - v := by
    rw [WeierstrassCurve.Affine.slope_of_X_ne hx, div_mul_cancel₀ _ (sub_ne_zero.mpr hx)]
  refine ⟨hz, ?_, ?_⟩
  · rw [addX_eq, shift_z, Scaled.shift, h.2.1, h.2.2]
    linear_combination -s.z ^ 6 * (curve.slope x u y v * (x - u) + (y - v)) * hslope
  · rw [addY_eq, addX_eq, shift_z, Scaled.shift, h.2.1, h.2.2]
    linear_combination s.z ^ 9 * (3 * x * (u - x) ^ 2 + (u - x) ^ 3 - ((v - y) ^ 2 +
      (v - y) * (curve.slope x u y v * (u - x)) + (curve.slope x u y v * (u - x)) ^ 2)) * hslope

/-- The fraction stands for the point. -/
def StandsFor (s : Scaled (ZMod fieldPrime)) (P : curve.Point) : Prop :=
  ∃ x y h, P = .some x y h ∧ s.Represents x y

variable {P : curve.Point}

theorem StandsFor.double (h : s.StandsFor P) (hz : s.double.z ≠ 0) :
    s.double.StandsFor (P + P) := by
  obtain ⟨x, y, hxy, rfl, hs⟩ := h
  have hne : ¬ (x = x ∧ y = curve.negY x y) := by
    rw [negY_eq, eq_neg_iff_add_eq_zero, ← two_mul]
    exact fun hy => hs.two_mul_y_ne_zero hz hy.2
  exact ⟨_, _, _, WeierstrassCurve.Affine.Point.add_some hne, hs.double hz⟩

theorem StandsFor.shift (huv : curve.Nonsingular u v) (h : s.StandsFor P)
    (hz : (Scaled.shift u v s).z ≠ 0) : (Scaled.shift u v s).StandsFor (P + .some u v huv) := by
  obtain ⟨x, y, hxy, rfl, hs⟩ := h
  have hne : ¬ (x = u ∧ y = curve.negY u v) := fun hx => hs.x_ne hz hx.1
  exact ⟨_, _, _, WeierstrassCurve.Affine.Point.add_some hne, hs.shift hz⟩

theorem climb_standsFor (huv : curve.Nonsingular u v) {width k : Nat} (hlow : 2 ^ width ≤ k)
    (hhigh : k < 2 ^ (width + 1)) (hz : (climb u v width k).z ≠ 0) :
    (climb u v width k).StandsFor (k • .some u v huv) := by
  induction width generalizing k with
  | zero =>
    obtain rfl : k = 1 := by omega
    refine ⟨u, v, huv, one_nsmul _, hz, ?_, ?_⟩ <;> simp [climb]
  | succ width ih =>
    rw [pow_succ] at hlow hhigh
    -- A denominator is a multiple of the one before it, so none on the way up is zero.
    have hdouble : (climb u v width (k / 2)).double.z ≠ 0 →
        (climb u v width (k / 2)).double.StandsFor ((k / 2 * 2) • .some u v huv) := by
      intro hz
      have hz' : (climb u v width (k / 2)).z ≠ 0 := by
        rw [double_z] at hz
        exact right_ne_zero_of_mul hz
      rw [mul_nsmul, two_nsmul]
      exact (ih (by omega) (by omega) hz').double hz
    rcases Nat.mod_two_eq_zero_or_one k with heven | hodd
    · have hk : k / 2 * 2 = k := by omega
      simp only [climb, heven, zero_ne_one, if_false] at hz ⊢
      rw [hk] at hdouble
      exact hdouble hz
    · have hk : k / 2 * 2 + 1 = k := by omega
      simp only [climb, hodd, if_true] at hz ⊢
      have hz' := hz
      rw [shift_z] at hz'
      have hshift := (hdouble (left_ne_zero_of_mul hz')).shift huv hz
      rwa [← succ_nsmul, hk] at hshift

/-- The fraction in residues. -/
def toResidues (s : Scaled (ZMod fieldPrime)) : Scaled Residue :=
  ⟨residue s.x, residue s.y, residue s.z⟩

theorem climb_residue (u v : ZMod fieldPrime) (width k : Nat) :
    climb (residue u) (residue v) width k = toResidues (climb u v width k) := by
  induction width generalizing k with
  | zero => rfl
  | succ width ih =>
    have hdouble : ∀ s, double (toResidues s) = toResidues s.double := by
      intro s
      simp only [double, toResidues, residue_add, residue_mul, residue_sub]
    have hshift : ∀ s, shift (residue u) (residue v) (toResidues s) =
        toResidues (shift u v s) := by
      intro s
      simp only [shift, toResidues, residue_add, residue_mul, residue_sub]
    rw [climb, climb, ih, hdouble]
    rw [hshift, apply_ite toResidues]

theorem represents_toResidues {x y : ZMod fieldPrime} :
    s.toResidues.Represents (residue x) (residue y) ↔ s.Represents x y := by
  have hzero : (0 : Residue) = residue 0 := rfl
  simp only [Represents, toResidues, hzero, ← residue_mul, residue_inj, ne_eq]

end Scaled

/-- A multiple is found by climbing up the bits of its factor. -/
theorem toPoint_nsmul_of_climb {P : curve.Point} {k : Nat} {x y u v : Residue} (hk : k ≠ 0)
    (hP : toPoint P = .affine u v) (h : (Scaled.climb u v k.log2 k).Represents x y) :
    toPoint (k • P) = .affine x y := by
  cases P with
  | zero => cases hP
  | some u' v' huv =>
    obtain ⟨rfl, rfl⟩ := Point.affine.inj hP
    obtain ⟨x', rfl⟩ := residue_surjective x
    obtain ⟨y', rfl⟩ := residue_surjective y
    rw [Scaled.climb_residue, Scaled.represents_toResidues] at h
    obtain ⟨x₁, y₁, h₁, hsum, hrep⟩ := Scaled.climb_standsFor huv (Nat.log2_self_le hk)
      Nat.lt_log2_self h.1
    obtain ⟨rfl, rfl⟩ := hrep.unique h
    rw [hsum]
    rfl

end TokenMetadata.Curve
