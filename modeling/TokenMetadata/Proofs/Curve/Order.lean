import Mathlib
import TokenMetadata.Proofs.Curve.Ladder

/-!
# Multiples of the generator

The points on the curve are those of its group. The generator has prime order, so a multiple of it
vanishes exactly when the order divides the factor.
-/

namespace TokenMetadata.Curve

theorem discriminant_ne_zero : curve.Δ ≠ 0 := by
  have hcast : curve.Δ = ((-21168 : Int) : ZMod fieldPrime) := by
    simp [WeierstrassCurve.Δ, WeierstrassCurve.b₂, WeierstrassCurve.b₄, WeierstrassCurve.b₆,
      WeierstrassCurve.b₈, curve]
    norm_num
  rw [hcast, ne_eq, ZMod.intCast_zmod_eq_zero_iff_dvd]
  decide

theorem onCurve_residue {x y : ZMod fieldPrime} :
    OnCurve (residue x) (residue y) ↔ curve.Nonsingular x y := by
  have hseven : (7 : Residue) = residue 7 := (residue_natCast 7).symm
  rw [← curve.equation_iff_nonsingular_of_Δ_ne_zero discriminant_ne_zero,
    WeierstrassCurve.Affine.equation_iff, OnCurve, rightSide, hseven, ← residue_mul, ← residue_mul,
    ← residue_mul, ← residue_add, residue_inj]
  simp [curve, pow_succ]

theorem onCurve_of_toPoint {P : curve.Point} {x y : Residue} (h : toPoint P = .affine x y) :
    OnCurve x y := by
  cases P with
  | zero => cases h
  | some u v huv =>
    obtain ⟨rfl, rfl⟩ := Point.affine.inj h
    exact onCurve_residue.mpr huv

theorem exists_toPoint {x y : Residue} (h : OnCurve x y) : ∃ P, toPoint P = .affine x y := by
  obtain ⟨u, rfl⟩ := residue_surjective x
  obtain ⟨v, rfl⟩ := residue_surjective y
  exact ⟨.some u v (onCurve_residue.mp h), rfl⟩

theorem toPoint_neg {P : curve.Point} {x y : Residue} (h : toPoint P = .affine x y) :
    toPoint (-P) = .affine x (-y) := by
  cases P with
  | zero => cases h
  | some u v huv =>
    obtain ⟨rfl, rfl⟩ := Point.affine.inj h
    rw [WeierstrassCurve.Affine.Point.neg_some, ← residue_neg, ← negY_eq]
    rfl

/-- The coordinates of the generator. -/
def generatorX : Residue := 0x79be667ef9dcbbac55a06295ce870b07029bfcdb2dce28d959f2815b16f81798

def generatorY : Residue := 0x483ada7726a3c4655da4fbfc0e1108a8fd17b448a68554199c47d08ffb10d4b8

theorem exists_base : ∃ P, toPoint P = .affine generatorX generatorY :=
  exists_toPoint (by decide +kernel)

/-- The generator in the group. -/
noncomputable def base : curve.Point := exists_base.choose

theorem toPoint_base : toPoint base = .affine generatorX generatorY := exists_base.choose_spec

theorem ofScalar_eq (k : Nat) : Point.ofScalar k = toPoint (k • base) := by
  rw [← multiple_toPoint, toPoint_base]
  rfl

theorem ofScalar_one : Point.ofScalar 1 = .generator := by
  decide

theorem base_ne_zero : base ≠ 0 := by
  intro h
  have hzero := toPoint_base
  rw [h] at hzero
  cases hzero

/-- A multiple of the generator is known once the climb to it is. -/
theorem ofScalar_of_climb {k : Nat} {x y : Residue} (hk : k ≠ 0)
    (h : (Scaled.climb generatorX generatorY k.log2 k).Represents x y) :
    Point.ofScalar k = .affine x y := by
  rw [ofScalar_eq]
  exact toPoint_nsmul_of_climb hk toPoint_base h

theorem addOrderOf_base : addOrderOf base = groupOrder := by
  have := Fact.mk prime_groupOrder
  -- A climb never reaches infinity; the multiple before it is the negative of the generator.
  have hlast : (groupOrder - 1) • base = -base := by
    apply toPoint_injective
    rw [toPoint_neg toPoint_base, ← ofScalar_eq]
    exact ofScalar_of_climb (by decide) (by decide +kernel)
  refine addOrderOf_eq_prime ?_ base_ne_zero
  rw [← Nat.sub_add_cancel (show 1 ≤ groupOrder by decide), succ_nsmul, hlast, neg_add_cancel]

theorem nsmul_base_eq_zero_iff {k : Nat} : k • base = 0 ↔ groupOrder ∣ k := by
  rw [← addOrderOf_base, addOrderOf_dvd_iff_nsmul_eq_zero]

theorem mod_nsmul_base (k : Nat) : (k % groupOrder) • base = k • base := by
  rw [← addOrderOf_base, mod_addOrderOf_nsmul]

/-- Adding multiples of the generator adds their numbers. -/
theorem ofScalar_add (j k : Nat) :
    (Point.ofScalar j).add (Point.ofScalar k) = Point.ofScalar ((j + k) % groupOrder) := by
  rw [ofScalar_eq, ofScalar_eq, ← toPoint_add, ← add_nsmul, ofScalar_eq, mod_nsmul_base]

theorem ofScalar_eq_infinity_iff {k : Nat} : Point.ofScalar k = .infinity ↔ groupOrder ∣ k := by
  rw [ofScalar_eq, ← nsmul_base_eq_zero_iff]
  exact ⟨fun h => toPoint_injective h, fun h => by rw [h]; rfl⟩

theorem ofScalar_ne_infinity {k : Nat} (hpos : 0 < k) (hlt : k < groupOrder) :
    Point.ofScalar k ≠ .infinity := fun h =>
  hlt.not_ge (Nat.le_of_dvd hpos (ofScalar_eq_infinity_iff.mp h))

theorem exists_ofScalar {k : Nat} (hpos : 0 < k) (hlt : k < groupOrder) :
    ∃ x y, Point.ofScalar k = .affine x y ∧ OnCurve x y := by
  cases h : Point.ofScalar k with
  | infinity => exact absurd h (ofScalar_ne_infinity hpos hlt)
  | affine x y => exact ⟨x, y, rfl, onCurve_of_toPoint ((ofScalar_eq k).symm.trans h)⟩

theorem ofScalar_sub {k : Nat} {x y : Residue} (hle : k ≤ groupOrder)
    (h : Point.ofScalar k = .affine x y) : Point.ofScalar (groupOrder - k) = .affine x (-y) := by
  have hzero : groupOrder • base = 0 := nsmul_base_eq_zero_iff.mpr dvd_rfl
  rw [ofScalar_eq, sub_nsmul base hle, hzero, zero_add]
  rw [ofScalar_eq] at h
  exact toPoint_neg h

/-- What the order leaves of a scalar is the scalar itself. -/
theorem toNat_emod_order {k : Nat} (hlt : k < groupOrder) :
    ((k : Int) % (groupOrder : Int)).toNat = k := by
  rw [Int.emod_eq_of_lt (Int.natCast_nonneg k) (Int.ofNat_lt.mpr hlt), Int.toNat_natCast]

/-- The multiple of the generator by an integer. -/
noncomputable def ofInteger (n : Int) : Point := toPoint (n • base)

theorem ofInteger_eq (n : Int) : ofInteger n = Point.ofScalar (n % groupOrder).toNat := by
  have hnonneg : 0 ≤ n % (groupOrder : Int) := Int.emod_nonneg n (by decide)
  rw [ofInteger, ofScalar_eq, ← natCast_zsmul, Int.toNat_of_nonneg hnonneg, ← addOrderOf_base,
    mod_addOrderOf_zsmul]

/-- What the order leaves of an integer is a scalar, unless it is nothing. -/
theorem scalar_of_not_dvd {n : Int} (h : ¬ (groupOrder : Int) ∣ n) :
    0 < (n % groupOrder).toNat ∧ (n % groupOrder).toNat < groupOrder := by
  have hnonneg : 0 ≤ n % (groupOrder : Int) := Int.emod_nonneg n (by decide)
  have hlt : n % (groupOrder : Int) < groupOrder := Int.emod_lt_of_pos n (by decide)
  have hne : n % (groupOrder : Int) ≠ 0 := fun hzero => h (Int.dvd_of_emod_eq_zero hzero)
  omega

theorem not_dvd_of_scalar {n : Int} (hpos : 0 < n) (hlt : n < groupOrder) :
    ¬ (groupOrder : Int) ∣ n := fun h => hlt.not_ge (Int.le_of_dvd hpos h)

theorem ofScalar_toNat_emod_eq_infinity_iff {n : Int} :
    Point.ofScalar (n % (groupOrder : Int)).toNat = .infinity ↔ (groupOrder : Int) ∣ n := by
  have hnonneg : 0 ≤ n % (groupOrder : Int) := Int.emod_nonneg n (by decide)
  rw [ofScalar_eq_infinity_iff, ← Int.natCast_dvd_natCast, Int.toNat_of_nonneg hnonneg,
    Int.dvd_iff_emod_eq_zero, Int.emod_emod, ← Int.dvd_iff_emod_eq_zero]

/-- What the order leaves of the opposite of an integer. -/
theorem order_sub_emod {n : Int} (h : ¬ (groupOrder : Int) ∣ n) :
    (groupOrder - n) % (groupOrder : Int) = groupOrder - n % groupOrder := by
  obtain ⟨hpos, hlt⟩ := scalar_of_not_dvd h
  calc (groupOrder - n) % (groupOrder : Int)
      = (groupOrder - n % groupOrder + groupOrder * -(n / groupOrder)) % (groupOrder : Int) := by
        rw [Int.emod_def n]
        ring_nf
    _ = (groupOrder - n % groupOrder) % (groupOrder : Int) := Int.add_mul_emod_self_left ..
    _ = groupOrder - n % groupOrder := Int.emod_eq_of_lt (by omega) (by omega)

end TokenMetadata.Curve
