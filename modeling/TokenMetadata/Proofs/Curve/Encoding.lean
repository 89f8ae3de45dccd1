import Mathlib
import TokenMetadata.Proofs.Bytes
import TokenMetadata.Curve.Point
import TokenMetadata.Proofs.Curve.Lift

/-!
# Byte strings of points

A byte string stands for a point exactly when it is one of the two forms of a point on the curve.
Both forms are longer than thirty-two bytes.
-/

namespace TokenMetadata.Curve

/-- The parity of `y`, and thirty-two bytes of `x`. -/
def compressed (x y : Residue) : Bytes := (if isOdd y then 3 else 2) :: Bytes.ofNatBE 32 x.val

/-- Thirty-two bytes of each coordinate. -/
def uncompressed (x y : Residue) : Bytes :=
  4 :: (Bytes.ofNatBE 32 x.val ++ Bytes.ofNatBE 32 y.val)

theorem toNatBE_ofNatBE_val (x : Residue) : Bytes.toNatBE (Bytes.ofNatBE 32 x.val) = x.val := by
  rw [Bytes.toNatBE_ofNatBE, Nat.mod_eq_of_lt (x.isLt.trans (by decide))]

theorem ofNatBE_of_toNatBE {b : Bytes} {n : Nat} (hlength : b.length = 32)
    (h : Bytes.toNatBE b = n) : Bytes.ofNatBE 32 n = b := by
  rw [← h, ← hlength]
  exact Bytes.ofNatBE_toNatBE b

variable {x y : Residue} {b : Bytes}

theorem decodePoint?_compressed (h : OnCurve x y) :
    decodePoint? (compressed x y) = some (.affine x y) := by
  have hlift := liftX_eq_some_iff.mpr ⟨x, y, rfl, rfl, h, rfl⟩
  cases hodd : isOdd y with
  | false =>
    rw [hodd] at hlift
    simp [decodePoint?, compressed, hodd, toNatBE_ofNatBE_val, hlift]
  | true =>
    rw [hodd] at hlift
    simp [decodePoint?, compressed, hodd, toNatBE_ofNatBE_val, hlift]

theorem decodePoint?_uncompressed (h : OnCurve x y) :
    decodePoint? (uncompressed x y) = some (.affine x y) := by
  have htake : (Bytes.ofNatBE 32 x.val ++ Bytes.ofNatBE 32 y.val).take 32 =
      Bytes.ofNatBE 32 x.val := List.take_left' (Bytes.length_ofNatBE 32 _)
  have hdrop : (Bytes.ofNatBE 32 x.val ++ Bytes.ofNatBE 32 y.val).drop 32 =
      Bytes.ofNatBE 32 y.val := List.drop_left' (Bytes.length_ofNatBE 32 _)
  simp [decodePoint?, uncompressed, htake, hdrop, toNatBE_ofNatBE_val, h]

/-- A tag in front of one coordinate says which of the two points it is. -/
theorem eq_compressed_of_liftX {body : Bytes} {odd : Bool} {p : Point}
    (hlength : body.length = 32) (h : liftX (Bytes.toNatBE body) odd = some p) :
    ∃ x y, p = .affine x y ∧ OnCurve x y ∧ (if odd then 3 else 2) :: body = compressed x y := by
  obtain ⟨x, y, rfl, hx, hcurve, rfl⟩ := liftX_eq_some_iff.mp h
  refine ⟨x, y, rfl, hcurve, ?_⟩
  rw [compressed, ofNatBE_of_toNatBE hlength hx.symm]

theorem decodePoint?_eq_some_iff {p : Point} :
    decodePoint? b = some p ↔ ∃ x y, p = .affine x y ∧ OnCurve x y ∧
      (b = compressed x y ∨ b = uncompressed x y) := by
  constructor
  · intro h
    cases b with
    | nil => cases h
    | cons tag body =>
      rw [decodePoint?] at h
      split at h
      · rename_i hlength
        split at h
        · rename_i heven
          obtain ⟨x, y, hp, hcurve, hform⟩ := eq_compressed_of_liftX hlength h
          exact ⟨x, y, hp, hcurve, Or.inl (heven ▸ hform)⟩
        split at h
        · rename_i hodd
          obtain ⟨x, y, hp, hcurve, hform⟩ := eq_compressed_of_liftX hlength h
          exact ⟨x, y, hp, hcurve, Or.inl (hodd ▸ hform)⟩
        · cases h
      split at h
      · rename_i hfull
        obtain ⟨hlength, rfl⟩ := hfull
        simp only [Option.dite_none_right_eq_some, Option.ite_none_right_eq_some] at h
        obtain ⟨hrange, hcurve, hp⟩ := h
        refine ⟨_, _, (Option.some.inj hp).symm, hcurve, Or.inr ?_⟩
        have htake : (body.take 32).length = 32 := by
          rw [List.length_take, hlength]
          rfl
        have hdrop : (body.drop 32).length = 32 := by
          rw [List.length_drop, hlength]
        rw [uncompressed, ofNatBE_of_toNatBE htake rfl, ofNatBE_of_toNatBE hdrop rfl,
          List.take_append_drop]
      · cases h
  · rintro ⟨x, y, rfl, hcurve, rfl | rfl⟩
    · exact decodePoint?_compressed hcurve
    · exact decodePoint?_uncompressed hcurve

theorem isOnCurve_iff :
    isOnCurve b = true ↔ ∃ x y, OnCurve x y ∧ (b = compressed x y ∨ b = uncompressed x y) := by
  rw [isOnCurve, Option.isSome_iff_exists]
  constructor
  · rintro ⟨p, h⟩
    obtain ⟨x, y, -, hcurve, hform⟩ := decodePoint?_eq_some_iff.mp h
    exact ⟨x, y, hcurve, hform⟩
  · rintro ⟨x, y, hcurve, hform⟩
    exact ⟨_, decodePoint?_eq_some_iff.mpr ⟨x, y, rfl, hcurve, hform⟩⟩

/-- A tag that says which root is meant, and the bytes of an `x` at which the curve has one. -/
def IsCompressed (b : Bytes) : Prop :=
  ∃ tag x y, b = tag :: x ∧ x.length = 32 ∧ (tag = 2 ∨ tag = 3) ∧
    Bytes.toNatBE x < fieldPrime ∧ y ^ 2 ≡ Bytes.toNatBE x ^ 3 + 7 [MOD fieldPrime]

/-- A tag, and the bytes of both coordinates of a point on the curve. -/
def IsUncompressed (b : Bytes) : Prop :=
  ∃ x y, b = 4 :: (x ++ y) ∧ x.length = 32 ∧ y.length = 32 ∧
    Bytes.toNatBE x < fieldPrime ∧ Bytes.toNatBE y < fieldPrime ∧
      Bytes.toNatBE y ^ 2 ≡ Bytes.toNatBE x ^ 3 + 7 [MOD fieldPrime]

theorem onCurve_iff_modEq : OnCurve x y ↔ y.val ^ 2 ≡ x.val ^ 3 + 7 [MOD fieldPrime] := by
  have hright : (x.val ^ 3 + 7) % fieldPrime = (rightSide x).val := by
    rw [rightSide, Fin.val_add, Fin.val_mul, Fin.val_mul, pow_succ, sq]
    simp [Nat.add_mod, Nat.mul_mod]
  rw [OnCurve, Fin.ext_iff, Fin.val_mul, Nat.ModEq, hright, sq]

theorem isOnCurve_iff_isCompressed_or :
    isOnCurve b = true ↔ IsCompressed b ∨ IsUncompressed b := by
  rw [isOnCurve_iff]
  constructor
  · rintro ⟨x, y, hcurve, rfl | rfl⟩
    · refine Or.inl ⟨_, _, y.val, rfl, Bytes.length_ofNatBE 32 _, ?_, ?_, ?_⟩
      · cases isOdd y <;> simp
      · rw [toNatBE_ofNatBE_val]
        exact x.isLt
      · rw [toNatBE_ofNatBE_val]
        exact onCurve_iff_modEq.mp hcurve
    · refine Or.inr ⟨_, _, rfl, Bytes.length_ofNatBE 32 _, Bytes.length_ofNatBE 32 _, ?_⟩
      rw [toNatBE_ofNatBE_val, toNatBE_ofNatBE_val]
      exact ⟨x.isLt, y.isLt, onCurve_iff_modEq.mp hcurve⟩
  · rintro (⟨tag, x, y, rfl, hlength, htag, hx, hroot⟩ | ⟨x, y, rfl, hxl, hyl, hx, hy, hroot⟩)
    · have hcurve : OnCurve ⟨Bytes.toNatBE x, hx⟩ (Fin.ofNat fieldPrime y) :=
        onCurve_iff_modEq.mpr (((Nat.mod_modEq y fieldPrime).pow 2).trans hroot)
      -- the tag says which of the two roots the bytes stand for
      obtain ⟨z, hz, hodd⟩ := exists_isOdd hcurve (decide (tag = 3))
      refine ⟨_, z, hz, Or.inl ?_⟩
      rw [compressed, hodd, ofNatBE_of_toNatBE hlength rfl]
      rcases htag with rfl | rfl <;> rfl
    · refine ⟨⟨_, hx⟩, ⟨_, hy⟩, onCurve_iff_modEq.mpr hroot, Or.inr ?_⟩
      rw [uncompressed, ofNatBE_of_toNatBE hxl rfl, ofNatBE_of_toNatBE hyl rfl]

end TokenMetadata.Curve
