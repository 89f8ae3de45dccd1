import Mathlib
import TokenMetadata.Signing.Taproot
import TokenMetadata.Proofs.Bytes
import TokenMetadata.Proofs.Success
import TokenMetadata.Proofs.Curve.Lift

/-!
# Keys and their secrets

A key is the `x` of a point, so a secret and its negative share it. Lifting the key of a secret
gives the point of whichever of the two has an even `y`. The multiples of the order are no secrets
of keys.
-/

namespace TokenMetadata.Taproot

open Curve

@[simp] theorem length_xBytes (p : Point) : (xBytes p).length = 32 := by
  cases p <;> exact Bytes.length_ofNatBE 32 _

theorem toNatBE_xBytes (x y : Residue) : Bytes.toNatBE (xBytes (.affine x y)) = x.val := by
  rw [xBytes, Bytes.toNatBE_ofNatBE, Nat.mod_eq_of_lt (x.isLt.trans (by decide))]

theorem lift_eq_ok_iff {b : Bytes} {p : Point} :
    lift b = .ok p ↔ ∃ x y, p = .affine x y ∧ OnCurve x y ∧ isOdd y = false ∧ xBytes p = b := by
  constructor
  · intro h
    rw [lift] at h
    split at h
    · cases h
    rename_i hlength
    split at h
    · rename_i q hq
      obtain rfl : q = p := Except.ok.inj h
      obtain ⟨x, y, rfl, hx, hcurve, hparity⟩ := liftX_eq_some_iff.mp hq
      refine ⟨x, y, rfl, hcurve, hparity, ?_⟩
      have hbytes := Bytes.ofNatBE_toNatBE b
      rwa [not_not.mp hlength, ← hx] at hbytes
    · cases h
  · rintro ⟨x, y, rfl, hcurve, hparity, rfl⟩
    have hlift := liftX_eq_some_iff.mpr ⟨x, y, rfl, rfl, hcurve, hparity⟩
    rw [lift, if_neg (not_not.mpr (length_xBytes _)), toNatBE_xBytes, hlift]

variable {d : Nat}

/-- The even one of a secret and its negative has a point with even `y` and the same `x`. -/
theorem ofScalar_evenSecret (hpos : 0 < d) (hlt : d < groupOrder) :
    ∃ x y, Point.ofScalar (evenSecret d (Point.ofScalar d)) = .affine x y ∧ OnCurve x y ∧
      isOdd y = false ∧ xBytes (.affine x y) = xBytes (Point.ofScalar d) := by
  obtain ⟨x, y, h, hcurve⟩ := exists_ofScalar hpos hlt
  rw [h, evenSecret]
  by_cases heven : y.val % 2 = 0
  · have hodd : isOdd y = false := by simp [isOdd, heven]
    rw [if_pos heven]
    exact ⟨x, y, h, hcurve, hodd, rfl⟩
  · have hodd : isOdd y = true := by
      rw [isOdd, decide_eq_true_eq]
      omega
    rw [if_neg heven]
    refine ⟨x, -y, ofScalar_sub hlt.le h, onCurve_neg hcurve, ?_, rfl⟩
    rw [isOdd_neg (y_ne_zero hcurve), hodd, Bool.not_true]

theorem lift_xBytes_ofScalar (hpos : 0 < d) (hlt : d < groupOrder) :
    lift (xBytes (Point.ofScalar d)) = .ok (Point.ofScalar (evenSecret d (Point.ofScalar d))) := by
  obtain ⟨x, y, h, hcurve, heven, hbytes⟩ := ofScalar_evenSecret hpos hlt
  rw [h]
  exact lift_eq_ok_iff.mpr ⟨x, y, rfl, hcurve, heven, hbytes⟩

theorem tweakSecret_eq_ok_iff {secret : Int} {t : Nat} {key : Bytes} :
    tweakSecret secret = .ok (t, key) ↔ ∃ d p, (secret % (groupOrder : Int)).toNat = d ∧
      Point.ofScalar d = p ∧ p ≠ .infinity ∧ tweak (xBytes p) < groupOrder ∧
        (evenSecret d p + tweak (xBytes p)) % groupOrder = t ∧ 0 < t ∧
          xBytes (Point.ofScalar t) = key := by
  simp only [tweakSecret, refuse_eq_ok_iff, return_eq_ok_iff, Prod.mk.injEq, not_le]
  constructor
  · rintro ⟨hfinite, hrange, hpos, rfl, hkey⟩
    exact ⟨_, _, rfl, rfl, hfinite, hrange, rfl, Nat.pos_of_ne_zero hpos, hkey⟩
  · rintro ⟨d, p, rfl, rfl, hfinite, hrange, rfl, hpos, hkey⟩
    exact ⟨hfinite, hrange, hpos.ne', rfl, hkey⟩

/-- A secret that has a key is held up by the two guards on hashes alone. -/
theorem tweakSecret_eq_error {secret : Int} (hdvd : ¬ (groupOrder : Int) ∣ secret) {e : Fault}
    (h : tweakSecret secret = .error e) :
    ∃ f ∈ [SigningFault.tweakOutOfRange, .tweakedSecretZero], e = .signing f := by
  have hfinite := mt ofScalar_toNat_emod_eq_infinity_iff.mp hdvd
  simp only [tweakSecret, if_neg hfinite] at h
  split at h
  · exact ⟨_, by simp, (Except.error.inj h).symm⟩
  split at h
  · exact ⟨_, by simp, (Except.error.inj h).symm⟩
  · cases h

theorem tweakSecret_of_dvd {secret : Int} (h : (groupOrder : Int) ∣ secret) :
    tweakSecret secret = .error (.misuse .wrongKind) := by
  rw [tweakSecret, if_pos (ofScalar_toNat_emod_eq_infinity_iff.mpr h)]
  rfl

/-- A tweaked secret is a scalar, and the key beside it is its own. -/
theorem tweakSecret_ok {secret : Int} {t : Nat} {key : Bytes}
    (h : tweakSecret secret = .ok (t, key)) :
    0 < t ∧ t < groupOrder ∧ key = xBytes (Point.ofScalar t) := by
  obtain ⟨d, p, -, -, -, -, ht, hpos, hkey⟩ := tweakSecret_eq_ok_iff.mp h
  exact ⟨hpos, ht ▸ Nat.mod_lt _ (by decide), hkey.symm⟩

/-- The tweaked key is found from the key as it is from the secret. -/
theorem outputKey_of_tweakSecret {t : Nat} {key : Bytes} (hpos : 0 < d) (hlt : d < groupOrder)
    (h : tweakSecret d = .ok (t, key)) : outputKey (xBytes (Point.ofScalar d)) = .ok key := by
  obtain ⟨d', p, hd', hp, -, hrange, ht, htpos, hkey⟩ := tweakSecret_eq_ok_iff.mp h
  obtain rfl : d = d' := (toNat_emod_order hlt).symm.trans hd'
  have hsum : (Point.ofScalar (evenSecret d p)).add (Point.ofScalar (tweak (xBytes p))) =
      Point.ofScalar t := by
    rw [ofScalar_add, ht]
  obtain ⟨x, y, htweaked, -⟩ := exists_ofScalar htpos (ht ▸ Nat.mod_lt _ (by decide))
  have hlift := lift_xBytes_ofScalar hpos hlt
  rw [hp] at hlift ⊢
  simp only [outputKey, hlift, bind_eq_ok_iff, Except.ok.injEq, exists_eq_left',
    refuse_eq_ok_iff]
  rw [hsum, htweaked]
  rw [htweaked] at hkey
  exact ⟨hrange.not_ge, congrArg _ hkey⟩

end TokenMetadata.Taproot
