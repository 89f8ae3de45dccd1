import Mathlib
import TokenMetadata.Proofs.Signing.TaprootAddress
import TokenMetadata.Proofs.Signing.Verification

/-!
# The two sides of a tweak

A key can be tweaked by its secret or without it. The side of the secret starts from an integer and
looks at the parity of `y` to choose between it and its negative; the side of the key starts from an
`x` alone. They come to the same key or both to none, and all that matters of the integer is what
the order leaves of it, up to sign.
-/

namespace TokenMetadata.Taproot

open Curve

section Opposite

variable {d : Nat} (hpos : 0 < d) (hlt : d < groupOrder)

include hpos hlt

theorem xBytes_ofScalar_sub :
    xBytes (Point.ofScalar (groupOrder - d)) = xBytes (Point.ofScalar d) := by
  obtain ⟨x, y, hpoint, -⟩ := exists_ofScalar hpos hlt
  rw [hpoint, ofScalar_sub hlt.le hpoint, xBytes, xBytes]

/-- A secret and its negative have one even representative between them. -/
theorem evenSecret_sub : evenSecret (groupOrder - d) (Point.ofScalar (groupOrder - d)) =
    evenSecret d (Point.ofScalar d) := by
  obtain ⟨x, y, hpoint, hcurve⟩ := exists_ofScalar hpos hlt
  have hflip : (-y).val % 2 = 0 ↔ ¬ y.val % 2 = 0 := by
    have hparity := isOdd_neg (y_ne_zero hcurve)
    simp only [isOdd, ← decide_not, decide_eq_decide] at hparity
    omega
  rw [hpoint, ofScalar_sub hlt.le hpoint, evenSecret, evenSecret]
  by_cases heven : y.val % 2 = 0
  · rw [if_pos heven, if_neg fun hneg => hflip.mp hneg heven]
    omega
  · rw [if_neg heven, if_pos (hflip.mpr heven)]

end Opposite

variable {secret : Int}

theorem tweakSecret_emod (secret : Int) :
    tweakSecret (secret % groupOrder) = tweakSecret secret := by
  rw [tweakSecret, tweakSecret, Int.emod_emod]

theorem tweakSecret_scalar (secret : Int) :
    tweakSecret (secret % groupOrder).toNat = tweakSecret secret := by
  rw [Int.toNat_of_nonneg (Int.emod_nonneg secret (by decide)), tweakSecret_emod]

theorem tweakSecret_sub (secret : Int) :
    tweakSecret (groupOrder - secret) = tweakSecret secret := by
  by_cases h : (groupOrder : Int) ∣ secret
  · rw [tweakSecret_of_dvd h, tweakSecret_of_dvd (dvd_sub dvd_rfl h)]
  obtain ⟨hpos, hlt⟩ := scalar_of_not_dvd h
  have hopposite : ((groupOrder - secret) % (groupOrder : Int)).toNat =
      groupOrder - (secret % (groupOrder : Int)).toNat := by
    rw [order_sub_emod h]
    omega
  have hfinite := ofScalar_ne_infinity hpos hlt
  have hfinite' : Point.ofScalar (groupOrder - (secret % (groupOrder : Int)).toNat) ≠ .infinity :=
    ofScalar_ne_infinity (by omega) (by omega)
  simp only [tweakSecret, hopposite, if_neg hfinite, if_neg hfinite', xBytes_ofScalar_sub hpos hlt,
    evenSecret_sub hpos hlt]

theorem outputKey_iff_tweakSecret (h : ¬ (groupOrder : Int) ∣ secret) {key : Bytes} :
    outputKey (xBytes (ofInteger secret)) = .ok key ↔ ∃ t, tweakSecret secret = .ok (t, key) := by
  obtain ⟨hpos, hlt⟩ := scalar_of_not_dvd h
  rw [ofInteger_eq, outputKey_ofScalar_iff hpos hlt, tweakSecret_scalar]

/-- The even one of an integer and its opposite may be chosen before the order is taken off. -/
theorem evenSecret_emod (h : ¬ (groupOrder : Int) ∣ secret) (x y : Residue) :
    (evenSecret (secret % groupOrder).toNat (.affine x y) : Int) =
      (if y.val % 2 = 0 then secret else groupOrder - secret) % groupOrder := by
  obtain ⟨hpos, hlt⟩ := scalar_of_not_dvd h
  rw [evenSecret]
  by_cases heven : y.val % 2 = 0
  · rw [if_pos heven, if_pos heven]
    omega
  · rw [if_neg heven, if_neg heven, order_sub_emod h]
    omega

/-- What tweaking an integer secret comes to, beside what tweaking the `x` of its point does. -/
structure TweaksAlike (secret : Int) (x y : Residue) : Prop where
  scalar : ∀ t key, tweakSecret secret = .ok (t, key) → 1 ≤ t ∧ t < groupOrder ∧
    (t : Int) = ((if y.val % 2 = 0 then secret else groupOrder - secret) +
      tweak (Bytes.ofNatBE 32 x.val)) % groupOrder
  key : ∀ t key, tweakSecret secret = .ok (t, key) →
    (∃ u v, Point.ofScalar t = .affine u v ∧ key = Bytes.ofNatBE 32 u.val) ∧
      outputKey (Bytes.ofNatBE 32 x.val) = .ok key
  refuses : (∃ f, tweakSecret secret = .error (.signing f)) ↔
    ∃ f, outputKey (Bytes.ofNatBE 32 x.val) = .error f
  onlySigning : ∀ e, tweakSecret secret = .error e → ∃ f, e = .signing f
  reduced : tweakSecret (secret % groupOrder) = tweakSecret secret
  opposite : tweakSecret (groupOrder - secret) = tweakSecret secret

/-- The `x` of an integer's point is tweaked to the key that the integer is tweaked to. -/
theorem secret_and_key_tweak_alike (h : ¬ (groupOrder : Int) ∣ secret) :
    ∃ x y, ofInteger secret = .affine x y ∧ TweaksAlike secret x y := by
  obtain ⟨hpos, hlt⟩ := scalar_of_not_dvd h
  obtain ⟨x, y, hpoint, -⟩ := exists_ofScalar hpos hlt
  have hinteger : ofInteger secret = .affine x y := (ofInteger_eq secret).trans hpoint
  have hkey : ∀ key, outputKey (Bytes.ofNatBE 32 x.val) = .ok key ↔
      ∃ t, tweakSecret secret = .ok (t, key) := by
    intro key
    rw [← outputKey_iff_tweakSecret h, hinteger, xBytes]
  have hsigning : ∀ e, tweakSecret secret = .error e → ∃ f, e = .signing f := by
    intro e he
    obtain ⟨f, -, rfl⟩ := tweakSecret_eq_error h he
    exact ⟨f, rfl⟩
  refine ⟨x, y, hinteger, ?_, ?_, ?_, hsigning, tweakSecret_emod secret, tweakSecret_sub secret⟩
  · intro t key ht
    obtain ⟨htpos, htlt, -⟩ := tweakSecret_ok ht
    obtain ⟨d, p, rfl, rfl, -, -, hsum, -⟩ := tweakSecret_eq_ok_iff.mp ht
    refine ⟨htpos, htlt, ?_⟩
    rw [← hsum, hpoint, xBytes, Int.natCast_emod, Int.natCast_add, evenSecret_emod h,
      Int.emod_add_emod]
  · intro t key ht
    obtain ⟨htpos, htlt, rfl⟩ := tweakSecret_ok ht
    obtain ⟨u, v, htweaked, -⟩ := exists_ofScalar htpos htlt
    refine ⟨⟨u, v, htweaked, ?_⟩, (hkey _).mpr ⟨t, ht⟩⟩
    rw [htweaked, xBytes]
  · rw [exists_eq_error_iff]
    constructor
    · rintro ⟨f, hsecret⟩ key hout
      obtain ⟨t, ht⟩ := (hkey key).mp hout
      cases ht.symm.trans hsecret
    · intro hpublic
      cases hrun : tweakSecret secret with
      | ok own => exact absurd ((hkey own.2).mpr ⟨own.1, hrun⟩) (hpublic own.2)
      | error e =>
        obtain ⟨f, rfl⟩ := hsigning e hrun
        exact ⟨f, rfl⟩

theorem secret_and_key_tweak_alike_minus_one :
    ¬ (groupOrder : Int) ∣ -1 ∧
      ∃ x y, ofInteger (-1) = .affine x y ∧ TweaksAlike (-1) x y ∧
        outputKey (Bytes.ofNatBE 32 x.val) = .ok (xBytes tweakedOnePoint) := by
  have hscalar : ¬ (groupOrder : Int) ∣ -1 := by decide
  obtain ⟨x, y, hpoint, halike⟩ := secret_and_key_tweak_alike hscalar
  -- the opposite of minus one is one more than the order, and tweaked as one is
  have htweak : tweakSecret (-1) = .ok (tweakedOne, xBytes tweakedOnePoint) := by
    rw [← halike.opposite, ← tweakSecret_emod]
    exact tweakSecret_one
  obtain ⟨-, hkey⟩ := halike.key _ _ htweak
  exact ⟨hscalar, x, y, hpoint, halike, hkey⟩

end TokenMetadata.Taproot
