import Mathlib
import TokenMetadata.Proofs.Curve.Encoding
import TokenMetadata.Proofs.Signing.Completeness

/-!
# The equation of a signature

The number of a signature times the generator, less the challenge times the point of the key, is the
point of the signature's first half. The first half and the key stand for one point each and the
challenge depends on nothing else but the message, so the equation leaves no choice of the number.
-/

namespace TokenMetadata.Schnorr

open Curve Taproot

/-- The point with an even `y` whose `x` is given in thirty-two bytes. -/
structure IsEvenPoint (b : Bytes) (P : curve.Point) : Prop where
  length : b.length = 32
  coordinates : ∃ x y, toPoint P = .affine x y ∧ x.val = Bytes.toNatBE b ∧ isOdd y = false

/-- Both halves of a signature are in range, and they meet the equation. -/
structure IsSignature (m pubkey sig : Bytes) : Prop where
  length : sig.length = 64
  x_lt : Bytes.toNatBE (sig.take 32) < fieldPrime
  number_lt : Bytes.toNatBE (sig.drop 32) < groupOrder
  equation : ∃ P, IsEvenPoint pubkey P ∧ IsEvenPoint (sig.take 32)
    (Bytes.toNatBE (sig.drop 32) • base - challenge (sig.take 32) pubkey m • P)

variable {b m pubkey sig : Bytes}

theorem IsEvenPoint.unique {P Q : curve.Point} (hP : IsEvenPoint b P) (hQ : IsEvenPoint b Q) :
    P = Q := by
  obtain ⟨-, x, y, hPxy, hx, heven⟩ := hP
  obtain ⟨-, x', y', hQxy, hx', heven'⟩ := hQ
  obtain rfl : x = x' := Fin.ext (hx.trans hx'.symm)
  exact eq_of_isOdd hPxy hQxy (heven.trans heven'.symm)

theorem lift_eq_ok_iff_isEvenPoint {p : Point} :
    lift b = .ok p ↔ ∃ P, toPoint P = p ∧ IsEvenPoint b P := by
  rw [lift_eq_ok_iff]
  constructor
  · rintro ⟨x, y, rfl, hcurve, heven, rfl⟩
    obtain ⟨P, hP⟩ := exists_toPoint hcurve
    exact ⟨P, hP, length_xBytes _, x, y, hP, (toNatBE_xBytes x y).symm, heven⟩
  · rintro ⟨P, rfl, hlength, x, y, hP, hx, heven⟩
    refine ⟨x, y, hP, onCurve_of_toPoint hP, heven, ?_⟩
    rw [hP]
    exact ofNatBE_of_toNatBE hlength hx.symm

/-- Exactly the solutions of the equation verify. -/
theorem verify_eq_true_iff_isSignature : verify m pubkey sig = true ↔ IsSignature m pubkey sig := by
  have hchallenge := (challenge_lt (sig.take 32) pubkey m).le
  rw [verify_eq_true_iff]
  constructor
  · rintro ⟨hlength, hr, hs, p, x, y, hlift, hsum, heven, hx⟩
    obtain ⟨P, rfl, hP⟩ := lift_eq_ok_iff_isEvenPoint.mp hlift
    rw [sum_eq_toPoint hchallenge] at hsum
    have hhalf : (sig.take 32).length = 32 := by
      rw [List.length_take, hlength]
      rfl
    exact ⟨hlength, hr, hs, P, hP, hhalf, x, y, hsum, hx, heven⟩
  · rintro ⟨hlength, hr, hs, P, hP, -, x, y, hsum, hx, heven⟩
    refine ⟨hlength, hr, hs, toPoint P, x, y, lift_eq_ok_iff_isEvenPoint.mpr ⟨P, rfl, hP⟩, ?_,
      heven, hx⟩
    rw [sum_eq_toPoint hchallenge, hsum]

theorem nsmul_base_inj {j k : Nat} (hj : j < groupOrder) (hk : k < groupOrder)
    (h : j • base = k • base) : j = k := by
  rw [← addOrderOf_base] at hj hk
  exact nsmul_injOn_Iio_addOrderOf hj hk h

/-- Two signatures with one first half have the same number. -/
theorem IsSignature.unique {r s s' : Bytes} (hr : r.length = 32)
    (h : IsSignature m pubkey (r ++ s)) (h' : IsSignature m pubkey (r ++ s')) : s = s' := by
  obtain ⟨hlength, -, hs, P, hP, hpoint⟩ := h
  obtain ⟨hlength', -, hs', Q, hQ, hpoint'⟩ := h'
  rw [List.take_left' hr, List.drop_left' hr] at hpoint hpoint'
  rw [List.drop_left' hr] at hs hs'
  rw [List.length_append, hr] at hlength hlength'
  obtain rfl := hP.unique hQ
  have hnumber := nsmul_base_inj hs hs' (sub_left_inj.mp (hpoint.unique hpoint'))
  have hsize : s.length = 32 := by omega
  have hsize' : s'.length = 32 := by omega
  rw [← ofNatBE_of_toNatBE hsize rfl, hnumber, ofNatBE_of_toNatBE hsize' rfl]

theorem verify_eq_false_of_ne {r s s' : Bytes} (hr : r.length = 32)
    (h : verify m pubkey (r ++ s) = true) (hne : s' ≠ s) : verify m pubkey (r ++ s') = false := by
  rw [← Bool.not_eq_true]
  intro h'
  rw [verify_eq_true_iff_isSignature] at h h'
  exact hne (h'.unique hr h)

theorem ofNatBE_add_order_ne (s : Bytes) :
    Bytes.ofNatBE 32 (Bytes.toNatBE s + groupOrder) ≠ s := by
  intro hsame
  have hnumber := congrArg Bytes.toNatBE hsame
  have hpos : 0 < groupOrder := by decide
  have hfits : groupOrder < 256 ^ 32 := by decide
  rw [Bytes.toNatBE_ofNatBE] at hnumber
  omega

theorem ofNatBE_order_sub_ne (s : Bytes) :
    Bytes.ofNatBE 32 (groupOrder - Bytes.toNatBE s) ≠ s := by
  intro hsame
  have hnumber := congrArg Bytes.toNatBE hsame
  have hfits : groupOrder - Bytes.toNatBE s < 256 ^ 32 :=
    (Nat.sub_le _ _).trans_lt (by decide)
  rw [Bytes.toNatBE_ofNatBE, Nat.mod_eq_of_lt hfits] at hnumber
  have hodd : groupOrder % 2 = 1 := by decide
  omega

/-- A first half leaves no choice of the second. A second half that was altered does not verify,
neither with the order added to its number nor with the opposite number, nor in any other way. -/
theorem second_half_has_no_choice (m pubkey r : Bytes) (hr : r.length = 32) :
    (∀ s s', verify m pubkey (r ++ s) = true → verify m pubkey (r ++ s') = true → s = s') ∧
    ∀ s, verify m pubkey (r ++ s) = true →
      verify m pubkey (r ++ Bytes.ofNatBE 32 (Bytes.toNatBE s + groupOrder)) = false ∧
      verify m pubkey (r ++ Bytes.ofNatBE 32 (groupOrder - Bytes.toNatBE s)) = false ∧
      ∀ b, b ≠ s → verify m pubkey (r ++ b) = false := by
  constructor
  · intro s s' h h'
    rw [verify_eq_true_iff_isSignature] at h h'
    exact h.unique hr h'
  · intro s h
    exact ⟨verify_eq_false_of_ne hr h (ofNatBE_add_order_ne s),
      verify_eq_false_of_ne hr h (ofNatBE_order_sub_ne s), fun b => verify_eq_false_of_ne hr h⟩

theorem second_half_has_no_choice_least_scalar :
    ∃ r s : Bytes, r.length = 32 ∧ s.length = 32 ∧
      verify [1] (xBytes .generator) (r ++ s) = true ∧
      (∀ b, verify [1] (xBytes .generator) (r ++ b) = true → s = b) ∧
      verify [1] (xBytes .generator)
        (r ++ Bytes.ofNatBE 32 (groupOrder - Bytes.toNatBE s)) = false := by
  have hnonce : derivedNonce 1 [1] [] ≠ 0 := by
    rw [derivedNonce, ofScalar_one]
    decide +kernel
  obtain ⟨sig, hsig⟩ := exists_sign (by decide) (by decide) hnonce
  have hverify := verify_of_sign hsig
  rw [Int.toNat_natCast, ofScalar_one] at hverify
  have hlength := (verify_eq_true_iff_isSignature.mp hverify).length
  have hr : (sig.take 32).length = 32 := by rw [List.length_take, hlength]; rfl
  have hs : (sig.drop 32).length = 32 := by rw [List.length_drop, hlength]
  rw [← List.take_append_drop 32 sig] at hverify
  obtain ⟨hunique, haltered⟩ := second_half_has_no_choice [1] (xBytes .generator) _ hr
  obtain ⟨-, hopposite, -⟩ := haltered _ hverify
  exact ⟨_, _, hr, hs, hverify, fun b => hunique _ b hverify, hopposite⟩

end TokenMetadata.Schnorr
