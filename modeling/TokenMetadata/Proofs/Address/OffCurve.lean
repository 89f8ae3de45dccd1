import Mathlib
import TokenMetadata.Proofs.Address
import TokenMetadata.Proofs.Curve.Encoding
import TokenMetadata.Proofs.Signing.Taproot

/-!
# What the curve test keeps out

An address is only returned when the curve test has refused it. The curve's own test refuses what is
no form of a point; an address may still be the `x` of a point, which has a form of its own in
public keys.
-/

namespace TokenMetadata

open Curve Taproot

namespace Address

variable {test : CurveTest} {seeds : List Bytes} {program : Key} {d : Derived} {a : Key}

theorem test_of_create (h : create test seeds program = .ok a) : test 0 a.toBytes = false := by
  obtain ⟨-, -, h⟩ := bind_eq_ok_iff.mp h
  obtain ⟨hoff, h⟩ := refuse_eq_ok_iff.mp h
  rw [← return_eq_ok_iff.mp h]
  exact Bool.eq_false_of_not_eq_true hoff

theorem test_of_search {call bump : Nat} (h : search test seeds program call bump = some d) :
    ∃ n, test n d.address.toBytes = false := by
  induction bump generalizing call with
  | zero => cases h
  | succ bump ih =>
    rw [search] at h
    split at h
    · exact ih h
    · rename_i hoff
      obtain rfl := Option.some.inj h
      exact ⟨call, Bool.eq_false_of_not_eq_true hoff⟩

theorem test_of_find (h : find test seeds program = .ok d) :
    ∃ n, test n d.address.toBytes = false := by
  obtain ⟨-, -, h⟩ := bind_eq_ok_iff.mp h
  split at h
  · rename_i found hfound
    obtain rfl := return_eq_ok_iff.mp h
    exact test_of_search hfound
  · cases h

/-- An address that the seeds lead to, as they are or with a bump behind them. -/
def IsDerived (seeds : List Bytes) (program a : Key) : Prop :=
  create curveTest seeds program = .ok a ∨ ∃ d, find curveTest seeds program = .ok d ∧ d.address = a

theorem isOnCurve_of_isDerived (h : IsDerived seeds program a) : isOnCurve a.toBytes = false := by
  rcases h with h | ⟨d, h, rfl⟩
  · exact test_of_create h
  · obtain ⟨_, hoff⟩ := test_of_find h
    exact hoff

theorem isDerived_accountKey (kind : Kind) (mint program : Key) :
    IsDerived [kind.seed, mint.toBytes] program (accountKey kind mint program) :=
  Or.inr ⟨_, derive_eq kind mint program, rfl⟩

end Address

theorem Taproot.exists_lift_iff {b : Bytes} :
    (∃ p, lift b = .ok p) ↔ ∃ x y, OnCurve x y ∧ b = Bytes.ofNatBE 32 x.val := by
  constructor
  · rintro ⟨p, h⟩
    obtain ⟨x, y, rfl, hcurve, -, hbytes⟩ := lift_eq_ok_iff.mp h
    exact ⟨x, y, hcurve, hbytes.symm⟩
  · rintro ⟨x, y, hcurve, rfl⟩
    obtain ⟨z, hz, heven⟩ := exists_isOdd hcurve false
    exact ⟨_, lift_eq_ok_iff.mpr ⟨x, z, rfl, hz, heven, rfl⟩⟩

open Address

/-- Whatever the curve test, what is derived is an address that it has refused. With the curve's own
test it is neither of the two forms of a point; it lifts to a point exactly when it is the `x` of
one, and nothing in the derivation looks at that. -/
theorem derived_addresses_refused_by_test (seeds : List Bytes) (program : Key) :
    (∀ test a, create test seeds program = .ok a → test 0 a.toBytes = false) ∧
    (∀ test d, find test seeds program = .ok d → ∃ n, test n d.address.toBytes = false) ∧
    (∀ a, IsDerived seeds program a →
      isOnCurve a.toBytes = false ∧
      (∀ x y, OnCurve x y → a.toBytes ≠ compressed x y ∧ a.toBytes ≠ uncompressed x y) ∧
      ((∃ p, lift a.toBytes = .ok p) ↔ ∃ x y, OnCurve x y ∧ a.toBytes = Bytes.ofNatBE 32 x.val)) ∧
    ∀ kind mint, ∃ a, ofMint kind mint program = .ok a ∧
      IsDerived [kind.seed, mint.toBytes] program a := by
  refine ⟨fun _ _ => test_of_create, fun _ _ => test_of_find, ?_, ?_⟩
  · intro a h
    have hoff := isOnCurve_of_isDerived h
    refine ⟨hoff, ?_, exists_lift_iff⟩
    intro x y hcurve
    constructor
    · intro hform
      rw [isOnCurve_iff.mpr ⟨x, y, hcurve, Or.inl hform⟩] at hoff
      cases hoff
    · intro hform
      rw [isOnCurve_iff.mpr ⟨x, y, hcurve, Or.inr hform⟩] at hoff
      cases hoff
  · intro kind mint
    exact ⟨_, ofMint_eq kind mint program, isDerived_accountKey kind mint program⟩

/-- The metadata account of the token whose key has a two in every byte. -/
def accountOfTwos : Key :=
  ⟨Bytes.ofNatBE 32 0x5541449de96fc2547cb60aa83fc9cb9d5dc14373e3550ccce24b0f31598c30ae,
    Bytes.length_ofNatBE 32 _⟩

def pointOfTwos : Point :=
  .affine 0x5541449de96fc2547cb60aa83fc9cb9d5dc14373e3550ccce24b0f31598c30ae
    0xcb2e67cebc47eab0957b0e65543d2c5d884d66a29e870f0b4a432f55128ae38e

theorem accountKey_twos : accountKey .metadata (.filled 2) Program.metadataId = accountOfTwos :=
  Key.ext_toBytes (by decide +kernel)

theorem isDerived_accountOfTwos :
    IsDerived [Program.metadataSeed, (Key.filled 2).toBytes] Program.metadataId accountOfTwos := by
  rw [← accountKey_twos]
  exact isDerived_accountKey .metadata _ _

theorem lift_accountOfTwos : lift accountOfTwos.toBytes = .ok pointOfTwos :=
  lift_eq_ok_iff.mpr ⟨_, _, rfl, by decide +kernel, by decide +kernel, rfl⟩

theorem derived_addresses_refused_by_test_twos :
    IsDerived [Program.metadataSeed, (Key.filled 2).toBytes] Program.metadataId accountOfTwos ∧
      isOnCurve accountOfTwos.toBytes = false ∧
      ∃ x y, OnCurve x y ∧ accountOfTwos.toBytes = Bytes.ofNatBE 32 x.val := by
  have hderived := isDerived_accountOfTwos
  obtain ⟨hoff, -, hlift⟩ := (derived_addresses_refused_by_test _ _).2.2.1 _ hderived
  exact ⟨hderived, hoff, hlift.mp ⟨_, lift_accountOfTwos⟩⟩

/-- A derived address can be the `x` of a point, and so have the form of a public key. -/
theorem derived_address_lifts :
    ofMint .metadata (.filled 2) Program.metadataId = .ok accountOfTwos ∧
      IsDerived [Program.metadataSeed, (Key.filled 2).toBytes] Program.metadataId accountOfTwos ∧
      lift accountOfTwos.toBytes = .ok pointOfTwos := by
  refine ⟨?_, isDerived_accountOfTwos, lift_accountOfTwos⟩
  rw [ofMint_eq, accountKey_twos]

end TokenMetadata
