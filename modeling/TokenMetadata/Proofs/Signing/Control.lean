import Mathlib
import TokenMetadata.Proofs.Signing.TaprootAddress
import TokenMetadata.Proofs.Signing.Agreement

/-!
# Only own addresses are signed for

A secret opens exactly the addresses of its own public key. The key behind the address comes from
the text of the address and the key of the secret from its point, and the two are the same only if
the text is what the secret's key is written as on one of the networks.
-/

namespace TokenMetadata

open Curve Taproot

/-- The address of the secret's public key on one of the networks, in one case. -/
def IsOwnAddress (secret : Int) (address : String) : Prop :=
  ∃ (n : Network) (x : Bytes) (own : String),
    PrivateKey.xOnly (.bytes (Bytes.ofNatBE 32 secret.toNat)) = .ok x ∧
      PrivateKey.deriveAddress x (.text n.name) = .ok own ∧ InOneCase own.toList address.toList

/-- The address of some key on one of the networks, in one case. -/
def IsTaprootAddress (address : String) : Prop :=
  ∃ key : Bytes, key.length = 32 ∧ StandsFor address key

/-- The nonce for the message comes to zero. -/
def NonceIsZero (secret : Int) (m : Bytes) (hashType : Message.HashType) : Prop :=
  ∃ t key, tweakSecret secret = .ok (t, key) ∧
    Schnorr.nonce (evenSecret t (Point.ofScalar t)) key (Simple.signedHash key m hashType)
      (List.replicate 32 0) = 0

/-- How a run that signs for an address ends. A text is returned for own addresses alone; every
other run ends at the first check that does not hold, in the order of the fields. -/
structure SignsOnlyForOwn (secret : Int) (address : String) (m : Bytes) (hashType : Int)
    (run : Except Fault String) : Prop where
  returns : (∃ w, run = .ok w) ↔ (0 < secret ∧ secret < groupOrder) ∧ IsOwnAddress secret address ∧
    ∃ type : Message.HashType, hashType = type.toByte.toNat ∧ ¬ NonceIsZero secret m type
  refuses : (¬ ∃ w, run = .ok w) → ∃ f, run = .error (.signing f)
  outside : ¬ (0 < secret ∧ secret < groupOrder) → run = .error (.signing .invalidScalar)
  noAddress : 0 < secret ∧ secret < groupOrder → ¬ IsTaprootAddress address →
    ∃ f ∈ [.unsupportedAddress address, .invalidAddress address, .notTaproot address],
      run = .error (.signing f)
  noTweak : 0 < secret ∧ secret < groupOrder → IsTaprootAddress address →
    ∀ e, tweakSecret secret = .error e →
      (∃ f ∈ [SigningFault.tweakOutOfRange, .tweakedSecretZero], e = .signing f) ∧ run = .error e
  notOwn : 0 < secret ∧ secret < groupOrder → IsTaprootAddress address →
    (∃ own, tweakSecret secret = .ok own) → ¬ IsOwnAddress secret address →
      run = .error (.signing (.notControlled address))
  otherType : 0 < secret ∧ secret < groupOrder → IsOwnAddress secret address →
    (∀ type : Message.HashType, hashType ≠ type.toByte.toNat) →
      run = .error (.signing (.sighashType hashType))
  noNonce : 0 < secret ∧ secret < groupOrder → IsOwnAddress secret address →
    ∀ type : Message.HashType, hashType = type.toByte.toNat → NonceIsZero secret m type →
      run = .error (.signing .nonceZero)

theorem PrivateKey.addressOn_eq_ok_iff {x : Bytes} {n : Network} {own : String} :
    addressOn x n = .ok own ↔ ∃ key, outputKey x = .ok key ∧ Bech32.encode n.hrp 1 key = own := by
  rw [addressOn, bind_eq_ok_iff]
  refine exists_congr fun key => and_congr_right fun hkey => ?_
  rw [address, if_neg (not_not.mpr (length_of_outputKey hkey)), Except.ok.injEq]

theorem PrivateKey.xOnly_ofNatBE {d : Nat} (hpos : 0 < d) (hlt : d < groupOrder) :
    xOnly (.bytes (Bytes.ofNatBE 32 d)) = .ok (xBytes (Point.ofScalar d)) := by
  have hlength := Bytes.length_ofNatBE 32 d
  have hvalue : Bytes.toNatBE (Bytes.ofNatBE 32 d) = d := by
    rw [Bytes.toNatBE_ofNatBE]
    exact Nat.mod_eq_of_lt (hlt.trans (by decide))
  have hscalar := Simple.scalar?_eq_some_iff.mpr ⟨hlength, hvalue, hpos, hlt⟩
  rw [xOnly, scalar_form .bytes hlength, hscalar]
  rfl

namespace Message.HashType

variable {hashType : Datum} {n : Int} {type : HashType}

theorem accept_byte (htype : hashType.toInt? = some n) (h : n = type.toByte.toNat) :
    accept hashType = .ok type := by
  simp only [accept, htype]
  subst h
  cases type <;> rfl

theorem accept_other (htype : hashType.toInt? = some n)
    (h : ∀ type : HashType, n ≠ type.toByte.toNat) :
    accept hashType = .error (.signing (.sighashType n)) := by
  have hdefault : n ≠ 0 := h default
  have hall : n ≠ 1 := h all
  simp only [accept, htype, ofInt, if_neg hdefault, if_neg hall]
  rfl

theorem eq_byte_of_accept (htype : hashType.toInt? = some n) (h : accept hashType = .ok type) :
    n = type.toByte.toNat := by
  by_contra hne
  by_cases hother : ∀ type : HashType, n ≠ type.toByte.toNat
  · rw [accept_other htype hother] at h
    cases h
  · obtain ⟨type', hbyte⟩ := not_forall.mp hother
    rw [not_not] at hbyte
    rw [accept_byte htype hbyte] at h
    exact hne (Except.ok.inj h ▸ hbyte)

end Message.HashType

namespace Simple

variable {secret : Int} {address : String} {key m : Bytes} {hashType : Datum}
  {f : SigningFault} {e : Fault}

theorem unlock_of_noAddress (hrange : 0 < secret ∧ secret < groupOrder)
    (h : keyOfAddress address = .error f) : unlock secret address = .error (.signing f) := by
  rw [unlock, if_neg (not_outside hrange), h]
  rfl

theorem unlock_of_noTweak (hrange : 0 < secret ∧ secret < groupOrder)
    (hkey : keyOfAddress address = .ok key) (h : tweakSecret secret = .error e) :
    unlock secret address = .error e := by
  rw [unlock, if_neg (not_outside hrange), hkey, liftSigning_ok, ok_bind, h]
  rfl

theorem unlock_of_foreign (hrange : 0 < secret ∧ secret < groupOrder) {t : Nat} {own : Bytes}
    (hkey : keyOfAddress address = .ok key) (h : tweakSecret secret = .ok (t, own))
    (hne : key ≠ own) :
    unlock secret address = .error (.signing (.notControlled address)) := by
  rw [unlock, if_neg (not_outside hrange), hkey, liftSigning_ok, ok_bind, h]
  simp only [ok_bind, if_pos hne]
  rfl

theorem nonceIsZero_iff {t : Nat} {type : Message.HashType}
    (h : tweakSecret secret = .ok (t, key)) :
    NonceIsZero secret m type ↔ Schnorr.nonce (evenSecret t (Point.ofScalar t))
      (xBytes (Point.ofScalar t)) (signedHash key m type) (List.replicate 32 0) = 0 := by
  obtain ⟨-, -, hkey⟩ := tweakSecret_ok h
  simp only [NonceIsZero, h, Except.ok.injEq, Prod.mk.injEq, ← hkey]
  constructor
  · rintro ⟨t', key', ⟨rfl, rfl⟩, hzero⟩
    exact hzero
  · intro hzero
    exact ⟨t, key, ⟨rfl, rfl⟩, hzero⟩

theorem exists_witness {t : Nat} {type : Message.HashType}
    (h : tweakSecret secret = .ok (t, key)) (hnonce : ¬ NonceIsZero secret m type) :
    ∃ stack, witness t key m type = .ok stack := by
  obtain ⟨hpos, hlt, -⟩ := tweakSecret_ok h
  rw [nonceIsZero_iff h] at hnonce
  have hsign := Schnorr.sign_eq_ok_iff.mpr
    ⟨t, rfl, hpos, hlt, _, rfl, Nat.pos_of_ne_zero hnonce, rfl⟩
  exact ⟨_, witness_eq_ok_iff.mpr ⟨_, hsign, rfl⟩⟩

theorem witness_of_nonceIsZero {t : Nat} {type : Message.HashType}
    (h : tweakSecret secret = .ok (t, key)) (hnonce : NonceIsZero secret m type) :
    witness t key m type = .error .nonceZero := by
  obtain ⟨hpos, hlt, -⟩ := tweakSecret_ok h
  have hsign := Schnorr.sign_of_nonce_zero hpos hlt ((nonceIsZero_iff h).mp hnonce)
  rw [signedHash] at hsign
  rw [witness, hsign]
  rfl

theorem signWithSecret_of_unlock_error (h : unlock secret address = .error e) :
    signWithSecret secret address m hashType = .error e := by
  rw [signWithSecret, h, error_bind]

theorem signWithSecret_of_type_error {t : Nat}
    (h : unlock secret address = .ok (t, key))
    (htype : Message.HashType.accept hashType = .error e) :
    signWithSecret secret address m hashType = .error e := by
  rw [signWithSecret, h]
  simp only [ok_bind, htype, error_bind]

theorem signWithSecret_of_witness_error {t : Nat} {type : Message.HashType}
    (h : unlock secret address = .ok (t, key)) (htype : Message.HashType.accept hashType = .ok type)
    (hstack : witness t key m type = .error f) :
    signWithSecret secret address m hashType = .error (.signing f) := by
  rw [signWithSecret, h]
  simp only [ok_bind, htype, hstack, liftSigning_error, error_bind]

end Simple

/-- A secret opens its own addresses and no others. -/
theorem isOwnAddress_iff {secret : Int} {address : String} (hascii : IsAscii address.toList)
    (hrange : 0 < secret ∧ secret < groupOrder) :
    IsOwnAddress secret address ↔ ∃ t key, Simple.unlock secret address = .ok (t, key) := by
  obtain ⟨d, rfl⟩ := Int.eq_ofNat_of_zero_le hrange.1.le
  have hpos : 0 < d := by omega
  have hlt : d < groupOrder := by omega
  constructor
  · rintro ⟨n, x, own, hx, hown, hcase⟩
    rw [Int.toNat_natCast, PrivateKey.xOnly_ofNatBE hpos hlt] at hx
    obtain rfl := Except.ok.inj hx
    rw [PrivateKey.deriveAddress, Network.accept_name, ok_bind] at hown
    obtain ⟨key, hkey, rfl⟩ := PrivateKey.addressOn_eq_ok_iff.mp hown
    obtain ⟨t, htweak⟩ := (outputKey_ofScalar_iff hpos hlt).mp hkey
    have haddress := (keyOfAddress_eq_ok_iff hascii).mpr ⟨length_of_outputKey hkey, n, hcase⟩
    exact ⟨t, key, Simple.unlock_eq_ok_iff.mpr ⟨hrange.1, hrange.2, haddress, htweak⟩⟩
  · rintro ⟨t, key, hunlock⟩
    obtain ⟨-, -, haddress, htweak⟩ := Simple.unlock_eq_ok_iff.mp hunlock
    obtain ⟨-, n, hcase⟩ := (keyOfAddress_eq_ok_iff hascii).mp haddress
    have hkey := (outputKey_ofScalar_iff hpos hlt).mpr ⟨t, htweak⟩
    refine ⟨n, _, _, PrivateKey.xOnly_ofNatBE hpos hlt, ?_, hcase⟩
    rw [PrivateKey.deriveAddress, Network.accept_name, ok_bind]
    exact PrivateKey.addressOn_eq_ok_iff.mpr ⟨key, hkey, rfl⟩

theorem isTaprootAddress_iff {address : String} (hascii : IsAscii address.toList) :
    IsTaprootAddress address ↔ ∃ key, keyOfAddress address = .ok key := by
  simp only [IsTaprootAddress, keyOfAddress_eq_ok_iff hascii]

/-- A text is signed for an address only by the secret that the address belongs to, and by that
secret it is signed unless the nonce fails. -/
theorem signs_only_for_own_addresses {secret : Int} {address : String} (m : Bytes)
    {hashType : Datum} {n : Int} (hascii : IsAscii address.toList)
    (htype : hashType.toInt? = some n) :
    SignsOnlyForOwn secret address m n (Simple.signWithSecret secret address m hashType) where
  returns := by
    constructor
    · rintro ⟨w, hw⟩
      obtain ⟨t, key, type, stack, hunlock, haccept, hstack, -⟩ :=
        Simple.signWithSecret_eq_ok_iff.mp hw
      obtain ⟨hpos, hlt, -, htweak⟩ := Simple.unlock_eq_ok_iff.mp hunlock
      refine ⟨⟨hpos, hlt⟩, (isOwnAddress_iff hascii ⟨hpos, hlt⟩).mpr ⟨t, key, hunlock⟩, type,
        Message.HashType.eq_byte_of_accept htype haccept, fun hnonce => ?_⟩
      rw [Simple.witness_of_nonceIsZero htweak hnonce] at hstack
      cases hstack
    · rintro ⟨hrange, hown, type, hbyte, hnonce⟩
      obtain ⟨t, key, hunlock⟩ := (isOwnAddress_iff hascii hrange).mp hown
      obtain ⟨-, -, -, htweak⟩ := Simple.unlock_eq_ok_iff.mp hunlock
      obtain ⟨stack, hstack⟩ := Simple.exists_witness htweak hnonce
      exact ⟨_, Simple.signWithSecret_eq_ok_iff.mpr ⟨t, key, type, stack, hunlock,
        Message.HashType.accept_byte htype hbyte, hstack, rfl⟩⟩
  refuses := by
    intro hnone
    cases hrun : Simple.signWithSecret secret address m hashType with
    | ok w => exact absurd ⟨w, hrun⟩ hnone
    | error e =>
      obtain ⟨f, rfl⟩ := Simple.signWithSecret_eq_error htype hrun
      exact ⟨f, rfl⟩
  outside := Simple.signWithSecret_of_outside
  noAddress := by
    intro hrange haddress
    rw [isTaprootAddress_iff hascii] at haddress
    cases hkey : keyOfAddress address with
    | ok key => exact absurd ⟨key, hkey⟩ haddress
    | error f =>
      exact ⟨f, keyOfAddress_eq_error hkey,
        Simple.signWithSecret_of_unlock_error (Simple.unlock_of_noAddress hrange hkey)⟩
  noTweak := by
    intro hrange haddress e htweak
    obtain ⟨key, hkey⟩ := (isTaprootAddress_iff hascii).mp haddress
    exact ⟨tweakSecret_eq_error (not_dvd_of_scalar hrange.1 hrange.2) htweak,
      Simple.signWithSecret_of_unlock_error (Simple.unlock_of_noTweak hrange hkey htweak)⟩
  notOwn := by
    rintro hrange haddress ⟨⟨t, own⟩, htweak⟩ hown
    obtain ⟨key, hkey⟩ := (isTaprootAddress_iff hascii).mp haddress
    refine Simple.signWithSecret_of_unlock_error (Simple.unlock_of_foreign hrange hkey htweak ?_)
    rintro rfl
    exact hown ((isOwnAddress_iff hascii hrange).mpr
      ⟨t, key, Simple.unlock_eq_ok_iff.mpr ⟨hrange.1, hrange.2, hkey, htweak⟩⟩)
  otherType := by
    intro hrange hown hother
    obtain ⟨t, key, hunlock⟩ := (isOwnAddress_iff hascii hrange).mp hown
    exact Simple.signWithSecret_of_type_error hunlock (Message.HashType.accept_other htype hother)
  noNonce := by
    intro hrange hown type hbyte hnonce
    obtain ⟨t, key, hunlock⟩ := (isOwnAddress_iff hascii hrange).mp hown
    obtain ⟨-, -, -, htweak⟩ := Simple.unlock_eq_ok_iff.mp hunlock
    exact Simple.signWithSecret_of_witness_error hunlock
      (Message.HashType.accept_byte htype hbyte) (Simple.witness_of_nonceIsZero htweak hnonce)

/-- The address of the least scalar in upper case. -/
def capitalsOfOne : String := String.ofList (addressOfOne.toList.map Char.toUpper)

theorem signs_only_for_own_addresses_capitals :
    IsOwnAddress 1 capitalsOfOne ∧
      SignsOnlyForOwn 1 capitalsOfOne [1] 0
        (Simple.signWithSecret 1 capitalsOfOne [1] (.int 0)) ∧
      ∃ w, Simple.signWithSecret 1 capitalsOfOne [1] (.int 0) = .ok w := by
  have hascii : IsAscii capitalsOfOne.toList := by
    rw [capitalsOfOne, String.toList_ofList]
    decide +kernel
  have hsigns : SignsOnlyForOwn 1 capitalsOfOne [1] 0
      (Simple.signWithSecret 1 capitalsOfOne [1] (.int 0)) :=
    signs_only_for_own_addresses [1] hascii rfl
  have hown : IsOwnAddress 1 capitalsOfOne := by
    have hkey := outputKey_of_tweakSecret (by decide) (by decide) tweakSecret_one
    have htext : Bech32.encode Network.regtest.hrp 1 (xBytes tweakedOnePoint) = addressOfOne := by
      decide +kernel
    refine ⟨.regtest, _, addressOfOne, PrivateKey.xOnly_ofNatBE (by decide) (by decide), ?_,
      Or.inr String.toList_ofList⟩
    rw [PrivateKey.deriveAddress, Network.accept_name, ok_bind]
    exact PrivateKey.addressOn_eq_ok_iff.mpr ⟨_, hkey, htext⟩
  have hnonce : ¬ NonceIsZero 1 [1] .default := by
    rw [Simple.nonceIsZero_iff tweakSecret_one, ofScalar_tweakedOne]
    exact (nonce_one_pos ([1], .default) (by decide)).ne'
  exact ⟨hown, hsigns, hsigns.returns.mpr ⟨by decide, hown, .default, rfl, hnonce⟩⟩

end TokenMetadata
