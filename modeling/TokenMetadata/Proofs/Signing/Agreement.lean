import Mathlib
import TokenMetadata.Account.Node
import TokenMetadata.Proofs.Text.Hex
import TokenMetadata.Proofs.Signing.Wif
import TokenMetadata.Proofs.Signing.Verification

/-!
# All ways to a signature agree

A private key signs by its number, by its exported form, or for its own address on a network. The
number of a key is read from the same bytes each time, so that keys that are no scalars are refused
on every way, if not with the same words.
-/

namespace TokenMetadata

open Curve Taproot

/-- Two runs come to the same value, or each of them to a signing fault. -/
def Agree {α : Type} (r s : Except Fault α) : Prop :=
  (∃ a, r = .ok a ∧ s = .ok a) ∨ ∃ e f, r = .error (.signing e) ∧ s = .error (.signing f)

theorem agree_self {α : Type} {r : Except Fault α} (h : ∀ e, r = .error e → ∃ f, e = .signing f) :
    Agree r r := by
  cases r with
  | ok a => exact Or.inl ⟨a, rfl, rfl⟩
  | error e =>
    obtain ⟨f, rfl⟩ := h e rfl
    exact Or.inr ⟨f, f, rfl, rfl⟩

theorem Agree.eq_ok_iff {α : Type} {r s : Except Fault α} (h : Agree r s) {a : α} :
    r = .ok a ↔ s = .ok a := by
  rcases h with ⟨b, rfl, rfl⟩ | ⟨e, f, rfl, rfl⟩
  · exact Iff.rfl
  · simp only [reduceCtorEq]

namespace Simple

variable {secret : Int} {k m : Bytes} {address : String} {hashType : Datum}

theorem scalar?_eq_some_iff {d : Nat} :
    scalar? k = some d ↔ k.length = 32 ∧ Bytes.toNatBE k = d ∧ 0 < d ∧ d < groupOrder := by
  simp only [scalar?, Option.ite_none_right_eq_some, Option.some.injEq]
  constructor
  · rintro ⟨⟨hlength, hpos, hlt⟩, rfl⟩
    exact ⟨hlength, rfl, hpos, hlt⟩
  · rintro ⟨hlength, rfl, hpos, hlt⟩
    exact ⟨⟨hlength, hpos, hlt⟩, rfl⟩

/-- A hash type that is a number is refused, if it is, as a hash type. -/
theorem accept_eq_error_iff {n : Int} (htype : hashType.toInt? = some n) {e : Fault} :
    Message.HashType.accept hashType = .error e ↔
      ∃ f, Message.HashType.ofInt n = .error f ∧ .signing f = e := by
  simp only [Message.HashType.accept, htype]
  exact mapError_eq_error_iff

theorem not_outside (hrange : 0 < secret ∧ secret < groupOrder) :
    ¬ (secret ≤ 0 ∨ (groupOrder : Int) ≤ secret) := by
  omega

/-- The range of a secret is looked at before its key, so a secret without a key is not met. -/
theorem unlock_eq_error {e : Fault} (h : unlock secret address = .error e) :
    ∃ f, e = .signing f := by
  by_cases hrange : 0 < secret ∧ secret < groupOrder
  · rw [unlock, if_neg (not_outside hrange)] at h
    rcases bind_eq_error_iff.mp h with hkey | ⟨key, -, h⟩
    · obtain ⟨f, -, rfl⟩ := liftSigning_eq_error_iff.mp hkey
      exact ⟨f, rfl⟩
    rcases bind_eq_error_iff.mp h with htweak | ⟨own, -, h⟩
    · obtain ⟨f, -, rfl⟩ := tweakSecret_eq_error (not_dvd_of_scalar hrange.1 hrange.2) htweak
      exact ⟨f, rfl⟩
    dsimp only at h
    split at h
    · exact ⟨_, (Except.error.inj h).symm⟩
    · cases h
  · have houtside : secret ≤ 0 ∨ (groupOrder : Int) ≤ secret := by omega
    rw [unlock, if_pos houtside] at h
    exact ⟨_, (Except.error.inj h).symm⟩

theorem signWitness_eq_error {type : Message.HashType} {e : Fault}
    (h : signWitness secret address m type = .error e) : ∃ f, e = .signing f := by
  rcases bind_eq_error_iff.mp h with hunlock | ⟨_, -, hwitness⟩
  · exact unlock_eq_error hunlock
  · obtain ⟨f, -, rfl⟩ := liftSigning_eq_error_iff.mp hwitness
    exact ⟨f, rfl⟩

theorem signWithSecret_eq_error {n : Int} (htype : hashType.toInt? = some n) {e : Fault}
    (h : signWithSecret secret address m hashType = .error e) : ∃ f, e = .signing f := by
  rcases bind_eq_error_iff.mp h with h | ⟨_, -, h⟩
  · exact unlock_eq_error h
  rcases bind_eq_error_iff.mp h with h | ⟨_, -, h⟩
  · obtain ⟨f, -, rfl⟩ := (accept_eq_error_iff htype).mp h
    exact ⟨f, rfl⟩
  rcases bind_eq_error_iff.mp h with h | ⟨_, -, h⟩
  · obtain ⟨f, -, rfl⟩ := liftSigning_eq_error_iff.mp h
    exact ⟨f, rfl⟩
  · cases h

theorem signWithSecret_of_outside (h : ¬ (0 < secret ∧ secret < groupOrder)) :
    signWithSecret secret address m hashType = .error (.signing .invalidScalar) := by
  have hrange : secret ≤ 0 ∨ (groupOrder : Int) ≤ secret := by omega
  rw [signWithSecret, unlock, if_pos hrange]
  rfl

/-- With the hash type that is used when none is asked for, the text is the stack in base64. -/
theorem signWithSecret_usual (secret : Int) (address : String) (m : Bytes) :
    signWithSecret secret address m = Base64.encode <$> signWitness secret address m .all := by
  have htype : Message.HashType.accept usualHashType = .ok .all := by decide
  rw [signWithSecret, signWitness]
  cases unlock secret address with
  | error e => rfl
  | ok opened =>
    simp only [ok_bind, htype]
    cases witness opened.1 opened.2 m .all with
    | error e => rfl
    | ok stack => rfl

/-- An exported key signs with its number when it has one. -/
theorem sign_exported {v : UInt8} (hlength : k.length = 32) (hversion : v ∈ Wif.versions) :
    sign (Wif.encode ⟨v, k, true⟩) address m hashType =
      match scalar? k with
      | none => .error (.signing .wifScalar)
      | some d => signWithSecret d address m hashType := by
  have hdecode : Wif.decode (Wif.encode ⟨v, k, true⟩) = .ok ⟨v, k, true⟩ :=
    Wif.decode_encode hlength hversion
  rw [sign, hdecode]
  rfl

/-- The exported key and the number of a private key sign alike. -/
theorem sign_exported_agrees {v : UInt8} (hlength : k.length = 32) (hversion : v ∈ Wif.versions)
    {n : Int} (htype : hashType.toInt? = some n) :
    Agree (sign (Wif.encode ⟨v, k, true⟩) address m hashType)
      (signWithSecret (Bytes.toNatBE k) address m hashType) := by
  rw [sign_exported hlength hversion]
  cases hscalar : scalar? k with
  | none =>
    have houtside : ¬ (0 < (Bytes.toNatBE k : Int) ∧ (Bytes.toNatBE k : Int) < groupOrder) := by
      rintro ⟨hpos, hlt⟩
      have hsome := scalar?_eq_some_iff.mpr
        ⟨hlength, rfl, Int.natCast_pos.mp hpos, Int.ofNat_lt.mp hlt⟩
      rw [hscalar] at hsome
      cases hsome
    rw [signWithSecret_of_outside houtside]
    exact Or.inr ⟨_, _, rfl, rfl⟩
  | some d =>
    obtain ⟨-, rfl, -, -⟩ := scalar?_eq_some_iff.mp hscalar
    exact agree_self fun _ => signWithSecret_eq_error htype

end Simple

theorem Network.accept_name (n : Network) : accept (.text n.name) = .ok n := by
  cases n <;> decide

theorem Network.wifVersion_mem (n : Network) : n.wifVersion ∈ Wif.versions := by
  cases n <;> decide

namespace PrivateKey

/-- The forms of a private key: its bytes, and hexadecimal text of them. -/
inductive IsForm (k : Bytes) : Datum → Prop
  | bytes : IsForm k (.bytes k)
  | text {s : String} : Hex.Spells s.toList k → IsForm k (.text s)

/-- The forms of a message: its bytes, and the text that they are the UTF-8 bytes of. -/
inductive IsMessageForm (m : Bytes) : Datum → Prop
  | bytes : IsMessageForm m (.bytes m)
  | text {s : String} : Bytes.ofText s = m → IsMessageForm m (.text s)

/-- Signs with the exported key for the key's own address, and takes the signature out of the
stack. -/
def signExported (key : Datum) (m : Bytes) (exported network : Network) : Except Fault Bytes := do
  let wif ← toWif key (.text exported.name)
  let x ← xOnly key
  let own ← deriveAddress x (.text network.name)
  let text ← Simple.sign wif own m
  let stack ← Node.base64Data (.text text)
  Witness.extractSignature stack

variable {memory : Nat} {k m : Bytes} {key message : Datum} {n : Network}

theorem messageBytes_form (h : IsMessageForm m message) : messageBytes memory message = .ok m := by
  cases h with
  | bytes => rfl
  | text hm => rw [← hm, messageBytes]

theorem bytes_form (h : IsForm k key) : bytes key = .ok k := by
  cases h with
  | bytes => rfl
  | text hs =>
    rename_i s
    have hdecode : Hex.decode s = some k := Hex.decodeChars_of_spells hs
    rw [bytes, hdecode]

theorem secret_form (h : IsForm k key) (hlength : k.length = 32) : secret key = .ok k := by
  rw [secret, bytes_form h, ok_bind, if_neg (not_not.mpr hlength)]
  rfl

theorem toWif_form (h : IsForm k key) (hlength : k.length = 32) (n : Network) :
    toWif key (.text n.name) = .ok (Wif.encode ⟨n.wifVersion, k, true⟩) := by
  rw [toWif, Network.accept_name, secret_form h hlength]
  rfl

theorem scalar_form (h : IsForm k key) (hlength : k.length = 32) :
    scalar key = match Simple.scalar? k with
      | some d => .ok d
      | none => .error .invalidScalar := by
  rw [scalar, secret_form h hlength, ok_bind]
  cases Simple.scalar? k with
  | none => rfl
  | some d => rfl

/-- The network and the message are accepted, so a run comes down to signing on the network. -/
theorem sign_of_messageBytes (hm : messageBytes memory message = .ok m) (n : Network) :
    sign memory key message (.text n.name) = signOn key m n := by
  rw [sign, Network.accept_name, hm]
  simp only [liftSigning_ok, liftMisuse_ok, ok_bind]

theorem sign_form (h : IsMessageForm m message) (n : Network) :
    sign memory key message (.text n.name) = signOn key m n :=
  sign_of_messageBytes (messageBytes_form h) n

theorem length_of_signOn {sig : Bytes} (h : signOn key m n = .ok sig) : sig.length = 64 := by
  obtain ⟨d, address, stack, -, -, hwitness, hextract⟩ := signOn_eq_ok_iff.mp h
  obtain ⟨t, outputKey, hunlock, hstack⟩ := Simple.signWitness_eq_ok_iff.mp hwitness
  obtain ⟨item, hlength, rfl, -⟩ := Simple.verify_of_witness hunlock hstack
  rw [Simple.markedItem, Witness.extractSignature_marked hlength] at hextract
  rwa [← Except.ok.inj hextract]

theorem signOn_eq_error {e : Fault} (h : signOn key m n = .error e) : ∃ f, e = .signing f := by
  rcases bind_eq_error_iff.mp h with h | ⟨_, -, h⟩
  · obtain ⟨f, -, rfl⟩ := liftSigning_eq_error_iff.mp h
    exact ⟨f, rfl⟩
  rcases bind_eq_error_iff.mp h with h | ⟨_, -, h⟩
  · obtain ⟨f, -, rfl⟩ := liftSigning_eq_error_iff.mp h
    exact ⟨f, rfl⟩
  rcases bind_eq_error_iff.mp h with h | ⟨_, -, h⟩
  · exact Simple.signWitness_eq_error h
  · obtain ⟨f, -, rfl⟩ := liftSigning_eq_error_iff.mp h
    exact ⟨f, rfl⟩

/-- The way through the exported key comes to the same signature or the same fault. -/
theorem signExported_eq (h : IsForm k key) (hlength : k.length = 32) (n₁ n₂ : Network) :
    signExported key m n₁ n₂ = signOn key m n₂ := by
  rw [signExported, toWif_form h hlength, signOn, xOnly, scalar_form h hlength]
  cases hscalar : Simple.scalar? k with
  | none => rfl
  | some d =>
    simp only [Except.map_ok, liftSigning_ok, ok_bind, deriveAddress, Network.accept_name]
    cases addressOn (xBytes (Point.ofScalar d)) n₂ with
    | error e => simp only [liftSigning_error, error_bind]
    | ok own =>
      simp only [liftSigning_ok, ok_bind, Simple.sign_exported hlength n₁.wifVersion_mem, hscalar,
        Simple.signWithSecret_usual]
      cases Simple.signWitness d own m .all with
      | error e => rfl
      | ok stack =>
        simp only [Except.map_ok, ok_bind, Node.base64Data, Base64.decode_encode, liftMisuse_ok]

theorem scalar_eq_of_form (h : IsForm k key) : scalar key = scalar (.bytes k) := by
  rw [scalar, scalar, secret, secret, bytes_form h, bytes_form .bytes]

end PrivateKey

/-- A key of thirty-two bytes signs alike by its exported form, by its number and by itself, and
whatever form the key and the message are given in. -/
theorem signing_entry_points_agree (memory : Nat) {k m : Bytes} {key message hashType : Datum}
    {t : Int} (hlength : k.length = 32) (hkey : PrivateKey.IsForm k key)
    (hmessage : PrivateKey.IsMessageForm m message) (htype : hashType.toInt? = some t)
    (n₁ n₂ : Network) :
    (∃ wif, PrivateKey.toWif key (.text n₁.name) = .ok wif ∧
      ∀ address, Agree (Simple.sign wif address m hashType)
        (Simple.signWithSecret (Bytes.toNatBE k) address m hashType)) ∧
    Agree (PrivateKey.sign memory key message (.text n₂.name))
      (PrivateKey.signExported key m n₁ n₂) ∧
    (∀ sig, PrivateKey.sign memory key message (.text n₂.name) = .ok sig → sig.length = 64) ∧
    PrivateKey.toWif key (.text n₁.name) = PrivateKey.toWif (.bytes k) (.text n₁.name) ∧
    PrivateKey.xOnly key = PrivateKey.xOnly (.bytes k) ∧
    PrivateKey.sign memory key message (.text n₂.name) =
      PrivateKey.sign memory (.bytes k) (.bytes m) (.text n₂.name) := by
  have hsign : PrivateKey.sign memory key message (.text n₂.name) =
      PrivateKey.signOn key m n₂ := PrivateKey.sign_form hmessage n₂
  have hscalar := PrivateKey.scalar_eq_of_form hkey
  refine ⟨⟨_, PrivateKey.toWif_form hkey hlength n₁, fun _ => ?_⟩, ?_, ?_, ?_, ?_, ?_⟩
  · exact Simple.sign_exported_agrees hlength n₁.wifVersion_mem htype
  · rw [hsign, PrivateKey.signExported_eq hkey hlength]
    exact agree_self fun _ => PrivateKey.signOn_eq_error
  · intro sig h
    rw [hsign] at h
    exact PrivateKey.length_of_signOn h
  · rw [PrivateKey.toWif_form hkey hlength, PrivateKey.toWif_form .bytes hlength]
  · rw [PrivateKey.xOnly, PrivateKey.xOnly, hscalar]
  · rw [hsign, PrivateKey.sign_form .bytes, PrivateKey.signOn, PrivateKey.signOn, hscalar]

/-- Hexadecimal text of the least scalar, with a gap in front. -/
def spacedOne : String := String.ofList (' ' :: (Bytes.ofNatBE 32 1).flatMap Hex.byteDigits)

/-- All ways sign a message of four letters with the least scalar. -/
theorem signing_entry_points_agree_spaced_text :
    (∃ wif, PrivateKey.toWif (.text spacedOne) (.text "mainnet") = .ok wif ∧
      Agree (Simple.sign wif addressOfOne (Bytes.ofText "arch") (.int 0))
        (Simple.signWithSecret 1 addressOfOne (Bytes.ofText "arch") (.int 0)) ∧
      ∃ w, Simple.sign wif addressOfOne (Bytes.ofText "arch") (.int 0) = .ok w ∧
        Simple.signWithSecret 1 addressOfOne (Bytes.ofText "arch") (.int 0) = .ok w) ∧
    Agree (PrivateKey.sign Bytes.maxSize (.text spacedOne) (.text "arch") (.text "regtest"))
      (PrivateKey.signExported (.text spacedOne) (Bytes.ofText "arch") .mainnet .regtest) ∧
    PrivateKey.sign Bytes.maxSize (.text spacedOne) (.text "arch") (.text "regtest") =
      PrivateKey.sign Bytes.maxSize (.bytes (Bytes.ofNatBE 32 1)) (.bytes (Bytes.ofText "arch"))
        (.text "regtest") ∧
    ∃ sig, sig.length = 64 ∧
      PrivateKey.sign Bytes.maxSize (.text spacedOne) (.text "arch") (.text "regtest") =
        .ok sig ∧
      PrivateKey.signExported (.text spacedOne) (Bytes.ofText "arch") .mainnet .regtest =
        .ok sig := by
  have hform : PrivateKey.IsForm (Bytes.ofNatBE 32 1) (.text spacedOne) := by
    refine .text ?_
    rw [spacedOne, String.toList_ofList]
    exact .gap rfl (Hex.spells_flatMap _)
  have hmessage : PrivateKey.IsMessageForm (Bytes.ofText "arch") (.text "arch") := .text rfl
  have htype : (Datum.int 0).toInt? = some 0 := rfl
  obtain ⟨⟨wif, hwif, hsimple⟩, hagree, -, -, -, hsame⟩ :=
    signing_entry_points_agree Bytes.maxSize (Bytes.length_ofNatBE 32 1) hform hmessage htype
      .mainnet .regtest
  -- the least scalar is known to sign, and the other ways agree with it
  obtain ⟨w, hw⟩ := signWithSecret_one (m := Bytes.ofText "arch") (by simp [samples])
  obtain ⟨sig, hlength, hplain⟩ :=
    sign_one Bytes.maxSize (.bytes (Bytes.ofText "arch")) rfl (by simp [samples])
  have hsign := hsame.trans hplain
  exact ⟨⟨wif, hwif, hsimple addressOfOne, w, (hsimple addressOfOne).eq_ok_iff.mpr hw, hw⟩, hagree,
    hsame, sig, hlength, hsign, hagree.eq_ok_iff.mp hsign⟩

end TokenMetadata
