import Mathlib
import TokenMetadata.Signing.PrivateKey
import TokenMetadata.Proofs.Text.Bech32
import TokenMetadata.Proofs.Signing.Taproot

/-!
# Addresses and the keys that they stand for

An address stands for a key when it is, in one case, what the key is written as on one of the
networks. The public key of a secret is tweaked to the key of the tweaked secret, so that is what
the addresses of the public key stand for.
-/

namespace TokenMetadata

open Curve

namespace Network

theorem exists_of_mem_knownPrefixes {hrp : String} (h : hrp ∈ Taproot.knownPrefixes) :
    ∃ n : Network, n.hrp = hrp := by
  simp only [Taproot.knownPrefixes, List.mem_cons, List.not_mem_nil, or_false] at h
  rcases h with rfl | rfl | rfl
  · exact ⟨regtest, rfl⟩
  · exact ⟨mainnet, rfl⟩
  · exact ⟨testnet, rfl⟩

theorem isPrefix_hrp (n : Network) : Bech32.IsPrefix n.hrp.toList := by
  cases n <;> decide

theorem hrp_lower (n : Network) :
    IsAscii n.hrp.toList ∧ n.hrp.toList.map lowerChar = n.hrp.toList := by
  cases n <;> decide

theorem inOneCase_iff_written (n : Network) {address : String} {key : Bytes}
    (hascii : IsAscii address.toList) :
    InOneCase (Bech32.encode n.hrp 1 key).toList address.toList ↔
      Bech32.mixedCase address.toList = false ∧
        lowerChars address = (Bech32.encode n.hrp 1 key).toList := by
  obtain ⟨hhrp, hlower⟩ := n.hrp_lower
  have hversion : 1 < 32 := by decide
  obtain ⟨hwritten, hsame⟩ := Bech32.encode_lower key hversion hhrp hlower
  exact Bech32.inOneCase_iff hascii hwritten hsame

/-- The text behind a network's human-readable part and the separator does not matter. -/
theorem find_hrp (n : Network) (rest : List Char) :
    (Taproot.knownPrefixes.find? fun hrp =>
      (hrp.toList ++ ['1']).isPrefixOf (n.hrp.toList ++ '1' :: rest)) = some n.hrp := by
  cases n <;> rfl

end Network

namespace Taproot

variable {address : String} {key : Bytes}

/-- The address of a key on a network, in one case. -/
def StandsFor (address : String) (key : Bytes) : Prop :=
  ∃ n : Network, InOneCase (Bech32.encode n.hrp 1 key).toList address.toList

theorem keyOfAddress_eq_ok_iff (hascii : IsAscii address.toList) :
    keyOfAddress address = .ok key ↔ key.length = 32 ∧ StandsFor address key := by
  constructor
  · intro h
    rw [keyOfAddress] at h
    split at h
    · cases h
    rename_i hrp hfind
    split at h
    · cases h
    rename_i version program hdecode
    split at h
    · rename_i htaproot
      obtain ⟨rfl, hlength⟩ := htaproot
      obtain rfl := Except.ok.inj h
      obtain ⟨n, rfl⟩ := Network.exists_of_mem_knownPrefixes (List.mem_of_find?_eq_some hfind)
      obtain ⟨-, -, -, -, hcase⟩ := Bech32.decode_eq_some_iff.mp hdecode
      exact ⟨hlength, n, (n.inOneCase_iff_written hascii).mpr hcase⟩
    · cases h
  · rintro ⟨hlength, n, hcase⟩
    obtain ⟨hcase, hlower⟩ := (n.inOneCase_iff_written hascii).mp hcase
    have hdecode : Bech32.decode n.hrp address = some (1, key) :=
      Bech32.decode_eq_some_iff.mpr
        ⟨n.isPrefix_hrp, by omega, by decide, by omega, hcase, hlower⟩
    rw [Bech32.toList_encode] at hlower
    simp only [keyOfAddress, hlower, n.find_hrp, hdecode, hlength, and_self, if_pos]

/-- An address that stands for no key is refused for what it is, whatever the secret. -/
theorem keyOfAddress_eq_error {f : SigningFault} (h : keyOfAddress address = .error f) :
    f ∈ [.unsupportedAddress address, .invalidAddress address, .notTaproot address] := by
  rw [keyOfAddress] at h
  split at h
  · obtain rfl := Except.error.inj h
    simp
  split at h
  · obtain rfl := Except.error.inj h
    simp
  split at h
  · cases h
  · obtain rfl := Except.error.inj h
    simp

theorem outputKey_eq_ok_iff {x : Bytes} :
    outputKey x = .ok key ↔ ∃ p, lift x = .ok p ∧ tweak x < groupOrder ∧
      p.add (Point.ofScalar (tweak x)) ≠ .infinity ∧
        xBytes (p.add (Point.ofScalar (tweak x))) = key := by
  simp only [outputKey, bind_eq_ok_iff, refuse_eq_ok_iff, not_le]
  refine exists_congr fun p => and_congr_right fun _ => and_congr_right fun _ => ?_
  cases p.add (Point.ofScalar (tweak x)) with
  | infinity => simp [throw, throwThe, MonadExceptOf.throw]
  | affine u v => simp [return_eq_ok_iff]

theorem length_of_outputKey {x : Bytes} (h : outputKey x = .ok key) : key.length = 32 := by
  obtain ⟨p, -, -, -, rfl⟩ := outputKey_eq_ok_iff.mp h
  exact length_xBytes _

/-- The key of a secret is tweaked to what the tweaked secret is the secret of, and one of the two
can be tweaked when the other can. -/
theorem outputKey_ofScalar_iff {d : Nat} (hpos : 0 < d) (hlt : d < groupOrder) :
    outputKey (xBytes (Point.ofScalar d)) = .ok key ↔ ∃ t, tweakSecret d = .ok (t, key) := by
  constructor
  · intro h
    obtain ⟨p, hlift, hrange, hfinite, hkey⟩ := outputKey_eq_ok_iff.mp h
    obtain rfl := Except.ok.inj ((lift_xBytes_ofScalar hpos hlt).symm.trans hlift)
    rw [ofScalar_add] at hfinite hkey
    refine ⟨_, tweakSecret_eq_ok_iff.mpr ⟨d, _, toNat_emod_order hlt, rfl,
      ofScalar_ne_infinity hpos hlt, hrange, rfl, ?_, hkey⟩⟩
    -- the multiple of zero is infinity
    refine Nat.pos_of_ne_zero fun hzero => hfinite ?_
    rw [hzero]
    rfl
  · rintro ⟨t, h⟩
    exact outputKey_of_tweakSecret hpos hlt h

end Taproot

end TokenMetadata
