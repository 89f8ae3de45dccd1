import Mathlib
import TokenMetadata.Proofs.Signing.TaprootAddress

/-!
# The grammar of addresses

An address of a key is read as the script that pays to the key, in lower and in upper case. Among
ASCII texts there is nothing else to read: the human-readable part is one of three, the case does
not change, and the text is what the key is written as.
-/

namespace TokenMetadata.Taproot

variable {address : String} {key : Bytes}

theorem address_eq_ok_iff {hrp : String} :
    Taproot.address key hrp = .ok address ↔
      key.length = 32 ∧ Bech32.encode hrp 1 key = address := by
  rw [Taproot.address]
  by_cases h : key.length = 32
  · simp [h]
  · simp [h]

/-- The text is written in one case, and in lower case it is what the key is written as behind the
human-readable part. -/
structure IsAddressOf (a hrp : String) (key : Bytes) : Prop where
  length : key.length = 32
  known : hrp ∈ ["bc", "tb", "bcrt"]
  oneCase : InOneCase (lowerChars a) a.toList
  written : Taproot.address key hrp = .ok (String.ofList (lowerChars a))

theorem IsAddressOf.unique {hrp hrp' : String} (h : IsAddressOf address hrp key)
    (h' : IsAddressOf address hrp' key) : hrp = hrp' := by
  obtain ⟨-, hwritten⟩ := address_eq_ok_iff.mp h.written
  obtain ⟨-, hwritten'⟩ := address_eq_ok_iff.mp h'.written
  have hversion : 1 < 32 := by decide
  exact Bech32.prefix_eq_of_encode_eq hversion (hwritten.trans hwritten'.symm)

theorem mem_hrps_iff {hrp : String} : hrp ∈ ["bc", "tb", "bcrt"] ↔ ∃ n : Network, n.hrp = hrp := by
  constructor
  · intro h
    simp only [List.mem_cons, List.not_mem_nil, or_false] at h
    rcases h with rfl | rfl | rfl
    · exact ⟨.mainnet, rfl⟩
    · exact ⟨.testnet, rfl⟩
    · exact ⟨.regtest, rfl⟩
  · rintro ⟨n, rfl⟩
    cases n <;> simp [Network.hrp]

theorem standsFor_iff_isAddressOf (hascii : IsAscii address.toList) (hlength : key.length = 32) :
    StandsFor address key ↔ ∃ hrp, IsAddressOf address hrp key := by
  constructor
  · rintro ⟨n, hcase⟩
    obtain ⟨-, hlower⟩ := (n.inOneCase_iff_written hascii).mp hcase
    refine ⟨n.hrp, hlength, mem_hrps_iff.mpr ⟨n, rfl⟩, hlower ▸ hcase, ?_⟩
    exact address_eq_ok_iff.mpr ⟨hlength, by rw [hlower, String.ofList_toList]⟩
  · rintro ⟨hrp, h⟩
    obtain ⟨n, rfl⟩ := mem_hrps_iff.mp h.known
    obtain ⟨-, hwritten⟩ := address_eq_ok_iff.mp h.written
    refine ⟨n, ?_⟩
    rw [hwritten, String.toList_ofList]
    exact h.oneCase

theorem scriptOfAddress_eq_ok_iff (hascii : IsAscii address.toList) {s : Bytes} :
    scriptOfAddress address = .ok s ↔ ∃ hrp key, IsAddressOf address hrp key ∧ s = script key := by
  rw [scriptOfAddress, map_eq_ok_iff]
  simp only [keyOfAddress_eq_ok_iff hascii]
  constructor
  · rintro ⟨key, ⟨hlength, hstands⟩, rfl⟩
    obtain ⟨hrp, h⟩ := (standsFor_iff_isAddressOf hascii hlength).mp hstands
    exact ⟨hrp, key, h, rfl⟩
  · rintro ⟨hrp, key, h, rfl⟩
    exact ⟨key, ⟨h.length, (standsFor_iff_isAddressOf hascii h.length).mpr ⟨hrp, h⟩⟩, rfl⟩

theorem scriptOfAddress_of_inOneCase {n : Network} (hlength : key.length = 32)
    (hascii : IsAscii address.toList)
    (hcase : InOneCase (Bech32.encode n.hrp 1 key).toList address.toList) :
    scriptOfAddress address = .ok (script key) := by
  rw [scriptOfAddress, (keyOfAddress_eq_ok_iff hascii).mpr ⟨hlength, n, hcase⟩]
  rfl

/-- What is written for a key is read as the script that pays to the key, in both cases. A text that
is read is such an address, of one key and with one human-readable part, and every other text is
refused for what it is. -/
theorem addresses_are_what_is_read :
    (∀ (key : Bytes) (hrp : String), key.length = 32 → hrp ∈ ["bc", "tb", "bcrt"] →
      ∃ a, Taproot.address key hrp = .ok a ∧ scriptOfAddress a = .ok (0x51 :: 0x20 :: key) ∧
        scriptOfAddress a.toUpper = .ok (0x51 :: 0x20 :: key)) ∧
    (∀ (a : String) (s : Bytes), IsAscii a.toList → scriptOfAddress a = .ok s →
      ∃ key : Bytes, key.length = 32 ∧ s = 0x51 :: 0x20 :: key ∧
        InOneCase (lowerChars a) a.toList ∧
        ∃! hrp, hrp ∈ ["bc", "tb", "bcrt"] ∧
          Taproot.address key hrp = .ok (String.ofList (lowerChars a))) ∧
    (∀ a : String, IsAscii a.toList → (¬ ∃ hrp key, IsAddressOf a hrp key) →
      ∃ f ∈ [.unsupportedAddress a, .invalidAddress a, .notTaproot a],
        scriptOfAddress a = .error f) := by
  refine ⟨?_, ?_, ?_⟩
  · intro key hrp hlength hknown
    obtain ⟨n, rfl⟩ := mem_hrps_iff.mp hknown
    obtain ⟨hhrp, hlower⟩ := n.hrp_lower
    have hversion : 1 < 32 := by decide
    obtain ⟨hascii, -⟩ := Bech32.encode_lower key hversion hhrp hlower
    refine ⟨_, address_eq_ok_iff.mpr ⟨hlength, rfl⟩, ?_, ?_⟩
    · exact scriptOfAddress_of_inOneCase hlength hascii (Or.inl rfl)
    · have hupper : (Bech32.encode n.hrp 1 key).toUpper.toList =
          (Bech32.encode n.hrp 1 key).toList.map Char.toUpper := String.toList_map
      apply scriptOfAddress_of_inOneCase hlength
      · rw [hupper]
        exact isAscii_toUpper hascii
      · exact Or.inr hupper
  · intro a s hascii h
    obtain ⟨hrp, key, haddress, rfl⟩ := (scriptOfAddress_eq_ok_iff hascii).mp h
    refine ⟨key, haddress.length, rfl, haddress.oneCase, hrp,
      ⟨haddress.known, haddress.written⟩, ?_⟩
    rintro hrp' ⟨hknown, hwritten⟩
    exact IsAddressOf.unique ⟨haddress.length, hknown, haddress.oneCase, hwritten⟩ haddress
  · intro a hascii hnone
    cases hkey : keyOfAddress a with
    | ok key =>
      have hscript : scriptOfAddress a = .ok (script key) := by rw [scriptOfAddress, hkey]; rfl
      obtain ⟨hrp, key', haddress, -⟩ := (scriptOfAddress_eq_ok_iff hascii).mp hscript
      exact absurd ⟨hrp, key', haddress⟩ hnone
    | error f =>
      exact ⟨f, keyOfAddress_eq_error hkey, by rw [scriptOfAddress, hkey]; rfl⟩

/-- The address of a key of twos on the main network, in upper case. -/
def capitalsOfTwos : String := "BC1PQGPQYQSZQGPQYQSZQGPQYQSZQGPQYQSZQGPQYQSZQGPQYQSZQGPQFY7YS3"

/-- The same address with its first letter in lower case. -/
def mixedOfTwos : String := "bC1PQGPQYQSZQGPQYQSZQGPQYQSZQGPQYQSZQGPQYQSZQGPQYQSZQGPQFY7YS3"

theorem addresses_are_what_is_read_twos :
    (∃ a, Taproot.address (List.replicate 32 2) "bc" = .ok a ∧ a.toUpper = capitalsOfTwos ∧
      scriptOfAddress capitalsOfTwos = .ok (0x51 :: 0x20 :: List.replicate 32 2)) ∧
    (∃! hrp, hrp ∈ ["bc", "tb", "bcrt"] ∧ Taproot.address (List.replicate 32 2) hrp =
      .ok (String.ofList (lowerChars capitalsOfTwos))) ∧
    ∃ f ∈ [.unsupportedAddress mixedOfTwos, .invalidAddress mixedOfTwos, .notTaproot mixedOfTwos],
      scriptOfAddress mixedOfTwos = .error f := by
  obtain ⟨hwritten, hread, hrefused⟩ := addresses_are_what_is_read
  have hlength : (List.replicate 32 2 : Bytes).length = 32 := by decide
  obtain ⟨a, ha, -, hupper⟩ := hwritten (List.replicate 32 2) "bc" hlength (by decide)
  have htext : a.toUpper = capitalsOfTwos := by
    obtain ⟨-, rfl⟩ := address_eq_ok_iff.mp ha
    decide +kernel
  rw [htext] at hupper
  refine ⟨⟨a, ha, htext, hupper⟩, ?_, ?_⟩
  · obtain ⟨key, -, hscript, -, hunique⟩ :=
      hread capitalsOfTwos _ (by decide +kernel) hupper
    obtain rfl : List.replicate 32 2 = key := by simpa using hscript
    exact hunique
  · apply hrefused mixedOfTwos (by decide +kernel)
    rintro ⟨hrp, key, h⟩
    have hcase : ¬ InOneCase (lowerChars mixedOfTwos) mixedOfTwos.toList := by
      rw [InOneCase]
      decide +kernel
    exact hcase h.oneCase

end TokenMetadata.Taproot
