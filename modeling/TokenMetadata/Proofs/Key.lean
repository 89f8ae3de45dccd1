import Mathlib
import TokenMetadata.Key
import TokenMetadata.Proofs.Text.Hex
import TokenMetadata.Proofs.Text.Base58

/-!
# The forms of a key

A key is given as itself, as its bytes, as its digits in hexadecimal, or as its base58 text, and
nothing else is read as a key. In base58 a key takes at most forty-four characters, so none of its
texts is as long as the digits are, and it does not matter that hexadecimal is tried first.
-/

namespace TokenMetadata

theorem Hex.digit_not_blank (n : Fin 16) :
    isBlank (Hex.digit n) = false ∧ isBlank (Hex.digit n).toUpper = false := by
  revert n
  decide

namespace Key

/-- The sixty-four digits of the key, each of them in lower or in upper case. -/
def IsHexOf (s : String) (k : Key) : Prop :=
  List.Forall₂ Hex.InEitherCase s.toList (Hex.encode k.toBytes).toList

/-- The base58 text of the key with any blanks behind it. -/
def IsBase58Of (s : String) (k : Key) : Prop :=
  ∃ blanks, (∀ c ∈ blanks, isBlank c = true) ∧ s.toList = k.toText.toList ++ blanks

/-- What is handed over is a form of the key. -/
inductive Denotes : Given → Key → Prop
  | itself (k : Key) : Denotes (.key k) k
  | bytes (k : Key) : Denotes (.value (.bytes k.toBytes)) k
  | hex {s : String} {k : Key} : IsHexOf s k → Denotes (.value (.text s)) k
  | base58 {s : String} {k : Key} : IsBase58Of s k → Denotes (.value (.text s)) k

/-- Why a text is no form of a key: it is not base58 either, or base58 of another length. -/
inductive IsUnreadable (s : String) : Violation.Cause → Prop
  | text : (∀ b, Base58.decode s ≠ some b) → IsUnreadable s (.unreadableKey s)
  | length {b : Bytes} : Base58.decode s = some b → b.length ≠ 32 →
    IsUnreadable s (.keyLength b.length)

variable {s : String} {k : Key} {b : Bytes}

theorem ofBytes?_eq_some_iff : ofBytes? b = some k ↔ b = k.toBytes := by
  constructor
  · intro h
    obtain ⟨_, hk⟩ := Option.dite_none_right_eq_some.mp h
    exact congrArg Key.toBytes (Option.some.inj hk)
  · rintro rfl
    exact dif_pos k.length_toBytes

theorem ofBytes_of_length (h : b.length = 32) : ofBytes b = .ok ⟨b, h⟩ :=
  dif_pos h

theorem ofBytes_of_length_ne (h : b.length ≠ 32) :
    ofBytes b = .error ⟨"pubkey", .keyLength b.length⟩ :=
  dif_neg h

theorem ofHex?_eq_some_iff : ofHex? s = some k ↔ IsHexOf s k := by
  rw [ofHex?, IsHexOf, Hex.encode, String.toList_ofList, Hex.forall₂_inEitherCase_iff,
    k.length_toBytes, String.length_toList, Option.ite_none_right_eq_some, and_comm]
  simp only [Option.bind_eq_some_iff, ofBytes?_eq_some_iff, Hex.decode_eq_some_iff,
    exists_eq_right]

theorem decode_eq_some_iff_isBase58Of : Base58.decode s = some k.toBytes ↔ IsBase58Of s k := by
  rw [Base58.decode_eq_some_iff]
  exact dropBlanksAtEnd_eq_iff fun _ => Base58.isBlank_of_mem_encode

theorem IsHexOf.length (h : IsHexOf s k) : s.toList.length = 64 := by
  rw [IsHexOf, Hex.encode, String.toList_ofList] at h
  rw [h.length_eq, Hex.length_flatMap_byteDigits, k.length_toBytes]

theorem IsHexOf.not_blank (h : IsHexOf s k) : ∀ c ∈ s.toList, isBlank c = false := by
  rw [IsHexOf, Hex.encode, String.toList_ofList] at h
  intro c hc
  obtain ⟨n, hn, hdigit⟩ := Hex.exists_isDigit_of_mem h hc
  obtain ⟨hlower, hupper⟩ := Hex.digit_not_blank ⟨n, hn⟩
  rcases hdigit with rfl | rfl
  · exact hlower
  · exact hupper

/-- The digits of a key are too many for the base58 text of a key. -/
theorem IsHexOf.length_ne (h : IsHexOf s k) (hb : Base58.decode s = some b) : b.length ≠ 32 := by
  intro hlength
  have htext := Base58.decode_eq_some_iff.mp hb
  rw [dropBlanksAtEnd_eq_self h.not_blank] at htext
  have hpow : 256 ^ 32 ≤ 58 ^ 44 := by norm_num
  have hshort := Base58.length_encode_le hpow hlength.le
  rw [← htext, h.length] at hshort
  omega

theorem IsHexOf.not_isBase58Of {l : Key} (h : IsHexOf s k) : ¬ IsBase58Of s l := by
  intro hl
  exact h.length_ne (decode_eq_some_iff_isBase58Of.mpr hl) l.length_toBytes

theorem ofText_of_isHexOf (h : IsHexOf s k) : ofText s = .ok k := by
  rw [ofText, ofHex?_eq_some_iff.mpr h]

theorem ofHex?_eq_none (h : ∀ k, ¬ IsHexOf s k) : ofHex? s = none :=
  Option.eq_none_iff_forall_ne_some.mpr fun k hk => h k (ofHex?_eq_some_iff.mp hk)

theorem ofText_of_decode (h : ∀ k, ¬ IsHexOf s k) (hb : Base58.decode s = some b) :
    ofText s = ofBytes b := by
  simp only [ofText, ofHex?_eq_none h, hb]

theorem ofText_of_isBase58Of (h : IsBase58Of s k) : ofText s = .ok k := by
  have hread := decode_eq_some_iff_isBase58Of.mpr h
  rw [ofText_of_decode (fun _ hhex => hhex.not_isBase58Of h) hread]
  exact ofBytes_of_length k.length_toBytes

/-- A text is a form of a key and read as it, or refused for a reason. -/
theorem ofText_cases (s : String) :
    (∃ k, (IsHexOf s k ∨ IsBase58Of s k) ∧ ofText s = .ok k) ∨
      ∃ cause, IsUnreadable s cause ∧ ofText s = .error ⟨"pubkey", cause⟩ := by
  by_cases hhex : ∃ k, IsHexOf s k
  · obtain ⟨k, hk⟩ := hhex
    exact Or.inl ⟨k, Or.inl hk, ofText_of_isHexOf hk⟩
  rw [not_exists] at hhex
  cases hread : Base58.decode s with
  | none =>
    refine Or.inr ⟨_, .text (by simp [hread]), ?_⟩
    simp only [ofText, ofHex?_eq_none hhex, hread]
  | some b =>
    rw [ofText_of_decode hhex hread]
    by_cases hlength : b.length = 32
    · have hk : Base58.decode s = some (Key.mk b hlength).toBytes := hread
      exact Or.inl ⟨⟨b, hlength⟩, Or.inr (decode_eq_some_iff_isBase58Of.mp hk),
        ofBytes_of_length hlength⟩
    · exact Or.inr ⟨_, .length hread hlength, ofBytes_of_length_ne hlength⟩

theorem ofText_eq_ok_iff : ofText s = .ok k ↔ IsHexOf s k ∨ IsBase58Of s k := by
  constructor
  · intro h
    rcases ofText_cases s with ⟨l, hl, hread⟩ | ⟨cause, -, hrefused⟩
    · obtain rfl := Except.ok.inj (h.symm.trans hread)
      exact hl
    · cases h.symm.trans hrefused
  · rintro (h | h)
    · exact ofText_of_isHexOf h
    · exact ofText_of_isBase58Of h

theorem ofGiven_eq_ok_iff {g : Given} : ofGiven g = .ok k ↔ Denotes g k := by
  constructor
  · intro h
    unfold ofGiven ofDatum at h
    split at h
    · obtain rfl := Except.ok.inj h
      exact .itself _
    · split at h
      · rename_i b
        by_cases hlength : b.length = 32
        · obtain rfl := Except.ok.inj ((ofBytes_of_length hlength).symm.trans h)
          exact .bytes ⟨b, hlength⟩
        · cases (ofBytes_of_length_ne hlength).symm.trans h
      · exact (ofText_eq_ok_iff.mp h).elim .hex .base58
      · cases h
  · intro h
    cases h with
    | itself => rfl
    | bytes => exact ofBytes_of_length k.length_toBytes
    | hex h => exact ofText_of_isHexOf h
    | base58 h => exact ofText_of_isBase58Of h

/-- A key is read from each of its forms and from nothing else; a text that is none is refused as a
public key. No text of digits in hexadecimal is read as a key in base58, so a text that is, is read
as that key. -/
theorem keys_are_read_from_their_forms :
    (∀ (g : Given) (k : Key), ofGiven g = .ok k ↔ Denotes g k) ∧
    (∀ s : String, (∃ k, ofGiven (.value (.text s)) = .ok k) ∨
      ∃ cause, ofGiven (.value (.text s)) = .error ⟨"pubkey", cause⟩ ∧ IsUnreadable s cause) ∧
    (∀ (s : String) (k : Key) (b : Bytes), ofHex? s = some k → Base58.decode s = some b →
      b.length ≠ 32) ∧
    ∀ (s : String) (k : Key), Base58.decode s = some k.toBytes →
      ofGiven (.value (.text s)) = .ok k := by
  refine ⟨fun _ _ => ofGiven_eq_ok_iff, ?_, ?_, ?_⟩
  · intro s
    rcases ofText_cases s with ⟨k, -, hread⟩ | ⟨cause, hcause, hrefused⟩
    · exact Or.inl ⟨k, hread⟩
    · exact Or.inr ⟨cause, hrefused, hcause⟩
  · intro s k b hk hb
    exact (ofHex?_eq_some_iff.mp hk).length_ne hb
  · intro s k hk
    exact ofText_of_isBase58Of (decode_eq_some_iff_isBase58Of.mp hk)

/-- Sixty-four ones, which are digits of both kinds. -/
def ones : String := String.ofList (List.replicate 64 '1')

theorem keys_are_read_from_their_forms_ones :
    ofHex? ones = some (.filled 0x11) ∧ Base58.decode ones = some (List.replicate 64 0) ∧
    (List.replicate 64 0 : Bytes).length ≠ 32 ∧ Denotes (.value (.text ones)) (.filled 0x11) ∧
    Base58.decode (Key.filled 0).toText = some (Key.filled 0).toBytes ∧
    ofGiven (.value (.text (Key.filled 0).toText)) = .ok (.filled 0) := by
  obtain ⟨hforms, -, hapart, hbase58⟩ := keys_are_read_from_their_forms
  have hhex : ofHex? ones = some (.filled 0x11) := by decide +kernel
  have hones : Base58.decode ones = some (List.replicate 64 0) := by decide +kernel
  have hzero : Base58.decode (Key.filled 0).toText = some (Key.filled 0).toBytes :=
    Base58.decode_encode _
  refine ⟨hhex, hones, hapart ones _ _ hhex hones, (hforms _ _).mp ?_, hzero, hbase58 _ _ hzero⟩
  exact ofText_of_isHexOf (ofHex?_eq_some_iff.mp hhex)

end Key

end TokenMetadata
