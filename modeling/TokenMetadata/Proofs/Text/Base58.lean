import Mathlib
import TokenMetadata.Text.Base58
import TokenMetadata.Proofs.Text.Alphabet
import TokenMetadata.Proofs.Text.Numeral

/-!
# Base58 text is read back

The characters of a text are its digits, and a digit string is found again from its form in another
base. No character of the alphabet is blank, so a byte string is read from what is written for it,
with any blanks behind, and from no other text.
-/

namespace TokenMetadata

theorem isBlank_eq_false {c : Char} (hlow : 32 < c.toNat) (hhigh : c.toNat < 127) :
    isBlank c = false := by
  simp only [isBlank, Bool.or_eq_false_iff, Bool.and_eq_false_iff, decide_eq_false_iff_not,
    beq_eq_false_iff_ne]
  omega

theorem dropBlanksAtEnd_append {s blanks : List Char} (hs : ∀ c ∈ s, isBlank c = false)
    (hblanks : ∀ c ∈ blanks, isBlank c = true) : dropBlanksAtEnd (s ++ blanks) = s := by
  have hfront : s.reverse.dropWhile isBlank = s.reverse := by
    cases hreverse : s.reverse with
    | nil => rfl
    | cons c rest =>
      have hc : c ∈ s := List.mem_reverse.mp (hreverse ▸ List.mem_cons_self)
      rw [List.dropWhile_cons_of_neg (by simp [hs c hc])]
  rw [dropBlanksAtEnd, List.reverse_append,
    List.dropWhile_append_of_pos fun c hc => hblanks c (List.mem_reverse.mp hc), hfront,
    List.reverse_reverse]

theorem dropBlanksAtEnd_eq_self {s : List Char} (h : ∀ c ∈ s, isBlank c = false) :
    dropBlanksAtEnd s = s := by
  have hnone : dropBlanksAtEnd (s ++ []) = s := dropBlanksAtEnd_append h (by simp)
  rwa [List.append_nil] at hnone

theorem exists_blanks (s : List Char) :
    ∃ blanks, (∀ c ∈ blanks, isBlank c = true) ∧ s = dropBlanksAtEnd s ++ blanks := by
  refine ⟨(s.reverse.takeWhile isBlank).reverse, ?_, ?_⟩
  · intro c hc
    exact List.mem_takeWhile_imp (List.mem_reverse.mp hc)
  · rw [dropBlanksAtEnd, ← List.reverse_append, List.takeWhile_append_dropWhile,
      List.reverse_reverse]

/-- A text without blanks is left of exactly those texts that have nothing but blanks behind it. -/
theorem dropBlanksAtEnd_eq_iff {s written : List Char} (h : ∀ c ∈ written, isBlank c = false) :
    dropBlanksAtEnd s = written ↔
      ∃ blanks, (∀ c ∈ blanks, isBlank c = true) ∧ s = written ++ blanks := by
  constructor
  · rintro rfl
    exact exists_blanks s
  · rintro ⟨blanks, hblanks, rfl⟩
    exact dropBlanksAtEnd_append h hblanks

namespace Base58

theorem nodup_alphabet : alphabet.Nodup := by
  decide

theorem digit_graphic (n : Fin 58) : 32 < (digit n).toNat ∧ (digit n).toNat < 127 := by
  revert n
  decide

theorem isBlank_digit {n : Nat} (h : n < 58) : isBlank (digit n) = false := by
  obtain ⟨hlow, hhigh⟩ := digit_graphic ⟨n, h⟩
  exact isBlank_eq_false hlow hhigh

theorem mapM_digitValue?_eq_some_iff {cs : List Char} {values : List Nat} :
    cs.mapM digitValue? = some values ↔ (∀ v ∈ values, v < 58) ∧ cs = values.map digit :=
  mapM_idxOf?_eq_some_iff nodup_alphabet

theorem toNat_lt_of_mem {b : Bytes} {d : Nat} (hd : d ∈ b.map UInt8.toNat) : d < 256 := by
  obtain ⟨x, -, rfl⟩ := List.mem_map.mp hd
  exact x.toNat_lt

/-- The digits in which bytes are written. -/
theorem lt_of_mem_rebase {b : Bytes} {d : Nat}
    (hd : d ∈ Numeral.rebase 256 58 (b.map UInt8.toNat)) : d < 58 :=
  Numeral.rebase_lt (by decide) hd

theorem isBlank_of_mem_encode {b : Bytes} {c : Char} (hc : c ∈ (encode b).toList) :
    isBlank c = false := by
  rw [encode, String.toList_ofList] at hc
  obtain ⟨d, hd, rfl⟩ := List.mem_map.mp hc
  exact isBlank_digit (lt_of_mem_rebase hd)

theorem map_toNat_ofNat {values : List Nat} (h : ∀ v ∈ values, v < 256) :
    (values.map UInt8.ofNat).map UInt8.toNat = values := by
  rw [List.map_map]
  refine (List.map_congr_left fun v hv => ?_).trans (List.map_id values)
  exact UInt8.toNat_ofNat_of_lt' (h v hv)

/-- A text is read as bytes when, without the blanks at its end, it is what is written for them. -/
theorem decode_eq_some_iff {s : String} {b : Bytes} :
    decode s = some b ↔ dropBlanksAtEnd s.toList = (encode b).toList := by
  rw [decode, encode, String.toList_ofList]
  simp only [Option.bind_eq_bind, Option.bind_eq_some_iff, Option.pure_def, Option.some.injEq,
    mapM_digitValue?_eq_some_iff]
  constructor
  · rintro ⟨values, ⟨hvalues, hdigits⟩, rfl⟩
    have hbytes : ∀ d ∈ Numeral.rebase 58 256 values, d < 256 := fun _ =>
      Numeral.rebase_lt (by decide)
    rw [map_toNat_ofNat hbytes, Numeral.rebase_rebase (by decide) (by decide) hvalues, hdigits]
  · intro hdigits
    refine ⟨_, ⟨fun _ => lt_of_mem_rebase, hdigits⟩, ?_⟩
    rw [Numeral.rebase_rebase (by decide) (by decide) fun _ => toNat_lt_of_mem]
    simp [Function.comp_def]

theorem decode_encode (b : Bytes) : decode (encode b) = some b :=
  decode_eq_some_iff.mpr (dropBlanksAtEnd_eq_self fun _ => isBlank_of_mem_encode)

/-- The room that is sure to be enough for so many bytes. -/
theorem length_encode_le {b : Bytes} {n m : Nat} (hpow : 256 ^ n ≤ 58 ^ m) (hlength : b.length ≤ n) :
    (encode b).toList.length ≤ m := by
  rw [encode, String.toList_ofList, List.length_map]
  apply Numeral.length_rebase_le (by decide) (by decide) (fun _ => toNat_lt_of_mem) hpow
  rwa [List.length_map]

@[simp] theorem length_checksum (b : Bytes) : (checksum b).length = 4 := by
  simp [checksum]

theorem decodeChecked_eq_some_iff_decode {s : String} {b : Bytes} :
    decodeChecked s = some b ↔ decode s = some (b ++ checksum b) := by
  simp only [decodeChecked, Option.bind_eq_bind, Option.bind_eq_some_iff,
    Option.ite_none_right_eq_some, Option.some.injEq]
  constructor
  · rintro ⟨whole, hread, hsum, rfl⟩
    rw [hread, ← hsum, List.take_append_drop]
  · intro hread
    have hlength : (b ++ checksum b).length - 4 = b.length := by
      rw [List.length_append, length_checksum, Nat.add_sub_cancel]
    refine ⟨_, hread, ?_, ?_⟩
    · rw [hlength, List.drop_left, List.take_left]
    · rw [hlength, List.take_left]

theorem decodeChecked_eq_some_iff {s : String} {b : Bytes} :
    decodeChecked s = some b ↔ dropBlanksAtEnd s.toList = (encodeChecked b).toList := by
  rw [decodeChecked_eq_some_iff_decode, decode_eq_some_iff, encodeChecked]

theorem decodeChecked_encodeChecked (b : Bytes) : decodeChecked (encodeChecked b) = some b :=
  decodeChecked_eq_some_iff_decode.mpr (decode_encode _)

end Base58

end TokenMetadata
