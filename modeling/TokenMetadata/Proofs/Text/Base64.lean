import Mathlib
import TokenMetadata.Text.Base64

/-!
# Base64 text is read back

Reading takes the characters that were written group by group. The last group is short when the
bytes do not fill it, and its pads end the text.
-/

namespace TokenMetadata.Base64

theorem digit_facts (n : Fin 64) :
    digitValue? (digit n) = some n.val ∧ digit n ≠ '=' ∧ (digit n).toNat < 128 := by
  revert n
  decide

variable {n : Nat}

theorem digitValue?_digit (h : n < 64) : digitValue? (digit n) = some n :=
  (digit_facts ⟨n, h⟩).1

theorem digit_ne_pad (h : n < 64) : digit n ≠ '=' :=
  (digit_facts ⟨n, h⟩).2.1

theorem toNat_digit_lt (h : n < 64) : (digit n).toNat < 128 :=
  (digit_facts ⟨n, h⟩).2.2

theorem decodeChars_digit (h : n < 64) {group : List Nat} (hgroup : group.length ≠ 3) (pads : Nat)
    (rest : List Char) :
    decodeChars group pads (digit n :: rest) = decodeChars (group ++ [n]) 0 rest := by
  rw [decodeChars, if_neg (digit_ne_pad h), digitValue?_digit h]
  simp only [if_neg hgroup]

theorem decodeChars_last_digit (h : n < 64) {group : List Nat} (hgroup : group.length = 3)
    (pads : Nat) (rest : List Char) :
    decodeChars group pads (digit n :: rest) =
      (decodeChars [] 0 rest).map (groupBytes (group ++ [n]) ++ ·) := by
  rw [decodeChars, if_neg (digit_ne_pad h), digitValue?_digit h]
  simp only [if_pos hgroup]

theorem groupBytes_one (a : UInt8) : groupBytes [a.toNat / 4, a.toNat % 4 * 16] = [a] := by
  have ha : a.toNat / 4 * 4 + a.toNat % 4 * 16 / 16 = a.toNat := by omega
  rw [groupBytes, ha, UInt8.ofNat_toNat]

theorem groupBytes_two (a b : UInt8) :
    groupBytes [a.toNat / 4, a.toNat % 4 * 16 + b.toNat / 16, b.toNat % 16 * 4] = [a, b] := by
  have hb := b.toNat_lt
  have hfirst : a.toNat / 4 * 4 + (a.toNat % 4 * 16 + b.toNat / 16) / 16 = a.toNat := by omega
  have hsecond : (a.toNat % 4 * 16 + b.toNat / 16) % 16 * 16 + b.toNat % 16 * 4 / 4 = b.toNat := by
    omega
  rw [groupBytes, hfirst, hsecond, UInt8.ofNat_toNat, UInt8.ofNat_toNat]

theorem groupBytes_three (a b c : UInt8) :
    groupBytes [a.toNat / 4, a.toNat % 4 * 16 + b.toNat / 16, b.toNat % 16 * 4 + c.toNat / 64,
      c.toNat % 64] = [a, b, c] := by
  have hb := b.toNat_lt
  have hc := c.toNat_lt
  have hfirst : a.toNat / 4 * 4 + (a.toNat % 4 * 16 + b.toNat / 16) / 16 = a.toNat := by omega
  have hsecond : (a.toNat % 4 * 16 + b.toNat / 16) % 16 * 16 +
      (b.toNat % 16 * 4 + c.toNat / 64) / 4 = b.toNat := by
    omega
  have hthird : (b.toNat % 16 * 4 + c.toNat / 64) % 4 * 64 + c.toNat % 64 = c.toNat := by omega
  rw [groupBytes, hfirst, hsecond, hthird, UInt8.ofNat_toNat, UInt8.ofNat_toNat, UInt8.ofNat_toNat]

theorem decodeChars_encodeChars (b : Bytes) : decodeChars [] 0 (encodeChars b) = some b := by
  fun_induction encodeChars b with
  | case1 => rfl
  | case2 a =>
    have ha := a.toNat_lt
    rw [decodeChars_digit (by omega) (by simp), decodeChars_digit (by omega) (by simp)]
    exact congrArg some (groupBytes_one a)
  | case3 a b =>
    have ha := a.toNat_lt
    have hb := b.toNat_lt
    rw [decodeChars_digit (by omega) (by simp), decodeChars_digit (by omega) (by simp),
      decodeChars_digit (by omega) (by simp)]
    exact congrArg some (groupBytes_two a b)
  | case4 a b c rest ih =>
    have ha := a.toNat_lt
    have hb := b.toNat_lt
    have hc := c.toNat_lt
    rw [decodeChars_digit (by omega) (by simp), decodeChars_digit (by omega) (by simp),
      decodeChars_digit (by omega) (by simp), decodeChars_last_digit (by omega) rfl, ih]
    exact congrArg (fun group => some (group ++ rest)) (groupBytes_three a b c)

theorem encodeChars_ascii (b : Bytes) : ∀ c ∈ encodeChars b, c.toNat < 128 := by
  have hpad : '='.toNat < 128 := by decide
  fun_induction encodeChars b with
  | case1 => simp
  | case2 a =>
    have ha := a.toNat_lt
    simp only [List.forall_mem_cons]
    exact ⟨toNat_digit_lt (by omega), toNat_digit_lt (by omega), hpad, hpad, by simp⟩
  | case3 a b =>
    have ha := a.toNat_lt
    have hb := b.toNat_lt
    simp only [List.forall_mem_cons]
    exact ⟨toNat_digit_lt (by omega), toNat_digit_lt (by omega), toNat_digit_lt (by omega), hpad,
      by simp⟩
  | case4 a b c rest ih =>
    have ha := a.toNat_lt
    have hb := b.toNat_lt
    have hc := c.toNat_lt
    simp only [List.forall_mem_cons]
    exact ⟨toNat_digit_lt (by omega), toNat_digit_lt (by omega), toNat_digit_lt (by omega),
      toNat_digit_lt (by omega), ih⟩

theorem decode_encode (b : Bytes) : decode (encode b) = .ok b := by
  have hascii : (encode b).toList.all (·.toNat < 128) = true := by
    simpa [encode] using encodeChars_ascii b
  rw [decode, if_pos hascii, encode, String.toList_ofList, decodeChars_encodeChars]

end TokenMetadata.Base64
