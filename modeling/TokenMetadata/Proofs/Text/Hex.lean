import Mathlib
import TokenMetadata.Text.Hex
import TokenMetadata.Proofs.Text.Case

/-!
# Hexadecimal text of bytes

A byte string has many texts: every digit can stand in either case, and there can be gaps before,
between and behind the pairs. All of them are read as the same bytes, and no other text is.
-/

namespace TokenMetadata.Hex

/-- The character is the digit of the value, in lower or in upper case. -/
def IsDigit (c : Char) (n : Nat) : Prop := c = digit n ∨ c = (digit n).toUpper

/-- The texts of a byte string: two digits for each byte, and gaps anywhere but inside a pair. -/
inductive Spells : List Char → Bytes → Prop
  | done : Spells [] []
  | gap {c : Char} {s : List Char} {b : Bytes} : isGap c = true → Spells s b → Spells (c :: s) b
  | byte {high low : Char} {s : List Char} {x : UInt8} {b : Bytes} :
    IsDigit high (x.toNat / 16) → IsDigit low (x.toNat % 16) → Spells s b →
      Spells (high :: low :: s) (x :: b)

/-- What is written for bytes is one of their texts. -/
theorem spells_flatMap (b : Bytes) : Spells (b.flatMap byteDigits) b := by
  induction b with
  | nil => exact .done
  | cons x b ih => exact .byte (Or.inl rfl) (Or.inl rfl) ih

theorem digit_facts (n : Fin 16) :
    (digitValue? (digit n) = some n.val ∧ isGap (digit n) = false) ∧
      digitValue? (digit n).toUpper = some n.val ∧ isGap (digit n).toUpper = false := by
  revert n
  decide

theorem of_isDigit {c : Char} {n : Nat} (hn : n < 16) (h : IsDigit c n) :
    digitValue? c = some n ∧ isGap c = false := by
  obtain ⟨hlower, hupper⟩ := digit_facts ⟨n, hn⟩
  rcases h with rfl | rfl
  · exact hlower
  · exact hupper

theorem decodeChars_gap {c : Char} (h : isGap c = true) (s : List Char) :
    decodeChars (c :: s) = decodeChars s := by
  cases s with
  | nil => simp only [decodeChars, if_pos h]
  | cons d rest => simp only [decodeChars, if_pos h]

theorem decodeChars_of_spells {s : List Char} {b : Bytes} (h : Spells s b) :
    decodeChars s = some b := by
  induction h with
  | done => rfl
  | gap hc _ ih => rw [decodeChars_gap hc, ih]
  | @byte high low s x b hhigh hlow _ ih =>
    have hx := x.toNat_lt
    obtain ⟨hhigh, hgap⟩ := of_isDigit (by omega) hhigh
    obtain ⟨hlow, -⟩ := of_isDigit (by omega) hlow
    have hbyte : UInt8.ofNat (16 * (x.toNat / 16) + x.toNat % 16) = x := by
      rw [Nat.div_add_mod, UInt8.ofNat_toNat]
    simp only [decodeChars, hgap, hhigh, hlow, ih, Bool.false_eq_true, if_false,
      Option.bind_eq_bind, Option.bind_some, Option.pure_def, hbyte]

theorem isDigit_of_digitValue? {c : Char} {n : Nat} (h : digitValue? c = some n) :
    n < 16 ∧ IsDigit c n := by
  have hascii : c.toNat < 128 := by
    by_contra hc
    have hlarge : ∀ bound : Char, bound.toNat < 128 → ¬ c ≤ bound := fun bound hbound hle =>
      hc (lt_of_le_of_lt hle hbound)
    simp [digitValue?, hlarge '9' (by decide), hlarge 'f' (by decide),
      hlarge 'F' (by decide)] at h
  have hall := forall_ascii (p := fun c => (digitValue? c).all fun n =>
    decide (n < 16 ∧ (c = digit n ∨ c = (digit n).toUpper))) (by decide +kernel) hascii
  rw [h, Option.all_some, decide_eq_true_eq] at hall
  exact hall

/-- What is read as bytes is one of their texts. -/
theorem spells_of_decodeChars {s : List Char} {b : Bytes} (h : decodeChars s = some b) :
    Spells s b := by
  induction s using decodeChars.induct generalizing b with
  | case1 =>
    obtain rfl := Option.some.inj h
    exact .done
  | case2 c hgap =>
    rw [decodeChars_gap hgap] at h
    obtain rfl := Option.some.inj h
    exact .gap hgap .done
  | case3 c hgap =>
    rw [decodeChars, if_neg hgap] at h
    cases h
  | case4 c d rest hgap ih =>
    rw [decodeChars_gap hgap] at h
    exact .gap hgap (ih h)
  | case5 c d rest hgap ih =>
    simp only [decodeChars, if_neg hgap, Option.bind_eq_bind, Option.bind_eq_some_iff,
      Option.pure_def, Option.some.injEq] at h
    obtain ⟨high, hhigh, low, hlow, bytes, hrest, rfl⟩ := h
    obtain ⟨hhighlt, hhigh⟩ := isDigit_of_digitValue? hhigh
    obtain ⟨hlowlt, hlow⟩ := isDigit_of_digitValue? hlow
    have hbyte : (UInt8.ofNat (16 * high + low)).toNat = 16 * high + low := by
      rw [UInt8.toNat_ofNat', Nat.mod_eq_of_lt (by omega)]
    have hdiv : (16 * high + low) / 16 = high := by omega
    have hmod : (16 * high + low) % 16 = low := by omega
    refine .byte ?_ ?_ (ih hrest)
    · rwa [hbyte, hdiv]
    · rwa [hbyte, hmod]

theorem decode_eq_some_iff {s : String} {b : Bytes} : decode s = some b ↔ Spells s.toList b :=
  ⟨spells_of_decodeChars, decodeChars_of_spells⟩

/-- The character, in lower or in upper case. -/
def InEitherCase (c d : Char) : Prop := c = d ∨ c = d.toUpper

theorem length_flatMap_byteDigits (b : Bytes) : (b.flatMap byteDigits).length = 2 * b.length := by
  induction b with
  | nil => rfl
  | cons x b ih =>
    rw [List.flatMap_cons, List.length_append, ih, List.length_cons]
    change 2 + 2 * b.length = _
    omega

theorem Spells.length_ge {s : List Char} {b : Bytes} (h : Spells s b) :
    2 * b.length ≤ s.length := by
  induction h with
  | done => exact le_rfl
  | gap _ _ ih =>
    rw [List.length_cons]
    omega
  | byte _ _ _ ih =>
    rw [List.length_cons, List.length_cons, List.length_cons]
    omega

theorem exists_isDigit_of_mem {s : List Char} {b : Bytes}
    (h : List.Forall₂ InEitherCase s (b.flatMap byteDigits)) {c : Char} (hc : c ∈ s) :
    ∃ n < 16, IsDigit c n := by
  induction b generalizing s with
  | nil =>
    cases h
    cases hc
  | cons x b ih =>
    have hx := x.toNat_lt
    cases h with
    | cons hhigh h =>
      cases h with
      | cons hlow h =>
        rcases List.mem_cons.mp hc with rfl | hc
        · exact ⟨_, by omega, hhigh⟩
        rcases List.mem_cons.mp hc with rfl | hc
        · exact ⟨_, by omega, hlow⟩
        · exact ih h hc

/-- A text of two characters for each byte has no room for gaps. -/
theorem forall₂_inEitherCase_iff {s : List Char} {b : Bytes} :
    List.Forall₂ InEitherCase s (b.flatMap byteDigits) ↔
      Spells s b ∧ s.length = 2 * b.length := by
  constructor
  · intro h
    refine ⟨?_, h.length_eq.trans (length_flatMap_byteDigits b)⟩
    induction b generalizing s with
    | nil =>
      cases h
      exact .done
    | cons x b ih =>
      cases h with
      | cons hhigh h =>
        cases h with
        | cons hlow h => exact .byte hhigh hlow (ih h)
  · rintro ⟨h, hlength⟩
    induction h with
    | done => exact .nil
    | gap _ h _ =>
      have hge := h.length_ge
      rw [List.length_cons] at hlength
      omega
    | byte hhigh hlow _ ih =>
      rw [List.length_cons, List.length_cons, List.length_cons] at hlength
      exact .cons hhigh (.cons hlow (ih (by omega)))

end TokenMetadata.Hex
