import Mathlib
import TokenMetadata.Datum.Json
import TokenMetadata.Proofs.Text.Hex

/-!
# Texts and numbers in JSON

A text is read as it was written: its characters come back from their escapes, those outside the
basic plane from two units. So is an integer, when no further digit, point or exponent follows it.
-/

namespace TokenMetadata.Json

section

variable {c : Char} {n : Nat} {ns : List Nat} {s rest : List Char}

theorem unit?_unitDigits (hn : n < 65536) :
    unit? (Hex.digit (n / 4096 % 16)) (Hex.digit (n / 256 % 16)) (Hex.digit (n / 16 % 16))
      (Hex.digit (n % 16)) = some n := by
  have hdigit : ∀ m, Hex.digitValue? (Hex.digit (m % 16)) = some (m % 16) := fun m =>
    (Hex.digit_facts ⟨m % 16, Nat.mod_lt m (by decide)⟩).1.1
  simp only [unit?, hdigit, Option.bind_eq_bind, Option.bind_some, Option.pure_def]
  congr 1
  omega

theorem readUnits_escapeUnit (hn : n < 65536) :
    readUnits (escapeUnit n ++ rest) = (readUnits rest).map fun (ns, s) => (n :: ns, s) := by
  change readUnits ('\\' :: 'u' :: _ :: _ :: _ :: _ :: rest) = _
  rw [readUnits, unit?_unitDigits hn]
  cases readUnits rest <;> rfl

theorem toNat_range (c : Char) :
    c.toNat < 0xd800 ∨ 0xe000 ≤ c.toNat ∧ c.toNat < 0x110000 := by
  rcases c.valid with h | ⟨hlow, hhigh⟩
  · exact Or.inl h
  · exact Or.inr ⟨hlow, hhigh⟩

theorem units_lt (c : Char) : ∀ n ∈ units c, n < 65536 := by
  intro n hn
  rw [units] at hn
  split at hn
  · simp_all
  · have hc := toNat_range c
    simp only [List.mem_cons, List.not_mem_nil, or_false] at hn
    omega

theorem readUnits_escapeUnits (h : ∀ n ∈ ns, n < 65536) :
    readUnits (ns.flatMap escapeUnit ++ rest) =
      (readUnits rest).map fun (ms, s) => (ns ++ ms, s) := by
  induction ns with
  | nil => simp
  | cons n ns ih =>
    obtain ⟨hn, hns⟩ := List.forall_mem_cons.mp h
    rw [List.flatMap_cons, List.append_assoc, readUnits_escapeUnit hn, ih hns, Option.map_map]
    rfl

theorem readUnits_plain (hquote : c ≠ '"') (hbackslash : c ≠ '\\') (hlow : ' ' ≤ c) :
    readUnits (c :: rest) = (readUnits rest).map fun (ns, s) => (c.toNat :: ns, s) := by
  rw [readUnits.eq_def]
  split
  · simp_all
  · simp_all
  · simp_all
  · simp_all
  · rename_i heq
    obtain ⟨rfl, rfl⟩ := List.cons.inj heq
    rw [if_neg (by simp [hbackslash, hlow])]
    cases readUnits rest <;> rfl

theorem readUnits_escaped {d : Char} (hunit : d ≠ 'u') (h : unescape? d = some c) :
    readUnits ('\\' :: d :: rest) = (readUnits rest).map fun (ns, s) => (c.toNat :: ns, s) := by
  rw [readUnits.eq_def]
  split
  · simp_all
  · simp_all
  · simp_all
  · rename_i heq
    simp only [List.cons.injEq, true_and] at heq
    obtain ⟨rfl, rfl⟩ := heq
    rw [h]
    cases readUnits rest <;> rfl
  · rename_i hnone heq
    obtain ⟨rfl, rfl⟩ := List.cons.inj heq
    exact absurd rfl (hnone _ _ rfl)

/-- A character is escaped by one other character, or not at all, or by its units. -/
theorem escapeChar_cases (c : Char) :
    (∃ d, escapeChar c = ['\\', d] ∧ d ≠ 'u' ∧ unescape? d = some c) ∨
      (escapeChar c = [c] ∧ (c ≠ '"' ∧ c ≠ '\\') ∧ ' ' ≤ c ∧ c ≤ '~') ∨
        escapeChar c = (units c).flatMap escapeUnit := by
  unfold escapeChar
  split_ifs with hspecial hplain hn hr ht hb hf
  · rcases hspecial with rfl | rfl
    · exact Or.inl ⟨_, rfl, by decide, rfl⟩
    · exact Or.inl ⟨_, rfl, by decide, rfl⟩
  · exact Or.inr (Or.inl ⟨rfl, not_or.mp hspecial, hplain⟩)
  · exact Or.inl ⟨_, rfl, by decide, hn ▸ rfl⟩
  · exact Or.inl ⟨_, rfl, by decide, hr ▸ rfl⟩
  · exact Or.inl ⟨_, rfl, by decide, ht ▸ rfl⟩
  · exact Or.inl ⟨_, rfl, by decide, hb ▸ rfl⟩
  · exact Or.inl ⟨_, rfl, by decide, hf ▸ rfl⟩
  · exact Or.inr (Or.inr rfl)

theorem units_of_unescape {d : Char} (h : unescape? d = some c) : units c = [c.toNat] := by
  unfold unescape? at h
  split at h <;> cases h <;> rfl

theorem units_of_ascii (h : c ≤ '~') : units c = [c.toNat] :=
  if_pos (Nat.lt_of_le_of_lt h (by decide))

theorem readUnits_escapeChar (c : Char) :
    readUnits (escapeChar c ++ rest) = (readUnits rest).map fun (ns, s) => (units c ++ ns, s) := by
  rcases escapeChar_cases c with
    ⟨d, hescape, hd, h⟩ | ⟨hescape, ⟨hquote, hbackslash⟩, hlow, hhigh⟩ | hescape
  · rw [hescape, units_of_unescape h]
    exact readUnits_escaped hd h
  · rw [hescape, units_of_ascii hhigh]
    exact readUnits_plain hquote hbackslash hlow
  · rw [hescape]
    exact readUnits_escapeUnits (units_lt c)

theorem joinUnits_units (c : Char) :
    joinUnits (units c ++ ns) = (joinUnits ns).map (c :: ·) := by
  rw [units]
  have hc := toNat_range c
  split
  · rename_i hbasic
    rw [List.singleton_append, joinUnits.eq_def]
    simp only
    rw [if_neg (by omega), if_neg (by omega), Char.ofNat_toNat]
    rfl
  · rename_i hbeyond
    rw [List.cons_append, List.singleton_append, joinUnits.eq_def]
    simp only
    rw [if_pos (by omega), if_pos (by omega)]
    have hvalue : 0x10000 + (0xd800 + (c.toNat - 0x10000) / 0x400 - 0xd800) * 0x400 +
        (0xdc00 + (c.toNat - 0x10000) % 0x400 - 0xdc00) = c.toNat := by
      omega
    rw [hvalue, Char.ofNat_toNat]
    rfl

theorem readUnits_escaped_text (cs : List Char) :
    readUnits (cs.flatMap escapeChar ++ '"' :: rest) = some (cs.flatMap units, rest) := by
  induction cs with
  | nil => rfl
  | cons c cs ih =>
    rw [List.flatMap_cons, List.append_assoc, readUnits_escapeChar, ih]
    rfl

theorem joinUnits_flatMap (cs : List Char) : joinUnits (cs.flatMap units) = some cs := by
  induction cs with
  | nil => rfl
  | cons c cs ih =>
    rw [List.flatMap_cons, joinUnits_units, ih]
    rfl

/-- A text is read as it was written. -/
theorem readText_escaped (t : String) :
    readText (t.toList.flatMap escapeChar ++ '"' :: rest) = some (t, rest) := by
  simp only [readText, readUnits_escaped_text, joinUnits_flatMap, Option.bind_eq_bind,
    Option.bind_some, String.ofList_toList, Option.pure_def]

end

/-- What stands behind a number is no part of it. -/
def EndsNumber (s : List Char) : Prop :=
  ∀ c ∈ s.head?, ¬ c.isDigit ∧ c ≠ '.' ∧ c ≠ 'e' ∧ c ≠ 'E'

section

variable {n : Nat} {rest : List Char}

theorem ofDecimal_toDigits (n : Nat) : Numeral.ofDecimal (Nat.toDigits 10 n) = n := by
  have h := Nat.ofDigitChars_toDigits (b := 10) (n := n) (by decide) (by decide)
  rw [Nat.ofDigitChars] at h
  rw [Numeral.ofDecimal, Numeral.value, List.foldl_map]
  simp only [Nat.mul_comm] at h
  exact h

/-- No digits but those of zero begin with a zero. -/
theorem head?_toDigits (hn : 0 < n) : (Nat.toDigits 10 n).head? ≠ some '0' := by
  induction n using Nat.strong_induction_on with
  | h n ih =>
    rcases Nat.lt_or_ge n 10 with hsmall | hlarge
    · rw [Nat.toDigits_of_lt_base hsmall]
      interval_cases n <;> decide
    · have hfront := ih (n / 10) (by omega) (by omega)
      rw [Nat.toDigits_of_base_le (by decide) hlarge,
        List.head?_append_of_ne_nil _ Nat.toDigits_ne_nil]
      exact hfront

theorem span_digits {ds : List Char} (hds : ∀ c ∈ ds, c.isDigit = true) (h : EndsNumber rest) :
    (ds ++ rest).span Char.isDigit = (ds, rest) := by
  rw [List.span_eq_takeWhile_dropWhile, List.takeWhile_append_of_pos hds,
    List.dropWhile_append_of_pos hds]
  cases rest with
  | nil => simp
  | cons c rest => simp [(h c rfl).1]

theorem wholeDigits_toDigits (n : Nat) (h : EndsNumber rest) :
    wholeDigits (Nat.toDigits 10 n ++ rest) = (Nat.toDigits 10 n, rest) := by
  rcases Nat.eq_zero_or_pos n with rfl | hn
  · rfl
  · have hfront := head?_toDigits hn
    obtain ⟨d, ds, hds⟩ := List.exists_cons_of_ne_nil (Nat.toDigits_ne_nil (n := n) (b := 10))
    have hd : d ≠ '0' := by simpa [hds] using hfront
    rw [hds, List.cons_append, wholeDigits.eq_2 _ (by simp [hd]), ← List.cons_append, ← hds]
    exact span_digits (fun c => Nat.isDigit_of_mem_toDigits (by decide) (by decide)) h

theorem fractionDigits_of_endsNumber (h : EndsNumber rest) : fractionDigits rest = ([], rest) := by
  rw [fractionDigits.eq_def]
  split
  · exact absurd rfl (h '.' rfl).2.1
  · rfl

theorem exponentPart_of_endsNumber (h : EndsNumber rest) : exponentPart rest = none := by
  cases rest with
  | nil => rfl
  | cons c rest =>
    obtain ⟨-, -, hlower, hupper⟩ := h c rfl
    exact if_neg (not_or.mpr ⟨hlower, hupper⟩)

theorem readMagnitude_toDigits (negative : Bool) (n : Nat) (h : EndsNumber rest) :
    readMagnitude negative (Nat.toDigits 10 n ++ rest) =
      some (.int (if negative then -n else n), rest) := by
  rw [readMagnitude, wholeDigits_toDigits n h]
  split
  · rename_i heq
    exact absurd (congrArg Prod.fst heq) Nat.toDigits_ne_nil
  · rename_i heq
    obtain ⟨rfl, rfl⟩ := Prod.mk.inj heq
    simp only [fractionDigits_of_endsNumber h, exponentPart_of_endsNumber h, List.append_nil,
      ofDecimal_toDigits]

theorem exists_cons_toDigits (n : Nat) : ∃ c s, Nat.toDigits 10 n = c :: s ∧ c.isDigit = true := by
  obtain ⟨c, s, hcs⟩ := List.exists_cons_of_ne_nil (Nat.toDigits_ne_nil (n := n) (b := 10))
  have hc : c ∈ Nat.toDigits 10 n := hcs ▸ List.mem_cons_self
  exact ⟨c, s, hcs, Nat.isDigit_of_mem_toDigits (by decide) (by decide) hc⟩

theorem digits_ne {c : Char} (hc : ¬ c.isDigit) (n : Nat) (s : List Char) :
    Nat.toDigits 10 n ++ rest ≠ c :: s := by
  intro heq
  obtain ⟨d, ds, hds, hd⟩ := exists_cons_toDigits n
  rw [hds, List.cons_append] at heq
  exact hc ((List.cons.inj heq).1 ▸ hd)

theorem toList_toString_ofNat (n : Nat) :
    (toString (Int.ofNat n)).toList = Nat.toDigits 10 n := by
  simp only [Int.toString_eq_repr, Int.repr, Nat.repr, String.toList_ofList]

theorem toList_toString_negSucc (n : Nat) :
    (toString (Int.negSucc n)).toList = '-' :: Nat.toDigits 10 (n + 1) := by
  simp [Int.toString_eq_repr, Int.repr, Nat.repr]

/-- The text of an integer begins with a sign or a digit. -/
theorem exists_cons_toString (n : Int) :
    ∃ c s, (toString n).toList = c :: s ∧ (c = '-' ∨ c.isDigit = true) := by
  cases n with
  | ofNat n =>
    obtain ⟨c, s, hcs, hc⟩ := exists_cons_toDigits n
    exact ⟨c, s, (toList_toString_ofNat n).trans hcs, Or.inr hc⟩
  | negSucc n => exact ⟨'-', _, toList_toString_negSucc n, Or.inl rfl⟩

/-- An integer is read as it was written. -/
theorem readNumber_integer (n : Int) (h : EndsNumber rest) :
    readNumber ((toString n).toList ++ rest) = some (.int n, rest) := by
  cases n with
  | ofNat n =>
    rw [toList_toString_ofNat, readNumber.eq_def]
    split
    · rename_i heq
      exact absurd heq (digits_ne (by decide) n _)
    · rename_i heq
      exact absurd heq (digits_ne (by decide) n _)
    · exact readMagnitude_toDigits false n h
  | negSucc n =>
    rw [toList_toString_negSucc, List.cons_append, readNumber.eq_def]
    split
    · rename_i heq
      exact absurd (List.cons.inj heq).2 (digits_ne (by decide) (n + 1) _)
    · rename_i heq
      obtain ⟨-, rfl⟩ := List.cons.inj heq
      exact readMagnitude_toDigits true (n + 1) h
    · rename_i hminus
      exact absurd rfl (hminus _)

end

end TokenMetadata.Json
