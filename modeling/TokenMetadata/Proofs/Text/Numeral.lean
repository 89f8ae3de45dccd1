import Mathlib
import TokenMetadata.Text.Numeral

/-!
# A digit string in another base and back

Digits without zeros at the front are told by their number. The zeros at the front are kept one for
one, so a digit string is found again from its form in another base.
-/

namespace TokenMetadata.Numeral

variable {base source target : Nat} {ds : List Nat}

theorem digitsLE_eq (h : 1 < base) (n : Nat) : digitsLE base n = Nat.digits base n := by
  fun_induction digitsLE base n with
  | case1 n hn _ ih => rw [ih, Nat.digits_def' h hn.2]
  | case2 n hn =>
    obtain rfl : n = 0 := by
      by_contra hne
      exact hn ⟨h, Nat.pos_of_ne_zero hne⟩
    rw [Nat.digits_zero]

theorem value_eq (base : Nat) (ds : List Nat) : value base ds = Nat.ofDigits base ds.reverse := by
  rw [value, List.foldl_eq_foldr_reverse, Nat.ofDigits_eq_foldr]
  congr 1
  funext d n
  rw [Nat.cast_id, Nat.mul_comm, Nat.add_comm]

theorem value_digits (h : 1 < base) (n : Nat) : value base (digits base n) = n := by
  rw [value_eq, digits, List.reverse_reverse, digitsLE_eq h, Nat.ofDigits_digits]

/-- Zeros at the front do not count. -/
theorem value_append_of_zeros {zeros : List Nat} (h : ∀ d ∈ zeros, d = 0) :
    value base (zeros ++ ds) = value base ds := by
  have hzero : Nat.ofDigits base zeros.reverse = 0 := by
    rw [List.eq_replicate_of_mem h, List.reverse_replicate, Nat.ofDigits_replicate_zero]
  rw [value_eq, value_eq, List.reverse_append, Nat.ofDigits_append, hzero, Nat.mul_zero,
    Nat.add_zero]

theorem digits_value (h : 1 < base) (hlt : ∀ d ∈ ds, d < base) (hfront : ds.head? ≠ some 0) :
    digits base (value base ds) = ds := by
  have hlast : ∀ hne : ds.reverse ≠ [], ds.reverse.getLast hne ≠ 0 := by
    intro hne hzero
    apply hfront
    rw [← List.getLast?_reverse, List.getLast?_eq_some_getLast hne, hzero]
  rw [digits, digitsLE_eq h, value_eq,
    Nat.digits_ofDigits base h _ (fun d hd => hlt d (List.mem_reverse.mp hd)) hlast,
    List.reverse_reverse]

theorem digits_lt (h : 1 < base) {n d : Nat} (hd : d ∈ digits base n) : d < base := by
  rw [digits, List.mem_reverse, digitsLE_eq h] at hd
  exact Nat.digits_lt_base h hd

/-- The first digit of a number is not zero. -/
theorem head?_digits (h : 1 < base) (n : Nat) : (digits base n).head? ≠ some 0 := by
  intro hzero
  rw [digits, List.head?_reverse, digitsLE_eq h] at hzero
  by_cases hn : n = 0
  · rw [hn, Nat.digits_zero] at hzero
    cases hzero
  · rw [List.getLast?_eq_some_getLast (Nat.digits_ne_nil_iff_ne_zero.mpr hn)] at hzero
    exact Nat.getLast_digit_ne_zero base hn (Option.some.inj hzero)

theorem eq_zero_of_mem_takeWhile {d : Nat} (h : d ∈ ds.takeWhile (· = 0)) : d = 0 := by
  have hzero := List.mem_takeWhile_imp h
  exact of_decide_eq_true hzero

theorem takeWhile_zeros_append {zeros : List Nat} (h : ∀ d ∈ zeros, d = 0)
    (hfront : ds.head? ≠ some 0) : (zeros ++ ds).takeWhile (· = 0) = zeros := by
  have hnone : ds.takeWhile (· = 0) = [] := by
    cases ds with
    | nil => rfl
    | cons d rest =>
      have hd : d ≠ 0 := fun hd => hfront (congrArg some hd)
      rw [List.takeWhile_cons_of_neg (by simpa using hd)]
  rw [List.takeWhile_append_of_pos (by simpa using h), hnone, List.append_nil]

theorem head?_dropWhile_zeros (ds : List Nat) : (ds.dropWhile (· = 0)).head? ≠ some 0 := by
  intro h
  have hzero := List.head?_dropWhile_not (· = 0) ds
  rw [h] at hzero
  exact absurd hzero (by simp)

theorem rebase_lt (ht : 1 < target) {d : Nat} (hd : d ∈ rebase source target ds) : d < target := by
  rcases List.mem_append.mp hd with hzero | hdigit
  · rw [eq_zero_of_mem_takeWhile hzero]
    exact Nat.zero_lt_of_lt ht
  · exact digits_lt ht hdigit

theorem value_lt (hs : 1 < source) (h : ∀ d ∈ ds, d < source) :
    value source ds < source ^ ds.length := by
  rw [value_eq, ← List.length_reverse]
  exact Nat.ofDigits_lt_base_pow_length hs fun d hd => h d (List.mem_reverse.mp hd)

theorem value_dropWhile_zeros (ds : List Nat) :
    value base (ds.dropWhile (· = 0)) = value base ds := by
  have hsplit : ds.takeWhile (· = 0) ++ ds.dropWhile (· = 0) = ds := List.takeWhile_append_dropWhile
  nth_rewrite 2 [← hsplit]
  exact (value_append_of_zeros fun _ => eq_zero_of_mem_takeWhile).symm

/-- A digit string of bounded length has a form of bounded length in a base that is not larger. -/
theorem length_rebase_le (ht : 1 < target) (hle : target ≤ source) (h : ∀ d ∈ ds, d < source)
    {n m : Nat} (hpow : source ^ n ≤ target ^ m) (hlength : ds.length ≤ n) :
    (rebase source target ds).length ≤ m := by
  have hs : 1 < source := lt_of_lt_of_le ht hle
  have hsplit : (ds.takeWhile (· = 0)).length + (ds.dropWhile (· = 0)).length = ds.length := by
    rw [← List.length_append, List.takeWhile_append_dropWhile]
  have hnm : n ≤ m :=
    (Nat.pow_le_pow_iff_right ht).mp ((Nat.pow_le_pow_left hle n).trans hpow)
  have hrest : ∀ d ∈ ds.dropWhile (· = 0), d < source := fun d hd =>
    h d ((List.dropWhile_sublist _).subset hd)
  rw [rebase, List.length_append, digits, List.length_reverse, digitsLE_eq ht,
    ← value_dropWhile_zeros]
  generalize (ds.takeWhile (· = 0)).length = zeros at hsplit ⊢
  -- a zero at the front takes one digit in either base, which is less room in the smaller one
  have hvalue : value source (ds.dropWhile (· = 0)) < target ^ (m - zeros) := by
    apply lt_of_mul_lt_mul_right _ (Nat.zero_le (target ^ zeros))
    calc value source (ds.dropWhile (· = 0)) * target ^ zeros
        < source ^ (ds.dropWhile (· = 0)).length * target ^ zeros :=
          Nat.mul_lt_mul_of_pos_right (value_lt hs hrest) (Nat.pow_pos (Nat.zero_lt_of_lt ht))
      _ ≤ source ^ (ds.dropWhile (· = 0)).length * source ^ zeros :=
          Nat.mul_le_mul_left _ (Nat.pow_le_pow_left hle zeros)
      _ = source ^ ds.length := by rw [← pow_add, Nat.add_comm, hsplit]
      _ ≤ source ^ n := Nat.pow_le_pow_right (Nat.zero_lt_of_lt hs) hlength
      _ ≤ target ^ m := hpow
      _ = target ^ (m - zeros) * target ^ zeros := by rw [← pow_add, Nat.sub_add_cancel (by omega)]
  have hdigits := (Nat.digits_length_le_iff ht _).mpr hvalue
  omega

theorem rebase_rebase (hs : 1 < source) (ht : 1 < target) (h : ∀ d ∈ ds, d < source) :
    rebase target source (rebase source target ds) = ds := by
  have hzeros : ∀ d ∈ ds.takeWhile (· = 0), d = 0 := fun _ => eq_zero_of_mem_takeWhile
  have hrest : ∀ d ∈ ds.dropWhile (· = 0), d < source := fun d hd =>
    h d ((List.dropWhile_sublist _).subset hd)
  have hsplit : ds.takeWhile (· = 0) ++ ds.dropWhile (· = 0) = ds := List.takeWhile_append_dropWhile
  have hvalue : value source ds = value source (ds.dropWhile (· = 0)) :=
    (value_dropWhile_zeros ds).symm
  -- the digits of the number do not begin with a zero, so the zeros in front are the same again
  rw [rebase, rebase, takeWhile_zeros_append hzeros (head?_digits ht _),
    value_append_of_zeros hzeros, value_digits ht, hvalue,
    digits_value hs hrest (head?_dropWhile_zeros ds), hsplit]

end TokenMetadata.Numeral
