import Mathlib
import TokenMetadata.Text.Bech32
import TokenMetadata.Text.Numeral

/-!
# The checksum of an address

A step of the checksum is linear over exclusive or. Six values at the end therefore only add their
own number to what six zeros would leave behind, so exactly one choice of them leaves the constant.
-/

namespace TokenMetadata.Bech32

/-- Mixing in a word when a bit is set is linear. -/
theorem mix_xor (p q : Bool) (x y word : Nat) :
    (if p ^^ q then (x ^^^ y) ^^^ word else x ^^^ y) =
      (if p then x ^^^ word else x) ^^^ (if q then y ^^^ word else y) := by
  cases p with
  | false =>
    cases q with
    | false => rfl
    | true => exact Nat.xor_assoc x y word
  | true =>
    cases q with
    | false => exact Nat.xor_right_comm x y word
    | true =>
      have hcancel : (x ^^^ word) ^^^ (y ^^^ word) = x ^^^ y := by
        rw [Nat.xor_assoc, Nat.xor_comm y, ← Nat.xor_assoc word, Nat.xor_self, Nat.zero_xor]
      exact hcancel.symm

theorem foldl_mix_xor (words : List (Nat × Nat)) (a b x y : Nat) :
    words.foldl (fun chk (word, i) => if (a ^^^ b).testBit i then chk ^^^ word else chk) (x ^^^ y) =
      words.foldl (fun chk (word, i) => if a.testBit i then chk ^^^ word else chk) x ^^^
        words.foldl (fun chk (word, i) => if b.testBit i then chk ^^^ word else chk) y := by
  induction words generalizing x y with
  | nil => rfl
  | cons entry words ih =>
    simp only [List.foldl_cons, Nat.testBit_xor, mix_xor] at ih ⊢
    exact ih _ _

theorem mixIn_xor (a b x y : Nat) : mixIn (a ^^^ b) (x ^^^ y) = mixIn a x ^^^ mixIn b y :=
  foldl_mix_xor generator.zipIdx a b x y

theorem mixIn_zero (chk : Nat) : mixIn 0 chk = chk := by
  simp [mixIn, generator]

theorem mixIn_lt {top chk : Nat} (h : chk < 2 ^ 30) : mixIn top chk < 2 ^ 30 := by
  have hwords : ∀ entry ∈ generator.zipIdx, entry.1 < 2 ^ 30 := by decide
  rw [mixIn]
  generalize generator.zipIdx = words at hwords ⊢
  induction words generalizing chk with
  | nil => exact h
  | cons entry words ih =>
    obtain ⟨hentry, hrest⟩ := List.forall_mem_cons.mp hwords
    by_cases hbit : top.testBit entry.2 = true
    · simp only [List.foldl_cons, hbit, if_true]
      exact ih (Nat.xor_lt_two_pow h hentry) hrest
    · simp only [List.foldl_cons, hbit]
      exact ih h hrest

theorem polymodStep_xor (a b v w : Nat) :
    polymodStep (a ^^^ b) (v ^^^ w) = polymodStep a v ^^^ polymodStep b w := by
  have hlow : (a ^^^ b) % 0x2000000 = a % 0x2000000 ^^^ b % 0x2000000 :=
    Nat.xor_mod_two_pow (n := 25)
  have hswap : ∀ p q : Nat, p ^^^ q ^^^ (v ^^^ w) = p ^^^ v ^^^ (q ^^^ w) := by
    intro p q
    ac_rfl
  rw [polymodStep, polymodStep, polymodStep, Nat.shiftRight_xor_distrib, hlow,
    Nat.shiftLeft_xor_distrib, hswap, mixIn_xor]

theorem polymodStep_zero_lt (chk : Nat) : polymodStep chk 0 < 2 ^ 30 := by
  rw [polymodStep, Nat.xor_zero, Nat.shiftLeft_eq]
  apply mixIn_lt
  have := Nat.mod_lt chk (show 0 < 0x2000000 by decide)
  omega

/-- Nothing is carried as long as five more bits have room. -/
theorem polymodStep_of_lt {chk value : Nat} (hchk : chk < 2 ^ 25) (hvalue : value < 32) :
    polymodStep chk value = chk * 32 + value := by
  have htop : chk >>> 25 = 0 := by
    rw [Nat.shiftRight_eq_div_pow]
    omega
  have hadd : (chk <<< 5) ^^^ value = chk * 32 + value := by
    rw [Nat.shiftLeft_eq, Nat.mul_comm chk]
    apply Nat.eq_of_testBit_eq
    intro i
    rw [Nat.testBit_xor, Nat.testBit_two_pow_mul_add chk (i := 5) hvalue, Nat.testBit_two_pow_mul]
    by_cases hi : i < 5
    · simp [hi, not_le.mpr hi]
    · have hzero : value.testBit i = false := by
        apply Nat.testBit_eq_false_of_lt
        exact hvalue.trans_le (Nat.pow_le_pow_right (n := 2) (by decide) (not_lt.mp hi))
      simp [hi, not_lt.mp hi, hzero]
  have hmod : chk % 0x2000000 = chk := Nat.mod_eq_of_lt hchk
  rw [polymodStep, htop, mixIn_zero, hmod, hadd]

/-- The values at the end take part in the checksum on their own. -/
theorem foldl_polymodStep_xor (s t : Nat) (c : List Nat) :
    c.foldl polymodStep (s ^^^ t) =
      (List.replicate c.length 0).foldl polymodStep s ^^^ c.foldl polymodStep t := by
  induction c generalizing s t with
  | nil => rfl
  | cons v c ih =>
    have hstep := polymodStep_xor s t 0 v
    rw [Nat.zero_xor] at hstep
    rw [List.foldl_cons, hstep, ih]
    rfl

theorem foldl_polymodStep_of_lt {c : List Nat} {chk room : Nat} (hc : ∀ v ∈ c, v < 32)
    (hroom : c.length + room = 6) (hchk : chk < 32 ^ room) :
    c.foldl polymodStep chk = c.foldl (fun n d => n * 32 + d) chk := by
  induction c generalizing chk room with
  | nil => rfl
  | cons v c ih =>
    obtain ⟨hv, hrest⟩ := List.forall_mem_cons.mp hc
    rw [List.length_cons] at hroom
    have hsmall : chk < 2 ^ 25 :=
      hchk.trans_le (Nat.pow_le_pow_right (show 0 < 32 by decide) (show room ≤ 5 by omega))
    have hnext : chk * 32 + v < 32 ^ (room + 1) := by
      rw [Nat.pow_succ]
      omega
    rw [List.foldl_cons, List.foldl_cons, polymodStep_of_lt hsmall hv]
    exact ih hrest (by omega) hnext

theorem polymod_append_six {values c : List Nat} (hlength : c.length = 6) (hc : ∀ v ∈ c, v < 32) :
    polymod (values ++ c) = polymod (values ++ List.replicate 6 0) ^^^ Numeral.value 32 c := by
  have hzero : 0 < 32 ^ 0 := by decide
  have hown := foldl_polymodStep_of_lt hc hlength hzero
  have hsplit := foldl_polymodStep_xor (values.foldl polymodStep 1) 0 c
  rw [Nat.xor_zero, hlength, hown] at hsplit
  rw [polymod, polymod, List.foldl_append, List.foldl_append, hsplit]
  rfl

theorem polymod_zeros_lt (values : List Nat) : polymod (values ++ List.replicate 6 0) < 2 ^ 30 := by
  rw [List.replicate_succ', ← List.append_assoc, polymod, List.foldl_append]
  exact polymodStep_zero_lt _

theorem constant_lt (version : Nat) : constant version < 2 ^ 30 := by
  rw [constant]
  split <;> decide

/-- Six digits of five bits stand for every number of thirty bits. -/
theorem value_eq_iff {c : List Nat} {m : Nat} (hlength : c.length = 6) (hc : ∀ v ∈ c, v < 32)
    (hm : m < 2 ^ 30) :
    Numeral.value 32 c = m ↔ c = [25, 20, 15, 10, 5, 0].map fun shift => (m >>> shift) % 32 := by
  match c, hlength with
  | [c₀, c₁, c₂, c₃, c₄, c₅], _ =>
    simp only [List.forall_mem_cons] at hc
    simp only [Numeral.value, List.foldl_cons, List.foldl_nil, List.map_cons, List.map_nil,
      Nat.shiftRight_eq_div_pow, List.cons.injEq, and_true]
    constructor
    · rintro rfl
      refine ⟨?_, ?_, ?_, ?_, ?_, ?_⟩ <;> omega
    · rintro ⟨rfl, rfl, rfl, rfl, rfl, rfl⟩
      omega

/-- Exactly the six values of the checksum leave the constant behind. -/
theorem polymod_eq_constant_iff {hrp : List Char} {data c : List Nat} {version : Nat}
    (hlength : c.length = 6) (hc : ∀ v ∈ c, v < 32) :
    polymod (expandPrefix hrp ++ data ++ c) = constant version ↔ c = checksum hrp version data := by
  have hm := Nat.xor_lt_two_pow (polymod_zeros_lt (expandPrefix hrp ++ data)) (constant_lt version)
  rw [polymod_append_six hlength hc, checksum, ← value_eq_iff hlength hc hm]
  constructor
  · intro h
    rw [← h, ← Nat.xor_assoc, Nat.xor_self, Nat.zero_xor]
  · intro h
    rw [h, ← Nat.xor_assoc, Nat.xor_self, Nat.zero_xor]

theorem length_checksum (hrp : List Char) (version : Nat) (data : List Nat) :
    (checksum hrp version data).length = 6 := rfl

theorem checksum_lt {hrp : List Char} {version : Nat} {data : List Nat} {v : Nat}
    (h : v ∈ checksum hrp version data) : v < 32 := by
  obtain ⟨shift, -, rfl⟩ := List.mem_map.mp h
  exact Nat.mod_lt _ (by decide)

end TokenMetadata.Bech32
