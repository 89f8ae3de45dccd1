import TokenMetadata.Fault

/-!
# Counts of bytes

How many bytes a caller can ask for. One bound is fixed; how much memory there is, is not, so the
greatest count of bytes that it holds is an argument wherever bytes are asked for by their count.
-/

namespace TokenMetadata.Bytes

/-- The greatest count of bytes in one place. -/
def maxSize : Nat := 0x7fffffffffffffff - 33

/-- A count of bytes that memory holds. Counts of more than sixty-four bits are too large on either
side of zero. -/
def acceptSize (memory : Nat) (n : Int) : Except Misuse Nat :=
  if n < -0x8000000000000000 ∨ maxSize < n then .error .tooLarge
  else if n < 0 then .error .wrongValue
  else if memory < n then .error .beyondMemory
  else .ok n.toNat

variable {memory : Nat} {n : Int}

theorem acceptSize_eq_ok_iff {k : Nat} :
    acceptSize memory n = .ok k ↔ n = k ∧ k ≤ memory ∧ k ≤ maxSize := by
  unfold acceptSize maxSize
  by_cases wide : n < -0x8000000000000000 ∨ ((0x7fffffffffffffff - 33 : Nat) : Int) < n
  · rw [if_pos wide]
    simp only [reduceCtorEq, false_iff]
    omega
  by_cases negative : n < 0
  · rw [if_neg wide, if_pos negative]
    simp only [reduceCtorEq, false_iff]
    omega
  by_cases big : (memory : Int) < n
  · rw [if_neg wide, if_neg negative, if_pos big]
    simp only [reduceCtorEq, false_iff]
    omega
  · rw [if_neg wide, if_neg negative, if_neg big, Except.ok.injEq]
    omega

/-- A count that is not negative is refused by the greatest size first and by memory behind it. -/
theorem acceptSize_of_beyond (hpos : 0 ≤ n) (h : memory < n ∨ maxSize < n) :
    acceptSize memory n =
      .error (if (maxSize : Int) < n then .tooLarge else .beyondMemory) := by
  by_cases hmax : (maxSize : Int) < n
  · rw [acceptSize, if_pos (Or.inr hmax), if_pos hmax]
  · have hwide : ¬ (n < -0x8000000000000000 ∨ (maxSize : Int) < n) := by omega
    rw [acceptSize, if_neg hwide, if_neg (Int.not_lt.mpr hpos), if_pos (h.resolve_right hmax),
      if_neg hmax]

end TokenMetadata.Bytes
