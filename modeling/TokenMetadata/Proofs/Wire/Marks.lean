import Mathlib
import TokenMetadata.Bytes

/-!
# Flags in their usual form

A flag is true whatever its byte, as long as that is not zero. Marks say which bytes of a string are
flags; settling the string turns every flag that is true into a one.
-/

namespace TokenMetadata

/-- Marks at the flags of a string of bytes, one for each byte. -/
abbrev Marks := List Bool

namespace Marks

/-- Bytes none of which is a flag. -/
def plain (n : Nat) : Marks := List.replicate n false

@[simp] theorem length_plain (n : Nat) : (plain n).length = n := List.length_replicate

/-- A marked byte that is not zero becomes one. -/
def settleByte (mark : Bool) (x : UInt8) : UInt8 := if mark = true ∧ x ≠ 0 then 1 else x

def settle (marks : Marks) (b : Bytes) : Bytes := List.zipWith settleByte marks b

theorem length_settle {marks : Marks} {b : Bytes} (h : b.length = marks.length) :
    (settle marks b).length = b.length := by
  simp [settle, h]

theorem settle_append {marks others : Marks} {b c : Bytes} (h : b.length = marks.length) :
    settle (marks ++ others) (b ++ c) = settle marks b ++ settle others c :=
  List.zipWith_append h.symm

theorem settle_plain (b : Bytes) : settle (plain b.length) b = b := by
  induction b with
  | nil => rfl
  | cons x rest ih =>
    have hx : settleByte false x = x := by simp [settleByte]
    rw [settle, plain] at ih
    rw [settle, plain, List.length_cons, List.replicate_succ, List.zipWith_cons_cons, hx, ih]

theorem getElem?_settle (marks : Marks) (b : Bytes) (h : b.length = marks.length) (i : Nat) :
    (settle marks b)[i]? =
      b[i]?.map fun x => if marks[i]? = some true ∧ x ≠ 0 then 1 else x := by
  rw [settle, List.getElem?_zipWith]
  by_cases hi : i < b.length
  · have hm : i < marks.length := h ▸ hi
    simp [List.getElem?_eq_getElem hi, List.getElem?_eq_getElem hm, settleByte]
  · have hm : ¬ i < marks.length := h ▸ hi
    simp [List.getElem?_eq_none (not_lt.mp hi), List.getElem?_eq_none (not_lt.mp hm)]

theorem settleByte_eq_self_iff (mark : Bool) (x : UInt8) :
    settleByte mark x = x ↔ (mark = true → x = 0 ∨ x = 1) := by
  by_cases hx : x = 0
  · simp [settleByte, hx]
  · cases mark with
    | false => simp [settleByte]
    | true => simp [settleByte, hx, eq_comm]

/-- Settling changes nothing when every flag is zero or one already. -/
theorem settle_eq_self_iff {marks : Marks} {b : Bytes} (h : b.length = marks.length) :
    settle marks b = b ↔
      ∀ (i : Nat) (x : UInt8), marks[i]? = some true → b[i]? = some x → x = 0 ∨ x = 1 := by
  induction b generalizing marks with
  | nil => simp [settle]
  | cons x rest ih =>
    cases marks with
    | nil => simp at h
    | cons mark marks =>
      have hlength : rest.length = marks.length := by simpa using h
      have hrest := ih hlength
      rw [settle, List.zipWith_cons_cons, List.cons.injEq, settleByte_eq_self_iff, ← settle, hrest]
      constructor
      · rintro ⟨hfirst, hothers⟩ i y hm hy
        cases i with
        | zero =>
          obtain rfl : x = y := by simpa using hy
          exact hfirst (by simpa using hm)
        | succ i => exact hothers i y (by simpa using hm) (by simpa using hy)
      · intro hall
        refine ⟨fun hm => hall 0 x (by simpa using hm) rfl, fun i y hm hy => ?_⟩
        exact hall (i + 1) y (by simpa using hm) (by simpa using hy)

end Marks

end TokenMetadata
