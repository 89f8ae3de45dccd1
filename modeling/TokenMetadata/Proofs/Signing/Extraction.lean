import Mathlib
import TokenMetadata.Proofs.Signing.WitnessGrammar

/-!
# Signatures at the end of a stack

A one at the end of a stack counts as a hash type, whatever stands before it. A signature is found
behind its size unless it ends in a one of its own; with the hash type behind it, it is found always.
-/

namespace TokenMetadata

namespace Witness

variable {sig : Bytes}

theorem extractSignature_append_one (front : Bytes) (h : sig.length = 64) :
    extractSignature (front ++ sig ++ [1]) = .ok sig := by
  have hstop : (front ++ sig ++ [1]).length - 1 = front.length + 64 := by simp [h]
  have htake : (front ++ sig ++ [1]).take (front.length + 64) = front ++ sig :=
    List.take_left' (by rw [List.length_append, h])
  have hlong : ¬ front.length + 64 < 64 := by omega
  simp only [extractSignature, List.getLast?_concat, if_pos, hstop, if_neg hlong, htake,
    Nat.add_sub_cancel, List.drop_left]

theorem extractSignature_append (front : Bytes) (h : sig.length = 64)
    (hlast : sig.getLast? ≠ some 1) : extractSignature (front ++ sig) = .ok sig := by
  have hne : sig ≠ [] := by
    rintro rfl
    cases h
  have hend : (front ++ sig).getLast? ≠ some 1 := by rwa [List.getLast?_append_of_ne_nil _ hne]
  have hstop : (front ++ sig).length = front.length + 64 := by rw [List.length_append, h]
  have hlong : ¬ front.length + 64 < 64 := by omega
  have htake : (front ++ sig).take (front.length + 64) = front ++ sig := by
    rw [← hstop, List.take_length]
  simp only [extractSignature, if_neg hend, hstop, if_neg hlong, htake, Nat.add_sub_cancel,
    List.drop_left]

theorem serialize_bare (h : sig.length = 64) : serialize [sig] = [1, 64] ++ sig := by
  simp [serialize, compactSize, h]

theorem serialize_marked (h : sig.length = 64) :
    serialize [sig ++ [1]] = [1, 65] ++ sig ++ [1] := by
  simp [serialize, compactSize, h]

/-- The signature is what stands before the mark of its hash type. -/
theorem extractSignature_marked (h : sig.length = 64) :
    extractSignature (serialize [sig ++ [1]]) = .ok sig := by
  rw [serialize_marked h, extractSignature_append_one _ h]

/-- A signature that ends in a one loses it, and gains its size in front. -/
theorem extractSignature_bare_one {front : Bytes} (h : (front ++ [1]).length = 64) :
    extractSignature (serialize [front ++ [1]]) = .ok (64 :: front) := by
  have hlength : (64 :: front : Bytes).length = 64 := by
    rwa [List.length_append] at h
  rw [serialize_bare h]
  exact extractSignature_append_one [1] hlength

theorem extractSignature_bare_iff (h : sig.length = 64) :
    extractSignature (serialize [sig]) = .ok sig ↔ sig.getLast? ≠ some 1 := by
  constructor
  · intro hfound hlast
    obtain ⟨front, rfl⟩ := List.getLast?_eq_some_iff.mp hlast
    rw [extractSignature_bare_one h] at hfound
    -- the size is one byte of its value more than the signature has
    have hcount := congrArg (List.count 64) (Except.ok.inj hfound)
    simp at hcount
  · intro hlast
    rw [serialize_bare h, extractSignature_append _ h hlast]

/-- A signature with its hash type behind it is what is taken out of its stack, whatever its bytes
are. A signature without is taken out exactly when it does not end in a one, because a one at the
end counts as the hash type. -/
theorem extraction_agrees_with_stack (sig : Bytes) (h : sig.length = 64) :
    (∃ item, parse (serialize [sig ++ [1]]) = .ok [item] ∧ item.take 64 = sig ∧
      extractSignature (serialize [sig ++ [1]]) = .ok sig) ∧
    ∃ item, parse (serialize [sig]) = .ok [item] ∧ item.take 64 = sig ∧
      (extractSignature (serialize [sig]) = .ok sig ↔ sig.getLast? ≠ some 1) := by
  constructor
  · refine ⟨sig ++ [1], parse_serialize_one ?_, List.take_left' h, extractSignature_marked h⟩
    rw [List.length_append, h]
    decide
  · refine ⟨sig, parse_serialize_one ?_, ?_, extractSignature_bare_iff h⟩
    · rw [h]
      decide
    · rw [← h, List.take_length]

/-- Zeros and a one at the end. -/
def endsInOne : Bytes := List.replicate 63 0 ++ [1]

theorem extraction_agrees_with_stack_mark_behind_one :
    extractSignature (serialize [endsInOne ++ [1]]) = .ok endsInOne ∧
      extractSignature (serialize [List.replicate 64 2]) = .ok (List.replicate 64 2) := by
  obtain ⟨⟨-, -, -, hmarked⟩, -⟩ := extraction_agrees_with_stack endsInOne (by decide)
  obtain ⟨-, -, -, -, hbare⟩ := extraction_agrees_with_stack (List.replicate 64 2) (by decide)
  exact ⟨hmarked, hbare.mpr (by decide)⟩

/-- What is taken out of the stack of a signature that ends in a one is not the signature. -/
theorem bare_signature_ending_in_one_is_shifted :
    endsInOne.length = 64 ∧ parse (serialize [endsInOne]) = .ok [endsInOne] ∧
      extractSignature (serialize [endsInOne]) = .ok (64 :: List.replicate 63 0) ∧
        extractSignature (serialize [endsInOne]) ≠ .ok endsInOne := by
  have hlength : endsInOne.length = 64 := by decide
  refine ⟨hlength, parse_serialize_one (by rw [hlength]; decide),
    extractSignature_bare_one hlength, ?_⟩
  rw [ne_eq, extractSignature_bare_iff hlength]
  decide

end Witness

end TokenMetadata
