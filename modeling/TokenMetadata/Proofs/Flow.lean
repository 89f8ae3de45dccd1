import Mathlib
import TokenMetadata.Flow
import TokenMetadata.Proofs.Operation

/-!
# Transactions of flows

The budget requests come first, then what the caller puts in front, then the instructions of the
metadata operations, each as it is built by itself. A flow fails with the first part that cannot be
built: the metadata instructions in the order in which they are built, then the limit of units, then
the heap.
-/

namespace TokenMetadata

open Address

namespace Budget

/-- The requests of a budget as they are built one after the other: the units, then the heap. -/
def attempts (b : Budget) : List (Except Violation Instruction) :=
  b.units.toList.map unitsInstruction ++ b.heapBytes.toList.map heapInstruction

theorem instructions_eq_error_iff {b : Budget} {v : Violation} :
    b.instructions = .error v ↔ FirstFailure b.attempts v := by
  rw [instructions, attempts, firstFailure_append, forall_ok_iff, bind_eq_error_iff]
  simp only [bind_eq_error_iff, return_ne_error, and_false, exists_false, or_false,
    exists_and_right, exists_eq_ok_iff, ne_eq, option_mapM_eq_error_iff]

end Budget

theorem budgetInstructions_eq_error_iff {budget : Option Budget} {v : Violation} :
    budgetInstructions budget = .error v ↔
      FirstFailure (budget.toList.flatMap Budget.attempts) v := by
  cases budget with
  | none => simp [budgetInstructions, not_firstFailure_nil]
  | some b =>
    rw [Option.toList_some, List.flatMap_singleton, ← Budget.instructions_eq_error_iff,
      budgetInstructions]

namespace Flow

variable {program : Key} {flow : Flow} {budget : Option Budget}

/-- Every account of a token has an address, so only the metadata instructions and the budget can
fail. -/
theorem compose_eq (program : Key) (flow : Flow) (budget : Option Budget) :
    flow.compose program budget = (do
      let own ← flow.metadataInstructions program
      let requests ← (budgetInstructions budget).mapError .violation
      return ⟨requests ++ flow.preceding ++ own, accountKey .metadata flow.mint program,
        if flow.hasAttributes then some (accountKey .attributes flow.mint program) else none⟩) := by
  rw [compose]
  simp only [ofMint_eq]
  cases flow.metadataInstructions program with
  | error e => rfl
  | ok own =>
    cases budgetInstructions budget with
    | error v => rfl
    | ok requests => cases flow.hasAttributes <;> rfl

theorem compose_eq_ok_iff {tx : Transaction} :
    flow.compose program budget = .ok tx ↔ ∃ own requests,
      flow.metadataInstructions program = .ok own ∧ budgetInstructions budget = .ok requests ∧
        tx = ⟨requests ++ flow.preceding ++ own, accountKey .metadata flow.mint program,
          if flow.hasAttributes then some (accountKey .attributes flow.mint program)
          else none⟩ := by
  rw [compose_eq, bind_eq_ok_iff]
  refine exists_congr fun own => ?_
  rw [bind_eq_ok_iff]
  simp only [mapError_eq_ok_iff, return_eq_ok_iff, eq_comm (b := tx)]
  tauto

theorem compose_eq_error_iff {e : Fault} :
    flow.compose program budget = .error e ↔ flow.metadataInstructions program = .error e ∨
      (∃ own, flow.metadataInstructions program = .ok own) ∧
        (budgetInstructions budget).mapError .violation = .error e := by
  rw [compose_eq, bind_eq_error_iff]
  refine or_congr_right ?_
  constructor
  · rintro ⟨own, hown, h⟩
    rcases bind_eq_error_iff.mp h with hbudget | ⟨requests, -, hreturn⟩
    · exact ⟨⟨own, hown⟩, hbudget⟩
    · cases hreturn
  · rintro ⟨⟨own, hown⟩, hbudget⟩
    exact ⟨own, hown, bind_eq_error_iff.mpr (Or.inl hbudget)⟩

/-- A transaction names the accounts of its mint. -/
theorem addresses_of_compose {tx : Transaction} (h : flow.compose program budget = .ok tx) :
    tx.metadata = accountKey .metadata flow.mint program ∧
      tx.attributes =
        if flow.hasAttributes then some (accountKey .attributes flow.mint program) else none := by
  obtain ⟨own, requests, -, -, rfl⟩ := compose_eq_ok_iff.mp h
  exact ⟨rfl, rfl⟩

/-- The operations in the order in which their instructions are built: an update by a new authority
is built before the transfer to it. -/
def buildOrder : Flow → List Operation
  | transferThenUpdate mint authority newAuthority fields =>
    [.updateMetadata mint newAuthority fields, .transferAuthority mint authority newAuthority]
  | flow => flow.operations

/-- What is built for a transaction, in order. -/
def attempts (program : Key) (flow : Flow) (budget : Option Budget) :
    List (Except Fault Instruction) :=
  flow.buildOrder.map (Operation.build program) ++
    (budget.toList.flatMap Budget.attempts).map (·.mapError .violation)

theorem metadataInstructions_eq_ok_iff {own : List Instruction} :
    flow.metadataInstructions program = .ok own ↔
      List.Forall₂ (fun op ix => op.build program = .ok ix) flow.operations own := by
  cases flow with
  | transferThenUpdate =>
    rw [metadataInstructions, bind_eq_ok_iff]
    simp only [mapM_eq_ok_iff, return_eq_ok_iff]
    constructor
    · rintro ⟨built, hbuilt, rfl⟩
      rwa [← List.forall₂_reverse_iff, List.reverse_reverse]
    · intro h
      exact ⟨own.reverse, List.forall₂_reverse_iff.mpr h, own.reverse_reverse⟩
  | _ => exact mapM_eq_ok_iff

theorem metadataInstructions_eq_error_iff {e : Fault} :
    flow.metadataInstructions program = .error e ↔
      FirstFailure (flow.buildOrder.map (Operation.build program)) e := by
  cases flow with
  | transferThenUpdate =>
    rw [metadataInstructions, bind_eq_error_iff, mapM_eq_error_iff]
    simp only [return_ne_error, and_false, exists_false, or_false]
    rfl
  | _ => exact mapM_eq_error_iff

theorem compose_eq_error_iff_firstFailure {e : Fault} :
    flow.compose program budget = .error e ↔ FirstFailure (flow.attempts program budget) e := by
  rw [compose_eq_error_iff, attempts, firstFailure_append, firstFailure_mapError, forall_ok_iff,
    exists_eq_ok_iff, mapError_eq_error_iff]
  simp only [ne_eq, metadataInstructions_eq_error_iff, budgetInstructions_eq_error_iff]

/-- A flow has a transaction when all that its operations write is within the limits and the budget
can be built. -/
theorem exists_compose_iff : (∃ tx, flow.compose program budget = .ok tx) ↔
    (∀ op ∈ flow.operations, op.payload.Within) ∧
      ∃ requests, budgetInstructions budget = .ok requests := by
  simp only [compose_eq_ok_iff, metadataInstructions_eq_ok_iff, ← mapM_eq_ok_iff]
  constructor
  · rintro ⟨tx, own, requests, hown, hrequests, -⟩
    refine ⟨?_, requests, hrequests⟩
    intro op hop
    have hbuilt := List.mem_map_of_mem (f := Operation.build program) hop
    rw [mapM_eq_ok_iff_map.mp hown] at hbuilt
    obtain ⟨ix, -, hix⟩ := List.mem_map.mp hbuilt
    exact (Operation.build_eq_ok_iff.mp hix.symm).1
  · rintro ⟨hpayloads, requests, hrequests⟩
    have hbuild : ∀ op ∈ flow.operations, ∃ ix, op.build program = .ok ix := by
      intro op hop
      exact ⟨_, Operation.build_eq_ok_iff.mpr ⟨hpayloads op hop, rfl⟩⟩
    obtain ⟨own, hown⟩ := exists_mapM_eq_ok hbuild
    exact ⟨_, own, requests, hown, hrequests, rfl⟩

end Flow

end TokenMetadata
