import Mathlib
import TokenMetadata.Settings
import TokenMetadata.Proofs.Budget

/-!
# Budget numbers in settings

The limit of units and the heap are checked twice, when settings are read and when transactions are
composed. Both checks let the same pairs of numbers through, whatever their size and sign. Refused
settings have a row for each of the two numbers that is wrong, and accepted ones ask for exactly the
numbers that are present.
-/

namespace TokenMetadata.Settings

open Budget

section

variable {accept : Datum → Except Violation UInt32} {chosen : Option Int} {o : Option UInt32}
  {c : Choices} {s : Settings}

theorem acceptChoice_eq_ok_iff :
    acceptChoice accept (.ok chosen) = .ok o ↔
      Option.Rel (fun n w => accept (.int n) = .ok w) chosen o :=
  mapError_eq_ok_iff.trans option_mapM_eq_ok_iff

theorem acceptChoice_eq_error_iff {e : Refusal} :
    acceptChoice accept (.ok chosen) = .error e ↔
      ∃ n ∈ chosen, ∃ v, accept (.int n) = .error v ∧ e = .outOfLimits v := by
  change (chosen.mapM fun n => accept (.int n)).mapError .outOfLimits = .error e ↔ _
  rw [mapError_eq_error_iff]
  cases chosen with
  | none => simp [pure, Except.pure]
  | some n =>
    simp only [Option.mapM_some, map_eq_error_iff, Option.mem_def, Option.some.injEq,
      exists_eq_left', eq_comm (a := e)]

theorem mem_refusalOf_iff {α : Type} {name : String} {x : Except Refusal α}
    {row : String × Refusal} : row ∈ refusalOf name x ↔ ∃ e, x = .error e ∧ row = (name, e) := by
  cases x <;> simp [refusalOf]

theorem ofChoices_eq_ok_iff :
    ofChoices c = .ok s ↔
      acceptChoice (acceptWord "compute_unit_limit") c.computeUnitLimit =
          .ok s.computeUnitLimit ∧
        acceptChoice acceptHeap c.heapBytes = .ok s.heapBytes ∧ c.network = .ok s.network ∧
          s.programId = c.programId ∧ s.rpcUrl = c.rpcUrl ∧ s.fixturesPath = c.fixturesPath := by
  constructor
  · intro h
    rw [ofChoices] at h
    split at h
    · rename_i hunits hheap hnetwork
      obtain rfl := Except.ok.inj h
      exact ⟨hunits, hheap, hnetwork, rfl, rfl, rfl⟩
    · cases h
  · rintro ⟨hunits, hheap, hnetwork, hprogram, hurl, hpath⟩
    rw [ofChoices, hunits, hheap, hnetwork, ← hprogram, ← hurl, ← hpath]

theorem eq_rows_of_ofChoices {rows : Refusals} (h : ofChoices c = .error rows) :
    rows = refusalOf "compute_unit_limit"
        (acceptChoice (acceptWord "compute_unit_limit") c.computeUnitLimit) ++
      refusalOf "heap_bytes" (acceptChoice acceptHeap c.heapBytes) ++
        refusalOf "network" c.network := by
  rw [ofChoices] at h
  split at h
  · cases h
  · exact (Except.error.inj h).symm

end

/-- The rows for two numbers. -/
inductive IsRow (units heap : Option Int) : String × Refusal → Prop
  | units {n : Int} : n ∈ units → ¬ IsWord n →
    IsRow units heap ("compute_unit_limit", .outOfLimits ⟨"compute_unit_limit", .outOfWord n⟩)
  | heap {n : Int} {v : Violation} : n ∈ heap → HeapFlaw n v →
    IsRow units heap ("heap_bytes", .outOfLimits v)

section

variable {c : Choices} {s : Settings} {network : Network} {units heap : Option Int}
  (hnetwork : c.network = .ok network) (hunits : c.computeUnitLimit = .ok units)
  (hheap : c.heapBytes = .ok heap)

include hnetwork hunits hheap in
/-- Settings keep the numbers as they were chosen. -/
theorem ofChoices_eq_ok_iff_integer :
    ofChoices c = .ok s ↔ units = integer s.computeUnitLimit ∧
      (heap = integer s.heapBytes ∧ ∀ w ∈ s.heapBytes, 1024 ∣ w.toNat) ∧
        network = s.network ∧ s.programId = c.programId ∧ s.rpcUrl = c.rpcUrl ∧
          s.fixturesPath = c.fixturesPath := by
  have hword : Option.Rel (fun n w => acceptWord "compute_unit_limit" (.int n) = .ok w) units
      s.computeUnitLimit ↔ units = integer s.computeUnitLimit := by
    simpa [acceptWord_eq_ok_iff] using
      rel_integer_iff (p := fun _ => True) (n := units) (w := s.computeUnitLimit)
  have hsize : Option.Rel (fun n w => acceptHeap (.int n) = .ok w) heap s.heapBytes ↔
      heap = integer s.heapBytes ∧ ∀ w ∈ s.heapBytes, 1024 ∣ w.toNat := by
    simpa [acceptHeap_eq_ok_iff] using
      rel_integer_iff (p := fun w => 1024 ∣ w.toNat) (n := heap) (w := s.heapBytes)
  rw [ofChoices_eq_ok_iff, hunits, hheap, hnetwork, acceptChoice_eq_ok_iff,
    acceptChoice_eq_ok_iff, hword, hsize, Except.ok.injEq]

include hnetwork hunits hheap in
theorem exists_ofChoices_iff : (∃ s, ofChoices c = .ok s) ↔ Fits units heap := by
  simp only [ofChoices_eq_ok_iff_integer hnetwork hunits hheap, fits_iff_integer]
  constructor
  · rintro ⟨s, hu, ⟨hh, haligned⟩, -⟩
    exact ⟨s.computeUnitLimit, s.heapBytes, ⟨hu, hh⟩, haligned⟩
  · rintro ⟨u, h, ⟨hu, hh⟩, haligned⟩
    exact ⟨⟨c.programId, network, u, h, c.rpcUrl, c.fixturesPath⟩, hu, ⟨hh, haligned⟩, rfl, rfl,
      rfl, rfl⟩

theorem budgetInstructions_budget (s : Settings) :
    budgetInstructions s.budget =
      (ofNumbers (integer s.computeUnitLimit) (integer s.heapBytes)).instructions := by
  have hnumber : ∀ w : Option UInt32, number w = (integer w).map .int := by
    intro w
    cases w <;> rfl
  rw [budget]
  split
  · rename_i hnone
    rw [hnone.1, hnone.2]
    rfl
  · rw [hnumber, hnumber]
    rfl

include hnetwork hunits hheap in
/-- There is a row for each number that is wrong, and no other. -/
theorem rows_of_ofChoices {rows : Refusals} (h : ofChoices c = .error rows) :
    (rows.map (·.1)).Pairwise (· < ·) ∧ ∀ row, row ∈ rows ↔ IsRow units heap row := by
  obtain rfl := eq_rows_of_ofChoices h
  rw [hunits, hheap, hnetwork]
  constructor
  · have horder : "compute_unit_limit" < "heap_bytes" := by decide +kernel
    cases acceptChoice (acceptWord "compute_unit_limit") (.ok units) <;>
      cases acceptChoice acceptHeap (.ok heap)
    case error.error => exact List.pairwise_pair.mpr horder
    all_goals simp [refusalOf]
  · intro row
    rw [List.mem_append, List.mem_append, mem_refusalOf_iff, mem_refusalOf_iff,
      mem_refusalOf_iff]
    simp only [acceptChoice_eq_error_iff, acceptWord_int_eq_error_iff, acceptHeap_int_eq_error_iff]
    constructor
    · rintro ((⟨e, ⟨n, hn, v, ⟨hword, rfl⟩, rfl⟩, rfl⟩ | ⟨e, ⟨n, hn, v, hflaw, rfl⟩, rfl⟩) |
        ⟨e, he, -⟩)
      · exact .units hn hword
      · exact .heap hn hflaw
      · cases he
    · intro hrow
      cases hrow with
      | units hn hword => exact Or.inl (Or.inl ⟨_, ⟨_, hn, _, ⟨hword, rfl⟩, rfl⟩, rfl⟩)
      | heap hn hflaw => exact Or.inl (Or.inr ⟨_, ⟨_, hn, _, hflaw, rfl⟩, rfl⟩)

end

/-- What two numbers come to in settings and in transactions. A number that is zero is present. -/
structure TakesAlike (c : Choices) (units heap : Option Int) : Prop where
  accepted_iff : (∃ s, ofChoices c = .ok s) ↔ Fits units heap
  built_iff : (∃ is, budgetInstructions (some (ofNumbers units heap)) = .ok is) ↔ Fits units heap
  refused : ∀ rows, ofChoices c = .error rows →
    (rows.map (·.1)).Pairwise (· < ·) ∧ ∀ row, row ∈ rows ↔ IsRow units heap row
  requested : ∀ s, ofChoices c = .ok s → ∃ is, budgetInstructions s.budget = .ok is ∧
    budgetInstructions (some (ofNumbers units heap)) = .ok is ∧
      List.Forall₂ (fun r i => Asks r.1 r.2 i) (wanted units heap) is

/-- Settings take two numbers when a transaction does, and ask for them as a transaction does; and
whatever a transaction is given, its writer is left with numbers that fit. -/
theorem settings_and_transactions_take_alike {c : Choices} {network : Network}
    {units heap : Option Int} (hnetwork : c.network = .ok network)
    (hunits : c.computeUnitLimit = .ok units) (hheap : c.heapBytes = .ok heap) :
    TakesAlike c units heap ∧
      ∀ b : Budget, b.checkedInstructions = b.instructions.mapError .violation where
  left := {
    accepted_iff := exists_ofChoices_iff hnetwork hunits hheap
    built_iff := exists_instructions_iff
    refused := fun rows => rows_of_ofChoices hnetwork hunits hheap
    requested := by
      intro s h
      obtain ⟨rfl, ⟨rfl, -⟩, -⟩ := (ofChoices_eq_ok_iff_integer hnetwork hunits hheap).mp h
      obtain ⟨is, his⟩ := exists_instructions_iff.mpr
        ((exists_ofChoices_iff hnetwork hunits hheap).mp ⟨s, h⟩)
      exact ⟨is, (budgetInstructions_budget s).trans his, his, asks_of_instructions his⟩ }
  right := checkedInstructions_eq

/-- Variables for a limit that is zero and a heap of 64 KiB. -/
def sampleEnvironment : Environment :=
  [("arch_metadata_compute_unit_limit", "0"), ("ARCH_METADATA_HEAP_BYTES", " +65_536 ")]

/-- Variables for a limit below zero and a heap between two units. -/
def wrongEnvironment : Environment :=
  [("ARCH_METADATA_COMPUTE_UNIT_LIMIT", "-1"), ("ARCH_METADATA_HEAP_BYTES", "1025")]

theorem settings_and_transactions_take_alike_zero_and_odd :
    (∃ s is, ofEnvironment sampleEnvironment = .ok s ∧ budgetInstructions s.budget = .ok is ∧
      List.Forall₂ (fun r i => Asks r.1 r.2 i) [(1, 0), (0, 65536)] is) ∧
    ∃ rows, ofEnvironment wrongEnvironment = .error rows ∧
      ("compute_unit_limit", .outOfLimits ⟨"compute_unit_limit", .outOfWord (-1)⟩) ∈ rows ∧
      ("heap_bytes", .outOfLimits ⟨"heap_bytes", .unaligned 1025 1024⟩) ∈ rows := by
  have hsample : TakesAlike (.ofEnvironment sampleEnvironment) (some 0) (some 65536) :=
    And.left (settings_and_transactions_take_alike
      (show _ = Except.ok Network.regtest by decide +kernel) (by decide +kernel)
      (by decide +kernel))
  have hwrong : TakesAlike (.ofEnvironment wrongEnvironment) (some (-1)) (some 1025) :=
    And.left (settings_and_transactions_take_alike
      (show _ = Except.ok Network.regtest by decide +kernel) (by decide +kernel)
      (by decide +kernel))
  constructor
  · obtain ⟨s, hs⟩ := hsample.accepted_iff.mpr ⟨by simp [IsWord], by simp [IsHeap, IsWord]⟩
    obtain ⟨is, his, -, hasks⟩ := hsample.requested s hs
    exact ⟨s, is, hs, his, hasks⟩
  · have hnone : ¬ ∃ s, ofChoices (.ofEnvironment wrongEnvironment) = .ok s := by
      rw [hwrong.accepted_iff]
      rintro ⟨hunits, -⟩
      exact absurd (hunits _ rfl).1 (by decide)
    cases hrows : ofChoices (.ofEnvironment wrongEnvironment) with
    | ok s => exact absurd ⟨s, hrows⟩ hnone
    | error rows =>
      have hmem := (hwrong.refused rows hrows).2
      refine ⟨rows, hrows, (hmem _).mpr (.units rfl fun h => absurd h.1 (by decide)), ?_⟩
      exact (hmem _).mpr (.heap rfl (.unaligned (by simp [IsWord]) (by decide)))

end TokenMetadata.Settings
