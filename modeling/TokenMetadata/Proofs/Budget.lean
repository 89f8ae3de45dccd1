import Mathlib
import TokenMetadata.Budget
import TokenMetadata.Proofs.Bytes
import TokenMetadata.Proofs.Success

/-!
# Numbers of budget requests

The numbers that requests take, and the eight bytes that hold them: both numbers are read back from
the data as they were given. A number that passes its check always fits into its bytes, so the
writer of the data never has a reason to refuse one.
-/

namespace TokenMetadata

/-- A number of thirty-two bits. -/
def IsWord (n : Int) : Prop := 0 ≤ n ∧ n ≤ 4294967295

/-- A number of thirty-two bits in whole units of heap. -/
def IsHeap (n : Int) : Prop := IsWord n ∧ 1024 ∣ n

/-- What is wrong with a heap size. -/
inductive HeapFlaw (n : Int) : Violation → Prop
  | outOfWord : ¬ IsWord n → HeapFlaw n ⟨"heap_bytes", .outOfWord n⟩
  | unaligned : IsWord n → ¬ 1024 ∣ n → HeapFlaw n ⟨"heap_bytes", .unaligned n.toNat 1024⟩

section

variable {field : String} {n : Int} {v : Datum} {w : UInt32} {e : Violation}

theorem isWord_toNat (w : UInt32) : IsWord w.toNat := by
  have hw := w.toNat_lt
  constructor <;> omega

theorem toNat_ofNat_of_isWord (h : IsWord n) : (UInt32.ofNat n.toNat).toNat = n.toNat := by
  obtain ⟨hlow, hhigh⟩ := h
  rw [UInt32.toNat_ofNat']
  omega

theorem acceptWord_int (field : String) (n : Int) :
    (IsWord n ∧ acceptWord field (.int n) = .ok (UInt32.ofNat n.toNat)) ∨
      (¬ IsWord n ∧ acceptWord field (.int n) = .error ⟨field, .outOfWord n⟩) := by
  by_cases h : n < 0 ∨ (Violation.wordMax : Int) < n
  · have hout : ¬ IsWord n := by
      rintro ⟨hlow, hhigh⟩
      simp only [Violation.wordMax] at h
      omega
    exact Or.inr ⟨hout, if_pos h⟩
  · have hin : IsWord n := by
      simp only [Violation.wordMax] at h
      constructor <;> omega
    exact Or.inl ⟨hin, if_neg h⟩

/-- What is accepted is the very number. -/
theorem acceptWord_eq_ok_iff : acceptWord field v = .ok w ↔ v = .int w.toNat := by
  cases v with
  | int n =>
    rw [Datum.int.injEq]
    rcases acceptWord_int field n with ⟨hword, h⟩ | ⟨hword, h⟩
    · rw [h, Except.ok.injEq]
      have hvalue := toNat_ofNat_of_isWord hword
      obtain ⟨hlow, -⟩ := hword
      constructor
      · rintro rfl
        omega
      · intro hn
        apply UInt32.toNat_inj.mp
        omega
    · rw [h]
      constructor
      · intro himpossible
        cases himpossible
      · rintro rfl
        exact absurd (isWord_toNat w) hword
  | _ => simp [acceptWord]

theorem acceptWord_int_eq_error_iff :
    acceptWord field (.int n) = .error e ↔ ¬ IsWord n ∧ e = ⟨field, .outOfWord n⟩ := by
  rcases acceptWord_int field n with ⟨hword, h⟩ | ⟨hword, h⟩
  · simp [h, hword]
  · simp [h, hword, eq_comm]

theorem exists_acceptWord_iff : (∃ w, acceptWord field (.int n) = .ok w) ↔ IsWord n := by
  rcases acceptWord_int field n with ⟨hword, h⟩ | ⟨hword, h⟩
  · simp [h, hword]
  · simp [h, hword]

theorem acceptHeap_eq_ok_iff : acceptHeap v = .ok w ↔ v = .int w.toNat ∧ 1024 ∣ w.toNat := by
  rw [acceptHeap, bind_eq_ok_iff]
  simp only [acceptWord_eq_ok_iff, heapUnit]
  constructor
  · rintro ⟨w', rfl, h⟩
    obtain ⟨haligned, hreturn⟩ := refuse_eq_ok_iff.mp h
    obtain rfl := return_eq_ok_iff.mp hreturn
    exact ⟨rfl, Nat.dvd_of_mod_eq_zero (not_not.mp haligned)⟩
  · rintro ⟨rfl, hdvd⟩
    exact ⟨w, rfl, refuse_eq_ok_iff.mpr ⟨not_not.mpr (Nat.mod_eq_zero_of_dvd hdvd), rfl⟩⟩

theorem acceptHeap_int_eq_error_iff : acceptHeap (.int n) = .error e ↔ HeapFlaw n e := by
  rw [acceptHeap, bind_eq_error_iff, acceptWord_int_eq_error_iff]
  constructor
  · rintro (⟨hword, rfl⟩ | ⟨w, hw, h⟩)
    · exact .outOfWord hword
    · obtain rfl := Datum.int.inj (acceptWord_eq_ok_iff.mp hw)
      split at h
      · rename_i hunaligned
        obtain rfl := Except.error.inj h
        refine .unaligned (isWord_toNat w) fun hdvd => hunaligned ?_
        exact Nat.mod_eq_zero_of_dvd (Int.natCast_dvd_natCast.mp hdvd)
      · cases h
  · intro hflaw
    cases hflaw with
    | outOfWord hword => exact Or.inl ⟨hword, rfl⟩
    | unaligned hword hdvd =>
      obtain ⟨w, hw⟩ := exists_acceptWord_iff.mpr hword
      refine Or.inr ⟨w, hw, ?_⟩
      obtain rfl := Datum.int.inj (acceptWord_eq_ok_iff.mp hw)
      have hunaligned : w.toNat % heapUnit ≠ 0 := fun hmod =>
        hdvd (Int.natCast_dvd_natCast.mpr (Nat.dvd_of_mod_eq_zero hmod))
      rw [if_pos hunaligned]
      rfl

end

namespace Budget

/-- The instruction asks for the number, and does nothing else. -/
structure Asks (which : Nat) (number : Int) (i : Instruction) : Prop where
  program : i.program = Program.budgetId
  accounts : i.accounts = []
  size : i.data.length = 8
  which : Bytes.toNatLE (i.data.take 4) = which
  number : (Bytes.toNatLE (i.data.drop 4) : Int) = number

theorem toNatLE_word (w : UInt32) : Bytes.toNatLE (Bytes.ofNatLE 4 w.toNat) = w.toNat := by
  have hw := w.toNat_lt
  rw [Bytes.toNatLE_ofNatLE]
  omega

theorem asks_instruction (which number : UInt32) :
    Asks which.toNat number.toNat (instruction which number) where
  program := rfl
  accounts := rfl
  size := by simp [instruction, request]
  which := by
    have htake : (request which number).take 4 = Bytes.ofNatLE 4 which.toNat :=
      List.take_left' (Bytes.length_ofNatLE _ _)
    rw [instruction, htake, toNatLE_word]
  number := by
    have hdrop : (request which number).drop 4 = Bytes.ofNatLE 4 number.toNat :=
      List.drop_left' (Bytes.length_ofNatLE _ _)
    rw [instruction, hdrop, toNatLE_word]

theorem acceptField_word (w : UInt32) : acceptField 32 (.int w.toNat) = .ok w.toNat := by
  have hfits : (0 : Int) ≤ w.toNat ∧ (w.toNat : Int).toNat < Nat.pow 2 32 :=
    ⟨Int.natCast_nonneg _, w.toNat_lt⟩
  rw [acceptField, Datum.toInt?]
  exact if_pos hfits

theorem encode_word (which number : UInt32) :
    encode (.int which.toNat) (.int number.toNat) = .ok (request which number) := by
  have hwhich : UInt32.ofNat which.toNat = which := UInt32.ofNat_toNat
  have hnumber : UInt32.ofNat number.toNat = number := UInt32.ofNat_toNat
  rw [encode, acceptField_word, acceptField_word, ok_bind, ok_bind, hwhich, hnumber]
  rfl

/-- A number is checked, and then written as it was given by a writer with a check of its own. -/
def checkedInstruction (accept : Datum → Except Violation UInt32) (which : UInt32) (v : Datum) :
    Except Fault Instruction := do
  let _ ← accept v
  let data ← encode (.int which.toNat) v
  return ⟨Program.budgetId, [], data⟩

def checkedInstructions (b : Budget) : Except Fault (List Instruction) := do
  let units ← b.units.mapM (checkedInstruction (acceptWord "units") unitsRequest)
  let heap ← b.heapBytes.mapM (checkedInstruction acceptHeap heapRequest)
  return units.toList ++ heap.toList

/-- Behind a check that only takes numbers of thirty-two bits, the writer refuses nothing. -/
theorem checkedInstruction_eq {accept : Datum → Except Violation UInt32}
    (haccept : ∀ v w, accept v = .ok w → v = .int w.toNat) (which : UInt32) (v : Datum) :
    checkedInstruction accept which v = (instruction which <$> accept v).mapError .violation := by
  rw [checkedInstruction]
  cases h : accept v with
  | error e => rfl
  | ok w =>
    obtain rfl := haccept v w h
    rw [encode_word]
    rfl

theorem checkedInstructions_eq (b : Budget) :
    b.checkedInstructions = b.instructions.mapError .violation := by
  have hunits : checkedInstruction (acceptWord "units") unitsRequest =
      fun v => (unitsInstruction v).mapError .violation :=
    funext (checkedInstruction_eq (fun _ _ => acceptWord_eq_ok_iff.mp) unitsRequest)
  have hheap : checkedInstruction acceptHeap heapRequest =
      fun v => (heapInstruction v).mapError .violation :=
    funext (checkedInstruction_eq (fun _ _ h => (acceptHeap_eq_ok_iff.mp h).1) heapRequest)
  rw [checkedInstructions, instructions, hunits, hheap, option_mapM_mapError,
    option_mapM_mapError]
  cases b.units.mapM unitsInstruction with
  | error e => rfl
  | ok units =>
    cases b.heapBytes.mapM heapInstruction with
    | error e => rfl
    | ok heap => rfl

/-- The number that an optional word stands for. -/
def integer (w : Option UInt32) : Option Int := w.map fun w => w.toNat

theorem rel_integer_iff {p : UInt32 → Prop} {n : Option Int} {w : Option UInt32} :
    Option.Rel (fun n w => n = (w.toNat : Int) ∧ p w) n w ↔ n = integer w ∧ ∀ x ∈ w, p x := by
  constructor
  · intro h
    cases h with
    | none => exact ⟨rfl, by simp⟩
    | some h =>
      obtain ⟨rfl, hp⟩ := h
      exact ⟨rfl, by simpa using hp⟩
  · rintro ⟨rfl, hp⟩
    cases w with
    | none => exact .none
    | some x => exact .some ⟨rfl, hp x rfl⟩

theorem unitsInstruction_eq_ok_iff {v : Datum} {i : Instruction} :
    unitsInstruction v = .ok i ↔
      ∃ w : UInt32, v = .int w.toNat ∧ i = instruction unitsRequest w := by
  rw [unitsInstruction, map_eq_ok_iff]
  simp only [acceptWord_eq_ok_iff, eq_comm (b := i)]

theorem heapInstruction_eq_ok_iff {v : Datum} {i : Instruction} :
    heapInstruction v = .ok i ↔
      ∃ w : UInt32, v = .int w.toNat ∧ 1024 ∣ w.toNat ∧ i = instruction heapRequest w := by
  rw [heapInstruction, map_eq_ok_iff]
  simp only [acceptHeap_eq_ok_iff, and_assoc, eq_comm (b := i)]

/-- A budget is built from words, of which the heap is in whole units. -/
theorem instructions_eq_ok_iff {b : Budget} {is : List Instruction} :
    b.instructions = .ok is ↔ ∃ units heap : Option UInt32,
      b = ⟨(integer units).map .int, (integer heap).map .int⟩ ∧ (∀ w ∈ heap, 1024 ∣ w.toNat) ∧
        is = (units.map (instruction unitsRequest)).toList ++
          (heap.map (instruction heapRequest)).toList := by
  obtain ⟨bunits, bheap⟩ := b
  simp only [instructions, bind_eq_ok_iff, return_eq_ok_iff, option_mapM_eq_ok_iff]
  constructor
  · rintro ⟨units, hunits, heap, hheap, rfl⟩
    obtain ⟨w, rfl, rfl⟩ : ∃ w : Option UInt32,
        bunits = (integer w).map .int ∧ units = w.map (instruction unitsRequest) := by
      cases hunits with
      | none => exact ⟨none, rfl, rfl⟩
      | some h =>
        obtain ⟨w, rfl, rfl⟩ := unitsInstruction_eq_ok_iff.mp h
        exact ⟨some w, rfl, rfl⟩
    obtain ⟨x, rfl, hx, rfl⟩ : ∃ x : Option UInt32, bheap = (integer x).map .int ∧
        (∀ w ∈ x, 1024 ∣ w.toNat) ∧ heap = x.map (instruction heapRequest) := by
      cases hheap with
      | none => exact ⟨none, rfl, by simp, rfl⟩
      | some h =>
        obtain ⟨x, rfl, hx, rfl⟩ := heapInstruction_eq_ok_iff.mp h
        exact ⟨some x, rfl, by simpa using hx, rfl⟩
    exact ⟨w, x, rfl, hx, rfl⟩
  · rintro ⟨units, heap, hb, haligned, rfl⟩
    cases hb
    refine ⟨_, ?_, _, ?_, rfl⟩
    · cases units with
      | none => exact .none
      | some w => exact .some (unitsInstruction_eq_ok_iff.mpr ⟨w, rfl, rfl⟩)
    · cases heap with
      | none => exact .none
      | some w => exact .some (heapInstruction_eq_ok_iff.mpr ⟨w, rfl, haligned w rfl, rfl⟩)

/-- The numbers that are there can be asked for. -/
structure Fits (units heap : Option Int) : Prop where
  units : ∀ n ∈ units, IsWord n
  heap : ∀ n ∈ heap, IsHeap n

/-- The budget of a caller who gives integers. -/
def ofNumbers (units heap : Option Int) : Budget := ⟨units.map .int, heap.map .int⟩

/-- The requests of two numbers, each of which may be missing: which one it is, and the number. -/
def wanted (units heap : Option Int) : List (Nat × Int) :=
  (units.map fun n => (1, n)).toList ++ (heap.map fun n => (0, n)).toList

section

variable {units heap : Option Int} {is : List Instruction}

theorem ofNumbers_eq_iff {u h : Option Int} :
    ofNumbers units heap = ⟨u.map .int, h.map .int⟩ ↔ units = u ∧ heap = h := by
  have hinj : Function.Injective (Option.map Datum.int) :=
    Option.map_injective fun _ _ h => Datum.int.inj h
  rw [ofNumbers, mk.injEq, hinj.eq_iff, hinj.eq_iff]

/-- Numbers that can be asked for are those that words stand for. -/
theorem fits_iff_integer :
    Fits units heap ↔ ∃ u h : Option UInt32,
      (units = integer u ∧ heap = integer h) ∧ ∀ w ∈ h, 1024 ∣ w.toNat := by
  have hword : ∀ n : Option Int, (∀ x ∈ n, IsWord x) → ∃ w, n = integer w := by
    intro n hn
    cases n with
    | none => exact ⟨none, rfl⟩
    | some x =>
      have hx := hn x rfl
      refine ⟨some (UInt32.ofNat x.toNat), ?_⟩
      rw [integer, Option.map_some, toNat_ofNat_of_isWord hx, Int.toNat_of_nonneg hx.1]
  constructor
  · rintro ⟨hunits, hheap⟩
    obtain ⟨u, rfl⟩ := hword units hunits
    obtain ⟨h, rfl⟩ := hword heap fun n hn => (hheap n hn).1
    refine ⟨u, h, ⟨rfl, rfl⟩, ?_⟩
    intro w hw
    have hsize := hheap w.toNat (Option.map_eq_some_iff.mpr ⟨w, hw, rfl⟩)
    exact Int.natCast_dvd_natCast.mp hsize.2
  · rintro ⟨u, h, ⟨rfl, rfl⟩, haligned⟩
    constructor
    · intro n hn
      obtain ⟨w, -, rfl⟩ := Option.map_eq_some_iff.mp hn
      exact isWord_toNat w
    · intro n hn
      obtain ⟨w, hw, rfl⟩ := Option.map_eq_some_iff.mp hn
      exact ⟨isWord_toNat w, Int.natCast_dvd_natCast.mpr (haligned w hw)⟩

theorem exists_instructions_iff :
    (∃ is, (ofNumbers units heap).instructions = .ok is) ↔ Fits units heap := by
  simp only [instructions_eq_ok_iff, ofNumbers_eq_iff, fits_iff_integer]
  constructor
  · rintro ⟨is, u, h, hnumbers, haligned, -⟩
    exact ⟨u, h, hnumbers, haligned⟩
  · rintro ⟨u, h, hnumbers, haligned⟩
    exact ⟨_, u, h, hnumbers, haligned, rfl⟩

theorem asks_of_instructions (h : (ofNumbers units heap).instructions = .ok is) :
    List.Forall₂ (fun r i => Asks r.1 r.2 i) (wanted units heap) is := by
  obtain ⟨u, w, hnumbers, -, rfl⟩ := instructions_eq_ok_iff.mp h
  obtain ⟨rfl, rfl⟩ := ofNumbers_eq_iff.mp hnumbers
  refine List.rel_append ?_ ?_
  · cases u with
    | none => exact .nil
    | some x => exact .cons (asks_instruction unitsRequest x) .nil
  · cases w with
    | none => exact .nil
    | some x => exact .cons (asks_instruction heapRequest x) .nil

end

end Budget

end TokenMetadata
