import Mathlib
import TokenMetadata.Address
import TokenMetadata.Proofs.Success

/-!
# Seeds and addresses of accounts

Seeds are refused for their number first and then for the size of one of them. A bump counts as a
seed but is never too long, so which bump stands behind the seeds does not matter.

A hash has thirty-two bytes and the form of a point has more, so the curve test accepts no hash and
the first bump is always the last one tried. Every account of a token has an address.
-/

namespace TokenMetadata

namespace Address

section Seeds

/-- Seeds that a bump can be put behind. -/
def TakeBump (seeds : List Bytes) : Prop :=
  seeds.length ≤ 15 ∧ ∀ seed ∈ seeds, seed.length ≤ 32

instance (seeds : List Bytes) : Decidable (TakeBump seeds) := inferInstanceAs (Decidable (_ ∧ _))

/-- The address that seeds and a bump lead to. -/
def addressAt (seeds : List Bytes) (program : Key) (bump : UInt8) : Key :=
  Key.ofHash (seeds.flatten ++ [bump] ++ program.toBytes)

variable {test : CurveTest} {seeds : List Bytes} {program : Key} {f : SeedFault}

theorem ofHash_preimage (seeds : List Bytes) (program : Key) (bump : UInt8) :
    Key.ofHash (preimage (seeds ++ [[bump]]) program) = addressAt seeds program bump := by
  simp [preimage, addressAt]

theorem not_takeBump_iff :
    ¬ TakeBump seeds ↔ 15 < seeds.length ∨ ∃ seed ∈ seeds, 32 < seed.length := by
  rw [TakeBump, not_and_or, not_le]
  simp

theorem checkSizes_eq_ok_iff {index : Nat} :
    checkSizes index seeds = .ok () ↔ ∀ seed ∈ seeds, seed.length ≤ maxSeedSize := by
  induction seeds generalizing index with
  | nil => simp [checkSizes]
  | cons seed rest ih =>
    rw [checkSizes, List.forall_mem_cons]
    by_cases hlong : maxSeedSize < seed.length
    · rw [if_pos hlong]
      simp only [reduceCtorEq, false_iff, not_and]
      omega
    · rw [if_neg hlong, ih]
      simp only [not_lt.mp hlong, true_and]

theorem checkSizes_bump {index : Nat} (bump : UInt8) :
    checkSizes index (seeds ++ [[bump]]) = checkSizes index seeds := by
  induction seeds generalizing index with
  | nil => rfl
  | cons seed rest ih => rw [List.cons_append, checkSizes, checkSizes, ih]

theorem checkSeeds_eq_ok_iff : checkSeeds seeds = .ok () ↔
    seeds.length ≤ maxSeeds ∧ ∀ seed ∈ seeds, seed.length ≤ maxSeedSize := by
  rw [checkSeeds]
  by_cases hmany : maxSeeds < seeds.length
  · rw [if_pos hmany]
    simp only [reduceCtorEq, false_iff, not_and]
    omega
  · rw [if_neg hmany, checkSizes_eq_ok_iff]
    simp only [not_lt.mp hmany, true_and]

theorem checkSeeds_bump_eq (bump other : UInt8) :
    checkSeeds (seeds ++ [[bump]]) = checkSeeds (seeds ++ [[other]]) := by
  rw [checkSeeds, checkSeeds, checkSizes_bump, checkSizes_bump, List.length_append,
    List.length_append]
  rfl

theorem checkSeeds_bump_eq_ok_iff {bump : UInt8} :
    checkSeeds (seeds ++ [[bump]]) = .ok () ↔ TakeBump seeds := by
  have hcount : seeds.length + 1 ≤ maxSeeds ↔ seeds.length ≤ 15 := by
    rw [maxSeeds]
    omega
  have hbump : ∀ seed ∈ [[bump]], seed.length ≤ maxSeedSize :=
    List.forall_mem_singleton.mpr (by rw [List.length_singleton]; decide)
  rw [checkSeeds_eq_ok_iff, TakeBump, List.forall_mem_append, List.length_append,
    List.length_singleton, hcount]
  exact and_congr_right fun _ => and_iff_left hbump

theorem create_of_fault (h : checkSeeds seeds = .error f) :
    create test seeds program = .error f := by
  rw [create, h]
  rfl

theorem create_of_seeds (h : checkSeeds seeds = .ok ()) :
    create test seeds program =
      if test 0 (Key.ofHash (preimage seeds program)).toBytes then .error .onCurve
      else .ok (Key.ofHash (preimage seeds program)) := by
  rw [create, h]
  rfl

theorem create_bump (h : TakeBump seeds) (bump : UInt8) :
    create test (seeds ++ [[bump]]) program =
      if test 0 (addressAt seeds program bump).toBytes then .error .onCurve
      else .ok (addressAt seeds program bump) := by
  rw [create_of_seeds (checkSeeds_bump_eq_ok_iff.mpr h), ofHash_preimage]

theorem find_of_fault (h : checkSeeds (seeds ++ [[0]]) = .error f) :
    find test seeds program = .error (.seeds f) := by
  rw [find, h]
  rfl

theorem find_of_takeBump (h : TakeBump seeds) :
    find test seeds program = match search test seeds program 0 255 with
      | some d => .ok d
      | none => .error (.exhausted seeds.length) := by
  rw [find, checkSeeds_bump_eq_ok_iff.mpr h]
  rfl

theorem find_eq_seeds_iff :
    find test seeds program = .error (.seeds f) ↔ checkSeeds (seeds ++ [[0]]) = .error f := by
  cases hcheck : checkSeeds (seeds ++ [[0]]) with
  | error g => simp [find_of_fault hcheck]
  | ok u =>
    rw [find_of_takeBump (checkSeeds_bump_eq_ok_iff.mp hcheck)]
    cases search test seeds program 0 255 <;> simp

theorem takeBump_of_find {d : Derived} (h : find test seeds program = .ok d) : TakeBump seeds := by
  obtain ⟨_, hcheck, -⟩ := bind_eq_ok_iff.mp h
  exact checkSeeds_bump_eq_ok_iff.mp (mapError_eq_ok_iff.mp hcheck)

theorem takeBump_of_find_exhausted {n : Nat}
    (h : find test seeds program = .error (.exhausted n)) : TakeBump seeds := by
  cases hcheck : checkSeeds (seeds ++ [[0]]) with
  | error g =>
    rw [find_of_fault hcheck] at h
    cases h
  | ok u => exact checkSeeds_bump_eq_ok_iff.mp hcheck

end Seeds

end Address

theorem Curve.isOnCurve_of_short {b : Bytes} (h : b.length ≤ 32) : isOnCurve b = false := by
  cases b with
  | nil => rfl
  | cons tag body =>
    rw [List.length_cons] at h
    have hcompressed : ¬ body.length = 32 := by omega
    have hfull : ¬ (body.length = 64 ∧ tag = 4) := by omega
    rw [isOnCurve, decodePoint?, if_neg hcompressed, if_neg hfull]
    rfl

namespace Address

theorem curveTest_address (call : Nat) (a : Key) : curveTest call a.toBytes = false :=
  Curve.isOnCurve_of_short a.length_toBytes.le

theorem search_curveTest (seeds : List Bytes) (program : Key) (call bump : Nat) :
    search curveTest seeds program call (bump + 1) =
      some ⟨Key.ofHash (preimage (seeds ++ [[UInt8.ofNat (bump + 1)]]) program),
        UInt8.ofNat (bump + 1)⟩ := by
  simp only [search, curveTest_address, Bool.false_eq_true, if_false]

theorem find_curveTest {seeds : List Bytes} (program : Key)
    (h : checkSeeds (seeds ++ [[0]]) = .ok ()) :
    find curveTest seeds program =
      .ok ⟨Key.ofHash (preimage (seeds ++ [[255]]) program), 255⟩ := by
  rw [find, h, search_curveTest]
  rfl

theorem Kind.length_seed_le (kind : Kind) : kind.seed.length ≤ maxSeedSize := by
  cases kind <;> decide

theorem checkSeeds_ofMint (kind : Kind) (mint : Key) (bump : UInt8) :
    checkSeeds ([kind.seed, mint.toBytes] ++ [[bump]]) = .ok () := by
  refine checkSeeds_bump_eq_ok_iff.mpr ⟨by simp, ?_⟩
  simp only [List.forall_mem_cons, List.not_mem_nil, IsEmpty.forall_iff, implies_true, and_true]
  exact ⟨kind.length_seed_le, mint.length_toBytes.le⟩

/-- Where an account of a token is: its address is found with the first bump. -/
def accountKey (kind : Kind) (mint program : Key) : Key :=
  Key.ofHash (preimage [kind.seed, mint.toBytes, [255]] program)

theorem derive_eq (kind : Kind) (mint program : Key) :
    derive kind mint program = .ok ⟨accountKey kind mint program, 255⟩ :=
  find_curveTest program (checkSeeds_ofMint kind mint 0)

@[simp] theorem ofMint_eq (kind : Kind) (mint program : Key) :
    ofMint kind mint program = .ok (accountKey kind mint program) := by
  rw [ofMint, derive_eq]
  rfl

end Address

end TokenMetadata
