import Mathlib
import TokenMetadata.Proofs.Address
import TokenMetadata.Proofs.Address.Search
import TokenMetadata.Proofs.Curve.Encoding

/-!
# The first bump is the last

The curve's own test accepts the two forms of a point and nothing else. Both are longer than a hash,
so no address is accepted: the search asks the test once, and seeds that are taken always have an
address, with a bump or without.
-/

namespace TokenMetadata.Address

open Curve

variable {seeds : List Bytes} {program : Key}

theorem find_curveTest_eq (program : Key) (h : TakeBump seeds) :
    find curveTest seeds program = .ok ⟨addressAt seeds program 255, 255⟩ := by
  rw [find_curveTest program (checkSeeds_bump_eq_ok_iff.mpr h), ofHash_preimage]

theorem asked_curveTest (program : Key) (h : TakeBump seeds) :
    ((findOnRecord curveTest seeds program).run []).2 = [addressAt seeds program 255] := by
  rw [run_findOnRecord h, search_curveTest]
  rfl

theorem create_curveTest (program : Key) (hcount : seeds.length ≤ 16)
    (hsizes : ∀ seed ∈ seeds, seed.length ≤ 32) :
    create curveTest seeds program = .ok (Key.ofHash (seeds.flatten ++ program.toBytes)) := by
  rw [create_of_seeds (checkSeeds_eq_ok_iff.mpr ⟨hcount, hsizes⟩), curveTest_address]
  rfl

theorem find_curveTest_ne_exhausted (seeds : List Bytes) (program : Key) (n : Nat) :
    find curveTest seeds program ≠ .error (.exhausted n) := by
  intro h
  rw [find_curveTest_eq program (takeBump_of_find_exhausted h)] at h
  cases h

/-- The curve's own test accepts the forms of points, and therefore no address: the search never
goes on from its first bump, never runs out of bumps, and no seeds are refused for their address. -/
theorem first_bump_is_found :
    (∀ b, isOnCurve b = true ↔ IsCompressed b ∨ IsUncompressed b) ∧
      ∀ (seeds : List Bytes) (program : Key),
        (seeds.length ≤ 15 → (∀ seed ∈ seeds, seed.length ≤ 32) →
          find curveTest seeds program = .ok ⟨addressAt seeds program 255, 255⟩ ∧
            ((findOnRecord curveTest seeds program).run []).2 = [addressAt seeds program 255]) ∧
        (∀ n, find curveTest seeds program ≠ .error (.exhausted n)) ∧
        (seeds.length ≤ 16 → (∀ seed ∈ seeds, seed.length ≤ 32) →
          create curveTest seeds program = .ok (Key.ofHash (seeds.flatten ++ program.toBytes))) := by
  refine ⟨fun _ => isOnCurve_iff_isCompressed_or, fun seeds program => ⟨?_, ?_, ?_⟩⟩
  · intro hcount hsizes
    exact ⟨find_curveTest_eq program ⟨hcount, hsizes⟩, asked_curveTest program ⟨hcount, hsizes⟩⟩
  · exact find_curveTest_ne_exhausted seeds program
  · exact create_curveTest program

/-- Fifteen seeds that are as long as seeds can be. -/
def largestSeeds : List Bytes := List.replicate 15 (List.replicate 32 255)

theorem first_bump_is_found_largest :
    isOnCurve (compressed generatorX generatorY) = true ∧
      IsCompressed (compressed generatorX generatorY) ∧
      largestSeeds.length ≤ 15 ∧ (∀ seed ∈ largestSeeds, seed.length ≤ 32) ∧
      find curveTest largestSeeds Program.tokenId =
        .ok ⟨addressAt largestSeeds Program.tokenId 255, 255⟩ ∧
      create curveTest (largestSeeds ++ [[1]]) Program.tokenId =
        .ok (Key.ofHash ((largestSeeds ++ [[1]]).flatten ++ Program.tokenId.toBytes)) := by
  obtain ⟨hforms, hseeds⟩ := first_bump_is_found
  have hcurve : OnCurve generatorX generatorY := by decide +kernel
  have hpoint : isOnCurve (compressed generatorX generatorY) = true :=
    isOnCurve_iff.mpr ⟨_, _, hcurve, Or.inl rfl⟩
  have hform : IsCompressed (compressed generatorX generatorY) := by
    rcases (hforms _).mp hpoint with h | ⟨x, y, hbytes, hx, hy, -⟩
    · exact h
    · have hlength := congrArg List.length hbytes
      simp [compressed, hx, hy] at hlength
  have hcount : largestSeeds.length ≤ 15 := by decide
  have hsizes : ∀ seed ∈ largestSeeds, seed.length ≤ 32 := by decide
  obtain ⟨hfinds, -, -⟩ := hseeds largestSeeds Program.tokenId
  obtain ⟨hfind, -⟩ := hfinds hcount hsizes
  obtain ⟨-, -, hcreate⟩ := hseeds (largestSeeds ++ [[1]]) Program.tokenId
  exact ⟨hpoint, hform, hcount, hsizes, hfind, hcreate (by decide) (by decide)⟩

end TokenMetadata.Address
