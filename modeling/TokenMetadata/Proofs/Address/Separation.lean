import Mathlib
import TokenMetadata.Proofs.Address

/-!
# Addresses of different accounts differ

The seeds are hashed without their lengths. The seed of a kind of account is all that varies in
length, so the length of what is hashed tells the kind, and within one kind the token, the bump and
the program stand at fixed places. Two accounts share an address only when two different strings
share a hash.
-/

namespace TokenMetadata

namespace Address

variable {test test' : CurveTest} {seeds : List Bytes} {program program' : Key} {d d' : Derived}

/-- The search ends with the hash of the seeds and the bump it returns. -/
theorem address_of_search {call bump : Nat} (h : search test seeds program call bump = some d) :
    d.address = Key.ofHash (preimage (seeds ++ [[d.bump]]) program) := by
  induction bump generalizing call with
  | zero => cases h
  | succ bump ih =>
    rw [search] at h
    split at h
    · exact ih h
    · obtain rfl := Option.some.inj h
      rfl

theorem address_of_find (h : find test seeds program = .ok d) :
    d.address = Key.ofHash (preimage (seeds ++ [[d.bump]]) program) := by
  obtain ⟨-, -, h⟩ := bind_eq_ok_iff.mp h
  split at h
  · rename_i found hfound
    obtain rfl := return_eq_ok_iff.mp h
    exact address_of_search hfound
  · cases h

/-- What is hashed for an account of a token: the seed of its kind, the token, the bump and the
program. -/
def accountPreimage (kind : Kind) (mint : Key) (bump : UInt8) (program : Key) : Bytes :=
  kind.seed ++ mint.toBytes ++ [bump] ++ program.toBytes

variable {kind kind' : Kind} {mint mint' : Key}

theorem address_of_deriveWith (h : deriveWith test kind mint program = .ok d) :
    d.address = Key.ofHash (accountPreimage kind mint d.bump program) := by
  have hpreimage : preimage ([kind.seed, mint.toBytes] ++ [[d.bump]]) program =
      accountPreimage kind mint d.bump program := by
    simp [preimage, accountPreimage]
  rw [address_of_find h, hpreimage]

theorem Kind.length_seed_injective (h : kind.seed.length = kind'.seed.length) : kind = kind' := by
  cases kind with
  | metadata =>
    cases kind' with
    | metadata => rfl
    | attributes => cases h
  | attributes =>
    cases kind' with
    | metadata => cases h
    | attributes => rfl

theorem accountPreimage_injective {bump bump' : UInt8}
    (h : accountPreimage kind mint bump program = accountPreimage kind' mint' bump' program') :
    kind = kind' ∧ mint = mint' ∧ program = program' := by
  have hmint := mint.length_toBytes.trans mint'.length_toBytes.symm
  have hprogram := program.length_toBytes.trans program'.length_toBytes.symm
  -- the program is as long on both sides, and in front of it only the seeds may differ in length
  obtain ⟨hfront, hid⟩ := List.append_inj' h hprogram
  obtain ⟨hseeds, -⟩ := List.append_inj' hfront rfl
  obtain ⟨hseed, htoken⟩ := List.append_inj' hseeds hmint
  exact ⟨Kind.length_seed_injective (congrArg List.length hseed), Key.ext_toBytes htoken,
    Key.ext_toBytes hid⟩

end Address

open Address

/-- Two accounts with one address are of one kind, for one token and of one program, or two
different strings that are hashed for them have one hash. This holds for the addresses that any
curve tests lead to, and so whichever bumps they are found with. -/
theorem derived_addresses_separate {test test' : CurveTest} {kind kind' : Kind}
    {mint mint' program program' : Key} {d d' : Derived}
    (h : deriveWith test kind mint program = .ok d)
    (h' : deriveWith test' kind' mint' program' = .ok d') (heq : d.address = d'.address) :
    (kind = kind' ∧ mint = mint' ∧ program = program') ∨
      (accountPreimage kind mint d.bump program ≠ accountPreimage kind' mint' d'.bump program' ∧
        Sha256.hash (accountPreimage kind mint d.bump program) =
          Sha256.hash (accountPreimage kind' mint' d'.bump program')) := by
  rw [address_of_deriveWith h, address_of_deriveWith h'] at heq
  by_cases hsame :
      accountPreimage kind mint d.bump program = accountPreimage kind' mint' d'.bump program'
  · exact Or.inl (accountPreimage_injective hsame)
  · exact Or.inr ⟨hsame, congrArg Key.toBytes heq⟩

theorem derived_addresses_separate_two_tests :
    ∃ d d', deriveWith curveTest .attributes (.filled 2) Program.metadataId = .ok d ∧
      deriveWith (acceptsFirst 0) .attributes (.filled 2) Program.metadataId = .ok d' ∧
      d.address = d'.address ∧
      ((Kind.attributes = .attributes ∧ Key.filled 2 = .filled 2 ∧
          Program.metadataId = Program.metadataId) ∨
        (accountPreimage .attributes (.filled 2) d.bump Program.metadataId ≠
            accountPreimage .attributes (.filled 2) d'.bump Program.metadataId ∧
          Sha256.hash (accountPreimage .attributes (.filled 2) d.bump Program.metadataId) =
            Sha256.hash (accountPreimage .attributes (.filled 2) d'.bump Program.metadataId))) := by
  have h : deriveWith curveTest .attributes (.filled 2) Program.metadataId =
      .ok ⟨accountKey .attributes (.filled 2) Program.metadataId, 255⟩ := derive_eq _ _ _
  have h' : deriveWith (acceptsFirst 0) .attributes (.filled 2) Program.metadataId =
      .ok ⟨accountKey .attributes (.filled 2) Program.metadataId, 255⟩ := rfl
  exact ⟨_, _, h, h', rfl, derived_addresses_separate h h' rfl⟩

end TokenMetadata
