import Mathlib
import TokenMetadata.Operation
import TokenMetadata.Proofs.Address
import TokenMetadata.Proofs.Payload

/-!
# Instructions of operations

Every account of a token has an address, so an operation has an instruction exactly when its payload
is within the limits. One account of it is written without signing: the one that the operation
changes.
-/

namespace TokenMetadata

open Address

/-- The account is written and does not sign. -/
def AccountMeta.isChanged (a : AccountMeta) : Bool := a.isWritable && !a.isSigner

namespace Operation

theorem build_eq_ok_iff {program : Key} {op : Operation} {ix : Instruction} :
    op.build program = .ok ix ↔ op.payload.Within ∧
      ix = ⟨program, op.accounts (accountKey .metadata op.mint program)
        (accountKey .attributes op.mint program), op.payload.write⟩ := by
  rw [build]
  simp only [ofMint_eq]
  constructor
  · intro h
    obtain ⟨data, hdata, hix⟩ := bind_eq_ok_iff.mp h
    obtain ⟨hw, rfl⟩ := Payload.encode_eq_ok_iff.mp (mapError_eq_ok_iff.mp hdata)
    exact ⟨hw, (Except.ok.inj hix).symm⟩
  · rintro ⟨hw, rfl⟩
    exact bind_eq_ok_iff.mpr ⟨_, mapError_eq_ok_iff.mpr (Payload.encode_eq_ok_iff.mpr ⟨hw, rfl⟩), rfl⟩

theorem decode_of_build {program : Key} {op : Operation} {ix : Instruction}
    (h : op.build program = .ok ix) : Payload.decode ix.data = .ok op.payload := by
  obtain ⟨hw, rfl⟩ := build_eq_ok_iff.mp h
  have hdecode := Payload.decode_write [] (Payload.fits_of_within hw)
  rwa [List.append_nil] at hdecode

/-- An operation changes the account that it is about, and no other. -/
theorem filter_isChanged_accounts (op : Operation) (address : Kind → Key) :
    (op.accounts (address .metadata) (address .attributes)).filter AccountMeta.isChanged =
      [.writable (address op.target)] := by
  cases op <;> rfl

end Operation

end TokenMetadata
