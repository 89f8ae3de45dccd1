import Mathlib
import TokenMetadata.Proofs.Flow.Composition

/-!
# Least privilege

Every account in the list of a metadata instruction is there in one role, and the payload says which
roles there are. The payer and the authority sign; the payer's account and the one that the payload
changes are written. No other account signs or is written.
-/

namespace TokenMetadata

open Address

/-- What an account is there for. -/
inductive Role
  | payer
  | system
  | mint
  | authority
  | account (kind : Kind)
  deriving DecidableEq

def Role.signs (role : Role) : Bool := role = .payer ∨ role = .authority

def Role.isWritten (changed : Kind) (role : Role) : Bool := role = .payer ∨ role = .account changed

namespace Payload

/-- The account that the program changes for the payload. -/
def changes : Payload → Kind
  | createAttributes _ => .attributes
  | replaceAttributes _ => .attributes
  | _ => .metadata

/-- The roles of the accounts that go with the payload, in order. -/
def roles : Payload → List Role
  | createMetadata .. => [.payer, .system, .mint, .account .metadata, .authority]
  | createAttributes _ =>
    [.payer, .system, .mint, .account .attributes, .authority, .account .metadata]
  | replaceAttributes _ => [.account .attributes, .authority, .account .metadata]
  | _ => [.account .metadata, .authority]

end Payload

namespace Operation

/-- The key that has a role: one that the caller gave, the system program's, or a derived one. -/
def HasRole (op : Operation) (program key : Key) : Role → Prop
  | .payer => op.payer? = some key
  | .system => key = Program.systemId
  | .mint => key = op.mint
  | .authority => key = op.authority
  | .account kind => ofMint kind op.mint program = .ok key

/-- The instruction lets each account do what its role needs and no more. The list of roles is that
of the payload which is read from the data, and that payload is what the caller asked for. -/
structure HasLeastPrivilege (program : Key) (op : Operation) (ix : Instruction) : Prop where
  sentTo : ix.program = program
  payload : Payload.decode ix.data = .ok op.payload
  entries : List.Forall₂ (fun role a => op.HasRole program a.key role ∧
    a.isSigner = role.signs ∧ a.isWritable = role.isWritten op.payload.changes)
      op.payload.roles ix.accounts
  signers : ix.accounts.filter (·.isSigner) = op.payer?.toList.map .payer ++ [.signer op.authority]
  written : ∃ key, ofMint op.payload.changes op.mint program = .ok key ∧
    ix.accounts.filter (·.isWritable) = op.payer?.toList.map .payer ++ [.writable key]

variable {program : Key} {op : Operation} {ix : Instruction}

theorem entries_accounts (op : Operation) (program : Key) :
    List.Forall₂ (fun role a => op.HasRole program a.key role ∧
      a.isSigner = role.signs ∧ a.isWritable = role.isWritten op.payload.changes)
        op.payload.roles (op.accounts (accountKey .metadata op.mint program)
          (accountKey .attributes op.mint program)) := by
  cases op <;>
    simp [payload, Payload.roles, Payload.changes, accounts, HasRole, payer?, mint, authority,
      AccountMeta.payer, AccountMeta.signer, AccountMeta.writable, AccountMeta.readOnly,
      Role.signs, Role.isWritten]

theorem hasLeastPrivilege_of_build (h : op.build program = .ok ix) :
    HasLeastPrivilege program op ix := by
  have hpayload := decode_of_build h
  obtain ⟨-, rfl⟩ := build_eq_ok_iff.mp h
  refine ⟨rfl, hpayload, op.entries_accounts program, ?_, accountKey op.target op.mint program,
    ?_, ?_⟩
  · cases op <;> rfl
  · cases op <;> exact ofMint_eq _ _ _
  · cases op <;> rfl

end Operation

/-- Every metadata instruction, built alone or as a part of a transaction, is sent to the program of
the client with the caller's fields and with the accounts that go with its payload. Nobody signs but
the payer and the authority, and nothing is written but the payer's account and the one that is
changed. -/
theorem instructions_have_least_privilege (program : Key) :
    (∀ (op : Operation) (ix : Instruction), op.build program = .ok ix →
      op.HasLeastPrivilege program ix) ∧
    (∀ (flow : Flow) (budget : Option Budget) (tx : Transaction),
      flow.compose program budget = .ok tx → ∃ requests front own,
        budgetInstructions budget = .ok requests ∧ flow.Parts program front own ∧
          tx.instructions = requests ++ front ++ own ∧
            List.Forall₂ (Operation.HasLeastPrivilege program) flow.operations own) := by
  refine ⟨?_, ?_⟩
  · intro op ix h
    exact Operation.hasLeastPrivilege_of_build h
  · intro flow budget tx h
    obtain ⟨own, requests, hown, hrequests, rfl⟩ := Flow.compose_eq_ok_iff.mp h
    refine ⟨requests, flow.preceding, own, hrequests, Flow.parts_iff.mpr ⟨rfl, hown⟩, rfl, ?_⟩
    exact (Flow.metadataInstructions_eq_ok_iff.mp hown).imp fun _ _ =>
      Operation.hasLeastPrivilege_of_build

theorem instructions_have_least_privilege_handover :
    (∃ ix, (Operation.makeImmutable (.filled 2) (.filled 3)).build Program.metadataId = .ok ix ∧
      ix.accounts.filter (·.isSigner) = [.signer (.filled 3)]) ∧
    (∃ tx, (Flow.transferThenUpdate (.filled 2) (.filled 3) (.filled 4)
        ⟨some "n", none, none, none⟩).compose Program.metadataId none = .ok tx ∧
      tx.instructions.map (·.accounts.filter (·.isSigner)) =
        [[.signer (.filled 3)], [.signer (.filled 4)]]) := by
  obtain ⟨hbuild, hcompose⟩ := instructions_have_least_privilege Program.metadataId
  constructor
  · obtain ⟨ix, hix⟩ : ∃ ix,
        (Operation.makeImmutable (.filled 2) (.filled 3)).build Program.metadataId = .ok ix :=
      ⟨_, Operation.build_eq_ok_iff.mpr ⟨trivial, rfl⟩⟩
    exact ⟨ix, hix, (hbuild _ ix hix).signers⟩
  · have hfields : Fields.PresentWithin ⟨some "n", none, none, none⟩ := by
      refine ⟨?_, ?_, ?_, ?_⟩ <;> rintro s ⟨⟩
      decide
    have hpayloads : ∀ op ∈ (Flow.transferThenUpdate (.filled 2) (.filled 3) (.filled 4)
        ⟨some "n", none, none, none⟩).operations, op.payload.Within :=
      List.forall_mem_cons.mpr ⟨trivial, List.forall_mem_singleton.mpr hfields⟩
    obtain ⟨tx, htx⟩ : ∃ tx, (Flow.transferThenUpdate (.filled 2) (.filled 3) (.filled 4)
        ⟨some "n", none, none, none⟩).compose Program.metadataId none = .ok tx :=
      Flow.exists_compose_iff.mpr ⟨hpayloads, [], rfl⟩
    obtain ⟨requests, front, own, hrequests, hparts, htransaction, hown⟩ := hcompose _ _ tx htx
    obtain rfl : requests = [] := (Except.ok.inj hrequests).symm
    obtain ⟨rfl, transfer, update, -, -, rfl⟩ := hparts
    obtain ⟨htransfer, hrest⟩ := List.forall₂_cons.mp hown
    obtain ⟨hupdate, -⟩ := List.forall₂_cons.mp hrest
    refine ⟨tx, htx, ?_⟩
    rw [htransaction, List.nil_append, List.nil_append, List.map_cons, List.map_cons, List.map_nil,
      htransfer.signers, hupdate.signers]
    rfl

end TokenMetadata
