import Mathlib
import TokenMetadata.Proofs.Flow

/-!
# How transactions are composed

What stands in the transaction of each flow, part by part, and what a flow that fails has failed at.
The metadata instructions of a flow are those that its operations have by themselves, whatever the
budget is and whatever the caller puts in front.
-/

namespace TokenMetadata

open Address

/-- The data of the instruction creates or replaces attributes. -/
def Instruction.IsForAttributes (ix : Instruction) : Prop :=
  ∃ data, Payload.decode ix.data = .ok (.createAttributes data) ∨
    Payload.decode ix.data = .ok (.replaceAttributes data)

theorem Operation.isForAttributes_iff {program : Key} {op : Operation} {ix : Instruction}
    (h : op.build program = .ok ix) : ix.IsForAttributes ↔ op.target = .attributes := by
  rw [Instruction.IsForAttributes, decode_of_build h]
  cases op <;> simp [payload, target]

namespace Flow

variable {program : Key} {flow : Flow} {budget : Option Budget}

/-- What stands behind the budget requests: `front` is what the caller gave, and `own` are the
instructions of the metadata operations, each as it is built from the caller's arguments. -/
def Parts (program : Key) (front own : List Instruction) : Flow → Prop
  | createToken payer mint authority fields immutable upstream =>
    front = upstream ∧ ∃ create,
      (Operation.createMetadata payer mint authority fields immutable).build program = .ok create ∧
        own = [create]
  | createTokenWithAttributes payer mint authority fields data immutable upstream =>
    front = upstream ∧ ∃ create attributes,
      (Operation.createMetadata payer mint authority fields immutable).build program = .ok create ∧
        (Operation.createAttributes payer mint authority data).build program = .ok attributes ∧
          own = [create, attributes]
  | createTokenThenClear payer mint freezeAuthority fields immutable upstream clear =>
    front = upstream ++ [clear] ∧ ∃ create,
      (Operation.createMetadata payer mint freezeAuthority fields immutable).build program =
        .ok create ∧ own = [create]
  | createAttributes payer mint authority data =>
    front = [] ∧ ∃ attributes,
      (Operation.createAttributes payer mint authority data).build program = .ok attributes ∧
        own = [attributes]
  | replaceAttributes mint authority data =>
    front = [] ∧ ∃ attributes,
      (Operation.replaceAttributes mint authority data).build program = .ok attributes ∧
        own = [attributes]
  | transferThenUpdate mint authority newAuthority fields =>
    front = [] ∧ ∃ transfer update,
      (Operation.transferAuthority mint authority newAuthority).build program = .ok transfer ∧
        (Operation.updateMetadata mint newAuthority fields).build program = .ok update ∧
          own = [transfer, update]
  | makeImmutable mint authority =>
    front = [] ∧ ∃ change,
      (Operation.makeImmutable mint authority).build program = .ok change ∧ own = [change]

/-- The same flow behind other instructions of the caller. -/
def behind (upstream : List Instruction) (clear : Instruction) : Flow → Flow
  | createToken payer mint authority fields immutable _ =>
    createToken payer mint authority fields immutable upstream
  | createTokenWithAttributes payer mint authority fields data immutable _ =>
    createTokenWithAttributes payer mint authority fields data immutable upstream
  | createTokenThenClear payer mint freezeAuthority fields immutable _ _ =>
    createTokenThenClear payer mint freezeAuthority fields immutable upstream clear
  | flow => flow

theorem parts_iff {front own : List Instruction} :
    flow.Parts program front own ↔
      front = flow.preceding ∧ flow.metadataInstructions program = .ok own := by
  rw [metadataInstructions_eq_ok_iff]
  cases flow <;>
    simp [Parts, preceding, operations, List.forall₂_cons_left_iff]

theorem metadataInstructions_behind (upstream : List Instruction) (clear : Instruction) :
    (flow.behind upstream clear).metadataInstructions program =
      flow.metadataInstructions program := by
  cases flow <;> rfl

theorem hasAttributes_iff :
    flow.hasAttributes = true ↔ ∃ op ∈ flow.operations, op.target = .attributes := by
  cases flow <;> simp [hasAttributes, operations, Operation.target]

theorem exists_isForAttributes_iff {own : List Instruction}
    (h : flow.metadataInstructions program = .ok own) :
    (∃ ix ∈ own, ix.IsForAttributes) ↔ flow.hasAttributes = true := by
  rw [metadataInstructions_eq_ok_iff] at h
  rw [hasAttributes_iff]
  generalize flow.operations = ops at h ⊢
  induction h with
  | nil => simp
  | cons hbuild _ ih =>
    rw [List.exists_mem_cons_iff, List.exists_mem_cons_iff, ih,
      Operation.isForAttributes_iff hbuild]

/-- The transaction of a flow whose metadata instructions are `own`. -/
structure IsComposedOf (program : Key) (flow : Flow) (budget : Option Budget)
    (own : List Instruction) (tx : Transaction) : Prop where
  instructions : ∃ requests front, budgetInstructions budget = .ok requests ∧
    flow.Parts program front own ∧ tx.instructions = requests ++ front ++ own ∧
      tx.instructions.length = requests.length + front.length + own.length
  metadata : ofMint .metadata flow.mint program = .ok tx.metadata
  attributes : tx.attributes.isSome = true ↔ ∃ ix ∈ own, ix.IsForAttributes
  attributesAddress : ∀ key, tx.attributes = some key →
    ofMint .attributes flow.mint program = .ok key

theorem isComposedOf {own : List Instruction} {tx : Transaction}
    (hown : flow.metadataInstructions program = .ok own)
    (h : flow.compose program budget = .ok tx) : IsComposedOf program flow budget own tx := by
  obtain ⟨own', requests, hown', hrequests, rfl⟩ := compose_eq_ok_iff.mp h
  obtain rfl : own = own' := Except.ok.inj (hown.symm.trans hown')
  refine ⟨⟨requests, flow.preceding, hrequests, parts_iff.mpr ⟨rfl, hown⟩, rfl, ?_⟩, ?_, ?_, ?_⟩
  · rw [List.length_append, List.length_append]
  · exact ofMint_eq _ _ _
  · rw [exists_isForAttributes_iff hown]
    cases flow.hasAttributes <;> simp
  · intro key hkey
    obtain ⟨-, hsome⟩ := Option.ite_none_right_eq_some.mp hkey
    rw [← Option.some.inj hsome]
    exact ofMint_eq _ _ _

/-- A transaction has its parts in one order, with metadata instructions that neither the budget nor
the caller's instructions change; and a flow fails with the first part that cannot be built. -/
theorem transactions_are_composed_in_order (program : Key) (flow : Flow) :
    (∀ budget tx, flow.compose program budget = .ok tx →
      ∃ own, IsComposedOf program flow budget own tx) ∧
    (∀ budget budget' upstream clear tx tx', flow.compose program budget = .ok tx →
      (flow.behind upstream clear).compose program budget' = .ok tx' →
        ∃ own, IsComposedOf program flow budget own tx ∧
          IsComposedOf program (flow.behind upstream clear) budget' own tx') ∧
    (∀ budget e, flow.compose program budget = .error e ↔
      FirstFailure (flow.attempts program budget) e) := by
  refine ⟨?_, ?_, ?_⟩
  · intro budget tx h
    obtain ⟨own, requests, hown, -⟩ := compose_eq_ok_iff.mp h
    exact ⟨own, isComposedOf hown h⟩
  · intro budget budget' upstream clear tx tx' h h'
    obtain ⟨own, requests, hown, -⟩ := compose_eq_ok_iff.mp h
    have hbehind := (metadataInstructions_behind upstream clear).trans hown
    exact ⟨own, isComposedOf hown h, isComposedOf hbehind h'⟩
  · intro budget e
    exact compose_eq_error_iff_firstFailure

/-- A token with one attribute, made behind an instruction of another program. -/
def sampleLaunch : Flow :=
  .createTokenWithAttributes (.filled 1) (.filled 2) (.filled 1) ⟨"n", "s", "", ""⟩ [("k", "v")]
    false [⟨.filled 7, [], []⟩]

/-- A transfer with an update whose symbol is too long. -/
def sampleHandover : Flow :=
  .transferThenUpdate (.filled 2) (.filled 3) (.filled 4)
    ⟨none, some "12345678901234567", none, none⟩

theorem transactions_are_composed_in_order_sample :
    (∃ tx tx' own, sampleLaunch.compose Program.metadataId none = .ok tx ∧
      (sampleLaunch.behind [] ⟨.filled 8, [], []⟩).compose Program.metadataId
        (some ⟨some (.int 0), some (.int 1024)⟩) = .ok tx' ∧
      IsComposedOf Program.metadataId sampleLaunch none own tx ∧
      IsComposedOf Program.metadataId (sampleLaunch.behind [] ⟨.filled 8, [], []⟩)
        (some ⟨some (.int 0), some (.int 1024)⟩) own tx') ∧
    sampleHandover.compose Program.metadataId (some ⟨some (.int (-1)), some (.int 1)⟩) =
      .error (.violation ⟨"symbol", .tooLong 17 (.int 16)⟩) := by
  obtain ⟨-, hruns, -⟩ := transactions_are_composed_in_order Program.metadataId sampleLaunch
  obtain ⟨-, -, hfails⟩ := transactions_are_composed_in_order Program.metadataId sampleHandover
  have hcreate : Fields.Within ⟨"n", "s", "", ""⟩ :=
    ⟨by decide, by decide, by decide, by decide⟩
  have hattributes : Attribute.AllWithin [("k", "v")] := by
    refine ⟨by decide, ?_⟩
    intro a ha
    obtain rfl := List.mem_singleton.mp ha
    exact ⟨by decide, by decide, by decide, by decide⟩
  have hpayloads : ∀ op ∈ sampleLaunch.operations, op.payload.Within :=
    List.forall_mem_cons.mpr ⟨hcreate, List.forall_mem_singleton.mpr hattributes⟩
  obtain ⟨tx, htx⟩ : ∃ tx, sampleLaunch.compose Program.metadataId none = .ok tx :=
    exists_compose_iff.mpr ⟨hpayloads, [], rfl⟩
  obtain ⟨tx', htx'⟩ : ∃ tx, (sampleLaunch.behind [] ⟨.filled 8, [], []⟩).compose
      Program.metadataId (some ⟨some (.int 0), some (.int 1024)⟩) = .ok tx :=
    exists_compose_iff.mpr ⟨hpayloads, _, rfl⟩
  obtain ⟨own, hown, hown'⟩ := hruns _ _ _ _ tx tx' htx htx'
  refine ⟨⟨tx, tx', own, htx, htx', hown, hown'⟩, (hfails _ _).mpr ?_⟩
  exact firstFailure_cons.mpr (Or.inl (by decide +kernel))

end Flow

end TokenMetadata
