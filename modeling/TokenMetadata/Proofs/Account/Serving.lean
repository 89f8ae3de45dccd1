import Mathlib
import TokenMetadata.Account.Node
import TokenMetadata.Proofs.Success

/-!
# Tables behind a node

A node serves a table when every answer has the accounts that were asked for, in their order. Cutting
the keys into batches and putting the answers together again gives the answer of the table itself.
-/

namespace TokenMetadata

/-- Whatever the source is asked for, it answers from the table. -/
def Table.AnsweredBy (t : Table) (source : Source) : Prop :=
  ∀ keys, (source keys).result = .ok (t.answer keys)

theorem Table.answeredBy_source (t : Table) : t.AnsweredBy t.source := by
  intro keys
  rfl

namespace Node

/-- The node has an entry for each key of a call, whose data is that of the table in one of the
shapes in which a node hands data over. -/
def Serves (node : Node) (t : Table) : Prop :=
  ∀ call keys, ∃ entries, node call keys = some entries ∧
    List.Forall₂ (fun key entry => entry.mapM decodeAccount = .ok (t.get? key)) keys entries

theorem decodeAccount_fixed (a : Account) :
    decodeAccount ⟨a.data.map .fixed, a.owner⟩ = .ok a := by
  obtain ⟨data, owner⟩ := a
  cases data <;> rfl

theorem ofTable_serves (t : Table) : (ofTable t).Serves t := by
  intro call keys
  refine ⟨_, rfl, ?_⟩
  have hskew : ∀ entries : List (Option RawAccount), Table.skew 0 entries = entries := by
    intro entries
    exact List.append_nil entries
  rw [hskew, Table.answer, List.map_map, List.forall₂_map_right_iff, List.forall₂_same]
  intro key hkey
  cases hentry : t.get? key with
  | none => simp [hentry, pure, Except.pure]
  | some a =>
    simp only [Function.comp, hentry, Option.map_some, Option.mapM_some, decodeAccount_fixed]
    rfl

variable {node : Node} {t : Table}

theorem decodeReply_of_serves (h : node.Serves t) (call : Nat) (keys : List Key) :
    decodeReply keys (node call keys) = .ok (t.answer keys) := by
  obtain ⟨entries, hreply, hentries⟩ := h call keys
  have hcount : ¬ entries.length ≠ keys.length := not_not.mpr hentries.length_eq.symm
  have hall : (entries.mapM fun (entry : Option RawAccount) => entry.mapM decodeAccount) =
      .ok (t.answer keys) := by
    rw [mapM_eq_ok_iff, Table.answer, List.forall₂_map_right_iff]
    exact hentries.flip
  simp only [decodeReply, hreply, Option.getD_some, if_neg hcount, hall]
  rfl

theorem readBatches_of_serves (h : node.Serves t) (call : Nat) (batches : List (List Key)) :
    (readBatches node call batches).result = .ok (t.answer batches.flatten) := by
  induction batches generalizing call with
  | nil => rfl
  | cons batch rest ih =>
    have hmore := ih (call + 1)
    rw [readBatches, decodeReply_of_serves h call batch]
    simp only [hmore]
    rw [List.flatten_cons, Table.answer, Table.answer, Table.answer, List.map_append]
    rfl

theorem answeredBy_source (h : node.Serves t) {size : Int} (hsize : 1 ≤ size) :
    t.AnsweredBy (node.source size) := by
  intro keys
  have hzero : ¬ size = 0 := by omega
  have hnegative : ¬ size < 0 := by omega
  have hpositive : size.toNat ≠ 0 := by omega
  rw [source, if_neg hzero, if_neg hnegative, readBatches_of_serves h, flatten_chunksOf hpositive]

end Node

end TokenMetadata
