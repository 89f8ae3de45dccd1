import Mathlib
import TokenMetadata.Account.Reader
import TokenMetadata.Proofs.Address
import TokenMetadata.Proofs.Account.Serving

/-!
# Reads of single accounts and of many

What a reader returns is a function of the table that its source answers from. Reading many mints
together is reading them one after the other, and a source that answers in batches is as good as the
table itself.
-/

namespace TokenMetadata

namespace Reader

/-- The entry of the table for an account of a mint. -/
def entryOf (r : Reader) (t : Table) (kind : Address.Kind) (mint : Key) : Option Account :=
  t.get? (Address.accountKey kind mint r.program)

/-- The record that stands in an entry; a missing account has none. -/
def toRecord {α : Type} (r : Reader) (decode : Bytes → Except Malformed α)
    (entry : Option Account) : Except Fault (Option α) :=
  ((r.ownData entry).mapM decode).mapError .malformed

/-- Reads one account of a mint. -/
def readOne {α : Type} (r : Reader) (kind : Address.Kind) (decode : Bytes → Except Malformed α)
    (mint : Key) : Exchange (Option α) :=
  (r.read [(kind, mint)]).andThen fun entries => r.toRecord decode (entries.headD none)

/-- Reads the accounts of many mints together. -/
def readMany {α : Type} (r : Reader) (kind : Address.Kind) (decode : Bytes → Except Malformed α)
    (mints : List Key) : Exchange (List (Option α)) :=
  (r.read (mints.map (kind, ·))).andThen fun entries => entries.mapM (r.toRecord decode)

theorem metadata_eq (r : Reader) : r.metadata = r.readOne .metadata Metadata.decode := rfl

theorem attributes_eq (r : Reader) : r.attributes = r.readOne .attributes Attributes.decode := rfl

theorem metadataBatch_eq (r : Reader) :
    r.metadataBatch = r.readMany .metadata Metadata.decode := rfl

theorem attributesBatch_eq (r : Reader) :
    r.attributesBatch = r.readMany .attributes Attributes.decode := rfl

theorem toRecord_eq_error {α : Type} {r : Reader} {decode : Bytes → Except Malformed α}
    {entry : Option Account} {e : Fault} (h : r.toRecord decode entry = .error e) :
    ∃ m, e = .malformed m := by
  obtain ⟨m, -, rfl⟩ := mapError_eq_error_iff.mp h
  exact ⟨m, rfl⟩

section

variable {r : Reader} {t : Table} (h : t.AnsweredBy r.source)

include h

theorem read_result (wanted : List (Address.Kind × Key)) :
    (r.read wanted).result = .ok (wanted.map fun w => r.entryOf t w.1 w.2) := by
  have hcount : ¬ (t.answer (wanted.map fun w => Address.accountKey w.1 w.2 r.program)).length ≠
      (wanted.map fun w => Address.accountKey w.1 w.2 r.program).length := by
    simp [Table.answer]
  rw [read, mapM_eq_ok_map (g := fun w => Address.accountKey w.1 w.2 r.program)]
  · simp only [Exchange.andThen, h _, Except.bind, if_neg hcount]
    rw [Table.answer, List.map_map]
    rfl
  · rintro ⟨kind, mint⟩
    exact Address.ofMint_eq kind mint r.program

theorem readOne_result {α : Type} (kind : Address.Kind) (decode : Bytes → Except Malformed α)
    (mint : Key) :
    (r.readOne kind decode mint).result = r.toRecord decode (r.entryOf t kind mint) := by
  rw [readOne, Exchange.andThen, read_result h]
  rfl

theorem readMany_result {α : Type} (kind : Address.Kind) (decode : Bytes → Except Malformed α)
    (mints : List Key) :
    (r.readMany kind decode mints).result =
      mints.mapM fun m => (r.readOne kind decode m).result := by
  simp only [readOne_result h]
  rw [readMany, Exchange.andThen, read_result h, List.map_map]
  exact List.mapM_map

theorem details_result (mint : Key) :
    (r.details mint).result = (do
      let metadata ← (r.metadata mint).result
      let attributes ← (r.attributes mint).result
      return (metadata, attributes)) := by
  rw [metadata_eq, attributes_eq, readOne_result h, readOne_result h, details, Exchange.andThen,
    read_result h]
  rfl

end

end Reader

/-- Reading many mints together, against reading each of them: an entry for each mint in order, or
the failure of the first mint that fails, which is always one of malformed data. -/
structure OneByOne {α : Type} (single : Key → Except Fault α)
    (batch : List Key → Except Fault (List α)) : Prop where
  returns : ∀ mints, (∀ m ∈ mints, ∃ x, single m = .ok x) →
    ∃ out, batch mints = .ok out ∧ mints.map single = out.map .ok
  fails : ∀ before m after e, (∀ x ∈ before, ∃ y, single x = .ok y) → single m = .error e →
    batch (before ++ m :: after) = .error e ∧ ∃ d, e = .malformed d

theorem oneByOne_of_mapM {α : Type} {single : Key → Except Fault α}
    {batch : List Key → Except Fault (List α)} (hbatch : ∀ mints, batch mints = mints.mapM single)
    (hmalformed : ∀ m e, single m = .error e → ∃ d, e = .malformed d) : OneByOne single batch where
  returns := by
    intro mints hall
    obtain ⟨out, hout⟩ := exists_mapM_eq_ok hall
    exact ⟨out, (hbatch mints).trans hout, mapM_eq_ok_iff_map.mp hout⟩
  fails := by
    intro before m after e hbefore hm
    rw [hbatch]
    exact ⟨mapM_eq_error_of_first hbefore hm, hmalformed m e hm⟩

namespace Reader

/-- The two readers return the same from each of their methods. -/
structure Agrees (r s : Reader) : Prop where
  metadata : ∀ mint, (r.metadata mint).result = (s.metadata mint).result
  attributes : ∀ mint, (r.attributes mint).result = (s.attributes mint).result
  details : ∀ mint, (r.details mint).result = (s.details mint).result
  metadataBatch : ∀ mints, (r.metadataBatch mints).result = (s.metadataBatch mints).result
  attributesBatch : ∀ mints, (r.attributesBatch mints).result = (s.attributesBatch mints).result

/-- Of what belongs to its program, the reader finds the same data at the same keys. -/
def SameData (r : Reader) (t u : Table) : Prop :=
  ∀ key, r.ownData (t.get? key) = r.ownData (u.get? key)

variable {t u : Table} {source other : Source} {program : Key}

/-- What is read of a table depends neither on the source that answers from it nor on anything but
the data of the program. -/
theorem readOne_result_eq {α : Type} (h : t.AnsweredBy source) (k : u.AnsweredBy other)
    (hdata : SameData ⟨source, program⟩ t u) (kind : Address.Kind)
    (decode : Bytes → Except Malformed α) (mint : Key) :
    (readOne ⟨source, program⟩ kind decode mint).result =
      (readOne ⟨other, program⟩ kind decode mint).result := by
  rw [readOne_result h, readOne_result k, toRecord, entryOf, hdata]
  rfl

theorem agrees_of_sameData (h : t.AnsweredBy source) (k : u.AnsweredBy other)
    (hdata : SameData ⟨source, program⟩ t u) : Agrees ⟨source, program⟩ ⟨other, program⟩ where
  metadata := readOne_result_eq h k hdata .metadata Metadata.decode
  attributes := readOne_result_eq h k hdata .attributes Attributes.decode
  details := by
    intro mint
    rw [details_result h, details_result k]
    simp only [metadata_eq, attributes_eq, readOne_result_eq h k hdata]
  metadataBatch := by
    intro mints
    rw [metadataBatch_eq, metadataBatch_eq, readMany_result h, readMany_result k]
    simp only [readOne_result_eq h k hdata]
  attributesBatch := by
    intro mints
    rw [attributesBatch_eq, attributesBatch_eq, readMany_result h, readMany_result k]
    simp only [readOne_result_eq h k hdata]

/-- Of two sources that answer from one table, neither matters. -/
theorem agrees_of_answeredBy (h : t.AnsweredBy source) (k : t.AnsweredBy other) (program : Key) :
    Agrees ⟨source, program⟩ ⟨other, program⟩ :=
  agrees_of_sameData h k fun _ => rfl

/-- What is read of one mint at a time determines what is read of many, and of both accounts of a
mint. -/
structure ReadsSingly (r : Reader) : Prop where
  metadata : OneByOne (fun m => (r.metadata m).result) fun ms => (r.metadataBatch ms).result
  attributes : OneByOne (fun m => (r.attributes m).result) fun ms => (r.attributesBatch ms).result
  details : ∀ mint, (r.details mint).result = (do
    let metadata ← (r.metadata mint).result
    let attributes ← (r.attributes mint).result
    return (metadata, attributes))

theorem readMany_oneByOne {α : Type} {r : Reader} (h : t.AnsweredBy r.source)
    (kind : Address.Kind) (decode : Bytes → Except Malformed α) :
    OneByOne (fun m => (r.readOne kind decode m).result)
      fun ms => (r.readMany kind decode ms).result := by
  refine oneByOne_of_mapM (readMany_result h kind decode) ?_
  intro m e hm
  rw [readOne_result h] at hm
  exact toRecord_eq_error hm

theorem readsSingly_of_answeredBy {r : Reader} (h : t.AnsweredBy r.source) : r.ReadsSingly where
  metadata := readMany_oneByOne h .metadata Metadata.decode
  attributes := readMany_oneByOne h .attributes Attributes.decode
  details := details_result h

end Reader

/-- Reading from a table many mints at a time, or through a node in batches of any size, returns
what reading each account from the table itself returns. -/
theorem batched_reads_are_single_reads (t : Table) (program : Key) (node : Node) (size : Int)
    (hnode : node.Serves t) (hsize : 1 ≤ size) :
    Reader.ReadsSingly ⟨t.source, program⟩ ∧
      Reader.Agrees ⟨node.source size, program⟩ ⟨t.source, program⟩ := by
  have hdirect : t.AnsweredBy t.source := t.answeredBy_source
  have hbatches : t.AnsweredBy (node.source size) := Node.answeredBy_source hnode hsize
  exact ⟨Reader.readsSingly_of_answeredBy hdirect,
    Reader.agrees_of_answeredBy hbatches hdirect program⟩

/-- A table with a record for one mint and a single byte for another one. -/
def twoMints : Table :=
  ⟨[(Address.accountKey .metadata (.filled 1) Program.metadataId,
      ⟨some (Metadata.codec.write ⟨.filled 1, ⟨"n", "s", "", ""⟩, none, true⟩),
        some Program.metadataId⟩),
    (Address.accountKey .metadata (.filled 2) Program.metadataId,
      ⟨some [1], some Program.metadataId⟩)]⟩

theorem batched_reads_are_single_reads_two_mints :
    (Node.ofTable twoMints).Serves twoMints ∧ (1 : Int) ≤ 2 ∧
    (Reader.metadataBatch ⟨(Node.ofTable twoMints).source 2, Program.metadataId⟩
      [.filled 1, .filled 3, .filled 1]).result =
        .ok [some ⟨.filled 1, ⟨"n", "s", "", ""⟩, none, true⟩, none,
          some ⟨.filled 1, ⟨"n", "s", "", ""⟩, none, true⟩] ∧
    (Reader.metadataBatch ⟨twoMints.source, Program.metadataId⟩
      [.filled 1, .filled 2, .filled 3]).result =
        .error (.malformed (.layout .metadata .truncated)) := by
  have hserves : (Node.ofTable twoMints).Serves twoMints := Node.ofTable_serves twoMints
  have hone : ∀ x ∈ [Key.filled 1], ∃ y,
      (Reader.metadata ⟨twoMints.source, Program.metadataId⟩ x).result = .ok y := by
    intro x hx
    obtain rfl : x = Key.filled 1 := by simpa using hx
    exact ⟨some ⟨.filled 1, ⟨"n", "s", "", ""⟩, none, true⟩, by decide +kernel⟩
  obtain ⟨hsingly, hagrees⟩ :=
    batched_reads_are_single_reads twoMints Program.metadataId (Node.ofTable twoMints) 2 hserves
      (by decide)
  refine ⟨hserves, by decide, ?_, ?_⟩
  · rw [hagrees.metadataBatch]
    decide +kernel
  · exact (hsingly.metadata.fails [.filled 1] (.filled 2) [.filled 3] _ hone
      (by decide +kernel)).1

end TokenMetadata
