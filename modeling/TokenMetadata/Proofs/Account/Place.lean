import Mathlib
import TokenMetadata.Proofs.Flow
import TokenMetadata.Proofs.Record
import TokenMetadata.Proofs.Account.Reading

/-!
# Where records are written and read

The account that the operations of a mint change is the one that a reader asks for and that a
transaction names. A record that stands there, with whatever room behind it, is what every way of
reading returns.
-/

namespace TokenMetadata

open Address

/-- The account of the kind that the operations of the mint change is at `key`. They have
instructions as soon as their payloads are within the limits, and of the accounts of such an
instruction this one alone is written without signing. -/
structure WrittenAt (kind : Kind) (mint program key : Key) : Prop where
  address : ofMint kind mint program = .ok key
  built_iff : ∀ op : Operation, op.mint = mint → op.target = kind →
    ((∃ ix, op.build program = .ok ix) ↔ op.payload.Within)
  changed : ∀ (op : Operation) (ix : Instruction), op.mint = mint → op.target = kind →
    op.build program = .ok ix → ix.accounts.filter AccountMeta.isChanged = [.writable key]

theorem writtenAt_accountKey (kind : Kind) (mint program : Key) :
    WrittenAt kind mint program (accountKey kind mint program) where
  address := ofMint_eq kind mint program
  built_iff := by
    intro op hmint hkind
    constructor
    · rintro ⟨ix, hix⟩
      exact (Operation.build_eq_ok_iff.mp hix).1
    · intro hw
      exact ⟨_, Operation.build_eq_ok_iff.mpr ⟨hw, rfl⟩⟩
  changed := by
    intro op ix hmint hkind hix
    obtain ⟨-, rfl⟩ := Operation.build_eq_ok_iff.mp hix
    subst hmint hkind
    exact op.filter_isChanged_accounts fun kind => accountKey kind op.mint program

/-- Reading the mint returns `x`, and so does reading many at every place where the mint is asked
for. -/
structure Shows {α : Type} (single : Key → Except Fault (Option α))
    (batch : List Key → Except Fault (List (Option α))) (mint : Key) (x : α) : Prop where
  single : single mint = .ok (some x)
  batch : ∀ mints out, batch mints = .ok out →
    ∀ i : Nat, mints[i]? = some mint → out[i]? = some (some x)

theorem shows_of_mapM {α : Type} {single : Key → Except Fault (Option α)}
    {batch : List Key → Except Fault (List (Option α))} {mint : Key} {x : α}
    (hbatch : ∀ mints, batch mints = mints.mapM single) (h : single mint = .ok (some x)) :
    Shows single batch mint x where
  single := h
  batch := by
    intro mints out hout i hi
    rw [hbatch] at hout
    -- both lists are looked at in the place where the mint is asked for
    have hmap := congrArg (fun ys => ys[i]?) (mapM_eq_ok_iff_map.mp hout)
    simp only [List.getElem?_map, hi, Option.map_some, h] at hmap
    cases hentry : out[i]? with
    | none =>
      rw [hentry] at hmap
      cases hmap
    | some y =>
      rw [hentry] at hmap
      rw [Except.ok.inj (Option.some.inj hmap)]

namespace Reader

/-- The account is missing for the program of the reader, or holds a record. -/
def MissingOrSound {α : Type} (r : Reader) (decode : Bytes → Except Malformed α)
    (entry : Option Account) : Prop :=
  ∀ data, r.ownData entry = some data → ∃ x, decode data = .ok x

variable {α : Type} {r : Reader} {decode : Bytes → Except Malformed α}

theorem toRecord_own {b : Bytes} {x : α} (hb : b ≠ []) (h : decode b = .ok x) :
    r.toRecord decode (some ⟨some b, some r.program⟩) = .ok (some x) := by
  have hown : r.ownData (some ⟨some b, some r.program⟩) = some b := by
    simp [ownData, hb]
  rw [toRecord, hown, Option.mapM_some, h]
  rfl

theorem exists_toRecord {entry : Option Account} (h : r.MissingOrSound decode entry) :
    ∃ y, r.toRecord decode entry = .ok y := by
  obtain ⟨y, hy⟩ := exists_option_mapM_eq_ok h
  exact ⟨y, mapError_eq_ok_iff.mpr hy⟩

variable {t : Table} (h : t.AnsweredBy r.source) {kind : Kind} {mint : Key}

include h

theorem shows_own {b : Bytes} {x : α} (hb : b ≠ []) (hdecode : decode b = .ok x)
    (hentry : t.get? (accountKey kind mint r.program) = some ⟨some b, some r.program⟩) :
    Shows (fun k => (r.readOne kind decode k).result) (fun ks => (r.readMany kind decode ks).result)
      mint x := by
  refine shows_of_mapM (readMany_result h kind decode) ?_
  rw [readOne_result h, entryOf, hentry]
  exact toRecord_own hb hdecode

theorem exists_readOne
    (hother : r.MissingOrSound decode (t.get? (accountKey kind mint r.program))) :
    ∃ y, (r.readOne kind decode mint).result = .ok y := by
  rw [readOne_result h, entryOf]
  exact exists_toRecord hother

theorem details_eq_ok {x : Option Metadata} {y : Option Attributes}
    (hx : (r.metadata mint).result = .ok x) (hy : (r.attributes mint).result = .ok y) :
    (r.details mint).result = .ok (x, y) := by
  rw [details_result h, hx, hy]
  rfl

end Reader

/-- The operations of a mint, its transactions and its readers mean the same two accounts. A record
that was encoded, with any room behind it, and stands at its account is what is read there. -/
theorem records_are_read_where_written (memory : Nat) (program mint : Key) :
    WrittenAt .metadata mint program (accountKey .metadata mint program) ∧
    WrittenAt .attributes mint program (accountKey .attributes mint program) ∧
    (∀ (flow : Flow) (budget : Option Budget) (tx : Transaction), flow.mint = mint →
      flow.compose program budget = .ok tx → tx.metadata = accountKey .metadata mint program ∧
        tx.attributes =
          if flow.hasAttributes then some (accountKey .attributes mint program) else none) ∧
    (∀ (m : Metadata) (room : Datum) (b : Bytes) (t : Table) (r : Reader),
      r = ⟨t.source, program⟩ → m.encode memory room = .ok b →
      t.get? (accountKey .metadata mint program) = some ⟨some b, some program⟩ →
        Shows (fun k => (r.metadata k).result) (fun ks => (r.metadataBatch ks).result) mint m ∧
        (r.MissingOrSound Attributes.decode (t.get? (accountKey .attributes mint program)) →
          ∃ a, (r.details mint).result = .ok (some m, a))) ∧
    (∀ (a : Attributes) (room : Datum) (b : Bytes) (t : Table) (r : Reader),
      r = ⟨t.source, program⟩ → a.encode memory room = .ok b →
      t.get? (accountKey .attributes mint program) = some ⟨some b, some program⟩ →
        Shows (fun k => (r.attributes k).result) (fun ks => (r.attributesBatch ks).result) mint a ∧
        (r.MissingOrSound Metadata.decode (t.get? (accountKey .metadata mint program)) →
          ∃ m, (r.details mint).result = .ok (m, some a))) := by
  refine ⟨writtenAt_accountKey _ _ _, writtenAt_accountKey _ _ _, ?_, ?_, ?_⟩
  · rintro flow budget tx rfl htx
    exact Flow.addresses_of_compose htx
  · rintro m room b t r rfl hencode hentry
    have hanswers : t.AnsweredBy t.source := t.answeredBy_source
    have hdecode := Metadata.decode_of_encode hencode
    -- an empty account would count as missing
    have hb : b ≠ [] := by
      rintro rfl
      cases hdecode
    have hshows := Reader.shows_own (r := ⟨t.source, program⟩) hanswers hb hdecode hentry
    refine ⟨hshows, ?_⟩
    intro hother
    obtain ⟨a, ha⟩ := Reader.exists_readOne (r := ⟨t.source, program⟩) hanswers hother
    exact ⟨a, Reader.details_eq_ok hanswers hshows.single ha⟩
  · rintro a room b t r rfl hencode hentry
    have hanswers : t.AnsweredBy t.source := t.answeredBy_source
    have hdecode := Attributes.decode_of_encode hencode
    have hb : b ≠ [] := by
      rintro rfl
      cases hdecode
    have hshows := Reader.shows_own (r := ⟨t.source, program⟩) hanswers hb hdecode hentry
    refine ⟨hshows, ?_⟩
    intro hother
    obtain ⟨m, hm⟩ := Reader.exists_readOne (r := ⟨t.source, program⟩) hanswers hother
    exact ⟨m, Reader.details_eq_ok hanswers hm hshows.single⟩

/-- A record with an authority. -/
def sampleRecord : Metadata := ⟨.filled 1, ⟨"n", "s", "", ""⟩, some (.filled 9), true⟩

/-- A table with nothing but the record, in a room of a hundred bytes. -/
def sampleTable : Table :=
  ⟨[(accountKey .metadata (.filled 1) Program.metadataId,
    ⟨some (Metadata.codec.write sampleRecord ++ List.replicate 16 0),
      some Program.metadataId⟩)]⟩

def sampleReader : Reader := ⟨sampleTable.source, Program.metadataId⟩

theorem records_are_read_where_written_sample :
    Shows (fun k => (sampleReader.metadata k).result)
      (fun ks => (sampleReader.metadataBatch ks).result) (.filled 1) sampleRecord ∧
    ∃ a, (sampleReader.details (.filled 1)).result = .ok (some sampleRecord, a) := by
  have hencode : sampleRecord.encode 100 (.int 100) =
      .ok (Metadata.codec.write sampleRecord ++ List.replicate 16 0) := by decide +kernel
  have hmissing : sampleTable.get? (accountKey .attributes (.filled 1) Program.metadataId) =
      none := by decide +kernel
  obtain ⟨-, -, -, hmetadata, -⟩ :=
    records_are_read_where_written 100 Program.metadataId (.filled 1)
  obtain ⟨hshows, hdetails⟩ := hmetadata sampleRecord (.int 100) _ sampleTable sampleReader rfl
    hencode (by decide +kernel)
  refine ⟨hshows, hdetails ?_⟩
  intro data hdata
  rw [hmissing] at hdata
  cases hdata

end TokenMetadata
