import Mathlib
import TokenMetadata.Proofs.Account.Failures
import TokenMetadata.Proofs.Text.Base64

/-!
# Shapes of data

The bytes of an account are delivered as they are, as base64 text, or in a list or tuple with that
text in front. All of these are read as the same account, one by one and mixed, so reading depends
on what is delivered alone, and it fails for malformed answers and records only.
-/

namespace TokenMetadata

/-- The delivery stands for the bytes. -/
inductive Delivery.Carries (b : Bytes) : Delivery → Prop
  | fixed : Carries b (.fixed b)
  | buffer : Carries b (.buffer b)
  | text : Carries b (.text (Base64.encode b))
  | list {rest : List Datum} : Carries b (.list (Base64.encode b) rest)
  | tuple {rest : List Datum} : Carries b (.tuple (Base64.encode b) rest)

/-- The account is delivered, with its data in one of the shapes. -/
structure Account.IsCarried (a : Account) (d : Delivered) : Prop where
  data : Option.Rel Delivery.Carries a.data d.data
  owner : d.owner = a.owner

/-- The accounts that are meant in answer to the calls of a node, whatever their shapes. -/
abbrev Contents := (call : Nat) → List Key → List (Option Account)

/-- Each answer has an entry for each account that is meant; no answer counts as an empty one. -/
def Answers.Carry (answers : Answers) (contents : Contents) : Prop :=
  ∀ call keys, List.Forall₂ (Option.Rel Account.IsCarried) (contents call keys)
    ((answers call keys).getD [])

namespace Contents

/-- The accounts with all data in raw bytes. -/
def inBytes (contents : Contents) : Answers := fun call keys =>
  some ((contents call keys).map fun entry => entry.map fun a => ⟨a.data.map .fixed, a.owner⟩)

/-- An account or an absent one is meant for each key of the `k`-th batch. -/
def FitsAt (contents : Contents) (size : Nat) (keys : List Key) (k : Nat) : Prop :=
  (contents k (piece size keys k)).length = (piece size keys k).length

end Contents

/-- An answer of the wrong length, or a record that cannot be decoded. -/
def Fault.IsMalformed (e : Fault) : Prop := ∃ m, e = .malformed m

theorem carry_inBytes (contents : Contents) : contents.inBytes.Carry contents := by
  intro call keys
  have hentry : ∀ entry : Option Account, Option.Rel Account.IsCarried entry
      (entry.map fun a => ⟨a.data.map .fixed, a.owner⟩) := by
    rintro (_ | ⟨_ | b, owner⟩)
    · exact .none
    · exact .some ⟨.none, rfl⟩
    · exact .some ⟨.some .fixed, rfl⟩
  exact List.forall₂_map_right_iff.mpr (List.forall₂_same.mpr fun entry _ => hentry entry)

theorem rawData_of_carries {d : Delivery} {b : Bytes} (h : Delivery.Carries b d) :
    Node.rawData d.toRaw = .ok b := by
  have htext : Node.base64Data (.text (Base64.encode b)) = .ok b :=
    base64Data_of_ok (Base64.decode_encode b)
  cases h with
  | fixed => rfl
  | buffer => rfl
  | text => exact htext
  | list => exact htext
  | tuple => exact htext

theorem decodeAccount_of_isCarried {a : Option Account} {entry : Option Delivered}
    (h : Option.Rel Account.IsCarried a entry) :
    (entry.map Delivered.toRaw).mapM Node.decodeAccount = .ok a := by
  cases h with
  | none => rfl
  | @some a d h =>
    obtain ⟨data, owner⟩ := a
    obtain ⟨delivery, sender⟩ := d
    obtain ⟨hdata, rfl⟩ := h
    have hraw : (delivery.map Delivery.toRaw).mapM Node.rawData = .ok data := by
      cases hdata with
      | none => rfl
      | some h =>
        rw [Option.map_some, Option.mapM_some, rawData_of_carries h]
        rfl
    rw [Option.map_some, Option.mapM_some, Node.decodeAccount, Delivered.toRaw, hraw]
    rfl

namespace Node

variable {node other : Node} {answers : Answers} {contents : Contents} {size : Nat}
  {keys : List Key}

/-- Nodes whose answers decode alike are read alike. -/
theorem readBatches_congr
    (h : ∀ call batch, decodeReply batch (node call batch) = decodeReply batch (other call batch))
    (call : Nat) (batches : List (List Key)) :
    readBatches node call batches = readBatches other call batches := by
  induction batches generalizing call with
  | nil => rfl
  | cons batch rest ih => rw [readBatches, readBatches, h call batch, ih]

theorem source_congr
    (h : ∀ call batch, decodeReply batch (node call batch) = decodeReply batch (other call batch))
    (size : Int) : node.source size = other.source size := by
  funext keys
  rw [source, source, readBatches_congr h]

/-- Every entry is decoded to the account that is meant. -/
theorem map_decodeAccount_of_carry (h : answers.Carry contents) (call : Nat) (keys : List Key) :
    ((ofAnswers answers call keys).getD []).map (·.mapM decodeAccount) =
      (contents call keys).map .ok := by
  -- Equal lists are lists whose entries are equal one by one, and so are the answers related.
  rw [getD_ofAnswers, List.map_map, ← List.forall₂_eq_eq_eq, List.forall₂_map_left_iff,
    List.forall₂_map_right_iff]
  exact (h call keys).flip.imp fun _ _ => decodeAccount_of_isCarried

/-- What an answer is decoded to depends on the accounts that are meant alone. -/
theorem decodeReply_of_carry (h : answers.Carry contents) (call : Nat) (keys : List Key) :
    decodeReply keys (ofAnswers answers call keys) =
      if (contents call keys).length ≠ keys.length then
        .error (.malformed (.nodeCount (contents call keys).length keys.length))
      else .ok (contents call keys) := by
  have hcount : ((ofAnswers answers call keys).getD []).length = (contents call keys).length := by
    rw [getD_ofAnswers, List.length_map, (h call keys).length_eq]
  by_cases hlength : (contents call keys).length = keys.length
  · rw [if_neg (not_not.mpr hlength)]
    exact decodeReply_eq_ok_iff.mpr
      ⟨hcount.trans hlength, map_decodeAccount_of_carry h call keys⟩
  · rw [if_pos hlength, decodeReply_of_length_ne (hcount ▸ hlength), hcount]

theorem decodeReply_of_fitsAt (h : answers.Carry contents) {k : Nat}
    (hfit : contents.FitsAt size keys k) :
    decodeReply (piece size keys k) (ofAnswers answers k (piece size keys k)) =
      .ok (contents k (piece size keys k)) :=
  (decodeReply_of_carry h k _).trans (if_neg (not_not.mpr hfit))

theorem decodeReply_of_not_fitsAt (h : answers.Carry contents) {k : Nat}
    (hmisfit : ¬ contents.FitsAt size keys k) :
    decodeReply (piece size keys k) (ofAnswers answers k (piece size keys k)) =
      .error (.malformed
        (.nodeCount (contents k (piece size keys k)).length (piece size keys k).length)) :=
  (decodeReply_of_carry h k _).trans (if_pos hmisfit)

/-- Nothing but the length of an answer can be wrong with it. -/
theorem isMalformed_of_carry (h : answers.Carry contents) (hsize : 1 ≤ size) {e : Fault}
    (he : ((ofAnswers answers).source size keys).result = .error e) : e.IsMalformed := by
  rcases exists_batch_of_source_error hsize he with hm | ⟨k, -, -, -, m, -, hm⟩
  · exact hm
  · -- The failure would be one of the entries, and all of them are decoded.
    have hmem := hm.mem
    rw [entries, map_decodeAccount_of_carry h] at hmem
    obtain ⟨a, -, ha⟩ := List.mem_map.mp hmem
    cases ha

end Node

/-- What reading a list of keys comes to. Each entry comes back as it is meant, at the place of its
key, unless there are too many or too few of them for a batch. The first such batch is complained
about. -/
structure ReturnsAsMeant (contents : Contents) (size : Nat) (keys : List Key)
    (run : Exchange (List (Option Account))) : Prop where
  placed : (∀ k < pieceCount size keys.length, contents.FitsAt size keys k) →
    ∃ out, run.result = .ok out ∧ out.length = keys.length ∧
      ∀ i < keys.length, out[i]? = (contents (i / size) (piece size keys (i / size)))[i % size]?
  misfit : ∀ k < pieceCount size keys.length, (∀ j < k, contents.FitsAt size keys j) →
    ¬ contents.FitsAt size keys k →
      run.result = .error (.malformed
        (.nodeCount (contents k (piece size keys k)).length (piece size keys k).length))

theorem returnsAsMeant_of_carry {answers : Answers} {contents : Contents} {size : Nat}
    {keys : List Key} (h : answers.Carry contents) (hsize : 1 ≤ size) :
    ReturnsAsMeant contents size keys ((Node.ofAnswers answers).source size keys) where
  placed := by
    intro hfit
    have hpos : size ≠ 0 := by omega
    have hbatches : ∀ k < pieceCount size keys.length,
        Node.decodeReply (piece size keys k) (Node.ofAnswers answers k (piece size keys k)) =
          .ok (contents k (piece size keys k)) :=
      fun k hk => Node.decodeReply_of_fitsAt h (hfit k hk)
    have hfull : ∀ k, k + 1 < pieceCount size keys.length →
        (contents k (piece size keys k)).length = size := by
      intro k hk
      rw [hfit k (by omega), length_piece_of_lt hpos hk]
    rw [Node.source_eq _ hsize, Node.readBatches_range hbatches]
    refine ⟨_, rfl, ?_, ?_⟩
    · rw [Node.length_flatMap_accounts hbatches, flatMap_piece_pieceCount hpos]
    · intro i hi
      have hplace := Nat.div_add_mod' i size
      have hnumber : i / size < pieceCount size keys.length :=
        (lt_pieceCount_iff hpos).mpr (by omega)
      exact getElem?_flatMap_range hpos hfull hnumber
  misfit := by
    intro k hk hbefore hmisfit
    rw [Node.source_eq _ hsize, Node.readBatches_range_of_error hk
      (fun j hj => Node.decodeReply_of_fitsAt h (hbefore j hj))
      (Node.decodeReply_of_not_fitsAt h hmisfit)]

/-- In whatever shapes the data of accounts is delivered, reading through a node returns the accounts
as they are meant, and two nodes that mean the same accounts cannot be told apart: the same calls
are made, and the same accounts, the same records or the same complaint about them come back. -/
theorem shapes_of_data_do_not_matter (contents : Contents) {size : Nat} (hsize : 1 ≤ size) :
    (∀ answers : Answers, answers.Carry contents → ∀ keys,
      ReturnsAsMeant contents size keys ((Node.ofAnswers answers).source size keys)) ∧
    ∀ answers other : Answers, answers.Carry contents → other.Carry contents →
      (Node.ofAnswers answers).source size = (Node.ofAnswers other).source size ∧
      ∀ program,
        Reader.Agrees ⟨(Node.ofAnswers answers).source size, program⟩
          ⟨(Node.ofAnswers other).source size, program⟩ ∧
        Reader.FailsWith ⟨(Node.ofAnswers answers).source size, program⟩ Fault.IsMalformed := by
  refine ⟨fun answers h keys => returnsAsMeant_of_carry h hsize, ?_⟩
  intro answers other h hother
  have hsame : (Node.ofAnswers answers).source size = (Node.ofAnswers other).source size :=
    Node.source_congr (fun call batch => by
      rw [Node.decodeReply_of_carry h, Node.decodeReply_of_carry hother]) size
  refine ⟨hsame, fun program => ⟨?_, ?_⟩⟩
  · rw [hsame]
    exact ⟨fun _ => rfl, fun _ => rfl, fun _ => rfl, fun _ => rfl, fun _ => rfl⟩
  · exact Reader.failsWith_of_source (fun keys e he => Node.isMalformed_of_carry h hsize he)
      fun m => ⟨m, rfl⟩

section

variable (b : Bytes) (owner : Option Key)

/-- One of the shapes for the bytes; the first byte of the key decides which. -/
def shapeFor (key : Key) : Delivery :=
  match (key.toBytes.headD 0).toNat % 5 with
  | 0 => .fixed b
  | 1 => .buffer b
  | 2 => .text (Base64.encode b)
  | 3 => .list (Base64.encode b) [.text "base64"]
  | _ => .tuple (Base64.encode b) []

/-- The same account for every key. -/
def alike : Contents := fun _ keys => keys.map fun _ => some ⟨some b, owner⟩

def mixed : Answers := fun _ keys => some (keys.map fun key => some ⟨some (shapeFor b key), owner⟩)

theorem carries_shapeFor (key : Key) : Delivery.Carries b (shapeFor b key) := by
  rw [shapeFor]
  split
  · exact .fixed
  · exact .buffer
  · exact .text
  · exact .list
  · exact .tuple

theorem carry_mixed : (mixed b owner).Carry (alike b owner) := by
  intro call keys
  refine List.forall₂_map_left_iff.mpr (List.forall₂_map_right_iff.mpr ?_)
  exact List.forall₂_same.mpr fun key _ => .some ⟨.some (carries_shapeFor b key), rfl⟩

end

theorem shapes_of_data_do_not_matter_mixed :
    1 ≤ 2 ∧
    (mixed [1] (some Program.metadataId)).Carry (alike [1] (some Program.metadataId)) ∧
    ((Node.ofAnswers (mixed [1] (some Program.metadataId))).source 2 Node.fiveKeys).result =
      .ok (List.replicate 5 (some ⟨some [1], some Program.metadataId⟩)) ∧
    (Reader.attributesBatch
      ⟨(Node.ofAnswers (mixed [1] (some Program.metadataId))).source 2, Program.metadataId⟩
      [.filled 1, .filled 2, .filled 3]).result =
        .error (.malformed (.layout .attributes .truncated)) := by
  have hmixed := carry_mixed [1] (some Program.metadataId)
  have hbytes := carry_inBytes (alike [1] (some Program.metadataId))
  obtain ⟨-, htwo⟩ :=
    shapes_of_data_do_not_matter (alike [1] (some Program.metadataId)) (by decide : 1 ≤ 2)
  obtain ⟨hsource, hreaders⟩ := htwo _ _ hmixed hbytes
  have hfive := congrArg Exchange.result (congrFun hsource Node.fiveKeys)
  have hthree := (hreaders Program.metadataId).1.attributesBatch [.filled 1, .filled 2, .filled 3]
  exact ⟨by decide, hmixed, hfive.trans (by decide +kernel), hthree.trans (by decide +kernel)⟩

end TokenMetadata
