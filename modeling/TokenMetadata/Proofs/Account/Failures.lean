import Mathlib
import TokenMetadata.Proofs.Account.Batches
import TokenMetadata.Proofs.Account.Reading

/-!
# What reading fails with

Answers of the wrong length and records that cannot be decoded are faults of the library's own. A
text that is not base64 is not among them: the refusal of the base64 reader ends the reading as it
is. It does so exactly when a batch whose answer has the right length holds such a text and all
batches before it were answered as they should be.
-/

namespace TokenMetadata

/-- The library has its own fault for this. The others come from what it is built on. -/
def Fault.IsOwn : Fault → Prop
  | .misuse _ => False
  | _ => True

/-- The text is refused as base64. -/
inductive IsCorrupt (s : String) : Misuse → Prop
  | notAscii : Base64.decode s = .error .notAscii → IsCorrupt s .wrongValue
  | unfinished : Base64.decode s = .error .unfinished → IsCorrupt s .unfinishedBase64

/-- The text that is read in base64; bytes are taken as they are. -/
def Delivery.text? : Delivery → Option String
  | fixed _ => none
  | buffer _ => none
  | text s => some s
  | list first _ => some first
  | tuple first _ => some first

/-- The text of an entry, when there is an account and its data is not delivered in bytes. -/
def entryText? (entry : Option Delivered) : Option String :=
  entry.bind fun a => a.data.bind Delivery.text?

namespace Answers

/-- The text is delivered somewhere in the answers. -/
def Hands (answers : Answers) (s : String) : Prop :=
  ∃ call keys entries entry, answers call keys = some entries ∧ entry ∈ entries ∧
    entryText? entry = some s

/-- The texts in the answer to the `k`-th batch. -/
def texts (answers : Answers) (size : Nat) (keys : List Key) (k : Nat) : List String :=
  ((answers k (piece size keys k)).getD []).filterMap entryText?

/-- The fault is the library's own, or the refusal of a text that is delivered. -/
def Explains (answers : Answers) (e : Fault) : Prop :=
  e.IsOwn ∨ ∃ s m, answers.Hands s ∧ IsCorrupt s m ∧ e = .misuse m

end Answers

section Texts

variable {s : String} {m : Misuse} {b : Bytes}

theorem not_isCorrupt (h : Base64.decode s = .ok b) : ¬ IsCorrupt s m := by
  intro hcorrupt
  cases hcorrupt with
  | notAscii hflaw => cases h.symm.trans hflaw
  | unfinished hflaw => cases h.symm.trans hflaw

theorem base64Data_of_ok (h : Base64.decode s = .ok b) : Node.base64Data (.text s) = .ok b := by
  simp only [Node.base64Data, h]

theorem base64Data_of_isCorrupt (h : IsCorrupt s m) : Node.base64Data (.text s) = .error m := by
  cases h with
  | notAscii h => simp only [Node.base64Data, h]
  | unfinished h => simp only [Node.base64Data, h]

theorem exists_ok_or_isCorrupt (s : String) :
    (∃ b, Base64.decode s = .ok b) ∨ ∃ m, IsCorrupt s m := by
  cases h : Base64.decode s with
  | ok b => exact Or.inl ⟨b, rfl⟩
  | error flaw =>
    cases flaw with
    | notAscii => exact Or.inr ⟨_, .notAscii h⟩
    | unfinished => exact Or.inr ⟨_, .unfinished h⟩

theorem base64Data_eq_error_iff : Node.base64Data (.text s) = .error m ↔ IsCorrupt s m := by
  constructor
  · intro h
    rcases exists_ok_or_isCorrupt s with ⟨b, hb⟩ | ⟨m', hm'⟩
    · cases (base64Data_of_ok hb).symm.trans h
    · obtain rfl := Except.error.inj ((base64Data_of_isCorrupt hm').symm.trans h)
      exact hm'
  · exact base64Data_of_isCorrupt

theorem rawData_eq_error_iff {d : Delivery} :
    Node.rawData d.toRaw = .error m ↔ ∃ s, d.text? = some s ∧ IsCorrupt s m := by
  simp only [← base64Data_eq_error_iff]
  cases d <;> simp [Delivery.toRaw, Delivery.text?, Node.rawData]

theorem decodeAccount_eq_error_iff {entry : Option Delivered} :
    (entry.map Delivered.toRaw).mapM Node.decodeAccount = .error m ↔
      ∃ s, entryText? entry = some s ∧ IsCorrupt s m := by
  cases entry with
  | none => simp [entryText?, pure, Except.pure]
  | some a =>
    obtain ⟨data, owner⟩ := a
    rw [Option.map_some, Option.mapM_some, map_eq_error_iff, Node.decodeAccount,
      bind_eq_error_iff]
    simp only [return_ne_error, and_false, exists_false, or_false]
    cases data with
    | none => simp [entryText?, Delivered.toRaw, pure, Except.pure]
    | some d =>
      simp only [Delivered.toRaw, Option.map_some, Option.mapM_some, map_eq_error_iff,
        rawData_eq_error_iff, entryText?, Option.bind_some]

/-- The entries of an answer fail where their texts do. -/
theorem firstFailure_entries_iff {entries : List (Option Delivered)} :
    FirstFailure (entries.map fun entry =>
        (entry.map Delivered.toRaw).mapM Node.decodeAccount) m ↔
      FirstFailure ((entries.filterMap entryText?).map fun s => Node.base64Data (.text s)) m := by
  induction entries with
  | nil => simp [not_firstFailure_nil]
  | cons entry entries ih =>
    rw [List.map_cons, firstFailure_cons, ih, exists_eq_ok_iff]
    simp only [ne_eq, decodeAccount_eq_error_iff]
    cases htext : entryText? entry with
    | none => simp [List.filterMap_cons_none htext]
    | some s =>
      rw [List.filterMap_cons_some htext, List.map_cons, firstFailure_cons, exists_eq_ok_iff]
      simp only [ne_eq, base64Data_eq_error_iff, Option.some.injEq, exists_eq_left']

end Texts

theorem Node.getD_ofAnswers (answers : Answers) (call : Nat) (keys : List Key) :
    (Node.ofAnswers answers call keys).getD [] =
      ((answers call keys).getD []).map fun entry => entry.map Delivered.toRaw := by
  rw [Node.ofAnswers]
  cases answers call keys with
  | none => rfl
  | some entries => rfl

/-- A text that fails somewhere in a batch is delivered. -/
theorem exists_hands_of_firstFailure {answers : Answers} {size : Nat} {keys : List Key} {k : Nat}
    {m : Misuse}
    (h : FirstFailure ((answers.texts size keys k).map fun s => Node.base64Data (.text s)) m) :
    ∃ s, answers.Hands s ∧ IsCorrupt s m := by
  obtain ⟨s, hs, hm⟩ := List.mem_map.mp h.mem
  obtain ⟨entry, hentry, htext⟩ := List.mem_filterMap.mp hs
  refine ⟨s, ?_, base64Data_eq_error_iff.mp hm⟩
  cases hanswer : answers k (piece size keys k) with
  | none =>
    rw [hanswer] at hentry
    cases hentry
  | some entries =>
    rw [hanswer] at hentry
    exact ⟨k, _, entries, entry, hanswer, hentry, htext⟩

namespace Node

variable {node : Node} {size : Nat} {keys : List Key} {k : Nat}

theorem source_of_answered (hsize : 1 ≤ size)
    (h : ∀ k < pieceCount size keys.length, node.IsAnswered size keys k) :
    ∃ out, (node.source size keys).result = .ok out := by
  obtain ⟨accounts, haccounts⟩ := exists_accounts h
  rw [source_eq node hsize, readBatches_range haccounts]
  exact ⟨_, rfl⟩

theorem source_of_misaligned (hsize : 1 ≤ size) (hk : k < pieceCount size keys.length)
    (h : ∀ j < k, node.IsAnswered size keys j) (halign : ¬ node.IsAligned size keys k) :
    ∃ m, (node.source size keys).result = .error (.malformed m) := by
  obtain ⟨accounts, haccounts⟩ := exists_accounts h
  rw [source_eq node hsize,
    readBatches_range_of_error hk haccounts (decodeReply_of_length_ne halign)]
  exact ⟨_, rfl⟩

theorem source_of_firstFailure (hsize : 1 ≤ size) (hk : k < pieceCount size keys.length)
    (h : ∀ j < k, node.IsAnswered size keys j) (halign : node.IsAligned size keys k) {m : Misuse}
    (hm : FirstFailure ((node.entries size keys k).map (·.mapM decodeAccount)) m) :
    (node.source size keys).result = .error (.misuse m) := by
  obtain ⟨accounts, haccounts⟩ := exists_accounts h
  rw [source_eq node hsize,
    readBatches_range_of_error hk haccounts (decodeReply_of_firstFailure halign hm)]

/-- The first batch that is not answered as it should be decides how a reading fails. -/
theorem exists_batch_of_source_error (hsize : 1 ≤ size) {e : Fault}
    (h : (node.source size keys).result = .error e) :
    (∃ m, e = .malformed m) ∨
      ∃ k < pieceCount size keys.length, (∀ j < k, node.IsAnswered size keys j) ∧
        node.IsAligned size keys k ∧ ∃ m, e = .misuse m ∧
          FirstFailure ((node.entries size keys k).map (·.mapM decodeAccount)) m := by
  classical
  have hnone : ∃ k, k < pieceCount size keys.length ∧ ¬ node.IsAnswered size keys k := by
    by_contra hall
    push Not at hall
    obtain ⟨out, hout⟩ := source_of_answered hsize hall
    cases h.symm.trans hout
  obtain ⟨hk, hbad⟩ := Nat.find_spec hnone
  have hbefore : ∀ j < Nat.find hnone, node.IsAnswered size keys j := by
    intro j hj
    by_contra hj'
    exact Nat.find_min hnone hj ⟨hj.trans hk, hj'⟩
  by_cases halign : node.IsAligned size keys (Nat.find hnone)
  · obtain ⟨m, hm⟩ := exists_firstFailure fun hreadable => hbad ⟨halign, hreadable⟩
    have hresult := source_of_firstFailure hsize hk hbefore halign hm
    exact Or.inr ⟨_, hk, hbefore, halign, m, Except.error.inj (h.symm.trans hresult), hm⟩
  · obtain ⟨m, hm⟩ := source_of_misaligned hsize hk hbefore halign
    exact Or.inl ⟨m, Except.error.inj (h.symm.trans hm)⟩

end Node

namespace Reader

/-- Whatever a method of the reader fails with is one of these faults. -/
structure FailsWith (r : Reader) (p : Fault → Prop) : Prop where
  metadata : ∀ mint e, (r.metadata mint).result = .error e → p e
  attributes : ∀ mint e, (r.attributes mint).result = .error e → p e
  details : ∀ mint e, (r.details mint).result = .error e → p e
  metadataBatch : ∀ mints e, (r.metadataBatch mints).result = .error e → p e
  attributesBatch : ∀ mints e, (r.attributesBatch mints).result = .error e → p e

section

variable {r : Reader} {p : Fault → Prop}
  (hsource : ∀ keys e, (r.source keys).result = .error e → p e) (hown : ∀ m, p (.malformed m))

include hsource hown

theorem of_read_error {wanted : List (Address.Kind × Key)} {e : Fault}
    (h : (r.read wanted).result = .error e) : p e := by
  rw [read, mapM_eq_ok_map fun w : Address.Kind × Key => Address.ofMint_eq w.1 w.2 r.program] at h
  rcases bind_eq_error_iff.mp h with h | ⟨entries, -, h⟩
  · exact hsource _ e h
  · split at h
    · obtain rfl := Except.error.inj h
      exact hown _
    · cases h

theorem of_readOne_error {α : Type} {kind : Address.Kind} {decode : Bytes → Except Malformed α}
    {mint : Key} {e : Fault} (h : (r.readOne kind decode mint).result = .error e) : p e := by
  rcases bind_eq_error_iff.mp h with h | ⟨entries, -, h⟩
  · exact of_read_error hsource hown h
  · obtain ⟨m, rfl⟩ := toRecord_eq_error h
    exact hown m

theorem of_readMany_error {α : Type} {kind : Address.Kind} {decode : Bytes → Except Malformed α}
    {mints : List Key} {e : Fault} (h : (r.readMany kind decode mints).result = .error e) :
    p e := by
  rcases bind_eq_error_iff.mp h with h | ⟨entries, -, h⟩
  · exact of_read_error hsource hown h
  · obtain ⟨entry, -, hentry⟩ := List.mem_map.mp (mapM_eq_error_iff.mp h).mem
    obtain ⟨m, rfl⟩ := toRecord_eq_error hentry
    exact hown m

theorem failsWith_of_source : r.FailsWith p where
  metadata _ _ := of_readOne_error hsource hown
  attributes _ _ := of_readOne_error hsource hown
  details := by
    intro mint e h
    rcases bind_eq_error_iff.mp h with h | ⟨entries, -, h⟩
    · exact of_read_error hsource hown h
    rcases bind_eq_error_iff.mp h with h | ⟨metadata, -, h⟩
    · obtain ⟨m, rfl⟩ := toRecord_eq_error h
      exact hown m
    rcases bind_eq_error_iff.mp h with h | ⟨attributes, -, h⟩
    · obtain ⟨m, rfl⟩ := toRecord_eq_error h
      exact hown m
    · cases h
  metadataBatch _ _ := of_readMany_error hsource hown
  attributesBatch _ _ := of_readMany_error hsource hown

end

end Reader

/-- How reading a list of keys in batches fails. A fault that is not the library's own is the refusal
of the first corrupt text of a batch that is otherwise answered as it should be, like all batches
before it. -/
structure FailsAtCorruptText (answers : Answers) (size : Nat) (keys : List Key)
    (run : Exchange (List (Option Account))) : Prop where
  explained : ∀ e, run.result = .error e → answers.Explains e
  foreign_iff : ∀ m, run.result = .error (.misuse m) ↔
    ∃ k < pieceCount size keys.length,
      (∀ j < k, (Node.ofAnswers answers).IsAnswered size keys j) ∧
      (Node.ofAnswers answers).IsAligned size keys k ∧
      FirstFailure ((answers.texts size keys k).map fun s => Node.base64Data (.text s)) m

section

variable {answers : Answers} {size : Nat} {keys : List Key}

theorem firstFailure_batch_iff {k : Nat} {m : Misuse} :
    FirstFailure (((Node.ofAnswers answers).entries size keys k).map (·.mapM Node.decodeAccount)) m ↔
      FirstFailure ((answers.texts size keys k).map fun s => Node.base64Data (.text s)) m := by
  rw [Node.entries, Node.getD_ofAnswers, List.map_map]
  exact firstFailure_entries_iff

theorem failsAtCorruptText (hsize : 1 ≤ size) :
    FailsAtCorruptText answers size keys ((Node.ofAnswers answers).source size keys) where
  explained := by
    intro e h
    rcases Node.exists_batch_of_source_error hsize h with ⟨m, rfl⟩ | ⟨k, -, -, -, m, rfl, hm⟩
    · exact Or.inl trivial
    · obtain ⟨s, hs, hcorrupt⟩ := exists_hands_of_firstFailure (firstFailure_batch_iff.mp hm)
      exact Or.inr ⟨s, m, hs, hcorrupt, rfl⟩
  foreign_iff := by
    intro m
    constructor
    · intro h
      rcases Node.exists_batch_of_source_error hsize h with
        ⟨m', hm'⟩ | ⟨k, hk, hbefore, halign, m', hsame, hm'⟩
      · cases hm'
      · obtain rfl := Fault.misuse.inj hsame
        exact ⟨k, hk, hbefore, halign, firstFailure_batch_iff.mp hm'⟩
    · rintro ⟨k, hk, hbefore, halign, hm⟩
      exact Node.source_of_firstFailure hsize hk hbefore halign (firstFailure_batch_iff.mpr hm)

/-- When every text that is delivered is base64, nothing but the library's own faults is left. -/
theorem Answers.Explains.isOwn {e : Fault} (h : answers.Explains e)
    (hall : ∀ s, answers.Hands s → ∃ b, Base64.decode s = .ok b) : e.IsOwn := by
  rcases h with hown | ⟨s, m, hs, hcorrupt, -⟩
  · exact hown
  · obtain ⟨b, hb⟩ := hall s hs
    exact absurd hcorrupt (not_isCorrupt hb)

/-- Whatever a node answers, reading accounts or records through it in batches returns, or fails with
a fault of the library, or with the refusal of a corrupt text. The last is what happens at the first
such text that is met; without one it does not happen. -/
theorem reads_fail_with_own_faults_or_at_corrupt_text (answers : Answers) (hsize : 1 ≤ size) :
    (∀ keys, FailsAtCorruptText answers size keys ((Node.ofAnswers answers).source size keys)) ∧
    (∀ program,
      Reader.FailsWith ⟨(Node.ofAnswers answers).source size, program⟩ answers.Explains) ∧
    ((∀ s, answers.Hands s → ∃ b, Base64.decode s = .ok b) →
      (∀ keys e, ((Node.ofAnswers answers).source size keys).result = .error e → e.IsOwn) ∧
      ∀ program, Reader.FailsWith ⟨(Node.ofAnswers answers).source size, program⟩ Fault.IsOwn) := by
  have hexplained : ∀ keys e, ((Node.ofAnswers answers).source size keys).result = .error e →
      answers.Explains e := fun keys => (failsAtCorruptText hsize).explained
  refine ⟨fun keys => failsAtCorruptText hsize, ?_, ?_⟩
  · intro program
    exact Reader.failsWith_of_source hexplained fun m => Or.inl trivial
  · intro hall
    have hown : ∀ keys e, ((Node.ofAnswers answers).source size keys).result = .error e →
        e.IsOwn := fun keys e h => (hexplained keys e h).isOwn hall
    exact ⟨hown, fun program => Reader.failsWith_of_source hown fun m => trivial⟩

end

/-- An account for every key, all with one text for data. -/
def sayingText (s : String) : Answers := fun _ keys =>
  some (keys.map fun _ => some ⟨some (.text s), none⟩)

theorem eq_of_sayingText_hands {s t : String} (h : (sayingText s).Hands t) : t = s := by
  obtain ⟨call, keys, entries, entry, hanswer, hentry, htext⟩ := h
  obtain rfl := Option.some.inj hanswer
  obtain ⟨key, -, rfl⟩ := List.mem_map.mp hentry
  exact (Option.some.inj htext).symm

theorem reads_fail_with_own_faults_or_at_corrupt_text_one_letter :
    1 ≤ 1 ∧ (∃ b, Base64.decode "AQI=" = .ok b) ∧
    Reader.FailsWith ⟨(Node.ofAnswers (sayingText "AQI=")).source 1, Program.metadataId⟩
      Fault.IsOwn ∧
    ((Node.ofAnswers (sayingText "A")).source 1 [.filled 1]).result =
      .error (.misuse .unfinishedBase64) := by
  have hsound : Base64.decode "AQI=" = .ok [1, 2] := by decide
  obtain ⟨-, -, hown⟩ := reads_fail_with_own_faults_or_at_corrupt_text (sayingText "AQI=") le_rfl
  obtain ⟨hfails, -, -⟩ := reads_fail_with_own_faults_or_at_corrupt_text (sayingText "A") le_rfl
  have hall : ∀ s, (sayingText "AQI=").Hands s → ∃ b, Base64.decode s = .ok b := by
    intro s hs
    rw [eq_of_sayingText_hands hs]
    exact ⟨_, hsound⟩
  have hfirst : FirstFailure (((sayingText "A").texts 1 [.filled 1] 0).map fun s =>
      Node.base64Data (.text s)) .unfinishedBase64 :=
    ⟨[], [], by decide, by simp⟩
  refine ⟨le_rfl, ⟨_, hsound⟩, (hown hall).2 _, ?_⟩
  exact ((hfails [.filled 1]).foreign_iff _).mpr
    ⟨0, by decide, fun j hj => absurd hj (Nat.not_lt_zero j), rfl, hfirst⟩

/-- One account with a single letter for data is read neither as an account nor as a record, and what
comes of it is no fault of the library's own. -/
theorem corrupt_text_is_no_own_fault :
    ∃ e : Fault, ¬ e.IsOwn ∧
      ((Node.ofAnswers (sayingText "A")).source 1 [.filled 1]).result = .error e ∧
      (Reader.metadata ⟨(Node.ofAnswers (sayingText "A")).source 1, Program.metadataId⟩
        (.filled 1)).result = .error e := by
  refine ⟨.misuse .unfinishedBase64, fun h => h, ?_, ?_⟩
  · decide +kernel
  · decide +kernel

end TokenMetadata
