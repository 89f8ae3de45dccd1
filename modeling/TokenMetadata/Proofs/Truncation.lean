import Mathlib
import TokenMetadata.Proofs.Payload
import TokenMetadata.Proofs.Record
import TokenMetadata.Proofs.Wire.Steady

/-!
# Bytes that go on and bytes that are cut short

Decoding takes a value from the front of its bytes. Whatever follows changes neither the value nor a
failure that is final, and without the last byte that was used there is no value. So the bytes of a
value never begin with the bytes of another one.
-/

namespace TokenMetadata

/-- Failures that more bytes cannot mend: an unknown tag, and a text that is not UTF-8. -/
def Malformed.IsFinal : Malformed → Prop
  | unknownTag _ => True
  | layout _ flaw => flaw.IsFinal
  | _ => False

/-- The first `m` bytes of `data` are those that `x` is read from. -/
def Consumes {α : Type} (read : Bytes → Except Malformed (α × Bytes)) (data : Bytes) (x : α)
    (m : Nat) : Prop :=
  m ≤ data.length ∧ read data = .ok (x, data.drop m)

/-- Values that show where they end. `cutShort` is the failure of bytes that end inside a value, by
their number. -/
structure SelfDelimiting {ε α : Type} (encode : α → Except ε Bytes)
    (decode : Bytes → Except Malformed α) (read : Bytes → Except Malformed (α × Bytes))
    (cutShort : Nat → Malformed) : Prop where
  decode_eq : ∀ data, decode data = (·.1) <$> read data
  consumes : ∀ data x, decode data = .ok x → ∃ m, Consumes read data x m
  value_append : ∀ data tail x, decode data = .ok x → decode (data ++ tail) = .ok x
  failure_append : ∀ data tail e, e.IsFinal → decode data = .error e →
    decode (data ++ tail) = .error e
  cut : ∀ data x m k, Consumes read data x m → k < m →
    decode (data.take k) = .error (cutShort k)
  encode_consumes : ∀ x b, encode x = .ok b → Consumes read b x b.length
  not_prefix : ∀ a b x y, Consumes read a x a.length → Consumes read b y b.length →
    a <+: b → a = b ∧ x = y

section

variable {ε α : Type} {encode : α → Except ε Bytes} {decode : Bytes → Except Malformed α}
  {read : Bytes → Except Malformed (α × Bytes)} {cutShort : Nat → Malformed}

theorem consumes_length_iff {data : Bytes} {x : α} :
    Consumes read data x data.length ↔ read data = .ok (x, []) := by
  rw [Consumes, List.drop_length]
  exact and_iff_right le_rfl

theorem Steady.exists_consumes {Final : Malformed → Prop} (h : Steady Final read)
    {data rest : Bytes} {x : α} (hread : read data = .ok (x, rest)) :
    ∃ m, Consumes read data x m := by
  obtain ⟨used, rfl, -⟩ := h.of_ok data x rest hread
  refine ⟨used.length, ?_, ?_⟩
  · rw [List.length_append]
    exact Nat.le_add_right _ _
  · rw [hread, List.drop_left]

theorem Steady.eq_of_isPrefix {Final : Malformed → Prop} (h : Steady Final read) {a b : Bytes}
    {x y : α} (ha : read a = .ok (x, [])) (hb : read b = .ok (y, [])) (hab : a <+: b) :
    a = b ∧ x = y := by
  obtain ⟨tail, rfl⟩ := hab
  have hboth := h.read_append ha tail
  rw [hb] at hboth
  obtain ⟨rfl, rfl⟩ : y = x ∧ [] = tail := by simpa using hboth
  exact ⟨(List.append_nil a).symm, rfl⟩

theorem selfDelimiting_of_steady (decode_eq : ∀ data, decode data = (·.1) <$> read data)
    (steady : Steady Malformed.IsFinal read)
    (unfinished : ∀ b e, read b = .error e → ¬ e.IsFinal → e = cutShort b.length)
    (read_encoded : ∀ x b, encode x = .ok b → read b = .ok (x, [])) :
    SelfDelimiting encode decode read cutShort where
  decode_eq := decode_eq
  consumes := by
    intro data x h
    rw [decode_eq] at h
    obtain ⟨⟨y, rest⟩, hread, rfl⟩ := map_eq_ok_iff.mp h
    exact steady.exists_consumes hread
  value_append := by
    intro data tail x h
    rw [decode_eq] at h ⊢
    obtain ⟨⟨y, rest⟩, hread, rfl⟩ := map_eq_ok_iff.mp h
    exact map_eq_ok_iff.mpr ⟨_, steady.read_append hread tail, rfl⟩
  failure_append := by
    intro data tail e hfinal h
    rw [decode_eq] at h ⊢
    have hread := map_eq_error_iff.mp h
    exact map_eq_error_iff.mpr (steady.of_final data e hfinal hread tail)
  cut := by
    intro data x m k hused hk
    obtain ⟨hm, hread⟩ := hused
    have hlength : (data.take m).length = m := List.length_take_of_le hm
    have hsplit : data.take m ++ data.drop m = data := List.take_append_drop m data
    rw [← hsplit, List.drop_left' hlength] at hread
    obtain ⟨e, he, hopen⟩ := steady.cut hread (k := k) (by omega)
    rw [List.take_take, min_eq_left hk.le] at he
    have hcount : (data.take k).length = k := List.length_take_of_le (by omega)
    have hcut := unfinished _ e he hopen
    rw [hcount] at hcut
    rw [decode_eq]
    exact map_eq_error_iff.mpr (hcut ▸ he)
  encode_consumes := by
    intro x b h
    exact consumes_length_iff.mpr (read_encoded x b h)
  not_prefix := by
    intro a b x y ha hb hab
    exact steady.eq_of_isPrefix (consumes_length_iff.mp ha) (consumes_length_iff.mp hb) hab

/-- A reading of a layout is steady, and the failures that are left are of bytes that end too
early. -/
theorem steady_layout {read : Bytes → Except Flaw (α × Bytes)} (h : Steady Flaw.IsFinal read)
    (subject : Subject) :
    Steady Malformed.IsFinal fun b => (read b).mapError (.layout subject) :=
  h.mapError fun _ hfinal => hfinal

theorem layout_unfinished {run : Except Flaw α} {subject : Subject} {e : Malformed}
    (h : run.mapError (.layout subject) = .error e) (hopen : ¬ e.IsFinal) :
    e = .layout subject .truncated := by
  obtain ⟨flaw, -, rfl⟩ := mapError_eq_error_iff.mp h
  cases flaw with
  | truncated => rfl
  | notUtf8 => exact absurd rfl hopen

end

namespace Payload

theorem steady_readBody (tag : UInt8) : Steady Flaw.IsFinal (readBody tag) := by
  have hcreate : Steady Flaw.IsFinal createCodec.read := (Steady.fields .text).pair .flag
  have hupdate : Steady Flaw.IsFinal updateCodec.read := .fields (.option .text)
  unfold readBody
  split
  · exact hcreate.bind fun x => .value (createMetadata x.1 x.2)
  · exact hupdate.bind fun fields => .value (updateMetadata fields)
  · exact Steady.attributes.bind fun data => .value (createAttributes data)
  · exact Steady.attributes.bind fun data => .value (replaceAttributes data)
  · exact Steady.key.bind fun newAuthority => .value (transferAuthority newAuthority)
  · exact .value makeImmutable

theorem steady_read : Steady Malformed.IsFinal read where
  of_ok := by
    intro b p rest h
    cases b with
    | nil => cases h
    | cons tag b =>
      rw [read] at h
      split at h
      · cases h
      rename_i hknown
      have hbody := steady_layout (steady_readBody tag) .instruction
      obtain ⟨used, rfl, hused⟩ := hbody.of_ok b p rest h
      refine ⟨tag :: used, rfl, ?_⟩
      intro tail
      rw [List.cons_append, read, if_neg hknown]
      exact hused tail
  of_final := by
    intro b e hfinal h tail
    cases b with
    | nil =>
      cases h
      exact hfinal.elim
    | cons tag b =>
      rw [read] at h
      rw [List.cons_append, read]
      by_cases hknown : 6 ≤ tag
      · rw [if_pos hknown] at h ⊢
        exact h
      · rw [if_neg hknown] at h ⊢
        have hbody := steady_layout (steady_readBody tag) .instruction
        exact hbody.of_final b e hfinal h tail

theorem read_unfinished {b : Bytes} {e : Malformed} (h : read b = .error e) (hopen : ¬ e.IsFinal) :
    e = if b.length = 0 then .emptyInstruction else .layout .instruction .truncated := by
  cases b with
  | nil =>
    cases h
    rfl
  | cons tag b =>
    rw [read] at h
    split at h
    · cases h
      exact absurd trivial hopen
    · exact layout_unfinished h hopen

theorem read_of_encode {p : Payload} {b : Bytes} (h : p.encode = .ok b) :
    read b = .ok (p, []) := by
  obtain ⟨hw, rfl⟩ := encode_eq_ok_iff.mp h
  have hread := read_write [] (fits_of_within hw)
  rwa [List.append_nil] at hread

end Payload

namespace Metadata

/-- Reads a record and returns what follows it. -/
def read (b : Bytes) : Except Malformed (Metadata × Bytes) :=
  (codec.read b).mapError (.layout .metadata)

theorem decode_eq (b : Bytes) : decode b = (·.1) <$> read b := by
  rw [decode, read]
  cases codec.read b <;> rfl

theorem steady_read : Steady Malformed.IsFinal read :=
  steady_layout (Steady.flag.pair (.pair .key (.pair (.fields .text) (.option .key)))).imap .metadata

theorem read_of_encode {memory : Nat} {m : Metadata} {b : Bytes}
    (h : m.encode memory .null = .ok b) : read b = .ok (m, []) := by
  obtain ⟨hw, hb⟩ := encode_eq_ok_iff.mp h
  obtain rfl : codec.write m = b := by simpa using hb
  have hread := law.read_write m [] (fits_of_within hw)
  rw [List.append_nil] at hread
  exact mapError_eq_ok_iff.mpr hread

end Metadata

namespace Attributes

/-- Reads a record and returns what follows it. -/
def read (b : Bytes) : Except Malformed (Attributes × Bytes) :=
  (codec.read b).mapError (.layout .attributes)

theorem decode_eq (b : Bytes) : decode b = (·.1) <$> read b := by
  rw [decode, read]
  cases codec.read b <;> rfl

theorem steady_read : Steady Malformed.IsFinal read :=
  steady_layout (Steady.flag.pair (.pair .key .attributes)).imap .attributes

theorem read_of_encode {memory : Nat} {a : Attributes} {b : Bytes}
    (h : a.encode memory .null = .ok b) : read b = .ok (a, []) := by
  obtain ⟨hw, hb⟩ := encode_eq_ok_iff.mp h
  obtain rfl : codec.write a = b := by simpa using hb
  have hread := law.read_write a [] (fits_of_within hw)
  rw [List.append_nil] at hread
  exact mapError_eq_ok_iff.mpr hread

end Attributes

/-- The three decoders keep their answer when bytes follow, and refuse every part of the bytes they
used as cut short. -/
theorem decoding_is_self_delimiting (memory : Nat) :
    SelfDelimiting Payload.encode Payload.decode Payload.read
      (fun k => if k = 0 then .emptyInstruction else .layout .instruction .truncated) ∧
    SelfDelimiting (Metadata.encode memory · .null) Metadata.decode Metadata.read
      (fun _ => .layout .metadata .truncated) ∧
    SelfDelimiting (Attributes.encode memory · .null) Attributes.decode Attributes.read
      (fun _ => .layout .attributes .truncated) := by
  refine ⟨?_, ?_, ?_⟩
  · exact selfDelimiting_of_steady (fun _ => rfl) Payload.steady_read
      (fun _ _ => Payload.read_unfinished) fun _ _ => Payload.read_of_encode
  · exact selfDelimiting_of_steady Metadata.decode_eq Metadata.steady_read
      (fun _ _ => layout_unfinished) fun _ _ => Metadata.read_of_encode
  · exact selfDelimiting_of_steady Attributes.decode_eq Attributes.steady_read
      (fun _ _ => layout_unfinished) fun _ _ => Attributes.read_of_encode

/-- An update with bytes behind it and cut inside a length, a record cut to nothing, and attributes
with a key that is not UTF-8. -/
theorem decoding_is_self_delimiting_update :
    Payload.decode ([1, 0, 1, 0, 0, 0, 0, 0, 0] ++ [255, 1]) =
      .ok (.updateMetadata ⟨none, some "", none, none⟩) ∧
    Payload.decode (([1, 0, 1, 0, 0, 0, 0, 0, 0, 255] : Bytes).take 4) =
      .error (.layout .instruction .truncated) ∧
    Payload.decode (([1, 0, 1, 0, 0, 0, 0, 0, 0, 255] : Bytes).take 0) = .error .emptyInstruction ∧
    Metadata.decode ((List.replicate 50 0 : Bytes).take 49) = .error (.layout .metadata .truncated) ∧
    Attributes.decode ((List.replicate 33 0 ++ [1, 0, 0, 0, 1, 0, 0, 0, 255]) ++ [1, 0, 0, 0, 97]) =
      .error (.layout .attributes .notUtf8) :=
  ⟨(decoding_is_self_delimiting Bytes.maxSize).1.value_append _ _ _ (by decide +kernel),
    (decoding_is_self_delimiting Bytes.maxSize).1.cut _
      (.updateMetadata ⟨none, some "", none, none⟩) 9 4 ⟨by decide, by decide +kernel⟩ (by decide),
    (decoding_is_self_delimiting Bytes.maxSize).1.cut _
      (.updateMetadata ⟨none, some "", none, none⟩) 9 0 ⟨by decide, by decide +kernel⟩ (by decide),
    (decoding_is_self_delimiting Bytes.maxSize).2.1.cut _
      ⟨.filled 0, ⟨"", "", "", ""⟩, none, false⟩ 50 49 ⟨by decide, by decide +kernel⟩ (by decide),
    (decoding_is_self_delimiting Bytes.maxSize).2.2.failure_append _ _ _ rfl (by decide +kernel)⟩

end TokenMetadata
