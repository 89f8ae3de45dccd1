import Mathlib
import TokenMetadata.Proofs.Payload
import TokenMetadata.Proofs.Record

/-!
# Writing what was read

Reading has no limits and takes any flag that is not zero. Writing the value again succeeds exactly
within the limits, and gives the bytes that were read with every flag in its usual form.
-/

namespace TokenMetadata

/-- Writing `x` again, which was read from the bytes `used` with flags at the marks: it succeeds
within the limits only; then it has as many bytes as were used, the same ones except that a flag
which is not zero is one, and `x` is read from them. -/
structure Rewrites {ε α : Type} (encode : α → Except ε Bytes) (decode : Bytes → Except Malformed α)
    (marks : Marks) (within : Prop) (x : α) (used : Bytes) : Prop where
  succeeds_iff : (∃ b, encode x = .ok b) ↔ within
  length_eq : ∀ b, encode x = .ok b → b.length = used.length
  byte_eq : ∀ b, encode x = .ok b → ∀ i : Nat,
    b[i]? = used[i]?.map fun y => if marks[i]? = some true ∧ y ≠ 0 then 1 else y
  decodes : ∀ b, encode x = .ok b → decode b = .ok x
  eq_iff : ∀ b, encode x = .ok b →
    (b = used ↔ ∀ (i : Nat) (y : UInt8), marks[i]? = some true → used[i]? = some y → y = 0 ∨ y = 1)

theorem rewrites_of_settle {ε α : Type} {encode : α → Except ε Bytes}
    {decode : Bytes → Except Malformed α} {marks : Marks} {within : Prop} {x : α}
    {used written : Bytes} (encode_iff : ∀ b, encode x = .ok b ↔ within ∧ b = written)
    (decode_written : within → decode written = .ok x) (hlen : used.length = marks.length)
    (hsettle : marks.settle used = written) : Rewrites encode decode marks within x used where
  succeeds_iff := by
    constructor
    · rintro ⟨b, hb⟩
      exact ((encode_iff b).mp hb).1
    · intro hw
      exact ⟨written, (encode_iff _).mpr ⟨hw, rfl⟩⟩
  length_eq b hb := by
    obtain ⟨-, rfl⟩ := (encode_iff b).mp hb
    rw [← hsettle, Marks.length_settle hlen]
  byte_eq b hb i := by
    obtain ⟨-, rfl⟩ := (encode_iff b).mp hb
    rw [← hsettle, Marks.getElem?_settle marks used hlen]
  decodes b hb := by
    obtain ⟨hw, rfl⟩ := (encode_iff b).mp hb
    exact decode_written hw
  eq_iff b hb := by
    obtain ⟨-, rfl⟩ := (encode_iff b).mp hb
    rw [← hsettle, Marks.settle_eq_self_iff hlen]

theorem Payload.rewrites_of_read {data rest : Bytes} {p : Payload}
    (h : read data = .ok (p, rest)) : ∃ used, data = used ++ rest ∧
      Rewrites encode decode p.marks p.Within p used := by
  obtain ⟨-, used, hdata, hlen, hsettle⟩ := of_read h
  refine ⟨used, hdata, rewrites_of_settle (fun _ => encode_eq_ok_iff) (fun hw => ?_) hlen hsettle⟩
  simpa using decode_write [] (fits_of_within hw)

theorem Metadata.rewrites_of_read (memory : Nat) {data rest : Bytes} {m : Metadata}
    (h : codec.read data = .ok (m, rest)) : ∃ used, data = used ++ rest ∧
      Rewrites (encode memory · .null) decode (law.marks m) m.fields.Within m used := by
  obtain ⟨-, used, hdata, hlen, hsettle⟩ := law.of_read _ _ _ h
  refine ⟨used, hdata, rewrites_of_settle (fun b => ?_) (fun hw => ?_) hlen hsettle⟩
  · rw [encode_eq_ok_iff, packTo_null, Except.ok.injEq, eq_comm (a := b)]
  · simpa using decode_write [] hw

theorem Attributes.rewrites_of_read (memory : Nat) {data rest : Bytes} {a : Attributes}
    (h : codec.read data = .ok (a, rest)) : ∃ used, data = used ++ rest ∧
      Rewrites (encode memory · .null) decode (law.marks a) (Attribute.AllWithin a.data) a
        used := by
  obtain ⟨-, used, hdata, hlen, hsettle⟩ := law.of_read _ _ _ h
  refine ⟨used, hdata, rewrites_of_settle (fun b => ?_) (fun hw => ?_) hlen hsettle⟩
  · rw [encode_eq_ok_iff, packTo_null, Except.ok.injEq, eq_comm (a := b)]
  · simpa using decode_write [] hw

theorem exists_rest_of_map_fst {ε α β : Type} {run : Except ε (α × β)} {x : α}
    (h : (·.1) <$> run = .ok x) : ∃ rest, run = .ok (x, rest) := by
  obtain ⟨⟨y, rest⟩, hrun, rfl⟩ := map_eq_ok_iff.mp h
  exact ⟨rest, hrun⟩

/-- Whatever bytes a value was read from, writing it again gives back those that were used, in their
usual form, or breaks a limit: for payloads and for both accounts without padding. -/
theorem decoded_value_rewrites (memory : Nat) :
    (∀ (data : Bytes) (p : Payload), Payload.decode data = .ok p →
      ∃ used rest, data = used ++ rest ∧ Payload.read data = .ok (p, rest) ∧
        Rewrites Payload.encode Payload.decode p.marks p.Within p used) ∧
    (∀ (data : Bytes) (m : Metadata), Metadata.decode data = .ok m →
      ∃ used rest, data = used ++ rest ∧ Metadata.codec.read data = .ok (m, rest) ∧
        Rewrites (Metadata.encode memory · .null) Metadata.decode (Metadata.law.marks m)
          m.fields.Within m used) ∧
    (∀ (data : Bytes) (a : Attributes), Attributes.decode data = .ok a →
      ∃ used rest, data = used ++ rest ∧ Attributes.codec.read data = .ok (a, rest) ∧
        Rewrites (Attributes.encode memory · .null) Attributes.decode (Attributes.law.marks a)
          (Attribute.AllWithin a.data) a used) := by
  refine ⟨?_, ?_, ?_⟩
  · intro data p h
    obtain ⟨rest, hread⟩ := exists_rest_of_map_fst h
    obtain ⟨used, hdata, hrewrites⟩ := Payload.rewrites_of_read hread
    exact ⟨used, rest, hdata, hread, hrewrites⟩
  · intro data m h
    obtain ⟨rest, hread⟩ := exists_rest_of_map_fst (mapError_eq_ok_iff.mp h)
    obtain ⟨used, hdata, hrewrites⟩ := Metadata.rewrites_of_read memory hread
    exact ⟨used, rest, hdata, hread, hrewrites⟩
  · intro data a h
    obtain ⟨rest, hread⟩ := exists_rest_of_map_fst (mapError_eq_ok_iff.mp h)
    obtain ⟨used, hdata, hrewrites⟩ := Attributes.rewrites_of_read memory hread
    exact ⟨used, rest, hdata, hread, hrewrites⟩

/-- Flags of 9, 2, 7 and 255, and bytes left over. -/
theorem decoded_value_rewrites_odd_flags :
    (∃ used rest, [1, 9, 0, 0, 0, 0, 0, 0, 2, 0, 0, 0, 0, 77] = used ++ rest ∧
      Payload.read [1, 9, 0, 0, 0, 0, 0, 0, 2, 0, 0, 0, 0, 77] =
        .ok (.updateMetadata ⟨some "", none, none, some ""⟩, rest) ∧
      Rewrites Payload.encode Payload.decode
        (Payload.updateMetadata ⟨some "", none, none, some ""⟩).marks
        (Payload.updateMetadata ⟨some "", none, none, some ""⟩).Within
        (.updateMetadata ⟨some "", none, none, some ""⟩) used) ∧
    (∃ used rest,
      7 :: List.replicate 32 1 ++ List.replicate 16 0 ++ 255 :: List.replicate 33 2 =
        used ++ rest ∧
      Metadata.codec.read
        (7 :: List.replicate 32 1 ++ List.replicate 16 0 ++ 255 :: List.replicate 33 2) =
        .ok (⟨.filled 1, ⟨"", "", "", ""⟩, some (.filled 2), true⟩, rest) ∧
      Rewrites (Metadata.encode Bytes.maxSize · .null) Metadata.decode
        (Metadata.law.marks ⟨.filled 1, ⟨"", "", "", ""⟩, some (.filled 2), true⟩)
        (Fields.Within ⟨"", "", "", ""⟩)
        ⟨.filled 1, ⟨"", "", "", ""⟩, some (.filled 2), true⟩ used) ∧
    (∃ used rest, 7 :: List.replicate 32 1 ++ [1, 0, 0, 0] ++ List.replicate 9 0 = used ++ rest ∧
      Attributes.codec.read (7 :: List.replicate 32 1 ++ [1, 0, 0, 0] ++ List.replicate 9 0) =
        .ok (⟨.filled 1, [("", "")], true⟩, rest) ∧
      Rewrites (Attributes.encode Bytes.maxSize · .null) Attributes.decode
        (Attributes.law.marks ⟨.filled 1, [("", "")], true⟩) (Attribute.AllWithin [("", "")])
        ⟨.filled 1, [("", "")], true⟩ used) :=
  ⟨(decoded_value_rewrites Bytes.maxSize).1 _ _ (by decide +kernel),
    (decoded_value_rewrites Bytes.maxSize).2.1 _
      ⟨.filled 1, ⟨"", "", "", ""⟩, some (.filled 2), true⟩ (by decide +kernel),
    (decoded_value_rewrites Bytes.maxSize).2.2 _ ⟨.filled 1, [("", "")], true⟩ (by decide +kernel)⟩

end TokenMetadata
