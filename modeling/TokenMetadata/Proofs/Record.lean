import Mathlib
import TokenMetadata.Record
import TokenMetadata.Proofs.Limits
import TokenMetadata.Proofs.Wire.Law

/-!
# Account records and their bytes

Both layouts are lawful by the way they are built. A record is packed exactly when it is within the
limits; filling up with zeros only adds bytes behind it, which reading leaves over.
-/

namespace TokenMetadata

@[simp] theorem packTo_null (memory : Nat) (raw : Bytes) : packTo memory .null raw = .ok raw := rfl

/-- Filling up only ever adds zeros behind what was packed. -/
theorem exists_zeros_of_packTo {memory : Nat} {room : Datum} {raw b : Bytes}
    (h : packTo memory room raw = .ok b) :
    ∃ n, b = raw ++ List.replicate n 0 := by
  unfold packTo at h
  split at h
  · obtain rfl := Except.ok.inj h
    exact ⟨0, by simp⟩
  · cases h
  · obtain ⟨size, -, rfl⟩ := map_eq_ok_iff.mp (mapError_eq_ok_iff.mp h)
    exact ⟨_, rfl⟩
  · cases h

/-- Packing and filling up succeed when the record is within the limits and fits into the room. -/
theorem fill_eq_ok_iff {pack : Except Violation Bytes} {written : Bytes} {within : Prop}
    (h : ∀ b, pack = .ok b ↔ within ∧ b = written) {memory : Nat} {room : Datum} {b : Bytes} :
    (do let raw ← pack; packTo memory room raw : Except Fault Bytes) = .ok b ↔
      within ∧ packTo memory room written = .ok b := by
  refine bind_eq_ok_iff.trans ?_
  constructor
  · rintro ⟨raw, hraw, hb⟩
    obtain ⟨hw, rfl⟩ := (h raw).mp (mapError_eq_ok_iff.mp hraw)
    exact ⟨hw, hb⟩
  · rintro ⟨hw, hb⟩
    exact ⟨_, mapError_eq_ok_iff.mpr ((h _).mpr ⟨hw, rfl⟩), hb⟩

theorem fill_of_pack {pack : Except Violation Bytes} {raw : Bytes} (h : pack = .ok raw)
    (memory : Nat) (room : Datum) :
    (do let raw ← pack; packTo memory room raw : Except Fault Bytes) = packTo memory room raw := by
  rw [h]
  rfl

namespace Metadata

def law : Codec.Law codec :=
  (Codec.Law.flag.pair (.pair .key (.pair (.fields .text) (.option .key)))).imap
    (fun _ => rfl) (fun _ => rfl)

theorem fits_of_within {m : Metadata} (h : m.fields.Within) : law.Fits m :=
  ⟨trivial, trivial, h.fits, fun _ _ => trivial⟩

theorem decode_write {m : Metadata} (rest : Bytes) (h : m.fields.Within) :
    decode (codec.write m ++ rest) = .ok m := by
  rw [decode, law.read_write m rest (fits_of_within h)]
  rfl

theorem pack_eq_ok_iff {m : Metadata} {b : Bytes} :
    m.pack = .ok b ↔ m.fields.Within ∧ b = codec.write m :=
  (bind_return_eq_ok_iff fun _ => Fields.accept_text_iff).trans and_comm

theorem encode_eq_ok_iff {m : Metadata} {memory : Nat} {room : Datum} {b : Bytes} :
    m.encode memory room = .ok b ↔
      m.fields.Within ∧ packTo memory room (codec.write m) = .ok b :=
  fill_eq_ok_iff fun _ => pack_eq_ok_iff

theorem decode_of_encode {m : Metadata} {memory : Nat} {room : Datum} {b : Bytes}
    (h : m.encode memory room = .ok b) : decode b = .ok m := by
  obtain ⟨hw, hb⟩ := encode_eq_ok_iff.mp h
  obtain ⟨n, rfl⟩ := exists_zeros_of_packTo hb
  exact decode_write _ hw

end Metadata

namespace Attributes

def law : Codec.Law codec :=
  (Codec.Law.flag.pair (.pair .key .attributes)).imap (fun _ => rfl) (fun _ => rfl)

theorem fits_of_within {a : Attributes} (h : Attribute.AllWithin a.data) : law.Fits a :=
  ⟨trivial, trivial, h.fits⟩

theorem decode_write {a : Attributes} (rest : Bytes) (h : Attribute.AllWithin a.data) :
    decode (codec.write a ++ rest) = .ok a := by
  rw [decode, law.read_write a rest (fits_of_within h)]
  rfl

theorem pack_eq_ok_iff {a : Attributes} {b : Bytes} :
    a.pack = .ok b ↔ Attribute.AllWithin a.data ∧ b = codec.write a :=
  (bind_return_eq_ok_iff fun _ => Attribute.acceptPairs_text_iff).trans and_comm

theorem encode_eq_ok_iff {a : Attributes} {memory : Nat} {room : Datum} {b : Bytes} :
    a.encode memory room = .ok b ↔
      Attribute.AllWithin a.data ∧ packTo memory room (codec.write a) = .ok b :=
  fill_eq_ok_iff fun _ => pack_eq_ok_iff

theorem decode_of_encode {a : Attributes} {memory : Nat} {room : Datum} {b : Bytes}
    (h : a.encode memory room = .ok b) : decode b = .ok a := by
  obtain ⟨hw, hb⟩ := encode_eq_ok_iff.mp h
  obtain ⟨n, rfl⟩ := exists_zeros_of_packTo hb
  exact decode_write _ hw

end Attributes

end TokenMetadata
