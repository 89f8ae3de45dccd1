import Mathlib
import TokenMetadata.Proofs.Payload
import TokenMetadata.Proofs.Record

/-!
# Records in the room of an account

The size of a packed record is a sum over its fields. Asking for less room is refused; asking for
more fills up with zeros, which are never read as an authority or as further attributes. A room of
more bytes than memory holds is not filled, and one of `2 ^ 63 - 33` bytes or more in no memory.
-/

namespace TokenMetadata

theorem length_writeText (s : String) : (Codec.text.write s).length = 4 + s.utf8ByteSize := by
  change (Bytes.ofNatLE 4 s.utf8ByteSize ++ Bytes.ofText s).length = _
  rw [List.length_append, Bytes.length_ofNatLE, Codec.length_ofText]

/-- The bytes of the attributes of a list, without its count. -/
def Attribute.totalSize (xs : List Attribute) : Nat :=
  (xs.map fun a => 8 + a.1.utf8ByteSize + a.2.utf8ByteSize).sum

theorem Attribute.length_flatMap_write (xs : List Attribute) :
    (xs.flatMap (Codec.pair .text .text).write).length = totalSize xs := by
  induction xs with
  | nil => rfl
  | cons a xs ih =>
    rw [List.flatMap_cons, List.length_append, ih, totalSize, totalSize, List.map_cons,
      List.sum_cons]
    change (Codec.text.write a.1 ++ Codec.text.write a.2).length + _ = _
    rw [List.length_append, length_writeText, length_writeText]
    omega

theorem Attribute.AllWithin.totalSize_le {xs : List Attribute} (h : AllWithin xs) :
    totalSize xs ≤ 32 * 312 := by
  have heach : ∀ n ∈ xs.map (fun a => 8 + a.1.utf8ByteSize + a.2.utf8ByteSize), n ≤ 312 := by
    intro n hn
    obtain ⟨a, ha, rfl⟩ := List.mem_map.mp hn
    have hk := (h.each a ha).key_le
    have hv := (h.each a ha).value_le
    omega
  have hsum := List.sum_le_card_nsmul _ 312 heach
  have hcount := h.count_le
  rw [List.length_map, smul_eq_mul] at hsum
  exact hsum.trans (Nat.mul_le_mul_right 312 hcount)

/-- The bytes of a packed metadata record: the mark, the mint, four texts with their lengths, and
the authority behind its flag. -/
def Metadata.packedSize (m : Metadata) : Nat :=
  1 + 32 + ((4 + m.fields.name.utf8ByteSize) + (4 + m.fields.symbol.utf8ByteSize) +
    (4 + m.fields.image.utf8ByteSize) + (4 + m.fields.description.utf8ByteSize)) +
    1 + (if m.updateAuthority.isSome then 32 else 0)

theorem Metadata.length_write (m : Metadata) : (codec.write m).length = m.packedSize := by
  have hauthority : ((Codec.option .key).write m.updateAuthority).length =
      1 + (if m.updateAuthority.isSome then 32 else 0) := by
    cases m.updateAuthority with
    | none => rfl
    | some k =>
      change (1 :: k.toBytes).length = _
      rw [List.length_cons, k.length_toBytes]
      rfl
  have hmint : (Codec.key.write m.mint).length = 32 := m.mint.length_toBytes
  change (Codec.flag.write m.isInitialized ++ (Codec.key.write m.mint ++
    ((Codec.text.write m.fields.name ++ (Codec.text.write m.fields.symbol ++
      (Codec.text.write m.fields.image ++ Codec.text.write m.fields.description))) ++
      (Codec.option .key).write m.updateAuthority))).length = _
  simp only [List.length_append, hauthority, hmint, length_writeText]
  rw [packedSize]
  change 1 + _ = _
  omega

/-- The bytes of a packed attributes record: the mark, the mint, and the counted attributes. -/
def Attributes.packedSize (a : Attributes) : Nat := 1 + 32 + 4 + Attribute.totalSize a.data

theorem Attributes.length_write (a : Attributes) : (codec.write a).length = a.packedSize := by
  have hmint : (Codec.key.write a.mint).length = 32 := a.mint.length_toBytes
  change (Codec.flag.write a.isInitialized ++ (Codec.key.write a.mint ++
    (Bytes.ofNatLE 4 a.data.length ++ a.data.flatMap (Codec.pair .text .text).write))).length = _
  simp only [List.length_append, hmint, Bytes.length_ofNatLE, Attribute.length_flatMap_write]
  rw [packedSize]
  change 1 + _ = _
  omega

section Fill

variable {memory : Nat} {raw : Bytes} {n : Int}

theorem packTo_tooSmall (h : n < raw.length) :
    packTo memory (.int n) raw =
      .error (.violation ⟨"account", .packedTooLong raw.length (.int n)⟩) := by
  have hbelow : (Datum.int n).isBelow? raw.length = some true := by
    simp [Datum.isBelow?, Datum.toInt?, h]
  simp only [packTo, hbelow]

theorem packTo_large (h : raw.length ≤ n) :
    packTo memory (.int n) raw =
      ((raw.padRight ·) <$> Bytes.acceptSize memory n).mapError .misuse := by
  have hbelow : (Datum.int n).isBelow? raw.length = some false := by
    simp [Datum.isBelow?, Datum.toInt?, h]
  simp only [packTo, hbelow]
  rfl

theorem packTo_fits (h : raw.length ≤ n) (hmemory : n ≤ memory) (hmax : n ≤ Bytes.maxSize) :
    packTo memory (.int n) raw = .ok (raw ++ List.replicate (n.toNat - raw.length) 0) := by
  have hsize : Bytes.acceptSize memory n = .ok n.toNat := by
    rw [Bytes.acceptSize_eq_ok_iff]
    omega
  rw [packTo_large h, hsize]
  rfl

theorem packTo_beyond (h : raw.length ≤ n) (hn : memory < n ∨ Bytes.maxSize < n) :
    packTo memory (.int n) raw =
      .error (.misuse (if (Bytes.maxSize : Int) < n then .tooLarge else .beyondMemory)) := by
  rw [packTo_large h, Bytes.acceptSize_of_beyond (by omega) hn]
  rfl

end Fill

/-- How a record of `size` packed bytes fills the room that is asked for, when memory holds up to
`memory` bytes. -/
structure FillsRoom {α : Type} (memory : Nat) (encode : Datum → Except Fault Bytes)
    (decode : Bytes → Except Malformed α) (x : α) (size : Nat) : Prop where
  unpadded : ∃ b, encode .null = .ok b ∧ b.length = size ∧ decode b = .ok x
  refused_iff : ∀ n : Int,
    (∃ v, encode (.int n) = .error (.violation v) ∧ v.field = "account" ∧
      v.limit = some (.int n) ∧ v.actual = some (size : Int)) ↔ n < size
  padded : ∀ n : Int, size ≤ n → n ≤ memory → n ≤ Bytes.maxSize →
    ∃ b, encode (.int n) = .ok b ∧ (b.length : Int) = n ∧ decode b = .ok x
  beyond : ∀ n : Int, size ≤ n → memory < n ∨ Bytes.maxSize < n → encode (.int n) =
    .error (.misuse (if (Bytes.maxSize : Int) < n then .tooLarge else .beyondMemory))

theorem fillsRoom_of_packTo {α : Type} {memory : Nat} {encode : Datum → Except Fault Bytes}
    {decode : Bytes → Except Malformed α} {x : α} {raw : Bytes}
    (encode_eq : ∀ room, encode room = packTo memory room raw)
    (decode_raw : ∀ rest, decode (raw ++ rest) = .ok x) :
    FillsRoom memory encode decode x raw.length where
  unpadded := ⟨raw, encode_eq .null, rfl, by simpa using decode_raw []⟩
  refused_iff n := by
    rw [encode_eq]
    constructor
    · rintro ⟨v, hv, -⟩
      by_contra hn
      rw [packTo_large (not_lt.mp hn)] at hv
      obtain ⟨f, -, hf⟩ := mapError_eq_error_iff.mp hv
      cases hf
    · intro hn
      exact ⟨_, packTo_tooSmall hn, rfl, rfl, rfl⟩
  padded n hn hmemory hmax := by
    refine ⟨_, (encode_eq _).trans (packTo_fits hn hmemory hmax), ?_, decode_raw _⟩
    rw [List.length_append, List.length_replicate]
    omega
  beyond n hn hbeyond := (encode_eq _).trans (packTo_beyond hn hbeyond)

theorem Metadata.fillsRoom {m : Metadata} (h : m.fields.Within) (memory : Nat) :
    FillsRoom memory (m.encode memory ·) decode m m.packedSize := by
  have hpack : m.pack = .ok (codec.write m) := pack_eq_ok_iff.mpr ⟨h, rfl⟩
  rw [← length_write]
  exact fillsRoom_of_packTo (fill_of_pack hpack memory) fun rest => decode_write rest h

theorem Attributes.fillsRoom {a : Attributes} (h : Attribute.AllWithin a.data) (memory : Nat) :
    FillsRoom memory (a.encode memory ·) decode a a.packedSize := by
  have hpack : a.pack = .ok (codec.write a) := pack_eq_ok_iff.mpr ⟨h, rfl⟩
  rw [← length_write]
  exact fillsRoom_of_packTo (fill_of_pack hpack memory) fun rest => decode_write rest h

/-- A record of values of any type is accepted as the texts and keys that it holds, within the
limits. -/
theorem Metadata.of_accept {mint initialized : Datum} {fields : Fields Datum}
    {authority : Option Datum} {m : Metadata}
    (h : accept mint fields authority initialized = .ok m) :
    mint = .bytes m.mint.toBytes ∧ fields = m.fields.map .text ∧
      authority = m.updateAuthority.map (.bytes ·.toBytes) ∧
      m.isInitialized = initialized.isTruthy ∧ m.fields.Within := by
  obtain ⟨texts, htexts, h₁⟩ := bind_eq_ok_iff.mp h
  obtain ⟨key?, hkey?, h₂⟩ := bind_eq_ok_iff.mp h₁
  obtain ⟨key, hkey, h₃⟩ := bind_eq_ok_iff.mp h₂
  obtain rfl := return_eq_ok_iff.mp h₃
  obtain ⟨rfl, hw⟩ := Fields.accept_eq_ok_iff.mp (mapError_eq_ok_iff.mp htexts)
  obtain rfl := Key.accept_eq_ok_iff.mp hkey
  refine ⟨rfl, rfl, ?_, rfl, hw⟩
  cases authority with
  | none =>
    obtain rfl : none = key? := return_eq_ok_iff.mp hkey?
    rfl
  | some v =>
    obtain ⟨k, hk, rfl⟩ := map_eq_ok_iff.mp hkey?
    rw [Key.accept_eq_ok_iff.mp hk]
    rfl

theorem Attributes.of_accept {mint data initialized : Datum} {a : Attributes}
    (h : accept mint data initialized = .ok a) :
    mint = .bytes a.mint.toBytes ∧ a.isInitialized = initialized.isTruthy ∧
      (∃ xs, data.items? = some xs ∧
        List.Forall₂ (fun x pair => Attribute.pair? x = some (Attribute.toData pair)) xs a.data) ∧
      Attribute.AllWithin a.data := by
  obtain ⟨pairs, hpairs, h₁⟩ := bind_eq_ok_iff.mp h
  obtain ⟨key, hkey, h₂⟩ := bind_eq_ok_iff.mp h₁
  obtain rfl := return_eq_ok_iff.mp h₂
  obtain rfl := Key.accept_eq_ok_iff.mp hkey
  obtain ⟨xs, hxs, hmatch, hw⟩ := Attribute.acceptAll_eq_ok_iff.mp hpairs
  exact ⟨rfl, rfl, ⟨xs, hxs, hmatch⟩, hw⟩

/-- Records that were accepted fill the room that is asked for, and are read back from it, however
much memory there is. -/
theorem accepted_record_fills_room (memory : Nat) :
    (∀ (mint initialized : Datum) (fields : Fields Datum) (authority : Option Datum)
      (m : Metadata), Metadata.accept mint fields authority initialized = .ok m →
        mint = .bytes m.mint.toBytes ∧ fields = m.fields.map .text ∧
          authority = m.updateAuthority.map (.bytes ·.toBytes) ∧
          m.isInitialized = initialized.isTruthy ∧
          FillsRoom memory (m.encode memory ·) Metadata.decode m m.packedSize) ∧
    (∀ (mint data initialized : Datum) (a : Attributes),
      Attributes.accept mint data initialized = .ok a →
        mint = .bytes a.mint.toBytes ∧ a.isInitialized = initialized.isTruthy ∧
          (∃ xs, data.items? = some xs ∧
            List.Forall₂ (fun x pair => Attribute.pair? x = some (Attribute.toData pair)) xs
              a.data) ∧
          FillsRoom memory (a.encode memory ·) Attributes.decode a a.packedSize) := by
  constructor
  · intro mint initialized fields authority m h
    obtain ⟨hmint, hfields, hauthority, hmark, hw⟩ := Metadata.of_accept h
    exact ⟨hmint, hfields, hauthority, hmark, Metadata.fillsRoom hw memory⟩
  · intro mint data initialized a h
    obtain ⟨hmint, hmark, hdata, hw⟩ := Attributes.of_accept h
    exact ⟨hmint, hmark, hdata, Attributes.fillsRoom hw memory⟩

/-- A record without an authority and one with a repeated attribute, both with an odd mark, where
memory holds sixty bytes. -/
theorem accepted_record_fills_room_odd_mark :
    FillsRoom 60 (Metadata.encode 60 ⟨.filled 1, ⟨"é", "s", "", ""⟩, none, true⟩ ·) Metadata.decode
      ⟨.filled 1, ⟨"é", "s", "", ""⟩, none, true⟩
      (Metadata.packedSize ⟨.filled 1, ⟨"é", "s", "", ""⟩, none, true⟩) ∧
    FillsRoom 60 (Attributes.encode 60 ⟨.filled 1, [("k", "v"), ("k", "é")], false⟩ ·)
      Attributes.decode ⟨.filled 1, [("k", "v"), ("k", "é")], false⟩
      (Attributes.packedSize ⟨.filled 1, [("k", "v"), ("k", "é")], false⟩) ∧
    (∃ b, Metadata.encode 60 ⟨.filled 1, ⟨"é", "s", "", ""⟩, none, true⟩ (.int 60) = .ok b ∧
      (b.length : Int) = 60) ∧
    Metadata.encode 60 ⟨.filled 1, ⟨"é", "s", "", ""⟩, none, true⟩ (.int 61) =
      .error (.misuse .beyondMemory) := by
  obtain ⟨-, -, -, -, hmetadata⟩ := (accepted_record_fills_room 60).1
    (.bytes (List.replicate 32 1)) (.int 7) ⟨.text "é", .text "s", .text "", .text ""⟩ none
    ⟨.filled 1, ⟨"é", "s", "", ""⟩, none, true⟩ (by decide +kernel)
  obtain ⟨-, -, -, hattributes⟩ := (accepted_record_fills_room 60).2
    (.bytes (List.replicate 32 1))
    (.list [.list [.text "k", .text "v"], .list [.text "k", .text "é"]]) (.text "")
    ⟨.filled 1, [("k", "v"), ("k", "é")], false⟩ (by decide +kernel)
  obtain ⟨b, hb, hlength, -⟩ := hmetadata.padded 60 (by decide) (by decide) (by decide)
  have hbeyond := hmetadata.beyond 61 (by decide) (Or.inl (by decide))
  exact ⟨hmetadata, hattributes, ⟨b, hb, hlength⟩, hbeyond⟩

/-- No byte string has `2 ^ 63` bytes, so the record of an empty token is not filled up to it in any
memory. -/
theorem room_too_large_to_fill :
    ¬ ∃ memory : Nat, ∀ (m : Metadata) (n : Int), m.fields.Within → m.packedSize ≤ n →
      ∃ b, m.encode memory (.int n) = .ok b ∧ (b.length : Int) = n := by
  rintro ⟨memory, h⟩
  have hw : Fields.Within ⟨"", "", "", ""⟩ := ⟨by decide, by decide, by decide, by decide⟩
  obtain ⟨b, hb, -⟩ := h ⟨.filled 1, ⟨"", "", "", ""⟩, none, true⟩ (2 ^ 63) hw (by decide)
  have hfills := Metadata.fillsRoom (m := ⟨.filled 1, ⟨"", "", "", ""⟩, none, true⟩) hw memory
  have hbeyond := hfills.beyond (2 ^ 63) (by decide) (Or.inr (by decide))
  cases hb.symm.trans hbeyond

end TokenMetadata
