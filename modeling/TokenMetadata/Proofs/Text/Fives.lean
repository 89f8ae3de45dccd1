import Mathlib
import TokenMetadata.Proofs.Bytes
import TokenMetadata.Text.Bech32

/-!
# Bytes in groups of five bits

The groups hold the bits of the bytes one after the other, with fewer than five zeros behind them.
Reading takes exactly such groups, so every byte string has one form in groups and every form is
that of the bytes read from it.
-/

namespace TokenMetadata

namespace Bech32

@[simp] theorem length_bits (width n : Nat) : (bits width n).length = width := by
  induction width with
  | zero => rfl
  | succ width ih => rw [bits, List.length_cons, ih]

theorem foldl_bits (bs : List Bool) (n : Nat) :
    bs.foldl (fun n b => 2 * n + b.toNat) n = n * 2 ^ bs.length + ofBits bs := by
  induction bs generalizing n with
  | nil => simp [ofBits]
  | cons b bs ih =>
    rw [ofBits, List.foldl_cons, List.foldl_cons, ih, ih, List.length_cons, Nat.pow_succ']
    ring

theorem ofBits_cons (b : Bool) (bs : List Bool) :
    ofBits (b :: bs) = b.toNat * 2 ^ bs.length + ofBits bs := by
  rw [ofBits, List.foldl_cons, foldl_bits, Nat.mul_zero, Nat.zero_add]

theorem ofBits_lt (bs : List Bool) : ofBits bs < 2 ^ bs.length := by
  induction bs with
  | nil => exact Nat.one_pos
  | cons b bs ih =>
    have hb := b.toNat_le
    rw [ofBits_cons, List.length_cons, Nat.pow_succ']
    nlinarith

theorem ofBits_bits (width n : Nat) : ofBits (bits width n) = n % 2 ^ width := by
  induction width with
  | zero => simp [bits, ofBits, Nat.mod_one]
  | succ width ih =>
    rw [bits, ofBits_cons, length_bits, ih, Nat.mod_pow_succ, Nat.toNat_testBit, Nat.mul_comm,
      Nat.add_comm]

theorem eq_of_ofBits_eq {bs cs : List Bool} (hlength : bs.length = cs.length)
    (h : ofBits bs = ofBits cs) : bs = cs := by
  induction bs generalizing cs with
  | nil => exact (List.length_eq_zero_iff.mp hlength.symm).symm
  | cons b bs ih =>
    cases cs with
    | nil => cases hlength
    | cons c cs =>
      have hrest : bs.length = cs.length := Nat.succ.inj hlength
      have hb := ofBits_lt bs
      have hc := ofBits_lt cs
      rw [ofBits_cons, ofBits_cons, hrest] at h
      rw [hrest] at hb
      cases b <;> cases c
      · simp only [Bool.toNat_false, Nat.zero_mul, Nat.zero_add] at h
        rw [ih hrest h]
      · simp only [Bool.toNat_false, Bool.toNat_true] at h
        omega
      · simp only [Bool.toNat_false, Bool.toNat_true] at h
        omega
      · rw [ih hrest (Nat.add_left_cancel h)]

theorem bits_ofBits {width : Nat} {bs : List Bool} (h : bs.length = width) :
    bits width (ofBits bs) = bs := by
  apply eq_of_ofBits_eq
  · rw [length_bits, h]
  · rw [ofBits_bits, ← h, Nat.mod_eq_of_lt (ofBits_lt bs)]

/-- The bits of bytes one after the other. -/
def byteBits (b : Bytes) : List Bool := b.flatMap fun x => bits 8 x.toNat

theorem length_byteBits (b : Bytes) : (byteBits b).length = 8 * b.length := by
  simp [byteBits, List.length_flatMap, Nat.mul_comm]

theorem length_flatMap_bits (values : List Nat) :
    (values.flatMap (bits 5)).length = 5 * values.length := by
  simp [List.length_flatMap, Nat.mul_comm]

/-- Pieces of whole width are the bits of their numbers. -/
theorem flatMap_bits_ofBits {width : Nat} {pieces : List (List Bool)}
    (h : ∀ piece ∈ pieces, piece.length = width) :
    (pieces.map ofBits).flatMap (bits width) = pieces.flatten := by
  induction pieces with
  | nil => rfl
  | cons piece pieces ih =>
    obtain ⟨hpiece, hrest⟩ := List.forall_mem_cons.mp h
    rw [List.map_cons, List.flatMap_cons, bits_ofBits hpiece, ih hrest, List.flatten_cons]

/-- The zeros behind the last byte, so that the groups are whole. -/
def fillOf (b : Bytes) : List Bool := List.replicate ((5 - 8 * b.length % 5) % 5) false

theorem dvd_length_filled (b : Bytes) : 5 ∣ (byteBits b ++ fillOf b).length := by
  rw [List.length_append, length_byteBits, fillOf, List.length_replicate]
  omega

theorem toFives_eq (b : Bytes) :
    toFives b = (chunksOf 5 (byteBits b ++ fillOf b)).map ofBits := by
  have hdvd := dvd_length_filled b
  rw [List.length_append, fillOf, List.length_replicate] at hdvd
  rw [toFives, fillOf, ← map_fill_chunksOf false (Nat.mod_lt _ (by decide)) hdvd, List.map_map]
  rfl

theorem toFives_lt {b : Bytes} {v : Nat} (h : v ∈ toFives b) : v < 32 := by
  rw [toFives_eq] at h
  obtain ⟨group, hgroup, rfl⟩ := List.mem_map.mp h
  have hlt := ofBits_lt group
  rwa [length_of_mem_chunksOf (dvd_length_filled b) group hgroup] at hlt

theorem flatMap_bits_toFives (b : Bytes) :
    (toFives b).flatMap (bits 5) = byteBits b ++ fillOf b := by
  rw [toFives_eq, flatMap_bits_ofBits (length_of_mem_chunksOf (dvd_length_filled b)),
    flatten_chunksOf (by decide)]

/-- Groups with the same bits are the same. -/
theorem eq_of_flatMap_bits {values values' : List Nat} (h : ∀ v ∈ values, v < 32)
    (h' : ∀ v ∈ values', v < 32) (heq : values.flatMap (bits 5) = values'.flatMap (bits 5)) :
    values = values' := by
  have back : ∀ vs : List Nat, (∀ v ∈ vs, v < 32) →
      (chunksOf 5 (vs.flatMap (bits 5))).map ofBits = vs := by
    intro vs hvs
    rw [chunksOf_flatMap (by decide) fun v _ => length_bits 5 v, List.map_map]
    refine (List.map_congr_left fun v hv => ?_).trans (List.map_id vs)
    exact (ofBits_bits 5 v).trans (Nat.mod_eq_of_lt (hvs v hv))
  rw [← back values h, heq, back values' h']

/-- Whole bytes are read back from their bits. -/
theorem bytes_of_byteBits (b : Bytes) :
    (chunksOf 8 (byteBits b)).map (fun group => UInt8.ofNat (ofBits group)) = b := by
  rw [byteBits, chunksOf_flatMap (by decide) fun x _ => length_bits 8 x.toNat, List.map_map]
  refine (List.map_congr_left fun x _ => ?_).trans (List.map_id b)
  rw [Function.comp_apply, ofBits_bits, Nat.mod_eq_of_lt x.toNat_lt, UInt8.ofNat_toNat, id]

theorem byteBits_bytes {bs : List Bool} (h : 8 ∣ bs.length) :
    byteBits ((chunksOf 8 bs).map fun group => UInt8.ofNat (ofBits group)) = bs := by
  have hgroups := length_of_mem_chunksOf h
  have hbyte : ∀ group ∈ chunksOf 8 bs, (UInt8.ofNat (ofBits group)).toNat = ofBits group := by
    intro group hgroup
    have hlt := ofBits_lt group
    rw [hgroups group hgroup] at hlt
    exact UInt8.toNat_ofNat_of_lt' hlt
  calc byteBits ((chunksOf 8 bs).map fun group => UInt8.ofNat (ofBits group))
      = ((chunksOf 8 bs).map ofBits).flatMap (bits 8) := by
        rw [byteBits, List.flatMap_map, List.flatMap_map]
        exact List.flatMap_congr fun group hgroup => by rw [hbyte group hgroup]
    _ = bs := by rw [flatMap_bits_ofBits hgroups, flatten_chunksOf (by decide)]

theorem ofFives?_eq_some_iff_bits {values : List Nat} {b : Bytes} :
    ofFives? values = some b ↔
      ∃ k < 5, values.flatMap (bits 5) = byteBits b ++ List.replicate k false := by
  simp only [ofFives?, Option.ite_none_right_eq_some, Option.some.injEq]
  generalize values.flatMap (bits 5) = all
  constructor
  · rintro ⟨⟨hfew, hzero⟩, rfl⟩
    have hwhole : 8 ∣ (all.take (all.length / 8 * 8)).length := by
      rw [List.length_take, Nat.min_eq_left (Nat.div_mul_le_self _ _)]
      exact Nat.dvd_mul_left 8 _
    have hleft : all.drop (all.length / 8 * 8) =
        List.replicate (all.drop (all.length / 8 * 8)).length false := by
      refine List.eq_replicate_iff.mpr ⟨rfl, fun bit hbit => ?_⟩
      simpa using List.all_eq_true.mp hzero bit hbit
    refine ⟨_, Nat.lt_succ_of_le hfew, ?_⟩
    rw [byteBits_bytes hwhole, ← hleft, List.take_append_drop]
  · rintro ⟨k, hk, rfl⟩
    have hwhole : (byteBits b ++ List.replicate k false).length / 8 * 8 = (byteBits b).length := by
      rw [List.length_append, length_byteBits, List.length_replicate]
      omega
    rw [hwhole, List.take_left, List.drop_left]
    refine ⟨⟨?_, ?_⟩, bytes_of_byteBits b⟩
    · rw [List.length_replicate]
      exact Nat.le_of_lt_succ hk
    · simp

/-- Groups are read as the bytes that they are the form of. -/
theorem ofFives?_eq_some_iff {values : List Nat} {b : Bytes} (h : ∀ v ∈ values, v < 32) :
    ofFives? values = some b ↔ values = toFives b := by
  rw [ofFives?_eq_some_iff_bits]
  constructor
  · rintro ⟨k, hk, hbits⟩
    refine eq_of_flatMap_bits h (fun v => toFives_lt) ?_
    have hlength := congrArg List.length hbits
    rw [length_flatMap_bits, List.length_append, length_byteBits, List.length_replicate] at hlength
    have hfill : k = (5 - 8 * b.length % 5) % 5 := by omega
    rw [hbits, flatMap_bits_toFives, fillOf, ← hfill]
  · rintro rfl
    exact ⟨_, Nat.mod_lt _ (by decide), flatMap_bits_toFives b⟩

end Bech32

end TokenMetadata
