/-!
# Byte strings

Byte strings are lists of bytes. Numbers are written in a fixed count of bytes, least or most
significant byte first; writing takes the number modulo `256 ^ width`, reading takes every byte.
Lists of any kind are cut into pieces: every piece but the last has the same size and none is empty.
-/

namespace TokenMetadata

abbrev Bytes := List UInt8

namespace Bytes

/-- The `width` low bytes of `n`, least significant first. -/
def ofNatLE : (width : Nat) → (n : Nat) → Bytes
  | 0, _ => []
  | width + 1, n => UInt8.ofNat n :: ofNatLE width (n / 256)

/-- The number whose bytes are given least significant first. -/
def toNatLE : Bytes → Nat
  | [] => 0
  | b :: rest => b.toNat + 256 * toNatLE rest

/-- The `width` low bytes of `n`, most significant first. -/
def ofNatBE (width n : Nat) : Bytes := (ofNatLE width n).reverse

/-- The number whose bytes are given most significant first. -/
def toNatBE (b : Bytes) : Nat := toNatLE b.reverse

/-- Zero bytes are appended up to `width`; a longer string stays as it is. -/
def padRight (width : Nat) (b : Bytes) : Bytes := b ++ List.replicate (width - b.length) 0

/-- The UTF-8 bytes of a text. -/
def ofText (s : String) : Bytes := s.toUTF8.data.toList

/-- The text whose UTF-8 bytes are given; surrogates, overlong forms and stray bytes have none. -/
def toText? (b : Bytes) : Option String := String.fromUTF8? ⟨b.toArray⟩

@[simp] theorem length_ofNatLE (width n : Nat) : (ofNatLE width n).length = width := by
  induction width generalizing n with
  | zero => rfl
  | succ width ih => simp [ofNatLE, ih]

theorem ofNatLE_toNatLE (b : Bytes) : ofNatLE b.length (toNatLE b) = b := by
  induction b with
  | nil => rfl
  | cons x rest ih =>
    have hx := x.toNat_lt
    have hdiv : (x.toNat + 256 * toNatLE rest) / 256 = toNatLE rest := by omega
    have hbyte : UInt8.ofNat (x.toNat + 256 * toNatLE rest) = x := by
      apply UInt8.toNat_inj.mp
      simp
    rw [List.length_cons, toNatLE, ofNatLE, hdiv, ih, hbyte]

@[simp] theorem length_ofNatBE (width n : Nat) : (ofNatBE width n).length = width := by
  simp [ofNatBE]

theorem ofNatBE_toNatBE (b : Bytes) : ofNatBE b.length (toNatBE b) = b := by
  have h := ofNatLE_toNatLE b.reverse
  rw [List.length_reverse] at h
  rw [ofNatBE, toNatBE, h, List.reverse_reverse]

theorem toText?_ofText (s : String) : toText? (ofText s) = some s := by
  have h : (⟨(ofText s).toArray⟩ : ByteArray) = s.toByteArray := by
    simp [ofText]
  rw [toText?, h, String.fromUTF8?, dif_pos (by simpa using s.isValidUTF8)]
  rfl

theorem ofText_of_toText? {b : Bytes} {s : String} (h : toText? b = some s) : ofText s = b := by
  rw [toText?, String.fromUTF8?] at h
  split at h
  · cases h
    simp [ofText, String.fromUTF8]
  · simp at h

end Bytes

/-- The pieces of a list, from the front. A size of zero has no pieces. -/
def chunksOf {α : Type} (size : Nat) (xs : List α) : List (List α) :=
  if h : size = 0 ∨ xs = [] then []
  else
    have : xs.length - size < xs.length := by
      have := List.length_pos_iff.mpr (not_or.mp h).2
      omega
    xs.take size :: chunksOf size (xs.drop size)
termination_by xs.length
decreasing_by simpa using this

theorem flatten_chunksOf {α : Type} {size : Nat} (h : size ≠ 0) (xs : List α) :
    (chunksOf size xs).flatten = xs := by
  fun_induction chunksOf size xs with
  | case1 xs hx => simpa using (hx.resolve_left h).symm
  | case2 xs hx _ ih => rw [List.flatten_cons, ih, List.take_append_drop]

end TokenMetadata
