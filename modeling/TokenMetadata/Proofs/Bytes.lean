import Mathlib
import TokenMetadata.Bytes

/-!
# Numbers in bytes, and the pieces of a list

Reading the bytes of a number gives the number modulo `256 ^ width`, and every reading is below the
power of the length. The pieces of a list are told by their number: all but the last have the whole
size, and put together they are the list.
-/

namespace TokenMetadata

namespace Bytes

theorem toNatLE_ofNatLE (width n : Nat) : toNatLE (ofNatLE width n) = n % 256 ^ width := by
  induction width generalizing n with
  | zero => simp [ofNatLE, toNatLE, Nat.mod_one]
  | succ width ih =>
    have h : (UInt8.ofNat n).toNat = n % 256 := by simp
    rw [ofNatLE, toNatLE, ih, h, Nat.pow_succ', Nat.mod_mul]

theorem toNatLE_lt (b : Bytes) : toNatLE b < 256 ^ b.length := by
  induction b with
  | nil => simp [toNatLE]
  | cons x rest ih =>
    have hx := x.toNat_lt
    rw [toNatLE, List.length_cons, Nat.pow_succ']
    omega

theorem toNatBE_ofNatBE (width n : Nat) : toNatBE (ofNatBE width n) = n % 256 ^ width := by
  simp [toNatBE, ofNatBE, toNatLE_ofNatLE]

end Bytes

section Blocks

variable {α β : Type} {size : Nat}

theorem chunksOf_append {front : List α} (hsize : size ≠ 0) (hfront : front.length = size)
    (rest : List α) : chunksOf size (front ++ rest) = front :: chunksOf size rest := by
  have hne : ¬ (size = 0 ∨ front ++ rest = []) := by
    rintro (h | h)
    · exact hsize h
    · rw [(List.append_eq_nil_iff.mp h).1] at hfront
      exact hsize hfront.symm
  rw [chunksOf, dif_neg hne, List.take_left' hfront, List.drop_left' hfront]

theorem chunksOf_nil (size : Nat) : chunksOf size ([] : List α) = [] := by
  rw [chunksOf, dif_pos (Or.inr rfl)]

/-- Blocks of the size of the pieces are the pieces. -/
theorem chunksOf_flatMap (hsize : size ≠ 0) {f : β → List α} {xs : List β}
    (h : ∀ x ∈ xs, (f x).length = size) : chunksOf size (xs.flatMap f) = xs.map f := by
  induction xs with
  | nil => exact chunksOf_nil size
  | cons x xs ih =>
    obtain ⟨hx, hxs⟩ := List.forall_mem_cons.mp h
    rw [List.flatMap_cons, chunksOf_append hsize hx, ih hxs, List.map_cons]

theorem length_of_mem_chunksOf {xs : List α} (h : size ∣ xs.length) :
    ∀ piece ∈ chunksOf size xs, piece.length = size := by
  fun_induction chunksOf size xs with
  | case1 => simp
  | case2 xs hxs _ ih =>
    have hpos := List.length_pos_iff.mpr (not_or.mp hxs).2
    have hle := Nat.le_of_dvd hpos h
    have hrest : size ∣ (xs.drop size).length := by
      rw [List.length_drop]
      exact Nat.dvd_sub h dvd_rfl
    exact List.forall_mem_cons.mpr ⟨by rw [List.length_take, Nat.min_eq_left hle], ih hrest⟩

/-- Filling up the last piece is the same as filling up the list. -/
theorem map_fill_chunksOf (z : α) {k : Nat} {xs : List α} (hk : k < size)
    (h : size ∣ xs.length + k) :
    (chunksOf size xs).map (fun piece => piece ++ List.replicate (size - piece.length) z) =
      chunksOf size (xs ++ List.replicate k z) := by
  have hsize : size ≠ 0 := by omega
  fun_induction chunksOf size xs with
  | case1 xs hxs =>
    obtain rfl := hxs.resolve_left hsize
    rw [List.length_nil, Nat.zero_add] at h
    rw [Nat.eq_zero_of_dvd_of_lt h hk, List.map_nil, List.nil_append, List.replicate_zero,
      chunksOf_nil]
  | case2 xs hxs _ ih =>
    have hpos := List.length_pos_iff.mpr (not_or.mp hxs).2
    by_cases hshort : xs.length < size
    · -- the only piece takes up all the zeros
      obtain ⟨q, hq⟩ := h
      have hone : q = 1 := by
        have hlow : 0 < size * q := by omega
        have hhigh : size * q < size * 2 := by omega
        have := Nat.pos_of_mul_pos_left hlow
        have := Nat.lt_of_mul_lt_mul_left hhigh
        omega
      rw [hone, Nat.mul_one] at hq
      have hfill : size - xs.length = k := by omega
      have hfront : (xs ++ List.replicate k z).length = size := by
        rw [List.length_append, List.length_replicate, hq]
      have hlast := chunksOf_append hsize hfront []
      rw [List.append_nil, chunksOf_nil] at hlast
      rw [List.take_of_length_le hshort.le, List.drop_of_length_le hshort.le, chunksOf_nil,
        List.map_singleton, hfill, hlast]
    · have hle := not_lt.mp hshort
      have htake : (xs.take size).length = size := by
        rw [List.length_take, Nat.min_eq_left hle]
      have hrest : size ∣ (xs.drop size).length + k := by
        rw [List.length_drop, ← Nat.sub_add_comm hle]
        exact Nat.dvd_sub h dvd_rfl
      have hsplit : xs ++ List.replicate k z =
          xs.take size ++ (xs.drop size ++ List.replicate k z) := by
        rw [← List.append_assoc, List.take_append_drop]
      rw [List.map_cons, ih hrest, htake, Nat.sub_self, List.replicate_zero, List.append_nil,
        hsplit, chunksOf_append hsize htake]

end Blocks

section Pieces

variable {α β : Type}

/-- The `k`-th of the consecutive pieces of a list. -/
def piece (size : Nat) (xs : List α) (k : Nat) : List α := (xs.drop (k * size)).take size

/-- How many pieces of a size there are when the last one may be shorter. -/
def pieceCount (size length : Nat) : Nat := (length + size - 1) / size

variable {size : Nat} (hsize : size ≠ 0) {xs : List α} {k m : Nat}

include hsize

theorem lt_pieceCount_iff {length : Nat} : k < pieceCount size length ↔ k * size < length := by
  rw [pieceCount, Nat.lt_iff_add_one_le, Nat.le_div_iff_mul_le (by omega), Nat.add_one_mul]
  omega

theorem pieceCount_drop (hxs : xs ≠ []) :
    pieceCount size xs.length = pieceCount size (xs.drop size).length + 1 := by
  have hlength := List.length_pos_iff.mpr hxs
  refine eq_of_forall_lt_iff fun k => ?_
  rw [lt_pieceCount_iff hsize]
  cases k with
  | zero => omega
  | succ k =>
    rw [Nat.add_lt_add_iff_right, lt_pieceCount_iff hsize, List.length_drop, Nat.add_one_mul]
    omega

omit hsize in
theorem piece_drop (k : Nat) : piece size (xs.drop size) k = piece size xs (k + 1) := by
  rw [piece, piece, List.drop_drop, Nat.add_one_mul, Nat.add_comm]

theorem chunksOf_eq_map_piece (xs : List α) :
    chunksOf size xs = (List.range (pieceCount size xs.length)).map (piece size xs) := by
  fun_induction chunksOf size xs with
  | case1 xs h =>
    obtain rfl := h.resolve_left hsize
    have hnone : pieceCount size ([] : List α).length = 0 := by
      rw [pieceCount, List.length_nil, Nat.div_eq_zero_iff]
      omega
    rw [hnone]
    rfl
  | case2 xs h _ ih =>
    have hfirst : piece size xs 0 = xs.take size := by rw [piece, Nat.zero_mul, List.drop_zero]
    rw [ih, pieceCount_drop hsize (not_or.mp h).2, List.range_succ_eq_map, List.map_cons,
      List.map_map, hfirst]
    congr 1
    exact List.map_congr_left fun k _ => piece_drop k

theorem length_piece_of_lt (h : k + 1 < pieceCount size xs.length) :
    (piece size xs k).length = size := by
  have hnext := (lt_pieceCount_iff hsize).mp h
  rw [Nat.add_one_mul] at hnext
  rw [piece, List.length_take, List.length_drop]
  omega

theorem piece_ne_nil (h : k < pieceCount size xs.length) : piece size xs k ≠ [] := by
  have hlt := (lt_pieceCount_iff hsize).mp h
  apply List.length_pos_iff.mp
  rw [piece, List.length_take, List.length_drop]
  omega

omit hsize in
theorem length_piece_le (k : Nat) : (piece size xs k).length ≤ size := by
  rw [piece, List.length_take]
  omega

omit hsize in
/-- Pieces that follow one another from the front make up the front of the list. -/
theorem flatMap_piece (size : Nat) (xs : List α) (m : Nat) :
    (List.range m).flatMap (piece size xs) = xs.take (m * size) := by
  induction m with
  | zero => simp
  | succ m ih =>
    rw [List.range_succ, List.flatMap_append, ih, List.flatMap_singleton, piece, Nat.add_one_mul,
      List.take_add]

theorem flatMap_piece_pieceCount (xs : List α) :
    (List.range (pieceCount size xs.length)).flatMap (piece size xs) = xs := by
  rw [List.flatMap_def, ← chunksOf_eq_map_piece hsize, flatten_chunksOf hsize]

omit hsize in
theorem length_flatMap_range {f : Nat → List β} (hfull : ∀ k < m, (f k).length = size) :
    ((List.range m).flatMap f).length = m * size := by
  induction m with
  | zero => simp
  | succ m ih =>
    rw [List.range_succ, List.flatMap_append, List.length_append, List.flatMap_singleton,
      ih fun k hk => hfull k (by omega), hfull m (by omega), Nat.add_one_mul]

/-- An item of pieces put together is found by the number of its piece and its place in it. -/
theorem getElem?_flatMap_range {f : Nat → List β} (hfull : ∀ k, k + 1 < m → (f k).length = size)
    {i : Nat} (hi : i / size < m) :
    ((List.range m).flatMap f)[i]? = (f (i / size))[i % size]? := by
  induction m with
  | zero => exact absurd hi (Nat.not_lt_zero _)
  | succ m ih =>
    have hfront : ((List.range m).flatMap f).length = m * size :=
      length_flatMap_range fun k hk => hfull k (by omega)
    rw [List.range_succ, List.flatMap_append, List.flatMap_singleton]
    by_cases hlast : i / size < m
    · have hin : i < m * size := (Nat.div_lt_iff_lt_mul (by omega)).mp hlast
      rw [List.getElem?_append_left (by omega), ih (fun k hk => hfull k (by omega)) hlast]
    · obtain rfl : i / size = m := by omega
      have hmod := Nat.div_add_mod' i size
      rw [List.getElem?_append_right (by omega), hfront]
      congr 1
      omega

end Pieces

end TokenMetadata
