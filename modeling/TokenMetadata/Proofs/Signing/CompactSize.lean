import Mathlib
import TokenMetadata.Signing.Witness
import TokenMetadata.Proofs.Bytes
import TokenMetadata.Proofs.Success

/-!
# Counts and their forms

A count has up to four forms. Each is read back whatever stands behind it, nothing else is read, and
what is written is the shortest of them.
-/

namespace TokenMetadata

namespace Witness

/-- Each marker, and the count of bytes behind it. -/
def markers : List (UInt8 × Nat) := [(0xfd, 2), (0xfe, 4), (0xff, 8)]

/-- The forms of a count: a byte below 253, or a marker and the bytes behind it with the lowest
first. -/
inductive CountForm : Bytes → Nat → Prop
  | byte (b : UInt8) (hsmall : b.toNat < 253) : CountForm [b] b.toNat
  | wide {marker : UInt8} (digits : Bytes) (hmarker : (marker, digits.length) ∈ markers) :
      CountForm (marker :: digits) (Bytes.toNatLE digits)

theorem eq_marker_of_not_lt {b : UInt8} (h : ¬ b.toNat < 253) : b = 0xfd ∨ b = 0xfe ∨ b = 0xff := by
  have hlt := b.toNat_lt
  simp only [← UInt8.toNat_inj, UInt8.reduceToNat]
  omega

theorem countWidth_eq_zero_iff {b : UInt8} : countWidth b = 0 ↔ b.toNat < 253 := by
  constructor
  · intro h
    by_contra hlarge
    rcases eq_marker_of_not_lt hlarge with rfl | rfl | rfl <;> exact absurd h (by decide)
  · intro h
    have hne : ∀ marker : UInt8, 253 ≤ marker.toNat → b ≠ marker := by
      rintro _ hmarker rfl
      omega
    rw [countWidth, if_neg (hne 0xfd (by decide)), if_neg (hne 0xfe (by decide)),
      if_neg (hne 0xff (by decide))]

theorem mem_markers_iff {marker : UInt8} {width : Nat} :
    (marker, width) ∈ markers ↔ marker = 0xfd ∧ width = 2 ∨ marker = 0xfe ∧ width = 4 ∨
      marker = 0xff ∧ width = 8 := by
  simp [markers]

theorem mem_markers_iff_countWidth {marker : UInt8} {width : Nat} :
    (marker, width) ∈ markers ↔ countWidth marker = width ∧ width ≠ 0 := by
  rw [mem_markers_iff]
  constructor
  · rintro (⟨rfl, rfl⟩ | ⟨rfl, rfl⟩ | ⟨rfl, rfl⟩) <;> decide
  · rintro ⟨rfl, hwidth⟩
    have hlarge : ¬ marker.toNat < 253 := fun hsmall => hwidth (countWidth_eq_zero_iff.mpr hsmall)
    rcases eq_marker_of_not_lt hlarge with rfl | rfl | rfl <;> decide

variable {b v w rest : Bytes} {n : Nat}

theorem readCount_of_form (h : CountForm w n) (rest : Bytes) :
    readCount (w ++ rest) = .ok (n, rest) := by
  cases h with
  | byte b hsmall =>
    change readCount (b :: rest) = _
    simp only [readCount, countWidth_eq_zero_iff.mpr hsmall, if_pos]
  | @wide marker digits hmarker =>
    obtain ⟨hwidth, hne⟩ := mem_markers_iff_countWidth.mp hmarker
    have hfits : digits.length ≤ (digits ++ rest).length := by
      rw [List.length_append]
      exact Nat.le_add_right _ _
    rw [List.cons_append]
    simp only [readCount, hwidth, if_neg hne, if_pos hfits, List.take_left, List.drop_left]

/-- A count is read from its forms and from nothing else. -/
theorem readCount_eq_ok_iff :
    readCount b = .ok (n, rest) ↔ ∃ w, b = w ++ rest ∧ CountForm w n := by
  constructor
  · intro h
    cases b with
    | nil => cases h
    | cons marker behind =>
      simp only [readCount] at h
      split at h
      · rename_i hzero
        obtain ⟨rfl, rfl⟩ := Prod.mk.inj (Except.ok.inj h)
        exact ⟨[marker], rfl, .byte marker (countWidth_eq_zero_iff.mp hzero)⟩
      rename_i hwidth
      split at h
      · rename_i hfits
        obtain ⟨rfl, rfl⟩ := Prod.mk.inj (Except.ok.inj h)
        have hlength := List.length_take_of_le hfits
        refine ⟨marker :: behind.take (countWidth marker), ?_, .wide _ ?_⟩
        · rw [List.cons_append, List.take_append_drop]
        · rw [hlength]
          exact mem_markers_iff_countWidth.mpr ⟨rfl, hwidth⟩
      · cases h
  · rintro ⟨w, rfl, hform⟩
    exact readCount_of_form hform rest

theorem readCount_eq_error {f : SigningFault} (h : readCount b = .error f) :
    f = .witnessTruncated := by
  cases b with
  | nil => exact (Except.error.inj h).symm
  | cons marker behind =>
    simp only [readCount] at h
    split at h
    · cases h
    split at h
    · cases h
    · exact (Except.error.inj h).symm

theorem CountForm.length_pos (h : CountForm w n) : 0 < w.length := by
  cases h <;> simp

theorem CountForm.lt (h : CountForm w n) : n < 2 ^ 64 := by
  cases h with
  | byte b hsmall => omega
  | wide digits hmarker =>
    have hlt := Bytes.toNatLE_lt digits
    have hle : 256 ^ digits.length ≤ 256 ^ 8 := by
      apply Nat.pow_le_pow_right (by decide)
      rw [mem_markers_iff] at hmarker
      omega
    exact hlt.trans_le hle

/-- Two forms in front of the same bytes are the same form. -/
theorem CountForm.unique {n' : Nat} {rest' : Bytes} (h : CountForm w n) (h' : CountForm v n')
    (hsame : w ++ rest = v ++ rest') : w = v ∧ n = n' ∧ rest = rest' := by
  have hread := readCount_of_form h rest
  rw [hsame, readCount_of_form h' rest'] at hread
  obtain ⟨rfl, rfl⟩ := Prod.mk.inj (Except.ok.inj hread)
  exact ⟨List.append_cancel_right hsame, rfl, rfl⟩

theorem length_compactSize (n : Nat) : (compactSize n).length =
    if n < 253 then 1 else if n ≤ 0xffff then 3 else if n ≤ 0xffffffff then 5 else 9 := by
  simp only [compactSize, apply_ite List.length, List.length_cons, List.length_nil,
    Bytes.length_ofNatLE]

theorem CountForm.ofNatLE {marker : UInt8} {width : Nat} (hmarker : (marker, width) ∈ markers)
    (h : n < 256 ^ width) : CountForm (marker :: Bytes.ofNatLE width n) n := by
  have hform : CountForm (marker :: Bytes.ofNatLE width n) _ :=
    .wide _ (by rwa [Bytes.length_ofNatLE])
  rwa [Bytes.toNatLE_ofNatLE, Nat.mod_eq_of_lt h] at hform

theorem countForm_compactSize (h : n < 2 ^ 64) : CountForm (compactSize n) n := by
  unfold compactSize
  split
  · rename_i hsmall
    have hvalue : (UInt8.ofNat n).toNat = n := UInt8.toNat_ofNat_of_lt' (hsmall.trans (by decide))
    have hform := CountForm.byte (UInt8.ofNat n) (hvalue.trans_lt hsmall)
    rwa [hvalue] at hform
  split
  · exact .ofNatLE (by decide) (by omega)
  split
  · exact .ofNatLE (by decide) (by omega)
  · exact .ofNatLE (by decide) (by omega)

theorem marker_unique {marker marker' : UInt8} {width : Nat} (h : (marker, width) ∈ markers)
    (h' : (marker', width) ∈ markers) : marker = marker' := by
  rw [mem_markers_iff] at h h'
  grind

/-- A number has at most one form of each length. -/
theorem CountForm.eq_of_length (h : CountForm w n) (h' : CountForm v n)
    (hlength : w.length = v.length) : w = v := by
  cases h with
  | byte b hsmall =>
    generalize hvalue : b.toNat = k at h'
    cases h' with
    | byte b' hsmall' => rw [UInt8.toNat_inj.mp hvalue]
    | wide digits' hmarker' =>
      obtain ⟨-, hne⟩ := mem_markers_iff_countWidth.mp hmarker'
      simp only [List.length_cons, List.length_nil] at hlength
      omega
  | @wide marker digits hmarker =>
    generalize hvalue : Bytes.toNatLE digits = k at h'
    cases h' with
    | byte b' hsmall' =>
      obtain ⟨-, hne⟩ := mem_markers_iff_countWidth.mp hmarker
      simp only [List.length_cons, List.length_nil] at hlength
      omega
    | wide digits' hmarker' =>
      have hwidth : digits.length = digits'.length := Nat.succ.inj hlength
      have hdigits : digits = digits' := by
        rw [← Bytes.ofNatLE_toNatLE digits, hvalue, hwidth, Bytes.ofNatLE_toNatLE]
      rw [hwidth] at hmarker
      rw [marker_unique hmarker hmarker', hdigits]

theorem CountForm.length_le (h : CountForm w n) : (compactSize n).length ≤ w.length := by
  cases h with
  | byte b hsmall => rw [length_compactSize, if_pos hsmall, List.length_singleton]
  | wide digits hmarker =>
    have hlt := Bytes.toNatLE_lt digits
    rw [length_compactSize, List.length_cons]
    rcases mem_markers_iff.mp hmarker with ⟨-, hwidth⟩ | ⟨-, hwidth⟩ | ⟨-, hwidth⟩
    all_goals
      rw [hwidth] at hlt ⊢
      split_ifs <;> omega

/-- What is written is the one shortest form. -/
theorem CountForm.eq_or_longer (h : CountForm w n) :
    w = compactSize n ∨ (compactSize n).length < w.length := by
  rcases h.length_le.eq_or_lt with hlength | hlonger
  · exact Or.inl (h.eq_of_length (countForm_compactSize h.lt) hlength.symm)
  · exact Or.inr hlonger

/-- A string with its size in front is no other string with its size in front. -/
theorem compactSize_append_injective {b b' : Bytes} (hb : b.length < 2 ^ 64)
    (hb' : b'.length < 2 ^ 64)
    (h : compactSize b.length ++ b = compactSize b'.length ++ b') : b = b' :=
  ((countForm_compactSize hb).unique (countForm_compactSize hb') h).2.2

end Witness

end TokenMetadata
