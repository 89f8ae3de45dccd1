import Mathlib
import TokenMetadata.Text.Bech32

/-!
# Texts in one case

Among ASCII texts, one that does not mix the cases and comes to a given text in lower case is that
text as it stands or all in upper case.
-/

namespace TokenMetadata

/-- A text made of ASCII characters. -/
def IsAscii (s : List Char) : Prop := ∀ c ∈ s, c.toNat < 128

/-- A text as it is written, or all in upper case. -/
def InOneCase (written s : List Char) : Prop := s = written ∨ s = written.map Char.toUpper

instance (s : List Char) : Decidable (IsAscii s) :=
  List.decidableBAll (fun c : Char => c.toNat < 128) s

theorem forall_ascii {p : Char → Prop} (h : ∀ n < 128, p (Char.ofNat n)) {c : Char}
    (hc : c.toNat < 128) : p c := by
  rw [← Char.ofNat_toNat c]
  exact h c.toNat hc

theorem toUpper_lowerChar {c : Char} (h : c.toNat < 128) : (lowerChar c).toUpper = c.toUpper :=
  forall_ascii (p := fun c => (lowerChar c).toUpper = c.toUpper) (by decide +kernel) h

theorem lowerChar_toUpper {c : Char} (h : c.toNat < 128) : lowerChar c.toUpper = lowerChar c :=
  forall_ascii (p := fun c => lowerChar c.toUpper = lowerChar c) (by decide +kernel) h

theorem toUpper_toUpper {c : Char} (h : c.toNat < 128) : c.toUpper.toUpper = c.toUpper :=
  forall_ascii (p := fun c => c.toUpper.toUpper = c.toUpper) (by decide +kernel) h

theorem map_eq_self_iff {f : Char → Char} {s : List Char} : s.map f = s ↔ ∀ c ∈ s, f c = c := by
  conv_lhs => rw [← List.map_id s, List.map_map]
  rw [List.map_inj_left]
  rfl

theorem map_toUpper_lower {s : List Char} (h : IsAscii s) :
    (s.map lowerChar).map Char.toUpper = s.map Char.toUpper := by
  rw [List.map_map]
  exact List.map_congr_left fun c hc => toUpper_lowerChar (h c hc)

theorem map_lower_toUpper {s : List Char} (h : IsAscii s) :
    (s.map Char.toUpper).map lowerChar = s.map lowerChar := by
  rw [List.map_map]
  exact List.map_congr_left fun c hc => lowerChar_toUpper (h c hc)

theorem map_toUpper_toUpper {s : List Char} (h : IsAscii s) :
    (s.map Char.toUpper).map Char.toUpper = s.map Char.toUpper := by
  rw [List.map_map]
  exact List.map_congr_left fun c hc => toUpper_toUpper (h c hc)

theorem isAscii_toUpper {s : List Char} (h : IsAscii s) : IsAscii (s.map Char.toUpper) := by
  intro c hc
  obtain ⟨d, hd, rfl⟩ := List.mem_map.mp hc
  exact forall_ascii (p := fun d => d.toUpper.toNat < 128) (by decide +kernel) (h d hd)

namespace Bech32

theorem mixedCase_eq_false_iff {s : List Char} :
    mixedCase s = false ↔ s.map lowerChar = s ∨ s.map Char.toUpper = s := by
  simp only [mixedCase, Bool.and_eq_false_iff, List.any_eq_false, bne_iff_ne, ne_eq, not_not,
    map_eq_self_iff]

theorem inOneCase_iff {written s : List Char} (hs : IsAscii s) (hwritten : IsAscii written)
    (hlower : written.map lowerChar = written) :
    InOneCase written s ↔ mixedCase s = false ∧ s.map lowerChar = written := by
  rw [mixedCase_eq_false_iff]
  constructor
  · rintro (rfl | rfl)
    · exact ⟨Or.inl hlower, hlower⟩
    · exact ⟨Or.inr (map_toUpper_toUpper hwritten), (map_lower_toUpper hwritten).trans hlower⟩
  · rintro ⟨hlow | hup, rfl⟩
    · exact Or.inl hlow.symm
    · exact Or.inr ((map_toUpper_lower hs).trans hup).symm

end Bech32

end TokenMetadata
