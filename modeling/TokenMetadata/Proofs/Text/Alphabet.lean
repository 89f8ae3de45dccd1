import Mathlib

/-!
# Digits of an alphabet

An alphabet without repetitions gives every digit one character. A text is read as digits exactly
when it is written with the characters of these digits.
-/

namespace TokenMetadata

variable {alphabet : List Char} {other : Char}

theorem idxOf?_eq_some_iff_getD (hnodup : alphabet.Nodup) {c : Char} {n : Nat} :
    alphabet.idxOf? c = some n ↔ n < alphabet.length ∧ alphabet.getD n other = c := by
  rw [List.idxOf?_eq_some_iff]
  constructor
  · rintro ⟨hn, hc, -⟩
    exact ⟨hn, (List.getD_eq_getElem _ _ hn).trans hc⟩
  · rintro ⟨hn, hc⟩
    rw [List.getD_eq_getElem _ _ hn] at hc
    refine ⟨hn, hc, ?_⟩
    intro j hj hsame
    have hindex := hnodup.getElem_inj_iff.mp (hsame.trans hc.symm)
    omega

theorem mapM_idxOf?_eq_some_iff (hnodup : alphabet.Nodup) {cs : List Char} {values : List Nat} :
    cs.mapM (alphabet.idxOf? ·) = some values ↔
      (∀ v ∈ values, v < alphabet.length) ∧ cs = values.map (alphabet.getD · other) := by
  induction cs generalizing values with
  | nil =>
    rw [List.mapM_nil, Option.pure_def, Option.some.injEq]
    constructor
    · rintro rfl
      exact ⟨by simp, rfl⟩
    · rintro ⟨-, h⟩
      exact (List.map_eq_nil_iff.mp h.symm).symm
  | cons c cs ih =>
    simp only [List.mapM_cons, Option.bind_eq_bind, Option.bind_eq_some_iff, Option.pure_def,
      Option.some.injEq]
    constructor
    · rintro ⟨v, hv, rest, hrest, rfl⟩
      obtain ⟨hlt, hc⟩ : v < alphabet.length ∧ alphabet.getD v other = c :=
        (idxOf?_eq_some_iff_getD hnodup).mp hv
      obtain ⟨hall, hcs⟩ := ih.mp hrest
      exact ⟨List.forall_mem_cons.mpr ⟨hlt, hall⟩, by rw [List.map_cons, hc, ← hcs]⟩
    · rintro ⟨hall, hcs⟩
      cases values with
      | nil => cases hcs
      | cons v rest =>
        obtain ⟨hlt, hrest⟩ := List.forall_mem_cons.mp hall
        obtain ⟨hc, htail⟩ := List.cons.inj hcs
        exact ⟨v, (idxOf?_eq_some_iff_getD hnodup).mpr ⟨hlt, hc.symm⟩, rest,
          ih.mpr ⟨hrest, htail⟩, rfl⟩

end TokenMetadata
