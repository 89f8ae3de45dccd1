import Mathlib
import TokenMetadata.Text.Bech32
import TokenMetadata.Proofs.Text.Alphabet
import TokenMetadata.Proofs.Text.Checksum
import TokenMetadata.Proofs.Text.Fives
import TokenMetadata.Proofs.Text.Case

/-!
# Addresses are read as what they were written from

A text is read as a witness program exactly when it comes, in lower case, to the address of that
program: the last separator is the one that was written, the digits have one character each, the
checksum is the only one that fits, and the groups of five bits are those of the bytes.
-/

namespace TokenMetadata.Bech32

theorem splitLast_eq_some_iff {separator : Char} {s front back : List Char} :
    splitLast separator s = some (front, back) ↔
      s = front ++ separator :: back ∧ separator ∉ back := by
  constructor
  · intro h
    rw [splitLast] at h
    split at h
    · cases h
    rename_i c rest hdrop
    obtain ⟨rfl, rfl⟩ := Prod.mk.inj (Option.some.inj h)
    have hhead := List.dropWhile_get_zero_not (· != separator) s.reverse (by simp [hdrop])
    obtain rfl : c = separator := by simpa [hdrop] using hhead
    have hsplit := List.takeWhile_append_dropWhile (p := (· != c)) (l := s.reverse)
    rw [hdrop] at hsplit
    refine ⟨?_, fun hmem => ?_⟩
    · have hs := congrArg List.reverse hsplit
      simpa using hs.symm
    · have hne := List.mem_takeWhile_imp (List.mem_reverse.mp hmem)
      simp at hne
  · rintro ⟨rfl, hback⟩
    have hne : ∀ c ∈ back.reverse, (c != separator) = true := by
      intro c hc
      rw [bne_iff_ne]
      rintro rfl
      exact hback (List.mem_reverse.mp hc)
    have hreverse : (front ++ separator :: back).reverse =
        back.reverse ++ separator :: front.reverse := by simp
    rw [splitLast, hreverse, List.dropWhile_append_of_pos hne, List.takeWhile_append_of_pos hne]
    simp

theorem mapM_digitValue?_eq_some_iff {cs : List Char} {values : List Nat} :
    cs.mapM digitValue? = some values ↔ (∀ v ∈ values, v < 32) ∧ cs = values.map digit :=
  mapM_idxOf?_eq_some_iff (by decide)

/-- No digit is the separator, and digits are ASCII characters in lower case. -/
theorem digit_facts : ∀ v < 32,
    digit v ≠ '1' ∧ (digit v).toNat < 128 ∧ lowerChar (digit v) = digit v := by
  decide

theorem separator_not_mem {values : List Nat} (h : ∀ v ∈ values, v < 32) :
    '1' ∉ values.map digit := by
  intro hmem
  obtain ⟨v, hv, hdigit⟩ := List.mem_map.mp hmem
  exact (digit_facts v (h v hv)).1 hdigit

/-- The last six values are the checksum, and what stands before them is what was written. -/
theorem checked_iff {hrp : List Char} {all groups : List Nat} {version : Nat}
    (hlength : 7 ≤ all.length) (hall : ∀ v ∈ all, v < 32) :
    polymod (expandPrefix hrp ++ all) = constant (all.headD 0) ∧
        all.take (all.length - 6) = version :: groups ↔
      all = version :: groups ++ checksum hrp version (version :: groups) := by
  have hsplit := List.take_append_drop (all.length - 6) all
  have hdrop : (all.drop (all.length - 6)).length = 6 := by
    rw [List.length_drop]
    omega
  constructor
  · rintro ⟨hsum, htake⟩
    have hlast : ∀ v ∈ all.drop (all.length - 6), v < 32 := fun v hv =>
      hall v (List.mem_of_mem_drop hv)
    rw [htake] at hsplit
    have hhead : all.headD 0 = version := by rw [← hsplit]; rfl
    rw [hhead, ← hsplit, ← List.append_assoc] at hsum
    rw [← hsplit, (polymod_eq_constant_iff hdrop hlast).mp hsum]
  · rintro rfl
    refine ⟨?_, ?_⟩
    · rw [← List.append_assoc]
      exact (polymod_eq_constant_iff (length_checksum _ _ _) fun v => checksum_lt).mpr rfl
    · rw [List.length_append, length_checksum, Nat.add_sub_cancel]
      exact List.take_left

/-- A human-readable part is not empty and its characters are printable. -/
def IsPrefix (hrp : List Char) : Prop := hrp ≠ [] ∧ ∀ c ∈ hrp, 33 ≤ c.toNat ∧ c.toNat ≤ 126

theorem isPrefix_iff {hrp : List Char} :
    (hrp.isEmpty || hrp.any fun c => c.toNat < 33 || 126 < c.toNat) = false ↔ IsPrefix hrp := by
  simp only [IsPrefix, Bool.or_eq_false_iff, List.isEmpty_eq_false_iff, List.any_eq_false,
    Bool.or_eq_true, decide_eq_true_eq, not_or, not_lt]

instance (hrp : List Char) : Decidable (IsPrefix hrp) := decidable_of_iff _ isPrefix_iff

theorem decodeText_eq_some_iff {s hrp : List Char} {version : Nat} {groups : List Nat} :
    decodeText s = some (hrp, version :: groups) ↔
      IsPrefix hrp ∧ (∀ v ∈ version :: groups, v < 32) ∧ mixedCase s = false ∧
        s.map lowerChar = hrp ++ '1' :: (version :: groups ++
          checksum hrp version (version :: groups)).map digit := by
  simp only [decodeText, Option.bind_eq_bind, Option.bind_eq_some_iff, Option.bind_none,
    Option.ite_none_left_eq_some, Option.ite_none_right_eq_some,
    Option.some.injEq, Prod.exists, Prod.mk.injEq, splitLast_eq_some_iff,
    mapM_digitValue?_eq_some_iff, Bool.not_eq_true, isPrefix_iff, not_lt]
  constructor
  · rintro ⟨hcase, hrp, body, ⟨htext, -⟩, hhrp, hlength, all, ⟨hall, rfl⟩, hsum, rfl, htake⟩
    rw [List.length_map] at hlength
    obtain rfl := (checked_iff hlength hall).mp ⟨hsum, htake⟩
    exact ⟨hhrp, fun v hv => hall v (List.mem_append_left _ hv), hcase, htext⟩
  · rintro ⟨hhrp, hvalues, hcase, htext⟩
    have hall : ∀ v ∈ version :: groups ++ checksum hrp version (version :: groups), v < 32 := by
      intro v hv
      rcases List.mem_append.mp hv with hv | hv
      · exact hvalues v hv
      · exact checksum_lt hv
    have hlength : 7 ≤ (version :: groups ++ checksum hrp version (version :: groups)).length := by
      rw [List.length_append, length_checksum, List.length_cons]
      omega
    obtain ⟨hsum, htake⟩ := (checked_iff hlength hall).mpr rfl
    refine ⟨hcase, hrp, _, ⟨htext, separator_not_mem hall⟩, hhrp, ?_, _, ⟨hall, rfl⟩, hsum,
      rfl, htake⟩
    rwa [List.length_map]

theorem toList_encode (hrp : String) (version : Nat) (program : Bytes) :
    (encode hrp version program).toList = hrp.toList ++ '1' :: (version :: toFives program ++
      checksum hrp.toList version (version :: toFives program)).map digit :=
  String.toList_ofList

theorem decode_eq_some_iff {hrp address : String} {version : Nat} {program : Bytes} :
    decode hrp address = some (version, program) ↔
      IsPrefix hrp.toList ∧ (2 ≤ program.length ∧ program.length ≤ 40) ∧ version ≤ 16 ∧
        (version = 0 → program.length = 20 ∨ program.length = 32) ∧
          mixedCase address.toList = false ∧
            lowerChars address = (encode hrp version program).toList := by
  simp only [decode, Option.bind_eq_bind, Option.bind_eq_some_iff, Option.bind_none, Prod.exists,
    Option.ite_none_left_eq_some, Option.pure_def, toList_encode]
  constructor
  · rintro ⟨found, values, htext, hfound, hbody⟩
    obtain rfl := not_not.mp hfound
    cases values with
    | nil => cases hbody
    | cons v groups =>
      simp only [Option.bind_eq_some_iff, Option.ite_none_left_eq_some, Option.some.injEq,
        Prod.mk.injEq] at hbody
      obtain ⟨b, hgroups, hsize, hversion, hzero, rfl, rfl⟩ := hbody
      obtain ⟨hhrp, hvalues, hcase, hlower⟩ := decodeText_eq_some_iff.mp htext
      obtain rfl := (ofFives?_eq_some_iff (List.forall_mem_cons.mp hvalues).2).mp hgroups
      exact ⟨hhrp, by omega, by omega, by omega, hcase, hlower⟩
  · rintro ⟨hhrp, hsize, hversion, hzero, hcase, hlower⟩
    have hgroups : ∀ v ∈ toFives program, v < 32 := fun v => toFives_lt
    have hvalues : ∀ v ∈ version :: toFives program, v < 32 :=
      List.forall_mem_cons.mpr ⟨Nat.lt_of_le_of_lt hversion (by decide), hgroups⟩
    refine ⟨hrp.toList, version :: toFives program,
      decodeText_eq_some_iff.mpr ⟨hhrp, hvalues, hcase, hlower⟩, not_not.mpr rfl, ?_⟩
    simp only [Option.bind_eq_some_iff, Option.ite_none_left_eq_some, Option.some.injEq]
    exact ⟨program, (ofFives?_eq_some_iff hgroups).mpr rfl, by omega, by omega, by omega, rfl⟩

/-- The separator stands in front of digits, so an address has one human-readable part. -/
theorem prefix_eq_of_encode_eq {hrp hrp' : String} {version : Nat} {program : Bytes}
    (hversion : version < 32) (h : encode hrp version program = encode hrp' version program) :
    hrp = hrp' := by
  have hsplit : ∀ front : String, ∃ back,
      splitLast '1' (encode front version program).toList = some (front.toList, back) := by
    intro front
    refine ⟨_, splitLast_eq_some_iff.mpr ⟨toList_encode front version program, ?_⟩⟩
    apply separator_not_mem
    intro v hv
    simp only [List.mem_append, List.mem_cons] at hv
    rcases hv with (rfl | hv) | hv
    · exact hversion
    · exact toFives_lt hv
    · exact checksum_lt hv
  obtain ⟨back, hback⟩ := hsplit hrp
  obtain ⟨back', hback'⟩ := hsplit hrp'
  rw [h, hback'] at hback
  exact String.toList_inj.mp (Prod.mk.inj (Option.some.inj hback)).1.symm

/-- What holds of the human-readable part, the separator and the digits holds of the address. -/
theorem forall_mem_encode {p : Char → Prop} {hrp : String} {version : Nat} (program : Bytes)
    (hversion : version < 32) (hhrp : ∀ c ∈ hrp.toList, p c) (hone : p '1')
    (hdigit : ∀ v < 32, p (digit v)) : ∀ c ∈ (encode hrp version program).toList, p c := by
  rw [toList_encode]
  simp only [List.mem_append, List.mem_cons, List.mem_map]
  rintro c (hc | rfl | ⟨v, hv, rfl⟩)
  · exact hhrp c hc
  · exact hone
  · rcases hv with (rfl | hv) | hv
    · exact hdigit v hversion
    · exact hdigit v (toFives_lt hv)
    · exact hdigit v (checksum_lt hv)

/-- A human-readable part of lower-case ASCII characters makes an address of such characters. -/
theorem encode_lower {hrp : String} {version : Nat} (program : Bytes) (hversion : version < 32)
    (hascii : IsAscii hrp.toList) (hlower : hrp.toList.map lowerChar = hrp.toList) :
    IsAscii (encode hrp version program).toList ∧
      (encode hrp version program).toList.map lowerChar = (encode hrp version program).toList :=
  ⟨forall_mem_encode program hversion hascii (by decide) fun v hv => (digit_facts v hv).2.1,
    map_eq_self_iff.mpr (forall_mem_encode program hversion
      (map_eq_self_iff.mp hlower) (by decide) fun v hv => (digit_facts v hv).2.2)⟩

end TokenMetadata.Bech32
