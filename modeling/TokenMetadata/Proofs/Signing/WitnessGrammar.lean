import Mathlib
import TokenMetadata.Proofs.Signing.CompactSize

/-!
# The grammar of witness stacks

What is read as a stack is a form of a count and behind it as many items, each behind a form of its
size. Every look-up that finds something uses a byte, so no count can make the reading longer than
the bytes that are there.
-/

namespace TokenMetadata

namespace Witness

/-- Items one behind the other, each behind a form of its size. -/
inductive Framed : List Bytes → Bytes → Prop
  | nil : Framed [] []
  | cons {size item body : Bytes} {items : List Bytes} (hsize : CountForm size item.length)
      (hitems : Framed items body) : Framed (item :: items) (size ++ (item ++ body))

/-- A form of the number of the items, and the items. -/
def StackForm (items : List Bytes) (stack : Bytes) : Prop :=
  ∃ count body, stack = count ++ body ∧ CountForm count items.length ∧ Framed items body

variable {b rest : Bytes} {items : List Bytes}

/-- Items that stand one behind the other are read, in one look-up for each size. -/
theorem readItems_of_framed (h : Framed items b) (rest : Bytes) :
    readItems items.length (b ++ rest) = ⟨items.length, .ok items⟩ := by
  induction h with
  | nil => rfl
  | @cons size item body items hsize hitems ih =>
    rw [List.length_cons, readItems, List.append_assoc, readCount_of_form hsize]
    simp only [List.append_assoc, List.length_append, Nat.le_add_right, if_pos, List.drop_left,
      List.take_left, ih]
    rfl

/-- Items are read where they stand one behind the other. -/
theorem readItems_result_eq_ok_iff {count : Nat} :
    (readItems count b).result = .ok items ↔
      items.length = count ∧ ∃ body rest, b = body ++ rest ∧ Framed items body := by
  constructor
  · intro h
    induction count generalizing b items with
    | zero =>
      obtain rfl : [] = items := Except.ok.inj h
      exact ⟨rfl, [], b, rfl, .nil⟩
    | succ count ih =>
      simp only [readItems] at h
      split at h
      · cases h
      rename_i size behind hread
      split at h
      · rename_i hfits
        obtain ⟨more, hmore, rfl⟩ := map_eq_ok_iff.mp h
        obtain ⟨hcount, body, rest, hbody, hframed⟩ := ih hmore
        obtain ⟨w, rfl, hform⟩ := readCount_eq_ok_iff.mp hread
        rw [← List.length_take_of_le hfits] at hform
        refine ⟨congrArg Nat.succ hcount, _, rest, ?_, .cons hform hframed⟩
        rw [List.append_assoc, List.append_assoc, ← hbody, List.take_append_drop]
      · cases h
  · rintro ⟨rfl, body, rest, rfl, hframed⟩
    rw [readItems_of_framed hframed]

/-- A stack is read where one stands in front, and nowhere else. -/
theorem parse_eq_ok_iff :
    parse b = .ok items ↔ ∃ stack rest, b = stack ++ rest ∧ StackForm items stack := by
  constructor
  · intro h
    simp only [parse, read] at h
    split at h
    · cases h
    rename_i count behind hread
    obtain ⟨w, rfl, hform⟩ := readCount_eq_ok_iff.mp hread
    obtain ⟨rfl, body, rest, rfl, hframed⟩ := readItems_result_eq_ok_iff.mp h
    exact ⟨w ++ body, rest, (List.append_assoc ..).symm, w, body, rfl, hform, hframed⟩
  · rintro ⟨stack, rest, rfl, w, body, rfl, hform, hframed⟩
    simp only [parse, read, List.append_assoc, readCount_of_form hform,
      readItems_of_framed hframed]

theorem readItems_result_eq_error {count : Nat} {f : SigningFault}
    (h : (readItems count b).result = .error f) :
    f ∈ [.witnessTruncated, .witnessItemTruncated] := by
  induction count generalizing b with
  | zero => cases h
  | succ count ih =>
    simp only [readItems] at h
    split at h
    · rename_i hread
      obtain rfl := Except.error.inj h
      simp [readCount_eq_error hread]
    split at h
    · exact ih (map_eq_error_iff.mp h)
    · obtain rfl := Except.error.inj h
      simp

theorem parse_eq_error {f : SigningFault} (h : parse b = .error f) :
    f ∈ [.witnessTruncated, .witnessItemTruncated] := by
  simp only [parse, read] at h
  split at h
  · rename_i hread
    obtain rfl := Except.error.inj h
    simp [readCount_eq_error hread]
  · exact readItems_result_eq_error h

/-- Every look-up but the last uses a byte. -/
theorem readItems_lookups_le (count : Nat) (b : Bytes) :
    (readItems count b).lookups ≤ b.length + 1 := by
  induction count generalizing b with
  | zero => exact Nat.zero_le _
  | succ count ih =>
    simp only [readItems]
    split
    · exact Nat.le_add_left 1 _
    rename_i size behind hread
    obtain ⟨w, rfl, hform⟩ := readCount_eq_ok_iff.mp hread
    have hpos := hform.length_pos
    split
    · have hmore := ih (behind.drop size)
      rw [List.length_drop] at hmore
      rw [List.length_append]
      dsimp only
      omega
    · exact Nat.le_add_left 1 _

theorem read_lookups_le (b : Bytes) : (read b).lookups ≤ b.length + 1 := by
  simp only [read]
  split
  · exact Nat.le_add_left 1 _
  rename_i count behind hread
  obtain ⟨w, rfl, hform⟩ := readCount_eq_ok_iff.mp hread
  have hpos := hform.length_pos
  have hmore := readItems_lookups_le count behind
  rw [List.length_append]
  dsimp only
  omega

theorem Framed.length_ge (h : Framed items b) :
    (items.map fun item => 1 + item.length).sum ≤ b.length := by
  induction h with
  | nil => exact Nat.zero_le _
  | cons hsize hitems ih =>
    have hpos := hsize.length_pos
    simp only [List.map_cons, List.sum_cons, List.length_append]
    omega

theorem StackForm.length_ge {stack : Bytes} (h : StackForm items stack) :
    1 + (items.map fun item => 1 + item.length).sum ≤ stack.length := by
  obtain ⟨w, body, rfl, hform, hframed⟩ := h
  have hpos := hform.length_pos
  have hbody := hframed.length_ge
  rw [List.length_append]
  omega

theorem Framed.unique {body body' rest' : Bytes} (h : Framed items body)
    (h' : Framed items body') (hsame : body ++ rest = body' ++ rest') : body = body' := by
  induction h generalizing body' with
  | nil =>
    cases h'
    rfl
  | cons hsize hitems ih =>
    cases h' with
    | cons hsize' hitems' =>
      simp only [List.append_assoc] at hsame
      obtain ⟨rfl, -, hbehind⟩ := hsize.unique hsize' hsame
      rw [ih hitems' (List.append_cancel_left hbehind)]

/-- Two stacks in front of the same bytes are the same stack. -/
theorem StackForm.unique {items' : List Bytes} {stack stack' rest' : Bytes}
    (h : StackForm items stack) (h' : StackForm items' stack')
    (hsame : stack ++ rest = stack' ++ rest') : stack = stack' := by
  have hread := parse_eq_ok_iff.mpr ⟨stack, rest, rfl, h⟩
  rw [parse_eq_ok_iff.mpr ⟨stack', rest', hsame, h'⟩] at hread
  obtain rfl := Except.ok.inj hread
  obtain ⟨w, body, rfl, hform, hframed⟩ := h
  obtain ⟨w', body', rfl, hform', hframed'⟩ := h'
  simp only [List.append_assoc] at hsame
  obtain ⟨rfl, -, hbehind⟩ := hform.unique hform' hsame
  rw [hframed.unique hframed' hbehind]

theorem framed_written (h : ∀ item ∈ items, item.length < 2 ^ 64) :
    Framed items (items.flatMap fun item => compactSize item.length ++ item) := by
  induction items with
  | nil => exact .nil
  | cons item items ih =>
    obtain ⟨hitem, hitems⟩ := List.forall_mem_cons.mp h
    rw [List.flatMap_cons, List.append_assoc]
    exact .cons (countForm_compactSize hitem) (ih hitems)

theorem stackForm_serialize (hcount : items.length < 2 ^ 64)
    (hsizes : ∀ item ∈ items, item.length < 2 ^ 64) : StackForm items (serialize items) :=
  ⟨_, _, rfl, countForm_compactSize hcount, framed_written hsizes⟩

theorem parse_serialize_one {item : Bytes} (h : item.length < 2 ^ 64) :
    parse (serialize [item]) = .ok [item] := by
  have hstack : StackForm [item] (serialize [item]) :=
    stackForm_serialize (by simp) (by simpa using h)
  exact parse_eq_ok_iff.mpr ⟨_, [], (List.append_nil _).symm, hstack⟩

/-- Bytes that end inside a stack are not read. -/
theorem StackForm.cut {stack : Bytes} (h : StackForm items stack) (hstart : b <+: stack)
    (hne : b ≠ stack) : ∃ f, parse b = .error f := by
  rw [exists_eq_error_iff]
  intro items' hparse
  obtain ⟨stack', rest, rfl, hstack'⟩ := parse_eq_ok_iff.mp hparse
  obtain ⟨missing, hmissing⟩ := hstart
  have hsame : stack' ++ (rest ++ missing) = stack ++ [] := by
    rw [List.append_nil, ← List.append_assoc, hmissing]
  obtain rfl := hstack'.unique h hsame
  rw [List.append_assoc, List.append_right_eq_self, List.append_eq_nil_iff] at hmissing
  exact hne (by rw [hmissing.1, List.append_nil])

/-- How the reading of any bytes ends: after no more look-ups than there are bytes and one, either
because they end too early, or with items that stand in them one behind the other. -/
structure ReadsWithin (b : Bytes) : Prop where
  lookups : (read b).lookups ≤ b.length + 1
  refuses : ∀ f, parse b = .error f → f ∈ [.witnessTruncated, .witnessItemTruncated]
  returns : ∀ items, parse b = .ok items ↔
    ∃ stack rest, b = stack ++ rest ∧ StackForm items stack
  length : ∀ items, parse b = .ok items →
    1 + (items.map fun item => 1 + item.length).sum ≤ b.length

/-- A stack is read back from what is written for it and from no part of that, each count is
written in its shortest form, and the reading of bytes that were not written ends within them. -/
theorem stacks_are_read_as_written :
    (∀ (items : List Bytes) (rest : Bytes), items.length < 2 ^ 64 →
      (∀ item ∈ items, item.length < 2 ^ 64) →
        parse (serialize items ++ rest) = .ok items ∧
          ∀ b, b <+: serialize items → b ≠ serialize items → ∃ f, parse b = .error f) ∧
    (∀ n < 2 ^ 64, CountForm (compactSize n) n ∧
      ∀ w, CountForm w n → w = compactSize n ∨ (compactSize n).length < w.length) ∧
    (∀ n, (compactSize n).length =
      if n < 253 then 1 else if n ≤ 0xffff then 3 else if n ≤ 0xffffffff then 5 else 9) ∧
    ∀ b, ReadsWithin b := by
  refine ⟨?_, ?_, length_compactSize, ?_⟩
  · intro items rest hcount hsizes
    have hstack := stackForm_serialize hcount hsizes
    exact ⟨parse_eq_ok_iff.mpr ⟨_, rest, rfl, hstack⟩, fun b => hstack.cut⟩
  · intro n hn
    exact ⟨countForm_compactSize hn, fun w hform => hform.eq_or_longer⟩
  · intro b
    refine ⟨read_lookups_le b, fun f => parse_eq_error, fun items => parse_eq_ok_iff, ?_⟩
    intro items hparse
    obtain ⟨stack, rest, rfl, hstack⟩ := parse_eq_ok_iff.mp hparse
    rw [List.length_append]
    exact hstack.length_ge.trans (Nat.le_add_right _ _)

/-- An empty item, and one whose size takes a marker. -/
def wideItems : List Bytes := [[], List.replicate 253 7]

theorem stacks_are_read_as_written_wide_item :
    parse (serialize wideItems ++ [9]) = .ok wideItems ∧
      (∃ f, parse ((serialize wideItems).take 5) = .error f) ∧
      (compactSize 253).length < (0xfe :: Bytes.ofNatLE 4 253).length ∧
      (read (List.replicate 9 0xff)).lookups ≤ 10 := by
  obtain ⟨hwritten, hshortest, -, hwithin⟩ := stacks_are_read_as_written
  have hsizes : ∀ item ∈ wideItems, item.length < 2 ^ 64 := by decide +kernel
  obtain ⟨hread, hcut⟩ := hwritten wideItems [9] (by decide) hsizes
  obtain ⟨-, hforms⟩ := hshortest 253 (by decide)
  have hform : CountForm (0xfe :: Bytes.ofNatLE 4 253) 253 := .ofNatLE (by decide) (by decide)
  have hlonger := (hforms _ hform).resolve_left (by decide)
  exact ⟨hread, hcut _ (List.take_prefix 5 _) (by decide +kernel), hlonger, (hwithin _).lookups⟩

end Witness

end TokenMetadata
