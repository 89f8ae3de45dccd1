import Mathlib
import TokenMetadata.Proofs.Account.Reading

/-!
# Foreign accounts

Anybody can put an account with any data at the address of a token. A reader takes data from the
accounts of its program alone, so two tables that hold the same accounts of the program are read
alike, whatever else stands in them.
-/

namespace TokenMetadata

/-- The account belongs to the program and is not empty. -/
def Account.IsOf (program : Key) (a : Account) : Prop :=
  ∃ b, b ≠ [] ∧ a = ⟨some b, some program⟩

namespace Table

/-- An account of the program stands at the key. -/
def Holds (t : Table) (program key : Key) : Prop := ∃ a, a.IsOf program ∧ t.get? key = some a

/-- The tables have the same account wherever one of them holds an account of the program. Elsewhere
they may have any accounts of other owners, empty ones, or none. -/
def AlikeFor (program : Key) (t u : Table) : Prop :=
  ∀ key, t.Holds program key ∨ u.Holds program key → t.get? key = u.get? key

theorem lookup_filter_ne {k key : Key} (hne : key ≠ k) (entries : List (Key × Account)) :
    (entries.filter (·.1 ≠ k)).lookup key = entries.lookup key := by
  induction entries with
  | nil => rfl
  | cons entry entries ih =>
    obtain ⟨other, a⟩ := entry
    by_cases h : other = k
    · subst h
      have hkey : (key == other) = false := beq_false_of_ne hne
      simpa [List.lookup_cons, hkey] using ih
    · simp only [ne_eq, h, not_false_eq_true, decide_true, List.filter_cons_of_pos,
        List.lookup_cons]
      split
      · rfl
      · simpa using ih

theorem get?_insert (t : Table) (k key : Key) (a : Account) :
    (t.insert k a).get? key = if key = k then some a else t.get? key := by
  by_cases h : key = k
  · subst h
    simp [get?, insert]
  · have hkey : (key == k) = false := beq_false_of_ne h
    simp only [get?, insert, erase, List.lookup_cons, hkey, if_neg h]
    exact lookup_filter_ne h t.entries

/-- Storing a foreign account where the program has none leaves the table alike. -/
theorem alikeFor_insert {program k : Key} {t : Table} {a : Account} (hfree : ¬ t.Holds program k)
    (hforeign : ¬ a.IsOf program) : AlikeFor program t (t.insert k a) := by
  intro key hholds
  rw [get?_insert]
  by_cases h : key = k
  · subst h
    rcases hholds with ht | ⟨b, hb, hinsert⟩
    · exact absurd ht hfree
    · rw [get?_insert, if_pos rfl] at hinsert
      exact absurd (Option.some.inj hinsert ▸ hb) hforeign
  · rw [if_neg h]

end Table

namespace Reader

theorem ownData_eq_some_iff {r : Reader} {entry : Option Account} {b : Bytes} :
    r.ownData entry = some b ↔ b ≠ [] ∧ entry = some ⟨some b, some r.program⟩ := by
  constructor
  · intro h
    obtain ⟨⟨data, owner⟩, rfl, h₁⟩ := Option.bind_eq_some_iff.mp h
    obtain ⟨b', rfl, h₂⟩ := Option.bind_eq_some_iff.mp h₁
    obtain ⟨owner', rfl, h₃⟩ := Option.bind_eq_some_iff.mp h₂
    obtain ⟨⟨hb, rfl⟩, hsome⟩ := Option.ite_none_right_eq_some.mp h₃
    obtain rfl := Option.some.inj hsome
    exact ⟨hb, rfl⟩
  · rintro ⟨hb, rfl⟩
    exact if_pos ⟨hb, rfl⟩

theorem sameData_of_alikeFor {r : Reader} {t u : Table} (h : Table.AlikeFor r.program t u) :
    SameData r t u := by
  intro key
  ext b
  rw [ownData_eq_some_iff, ownData_eq_some_iff]
  constructor
  · rintro ⟨hb, hentry⟩
    have hholds : t.Holds r.program key := ⟨_, ⟨b, hb, rfl⟩, hentry⟩
    exact ⟨hb, (h key (Or.inl hholds)).symm.trans hentry⟩
  · rintro ⟨hb, hentry⟩
    have hholds : u.Holds r.program key := ⟨_, ⟨b, hb, rfl⟩, hentry⟩
    exact ⟨hb, (h key (Or.inr hholds)).trans hentry⟩

end Reader

/-- Tables that are alike for a program are read alike by its readers: from the tables themselves,
and through nodes that serve them in batches of any size. -/
theorem foreign_accounts_are_not_read (program : Key) (t u : Table)
    (h : Table.AlikeFor program t u) :
    Reader.Agrees ⟨t.source, program⟩ ⟨u.source, program⟩ ∧
    ∀ (node other : Node) (size : Int), node.Serves t → other.Serves u → 1 ≤ size →
      Reader.Agrees ⟨node.source size, program⟩ ⟨other.source size, program⟩ := by
  refine ⟨?_, ?_⟩
  · exact Reader.agrees_of_sameData t.answeredBy_source u.answeredBy_source
      (Reader.sameData_of_alikeFor h)
  · intro node other size hnode hother hsize
    exact Reader.agrees_of_sameData (Node.answeredBy_source hnode hsize)
      (Node.answeredBy_source hother hsize) (Reader.sameData_of_alikeFor h)

/-- The two mints, and a single byte of somebody else at the address of a third one. -/
def crowded : Table :=
  twoMints.insert (Address.accountKey .metadata (.filled 3) Program.metadataId)
    ⟨some [1], some (.filled 9)⟩

theorem foreign_accounts_are_not_read_crowded :
    Table.AlikeFor Program.metadataId twoMints crowded ∧
    (Node.ofTable twoMints).Serves twoMints ∧ (Node.ofTable crowded).Serves crowded ∧
    (1 : Int) ≤ 1 ∧
    (Reader.metadataBatch ⟨(Node.ofTable crowded).source 1, Program.metadataId⟩
      [.filled 3, .filled 1]).result =
        .ok [none, some ⟨.filled 1, ⟨"n", "s", "", ""⟩, none, true⟩] ∧
    (Reader.metadataBatch ⟨crowded.source, Program.metadataId⟩ [.filled 3, .filled 2]).result =
      .error (.malformed (.layout .metadata .truncated)) := by
  have halike : Table.AlikeFor Program.metadataId twoMints crowded := by
    apply Table.alikeFor_insert
    · rintro ⟨a, -, ha⟩
      have hmissing : twoMints.get?
          (Address.accountKey .metadata (.filled 3) Program.metadataId) = none := by decide +kernel
      rw [hmissing] at ha
      cases ha
    · rintro ⟨b, -, hb⟩
      have howner : Key.filled 9 = Program.metadataId :=
        Option.some.inj (congrArg Account.owner hb)
      exact absurd howner (by decide)
  have htwo : (Node.ofTable twoMints).Serves twoMints := Node.ofTable_serves twoMints
  have hcrowded : (Node.ofTable crowded).Serves crowded := Node.ofTable_serves crowded
  obtain ⟨hdirect, hbatches⟩ :=
    foreign_accounts_are_not_read Program.metadataId twoMints crowded halike
  refine ⟨halike, htwo, hcrowded, le_rfl, ?_, ?_⟩
  · rw [← (hbatches _ _ 1 htwo hcrowded le_rfl).metadataBatch]
    decide +kernel
  · rw [← hdirect.metadataBatch]
    decide +kernel

end TokenMetadata
