import Mathlib
import TokenMetadata.Fixtures
import TokenMetadata.Proofs.Address
import TokenMetadata.Proofs.Datum.RoundTrip
import TokenMetadata.Proofs.Success

/-!
# Checks of a stored corpus

A corpus can be built for every program. A check of what is stored reports, in order, the fields
that are on one side only or differ, except for one thing that it cannot see: a null under a name
that is not built. What was just written is always found up to date.
-/

namespace TokenMetadata.Fixtures

open Datum

/-- The names of the fields, in the order in which they are written. -/
def names : List String :=
  ["Version", "CreateMetadata", "UpdateMetadata", "CreateAttributes", "ReplaceAttributes",
    "TransferAuthority", "MakeImmutable", "SystemProgram", "ProgramId", "TokenProgramId",
    "PdaSamples", "SystemCreateAccountMint", "TokenInitializeMint2", "TokenSetAuthorityMintNone",
    "TokenSetAuthorityMintSome", "ComputeBudget", "Sample", "Sample2"]

/-- A field of a corpus that is built: it is there, and its text stands for no other value. -/
def IsField (v : Datum) : Prop := IsTidy IsExact v ∧ v ≠ .null

structure IsCorpus (built : Corpus) : Prop where
  names_eq : built.map (·.1) = names
  isField : ∀ f ∈ built, IsField f.2

section

variable {program mint : Key} {p : Payload} {d : Datum}

theorem isField_hex (b : Bytes) : IsField (hex b) := ⟨.leaf trivial, nofun⟩

theorem isField_list {xs : List Datum} (h : ∀ x ∈ xs, IsField x) : IsField (.list xs) :=
  ⟨.list fun x hx => (h x hx).1, nofun⟩

theorem isField_record (fs : List (String × Bytes)) (h : (fs.map (·.1)).Nodup) :
    IsField (.record (fs.map fun f => (f.1, hex f.2))) := by
  refine ⟨.record ?_ fun g hg => ?_, nofun⟩
  · rw [List.map_map]
    exact h
  · obtain ⟨f, -, rfl⟩ := List.mem_map.mp hg
    exact (isField_hex f.2).1

theorem isField_of_payload (h : payload p = .ok d) : IsField d := by
  obtain ⟨b, -, h⟩ := bind_eq_ok_iff.mp h
  exact return_eq_ok_iff.mp h ▸ isField_hex b

theorem exists_addresses (program mint : Key) :
    ∃ d, addresses program mint = .ok d ∧ IsField d := by
  rw [addresses, Address.ofMint_eq, Address.ofMint_eq]
  exact ⟨_, rfl, isField_record [("mint", _), ("metadata", _), ("attributes", _)] (by simp)⟩

theorem isField_of_accounts (h : accounts mint = .ok d) : IsField d := by
  obtain ⟨metadata, -, h⟩ := bind_eq_ok_iff.mp h
  obtain ⟨attributes, -, h⟩ := bind_eq_ok_iff.mp h
  obtain rfl := return_eq_ok_iff.mp h
  exact isField_record [("mint", _), ("metadata_account", _), ("attributes_account", _)]
    (by simp)

theorem isField_of_budget (h : budget = .ok d) : IsField d := by
  obtain ⟨heap, -, h⟩ := bind_eq_ok_iff.mp h
  obtain ⟨units, -, h⟩ := bind_eq_ok_iff.mp h
  obtain rfl := return_eq_ok_iff.mp h
  exact isField_record
    [("ProgramId", _), ("RequestHeapFrame_64k", _), ("SetComputeUnitLimit_12000", _)] (by simp)

/-- There is a corpus for every program. -/
theorem exists_build (program : Key) : ∃ built, build program = .ok built ∧ IsCorpus built := by
  obtain ⟨create, hcreate⟩ : ∃ d, payload (.createMetadata sampleFields false) = .ok d := ⟨_, rfl⟩
  obtain ⟨update, hupdate⟩ :
    ∃ d, payload (.updateMetadata ⟨some "New", none, none, none⟩) = .ok d := ⟨_, rfl⟩
  obtain ⟨attributes, hattributes⟩ : ∃ d, payload (.createAttributes sampleAttributes) = .ok d :=
    ⟨_, rfl⟩
  obtain ⟨replacement, hreplacement⟩ : ∃ d, payload (.replaceAttributes [("a", "1")]) = .ok d :=
    ⟨_, rfl⟩
  obtain ⟨transfer, htransfer⟩ : ∃ d, payload (.transferAuthority sampleAuthority) = .ok d :=
    ⟨_, rfl⟩
  obtain ⟨immutable, himmutable⟩ : ∃ d, payload .makeImmutable = .ok d := ⟨_, rfl⟩
  obtain ⟨first, hfirst, hfirstField⟩ := exists_addresses program sampleMint
  obtain ⟨second, hsecond, hsecondField⟩ := exists_addresses program otherMint
  obtain ⟨requests, hrequests⟩ : ∃ d, budget = .ok d := ⟨_, rfl⟩
  obtain ⟨sample, hsample⟩ : ∃ d, accounts sampleMint = .ok d := ⟨_, rfl⟩
  obtain ⟨other, hother⟩ : ∃ d, accounts otherMint = .ok d := ⟨_, rfl⟩
  simp only [build, hcreate, hupdate, hattributes, hreplacement, htransfer, himmutable, hfirst,
    hsecond, hrequests, hsample, hother, ok_bind]
  refine ⟨_, rfl, rfl, ?_⟩
  simp only [List.forall_mem_cons]
  exact ⟨⟨.leaf trivial, nofun⟩, isField_of_payload hcreate, isField_of_payload hupdate,
    isField_of_payload hattributes, isField_of_payload hreplacement, isField_of_payload htransfer,
    isField_of_payload himmutable, isField_hex _, isField_hex _, isField_hex _,
    isField_list (List.forall_mem_cons.mpr
      ⟨hfirstField, List.forall_mem_singleton.mpr hsecondField⟩), isField_hex _,
    isField_hex _, isField_hex _, isField_hex _, isField_of_budget hrequests,
    isField_of_accounts hsample, isField_of_accounts hother, nofun⟩

end

namespace IsCorpus

variable {built : Corpus} (h : IsCorpus built)
include h

theorem nodup : (built.map (·.1)).Nodup := by
  rw [h.names_eq]
  decide

theorem lookup_eq_none_iff {name : String} : built.lookup name = none ↔ name ∉ names := by
  rw [lookup_eq_none_iff_not_mem, h.names_eq]

theorem isTidy : IsTidy IsExact (.record built) :=
  .record h.nodup fun f hf => (h.isField f hf).1

end IsCorpus

/-- The fields of a name differ: there is one on one side only, or the values are not alike. -/
def Differs (stored built : Corpus) (name : String) : Prop :=
  ¬ Option.Rel Alike (stored.lookup name) (built.lookup name)

/-- A null is stored under a name that is not built. -/
def IsStrayNull (stored built : Corpus) (name : String) : Prop :=
  stored.lookup name = some .null ∧ built.lookup name = none

theorem nodup_eraseDups {α : Type} [DecidableEq α] (xs : List α) : xs.eraseDups.Nodup := by
  cases xs with
  | nil => exact List.nodup_nil
  | cons x rest =>
    rw [List.eraseDups_cons]
    refine List.nodup_cons.mpr ⟨?_, nodup_eraseDups _⟩
    rw [List.mem_eraseDups]
    simp
termination_by xs.length
decreasing_by exact Nat.lt_succ_of_le (List.length_filter_le _ _)

section

variable {stored built : Corpus} {name : String}

theorem isTidy_field {corpus : Corpus} (h : IsTidy IsScalar (.record corpus)) (name : String) :
    IsTidy IsScalar (field corpus name) := by
  obtain ⟨hnames, hvalues⟩ := h.record_inv fun _ => id
  rw [field]
  cases hlookup : corpus.lookup name with
  | none => exact .leaf trivial
  | some v => exact hvalues _ ((lookup_eq_some_iff_mem hnames).mp hlookup)

theorem ne_null_of_lookup (hbuilt : IsCorpus built) {v : Datum}
    (h : built.lookup name = some v) : v ≠ .null :=
  (hbuilt.isField _ ((lookup_eq_some_iff_mem hbuilt.nodup).mp h)).2

/-- A missing field counts as null, which only a null is alike. -/
theorem alike_field_iff (hbuilt : IsCorpus built) :
    Alike (field stored name) (field built name) ↔
      ¬ Differs stored built name ∨ IsStrayNull stored built name := by
  rw [Differs, not_not, IsStrayNull, field, field]
  cases hs : stored.lookup name with
  | none =>
    cases hb : built.lookup name with
    | none => simp [alike_null_left_iff]
    | some w =>
      have hw := ne_null_of_lookup hbuilt hb
      simp [alike_null_left_iff, hw]
  | some v =>
    cases hb : built.lookup name with
    | none => simp [alike_null_right_iff]
    | some w => simp

theorem differs_of_isStrayNull (h : IsStrayNull stored built name) :
    Differs stored built name := by
  rw [Differs, h.1, h.2]
  nofun

theorem mem_names_of_differs (h : Differs stored built name) :
    name ∈ (stored ++ built).map (·.1) := by
  by_contra hnot
  rw [List.map_append, List.mem_append, not_or, ← lookup_eq_none_iff_not_mem,
    ← lookup_eq_none_iff_not_mem] at hnot
  refine h ?_
  rw [hnot.1, hnot.2]
  exact .none

theorem mem_drift_iff (hstored : IsTidy IsScalar (.record stored)) (hbuilt : IsCorpus built) :
    name ∈ drift stored built ↔ Differs stored built name ∧ ¬ IsStrayNull stored built name := by
  have hsame : (!(field stored name).same (field built name)) = true ↔
      Differs stored built name ∧ ¬ IsStrayNull stored built name := by
    have hiff := same_iff (isTidy_field hstored name)
      (isTidy_field (hbuilt.isTidy.mono isScalar_of_isExact) name)
    rw [Bool.not_eq_true', ← Bool.not_eq_true, hiff, alike_field_iff hbuilt, not_or, not_not]
  simp only [drift, List.mem_filter, List.mem_mergeSort, List.mem_eraseDups, hsame]
  -- A name that differs is on one side at least, so it is among the names that are compared.
  exact and_iff_right_of_imp fun h => mem_names_of_differs h.1

theorem drift_sorted (stored built : Corpus) : (drift stored built).Pairwise (· < ·) := by
  let all := ((stored ++ built).map (·.1)).eraseDups
  have hle : (all.mergeSort fun a b => decide (a ≤ b)).Pairwise (· ≤ ·) :=
    List.pairwise_mergeSort' (· ≤ ·) all
  have hne : (all.mergeSort fun a b => decide (a ≤ b)).Nodup :=
    (List.mergeSort_perm all _).nodup_iff.mpr (nodup_eraseDups _)
  exact ((hle.and hne).imp fun h => lt_of_le_of_ne h.1 h.2).filter _

theorem drift_eq_nil_iff (hstored : IsTidy IsScalar (.record stored)) (hbuilt : IsCorpus built) :
    drift stored built = [] ↔
      ∀ name, Differs stored built name → IsStrayNull stored built name := by
  simp only [List.eq_nil_iff_forall_not_mem, mem_drift_iff hstored hbuilt, not_and, not_not]

theorem alike_iff_forall_not_differs :
    Alike (.record stored) (.record built) ↔ ∀ name, ¬ Differs stored built name := by
  simp only [alike_record_iff, Differs, not_not]

end

/-- What a check reports: the names in order, its exit code, and the fields that were built. -/
structure Reports (stored built : Corpus) (names : List String) (outcome : Outcome) : Prop where
  sorted : names.Pairwise (· < ·)
  mem_iff : ∀ name, name ∈ names ↔ Differs stored built name ∧ ¬ IsStrayNull stored built name
  exitCode_eq : outcome.exitCode = if names = [] then 0 else 1
  output_eq : outcome.output =
    if names = [] then ""
    else Json.writeFile (.record (names.map fun name => (name, field built name)))

section

variable {stored built : Corpus} {settings : Settings} {program : Key} {content : String}

theorem reports_compare (hstored : IsTidy IsScalar (.record stored)) (hbuilt : IsCorpus built) :
    Reports stored built (drift stored built) (compare stored built) where
  sorted := drift_sorted stored built
  mem_iff := fun _ => mem_drift_iff hstored hbuilt
  exitCode_eq := by
    rw [compare]
    cases drift stored built <;> rfl
  output_eq := by
    rw [compare]
    cases drift stored built <;> rfl

theorem generate_check (hprogram : settings.program = .ok program)
    (hbuild : build program = .ok built) (hread : Json.read content = some (.record stored)) :
    generate settings true (some content) = .ok (compare stored built) := by
  have hstored : read (some content) = .ok stored := by
    simp only [read, hread]
  rw [generate, hprogram, liftViolation_ok, ok_bind, hbuild, ok_bind, if_pos rfl, hstored,
    liftMisuse_ok, ok_bind]
  rfl

theorem generate_write (hprogram : settings.program = .ok program)
    (hbuild : build program = .ok built) (before : Option String) :
    generate settings false before = .ok (.write (Json.writeFile (.record built))) := by
  rw [generate, hprogram, liftViolation_ok, ok_bind, hbuild, ok_bind, if_neg Bool.false_ne_true]
  rfl

theorem compare_eq_upToDate_iff (hstored : IsTidy IsScalar (.record stored))
    (hbuilt : IsCorpus built) : compare stored built = .upToDate ↔
      ∀ name, Differs stored built name → IsStrayNull stored built name := by
  rw [← drift_eq_nil_iff hstored hbuilt, compare]
  cases drift stored built <;> simp

theorem not_differs_self (hbuilt : IsCorpus built) (name : String) : ¬ Differs built built name :=
  alike_iff_forall_not_differs.mp (alike_refl hbuilt.isTidy) name

end

/-- A check reports the fields that differ, but for stray nulls: without them its exit code is zero
just when the stored corpus is alike the one that is built. What was written is up to date. -/
theorem check_reports_differences {settings : Settings} {program : Key}
    (hprogram : settings.program = .ok program) :
    ∃ built, build program = .ok built ∧
      (∀ content stored, Json.read content = some (.record stored) →
        ∃ names outcome, generate settings true (some content) = .ok outcome ∧
          Reports stored built names outcome ∧
          ((∀ name, ¬ IsStrayNull stored built name) →
            (outcome.exitCode = 0 ↔ Alike (.record stored) (.record built)) ∧
              ∀ name, name ∈ names ↔ Differs stored built name)) ∧
      ∃ content, (∀ before, generate settings false before = .ok (.write content)) ∧
        generate settings true (some content) = .ok .upToDate := by
  obtain ⟨built, hbuild, hcorpus⟩ := exists_build program
  have hread := Json.read_writeFile hcorpus.isTidy
  refine ⟨built, hbuild, fun content stored hstored => ?_, _, generate_write hprogram hbuild, ?_⟩
  · have hreports := reports_compare (Json.isTidy_of_read hstored) hcorpus
    refine ⟨_, _, generate_check hprogram hbuild hstored, hreports, fun hstray => ?_⟩
    have hmem : ∀ name, name ∈ drift stored built ↔ Differs stored built name := fun name =>
      (hreports.mem_iff name).trans (and_iff_left (hstray name))
    refine ⟨?_, hmem⟩
    rw [hreports.exitCode_eq, alike_iff_forall_not_differs,
      ← forall_congr' fun name => not_congr (hmem name), ← List.eq_nil_iff_forall_not_mem]
    by_cases hnone : drift stored built = [] <;> simp [hnone]
  · have hsame : compare built built = .upToDate :=
      (compare_eq_upToDate_iff (hcorpus.isTidy.mono isScalar_of_isExact) hcorpus).mpr
        fun name hdiffers => absurd hdiffers (not_differs_self hcorpus name)
    rw [generate_check hprogram hbuild hread, hsame]

/-- The empty record has none of the fields. -/
theorem check_reports_differences_empty :
    ∃ (reported : List String) (outcome : Outcome),
      generate {} true (some "\x7b\x7d") = .ok outcome ∧ outcome.exitCode = 1 ∧
        ∀ name, name ∈ reported ↔ name ∈ names := by
  obtain ⟨built, hbuild, hcheck, -⟩ := check_reports_differences
    (show ({} : Settings).program = .ok Program.metadataId from rfl)
  obtain ⟨built, hagain, hcorpus⟩ := exists_build Program.metadataId
  obtain rfl := Except.ok.inj (hagain.symm.trans hbuild)
  have hread : Json.read "\x7b\x7d" = some (.record []) := by decide +kernel
  obtain ⟨reported, outcome, hrun, hreports, hclean⟩ := hcheck _ _ hread
  have hmem : ∀ name, name ∈ reported ↔ name ∈ names := by
    intro name
    rw [(hclean fun _ h => nomatch h.1).2, ← not_iff_not, ← hcorpus.lookup_eq_none_iff, Differs,
      not_not]
    constructor
    · intro hrel
      exact (eq_none_iff_of_rel hrel).mp rfl
    · intro hnone
      rw [hnone]
      exact .none
  refine ⟨reported, outcome, hrun, ?_, hmem⟩
  have hne : reported ≠ [] := List.ne_nil_of_mem ((hmem "Version").mpr (by decide))
  rw [hreports.exitCode_eq, if_neg hne]

section

variable {built : Corpus} {name : String} (hbuilt : IsCorpus built) (hname : name ∉ names)
include hbuilt hname

theorem isTidy_append_null : IsTidy IsExact (.record (built ++ [(name, .null)])) := by
  refine .record ?_ (List.forall_mem_append.mpr
    ⟨fun f hf => (hbuilt.isField f hf).1, List.forall_mem_singleton.mpr (.leaf trivial)⟩)
  rw [List.map_append, List.map_singleton, hbuilt.names_eq]
  exact List.Nodup.append (by decide) (List.nodup_singleton name) (by simpa using hname)

theorem isStrayNull_append_null : IsStrayNull (built ++ [(name, .null)]) built name := by
  have hnone := hbuilt.lookup_eq_none_iff.mpr hname
  refine ⟨?_, hnone⟩
  rw [List.lookup_append, hnone, List.lookup_cons, beq_self_eq_true, Option.none_or]

/-- A null under a name of its own is not seen, whatever the name. -/
theorem compare_append_null : compare (built ++ [(name, .null)]) built = .upToDate := by
  have hstored := (isTidy_append_null hbuilt hname).mono isScalar_of_isExact
  rw [compare_eq_upToDate_iff hstored hbuilt]
  intro n hdiffers
  by_cases hn : n = name
  · rw [hn]
    exact isStrayNull_append_null hbuilt hname
  · refine absurd ?_ hdiffers
    rw [List.lookup_append, List.lookup_cons, beq_false_of_ne hn, List.lookup_nil, Option.or_none]
    exact not_not.mp (not_differs_self hbuilt n)

end

/-- A null that is stored under a name of its own passes the check. -/
theorem stray_null_passes_check :
    ∃ built content, build Program.metadataId = .ok built ∧
      Json.read content = some (.record (built ++ [("Extra", .null)])) ∧
      generate {} true (some content) = .ok .upToDate ∧
      ¬ Alike (.record (built ++ [("Extra", .null)])) (.record built) := by
  obtain ⟨built, hbuild, hcorpus⟩ := exists_build Program.metadataId
  have hextra : "Extra" ∉ names := by decide
  have hread := Json.read_writeFile (isTidy_append_null hcorpus hextra)
  refine ⟨built, _, hbuild, hread, ?_, ?_⟩
  · rw [generate_check rfl hbuild hread, compare_append_null hcorpus hextra]
  · rw [alike_iff_forall_not_differs]
    exact fun h => h "Extra" (differs_of_isStrayNull (isStrayNull_append_null hcorpus hextra))

end TokenMetadata.Fixtures
