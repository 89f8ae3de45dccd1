import Mathlib
import TokenMetadata.Datum.Basic

/-!
# Values that are alike

Equality of values as callers see it: a number is the same number in any type, and the fields of a
record have no order. On values whose records name every field once, the comparison decides it.
-/

namespace TokenMetadata.Datum

/-- Neither a list nor a record. -/
def IsScalar : Datum → Prop
  | list _ | record _ => False
  | _ => True

/-- A scalar that is neither bytes nor a decimal. -/
def IsExact : Datum → Prop
  | null | bool _ | int _ | text _ => True
  | _ => False

theorem isScalar_of_isExact : ∀ v, IsExact v → IsScalar v
  | null, _ => trivial
  | bool _, _ => trivial
  | int _, _ => trivial
  | text _, _ => trivial

/-- Values whose leaves have some property and whose records name every field once. -/
inductive IsTidy (p : Datum → Prop) : Datum → Prop
  | leaf {v : Datum} : p v → IsTidy p v
  | list {xs : List Datum} : (∀ x ∈ xs, IsTidy p x) → IsTidy p (list xs)
  | record {fs : List (String × Datum)} :
    (fs.map (·.1)).Nodup → (∀ f ∈ fs, IsTidy p f.2) → IsTidy p (record fs)

theorem IsTidy.mono {p q : Datum → Prop} (hpq : ∀ v, p v → q v) {v : Datum} (h : IsTidy p v) :
    IsTidy q v := by
  induction h with
  | leaf hv => exact .leaf (hpq _ hv)
  | list _ ih => exact .list ih
  | record hnames _ ih => exact .record hnames ih

/-- One number, in the types that it may have. -/
inductive IsOneNumber : Datum → Datum → Prop
  | integers {v w : Datum} {n : Int} : v.toInt? = some n → w.toInt? = some n → IsOneNumber v w
  | decimals {d e : Decimal} : d.same e = true → IsOneNumber (decimal d) (decimal e)
  | decimalInteger {d : Decimal} {w : Datum} {n : Int} :
    w.toInt? = some n → d.sameInt n = true → IsOneNumber (decimal d) w
  | integerDecimal {v : Datum} {n : Int} {d : Decimal} :
    v.toInt? = some n → d.sameInt n = true → IsOneNumber v (decimal d)

/-- Equality of values. Lists are compared item by item, and records by the values under each
name. -/
inductive Alike : Datum → Datum → Prop
  | null : Alike null null
  | number {v w : Datum} : IsOneNumber v w → Alike v w
  | text (s : String) : Alike (text s) (text s)
  | bytes (b : Bytes) : Alike (bytes b) (bytes b)
  | list {xs ys : List Datum} : List.Forall₂ Alike xs ys → Alike (list xs) (list ys)
  | record {fs gs : List (String × Datum)} :
    (∀ name, Option.Rel Alike (fs.lookup name) (gs.lookup name)) → Alike (record fs) (record gs)

section

variable {d : Decimal} {v w : Datum} {n : Int}

theorem same_decimal_iff : same (decimal d) w = true ↔ IsOneNumber (decimal d) w := by
  constructor
  · intro h
    cases w with
    | decimal e => exact .decimals h
    | int n => exact .decimalInteger rfl h
    | bool b => exact .decimalInteger rfl h
    | _ => cases h
  · intro h
    cases h with
    | integers h => cases h
    | decimals h => exact h
    | decimalInteger hw h => cases w <;> simp_all [same, toInt?]
    | integerDecimal h => cases h

theorem same_of_toInt (hv : v.toInt? = some n) : same v w = true ↔ IsOneNumber v w := by
  have hinteger : same v w = true ↔
      (∃ d, w = decimal d ∧ d.sameInt n = true) ∨ w.toInt? = some n := by
    cases v <;> cases hv <;> cases w <;> simp [same, toInt?]
    all_goals exact eq_comm
  rw [hinteger]
  constructor
  · rintro (⟨d, rfl, h⟩ | hw)
    · exact .integerDecimal hv h
    · exact .integers hv hw
  · intro h
    cases h with
    | integers hm hw =>
      obtain rfl := Option.some.inj (hv.symm.trans hm)
      exact Or.inr hw
    | decimals => cases hv
    | decimalInteger => cases hv
    | integerDecimal hm h =>
      obtain rfl := Option.some.inj (hv.symm.trans hm)
      exact Or.inl ⟨_, rfl, h⟩

theorem not_isOneNumber (hv : v.toInt? = none) (hdecimal : ∀ d, v ≠ decimal d) :
    ¬ IsOneNumber v w := by
  intro h
  cases h with
  | integers hn => simp [hv] at hn
  | decimals => exact hdecimal _ rfl
  | decimalInteger => exact hdecimal _ rfl
  | integerDecimal hn => simp [hv] at hn

theorem same_scalar_iff (hv : IsScalar v) : same v w = true ↔ Alike v w := by
  have hnumber : (same v w = true ↔ IsOneNumber v w) → v ≠ null → (∀ s, v ≠ text s) →
      (∀ b, v ≠ bytes b) → (same v w = true ↔ Alike v w) := by
    intro hsame hnull htext hbytes
    rw [hsame]
    refine ⟨.number, fun h => ?_⟩
    cases h with
    | number h => exact h
    | null => exact absurd rfl hnull
    | text s => exact absurd rfl (htext s)
    | bytes b => exact absurd rfl (hbytes b)
    | list => exact hv.elim
    | record => exact hv.elim
  cases v with
  | int n => exact hnumber (same_of_toInt rfl) nofun nofun nofun
  | bool b => exact hnumber (same_of_toInt rfl) nofun nofun nofun
  | decimal d => exact hnumber same_decimal_iff nofun nofun nofun
  | list => exact hv.elim
  | record => exact hv.elim
  | null =>
    constructor
    · intro h
      cases w <;> first | exact .null | cases h
    · intro h
      cases h with
      | number h => exact absurd h (not_isOneNumber rfl nofun)
      | null => rfl
  | text s =>
    constructor
    · intro h
      cases w <;> simp [same, toInt?] at h
      exact h ▸ .text s
    · intro h
      cases h with
      | number h => exact absurd h (not_isOneNumber rfl nofun)
      | text => simp [same]
  | bytes b =>
    constructor
    · intro h
      cases w <;> simp [same, toInt?] at h
      exact h ▸ .bytes b
    · intro h
      cases h with
      | number h => exact absurd h (not_isOneNumber rfl nofun)
      | bytes => simp [same]

end

section

variable {α : Type} {fs : List (String × α)} {name : String} {v : α}

theorem lookup_eq_some_iff_mem (h : (fs.map (·.1)).Nodup) :
    fs.lookup name = some v ↔ (name, v) ∈ fs := by
  induction fs with
  | nil => simp
  | cons f rest ih =>
    obtain ⟨n, w⟩ := f
    obtain ⟨hn, hrest⟩ := List.nodup_cons.mp h
    rw [List.lookup_cons]
    split
    · rename_i heq
      obtain rfl := eq_of_beq heq
      have hnot : (name, v) ∉ rest := fun hmem => hn (List.mem_map.mpr ⟨_, hmem, rfl⟩)
      simp [hnot, eq_comm]
    · rename_i hne
      have hname : name ≠ n := by simpa using hne
      simp [ih hrest, hname]

theorem lookup_eq_none_iff_not_mem : fs.lookup name = none ↔ name ∉ fs.map (·.1) := by
  rw [List.lookup_eq_none_iff]
  simp only [List.mem_map, bne_iff_ne]
  exact ⟨fun h ⟨f, hf, heq⟩ => h f hf heq.symm, fun h f hf heq => h ⟨f, hf, heq.symm⟩⟩

end

section

variable {fs gs : List (String × Datum)} {xs ys : List Datum} {v w : Datum}

theorem sameItems_iff (h : ∀ x ∈ xs, ∀ y ∈ ys, same x y = true ↔ Alike x y) :
    sameItems xs ys = true ↔ List.Forall₂ Alike xs ys := by
  induction xs generalizing ys with
  | nil => cases ys <;> simp [sameItems]
  | cons x xs ih =>
    cases ys with
    | nil => simp [sameItems]
    | cons y ys =>
      rw [sameItems, Bool.and_eq_true, List.forall₂_cons, h x (by simp) y (by simp), ih]
      exact fun x hx y hy => h x (by simp [hx]) y (by simp [hy])

theorem eq_none_iff_of_rel {α β : Type} {r : α → β → Prop} {o : Option α} {o' : Option β}
    (h : Option.Rel r o o') : o = none ↔ o' = none := by
  cases h <;> simp

theorem sameFields_iff :
    sameFields fs gs = true ↔ ∀ f ∈ fs, ∃ w, gs.lookup f.1 = some w ∧ same f.2 w = true := by
  induction fs with
  | nil => simp [sameFields]
  | cons f fs ih =>
    obtain ⟨name, v⟩ := f
    rw [sameFields, Bool.and_eq_true, ih, List.forall_mem_cons]
    cases gs.lookup name <;> simp

/-- A record has the values of another under all names as soon as it has as many fields, and each of
them is a field of the other. -/
theorem forall_rel_lookup_iff {r : Datum → Datum → Prop} (hfs : (fs.map (·.1)).Nodup)
    (hgs : (gs.map (·.1)).Nodup) :
    (∀ name, Option.Rel r (fs.lookup name) (gs.lookup name)) ↔
      fs.length = gs.length ∧ ∀ f ∈ fs, ∃ w, gs.lookup f.1 = some w ∧ r f.2 w := by
  constructor
  · intro h
    have hnames : ∀ name, name ∈ fs.map (·.1) ↔ name ∈ gs.map (·.1) := by
      intro name
      rw [← not_iff_not, ← lookup_eq_none_iff_not_mem, ← lookup_eq_none_iff_not_mem]
      exact eq_none_iff_of_rel (h name)
    refine ⟨?_, fun f hf => ?_⟩
    · simpa using ((List.perm_ext_iff_of_nodup hfs hgs).mpr hnames).length_eq
    · have hrel := h f.1
      rw [(lookup_eq_some_iff_mem hfs).mpr hf] at hrel
      cases hlookup : gs.lookup f.1 with
      | none => rw [hlookup] at hrel; cases hrel
      | some w => rw [hlookup] at hrel; exact ⟨w, rfl, Option.rel_some_some.mp hrel⟩
  · rintro ⟨hlength, h⟩ name
    have hsubset : fs.map (·.1) ⊆ gs.map (·.1) := by
      intro n hn
      obtain ⟨f, hf, rfl⟩ := List.mem_map.mp hn
      obtain ⟨w, hw, -⟩ := h f hf
      exact List.mem_map.mpr ⟨_, (lookup_eq_some_iff_mem hgs).mp hw, rfl⟩
    cases hlookup : fs.lookup name with
    | some v =>
      obtain ⟨w, hw, hr⟩ := h _ ((lookup_eq_some_iff_mem hfs).mp hlookup)
      rw [hw]
      exact .some hr
    | none =>
      -- The names are as many, so no name of the other record is left.
      have hperm := (hfs.subperm hsubset).perm_of_length_le (by simp [hlength])
      have hnone : gs.lookup name = none := lookup_eq_none_iff_not_mem.mpr fun hmem =>
        lookup_eq_none_iff_not_mem.mp hlookup (hperm.mem_iff.mpr hmem)
      rw [hnone]
      exact .none

theorem IsTidy.list_inv {p : Datum → Prop} (hp : ∀ v, p v → IsScalar v)
    (h : IsTidy p (.list xs)) : ∀ x ∈ xs, IsTidy p x := by
  cases h with
  | leaf h => exact (hp _ h).elim
  | list h => exact h

theorem IsTidy.record_inv {p : Datum → Prop} (hp : ∀ v, p v → IsScalar v)
    (h : IsTidy p (.record fs)) : (fs.map (·.1)).Nodup ∧ ∀ f ∈ fs, IsTidy p f.2 := by
  cases h with
  | leaf h => exact (hp _ h).elim
  | record hnames h => exact ⟨hnames, h⟩

theorem same_list_iff (h : ∀ ys, w = .list ys → ∀ x ∈ xs, ∀ y ∈ ys, same x y = true ↔ Alike x y) :
    same (.list xs) w = true ↔ Alike (.list xs) w := by
  constructor
  · intro hsame
    cases w with
    | list ys => exact .list ((sameItems_iff (h ys rfl)).mp hsame)
    | _ => cases hsame
  · intro halike
    cases halike with
    | number hn => exact absurd hn (not_isOneNumber rfl nofun)
    | list hys => exact (sameItems_iff (h _ rfl)).mpr hys

theorem same_record_iff (hfs : (fs.map (·.1)).Nodup)
    (hgs : ∀ gs, w = .record gs → (gs.map (·.1)).Nodup)
    (h : ∀ gs, w = .record gs → ∀ f ∈ fs, ∀ g ∈ gs, same f.2 g.2 = true ↔ Alike f.2 g.2) :
    same (.record fs) w = true ↔ Alike (.record fs) w := by
  have hfields : ∀ gs, w = .record gs → (same (.record fs) (.record gs) = true ↔
      ∀ name, Option.Rel Alike (fs.lookup name) (gs.lookup name)) := by
    intro gs hw
    rw [same, Bool.and_eq_true, beq_iff_eq, sameFields_iff, forall_rel_lookup_iff hfs (hgs gs hw)]
    refine and_congr_right fun _ => forall₂_congr fun f hf => exists_congr fun v => ?_
    refine and_congr_right fun hv => ?_
    exact h gs hw f hf _ ((lookup_eq_some_iff_mem (hgs gs hw)).mp hv)
  constructor
  · intro hsame
    cases w with
    | record gs => exact .record ((hfields gs rfl).mp hsame)
    | _ => cases hsame
  · intro halike
    cases halike with
    | number hn => exact absurd hn (not_isOneNumber rfl nofun)
    | record hrel => exact (hfields _ rfl).mpr hrel

/-- The comparison decides equality of values in which every name stands once. -/
theorem same_iff (hv : IsTidy IsScalar v) (hw : IsTidy IsScalar w) :
    same v w = true ↔ Alike v w := by
  induction hv generalizing w with
  | leaf hv => exact same_scalar_iff hv
  | list _ ih =>
    refine same_list_iff fun ys hys x hx y hy => ih x hx ?_
    subst hys
    exact hw.list_inv (fun _ => id) y hy
  | record hnames _ ih =>
    refine same_record_iff hnames (fun gs hgs => ?_) fun gs hgs f hf g hg => ih f hf ?_
    · subst hgs
      exact (hw.record_inv fun _ => id).1
    · subst hgs
      exact (hw.record_inv fun _ => id).2 g hg

theorem alike_refl (h : IsTidy IsExact v) : Alike v v := by
  induction h with
  | @leaf v hv =>
    cases v with
    | null => exact .null
    | bool b => exact .number (.integers rfl rfl)
    | int n => exact .number (.integers rfl rfl)
    | text s => exact .text s
    | _ => exact hv.elim
  | list _ ih => exact .list (List.forall₂_same.mpr ih)
  | record hnames _ ih =>
    refine .record fun name => ?_
    cases hlookup : List.lookup name _ with
    | none => exact .none
    | some v => exact .some (ih _ ((lookup_eq_some_iff_mem hnames).mp hlookup))

theorem alike_null_left_iff : Alike .null w ↔ w = .null := by
  constructor
  · intro h
    cases h with
    | null => rfl
    | number h => exact absurd h (not_isOneNumber rfl nofun)
  · rintro rfl
    exact .null

theorem alike_null_right_iff : Alike v .null ↔ v = .null := by
  constructor
  · intro h
    cases h with
    | null => rfl
    | number h =>
      cases h with
      | integers _ hn => cases hn
      | decimalInteger hn => cases hn
  · rintro rfl
    exact .null

theorem alike_record_iff : Alike (.record fs) (.record gs) ↔
    ∀ name, Option.Rel Alike (fs.lookup name) (gs.lookup name) := by
  constructor
  · intro h
    cases h with
    | number h => exact absurd h (not_isOneNumber rfl nofun)
    | record h => exact h
  · exact .record

end

end TokenMetadata.Datum
