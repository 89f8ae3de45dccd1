import Mathlib
import TokenMetadata.Proofs.Datum
import TokenMetadata.Proofs.Datum.Tokens

/-!
# Values in JSON

Whatever is read names every field once, since a name that stands twice is read as its last value.
A value without bytes and decimals whose records do so is read as it was written.
-/

namespace TokenMetadata

open Datum

section

variable {fs gs : List (String × Datum)} {name : String} {v : Datum}

theorem names_setField :
    (setField name v fs).map (·.1) =
      if name ∈ fs.map (·.1) then fs.map (·.1) else fs.map (·.1) ++ [name] := by
  induction fs with
  | nil => simp [setField]
  | cons f fs ih =>
    obtain ⟨n, w⟩ := f
    rw [setField]
    split
    · rename_i heq
      simp [heq]
    · rename_i hne
      have hname : name ≠ n := fun heq => hne heq.symm
      rw [List.map_cons, ih]
      simp only [List.map_cons, List.mem_cons, hname, false_or]
      split <;> rfl

theorem nodup_names_setField (h : (fs.map (·.1)).Nodup) :
    ((setField name v fs).map (·.1)).Nodup := by
  rw [names_setField]
  split
  · exact h
  · rename_i hname
    exact h.append (List.nodup_singleton name) (by simpa using hname)

theorem mem_setField {f : String × Datum} (h : f ∈ setField name v fs) :
    f = (name, v) ∨ f ∈ fs := by
  induction fs with
  | nil => exact Or.inl (List.mem_singleton.mp h)
  | cons g fs ih =>
    obtain ⟨n, w⟩ := g
    rw [setField] at h
    split at h
    · rename_i heq
      rcases List.mem_cons.mp h with rfl | hf
      · exact Or.inl (heq ▸ rfl)
      · exact Or.inr (List.mem_cons_of_mem _ hf)
    · rcases List.mem_cons.mp h with rfl | hf
      · exact Or.inr List.mem_cons_self
      · exact (ih hf).imp id (List.mem_cons_of_mem _)

theorem setField_eq_append (h : name ∉ fs.map (·.1)) : setField name v fs = fs ++ [(name, v)] := by
  induction fs with
  | nil => rfl
  | cons f fs ih =>
    rw [List.map_cons, List.mem_cons, not_or] at h
    rw [setField, if_neg (fun heq => h.1 heq.symm), ih h.2]
    rfl

end

namespace Json

section

variable {fs gs : List (String × Datum)}

theorem isTidy_foldl_setField (hgs : IsTidy IsScalar (.record gs))
    (hfs : ∀ f ∈ fs, IsTidy IsScalar f.2) :
    IsTidy IsScalar
      (.record (fs.foldl (fun merged (name, v) => Datum.setField name v merged) gs)) := by
  induction fs generalizing gs with
  | nil => exact hgs
  | cons f fs ih =>
    obtain ⟨name, v⟩ := f
    obtain ⟨hv, hfs⟩ := List.forall_mem_cons.mp hfs
    obtain ⟨hnames, hvalues⟩ := hgs.record_inv fun _ => id
    refine ih (.record (nodup_names_setField hnames) fun f hf => ?_) hfs
    rcases mem_setField hf with rfl | hf
    · exact hv
    · exact hvalues f hf

/-- Merging names every field once. -/
theorem isTidy_mergeFields (hfs : ∀ f ∈ fs, IsTidy IsScalar f.2) :
    IsTidy IsScalar (.record (mergeFields fs)) :=
  isTidy_foldl_setField (.record List.nodup_nil fun _ => nofun) hfs

theorem foldl_setField_eq_append (h : ((gs ++ fs).map (·.1)).Nodup) :
    fs.foldl (fun merged (name, v) => Datum.setField name v merged) gs = gs ++ fs := by
  induction fs generalizing gs with
  | nil => simp
  | cons f fs ih =>
    obtain ⟨name, v⟩ := f
    have hname : name ∉ gs.map (·.1) := by
      rw [List.map_append, List.map_cons] at h
      intro hmem
      exact (List.disjoint_of_nodup_append h) hmem List.mem_cons_self
    have hmore : ((gs ++ [(name, v)] ++ fs).map (·.1)).Nodup := by simpa using h
    have hnext := ih hmore
    simp only [List.foldl_cons, setField_eq_append hname, hnext, List.append_assoc,
      List.singleton_append]

/-- Fields that have a name each stay as they are. -/
theorem mergeFields_eq_self (h : (fs.map (·.1)).Nodup) : mergeFields fs = fs :=
  foldl_setField_eq_append h

end

section

variable {s rest : List Char} {v : Datum}

theorem eq_of_map_eq_some {o : Option (List Char)} {w : Datum}
    (h : o.map (w, ·) = some (v, rest)) : v = w := by
  obtain ⟨_, -, heq⟩ := Option.map_eq_some_iff.mp h
  exact (Prod.mk.inj heq).1.symm

theorem isScalar_of_readMagnitude {negative : Bool}
    (h : readMagnitude negative s = some (v, rest)) : IsScalar v := by
  rw [readMagnitude] at h
  split at h
  · cases h
  · dsimp only at h
    split at h <;> cases h <;> trivial

theorem isScalar_of_readNumber (h : readNumber s = some (v, rest)) : IsScalar v := by
  unfold readNumber at h
  split at h
  · exact eq_of_map_eq_some h ▸ trivial
  · exact isScalar_of_readMagnitude h
  · exact isScalar_of_readMagnitude h

/-- What is read with some fuel names fields once. -/
structure ReadsTidy (fuel : Nat) : Prop where
  value : ∀ s v rest, readValue fuel s = some (v, rest) → IsTidy IsScalar v
  items : ∀ s xs rest, readItems fuel s = some (xs, rest) → ∀ x ∈ xs, IsTidy IsScalar x
  fields : ∀ s fs rest, readFields fuel s = some (fs, rest) → ∀ f ∈ fs, IsTidy IsScalar f.2

section

variable {fuel : Nat} {xs : List Datum} {fs : List (String × Datum)} (hfuel : ReadsTidy fuel)
include hfuel

theorem isTidy_of_readValue (h : readValue (fuel + 1) s = some (v, rest)) :
    IsTidy IsScalar v := by
  unfold readValue at h
  split at h
  · exact .leaf (eq_of_map_eq_some h ▸ trivial)
  · exact .leaf (eq_of_map_eq_some h ▸ trivial)
  · exact .leaf (eq_of_map_eq_some h ▸ trivial)
  · exact .leaf (eq_of_map_eq_some h ▸ trivial)
  · exact .leaf (eq_of_map_eq_some h ▸ trivial)
  · obtain ⟨t, -, heq⟩ := Option.map_eq_some_iff.mp h
    cases heq
    exact .leaf trivial
  · split at h
    · cases h
      exact .list nofun
    · obtain ⟨⟨xs, s⟩, hxs, heq⟩ := Option.map_eq_some_iff.mp h
      cases heq
      exact .list (hfuel.items _ _ _ hxs)
  · split at h
    · cases h
      exact .record List.nodup_nil nofun
    · obtain ⟨⟨fs, s⟩, hfs, heq⟩ := Option.map_eq_some_iff.mp h
      cases heq
      exact isTidy_mergeFields (hfuel.fields _ _ _ hfs)
  · exact .leaf (isScalar_of_readNumber h)

theorem isTidy_of_readItems (h : readItems (fuel + 1) s = some (xs, rest)) :
    ∀ x ∈ xs, IsTidy IsScalar x := by
  rw [readItems] at h
  obtain ⟨⟨x, s⟩, hx, h⟩ := Option.bind_eq_some_iff.mp h
  have hx := hfuel.value _ _ _ hx
  dsimp only at h
  split at h
  · obtain ⟨⟨ys, s⟩, hys, heq⟩ := Option.map_eq_some_iff.mp h
    cases heq
    exact List.forall_mem_cons.mpr ⟨hx, hfuel.items _ _ _ hys⟩
  · cases h
    exact List.forall_mem_singleton.mpr hx
  · cases h

theorem isTidy_of_readFields (h : readFields (fuel + 1) s = some (fs, rest)) :
    ∀ f ∈ fs, IsTidy IsScalar f.2 := by
  rw [readFields] at h
  split at h
  · obtain ⟨⟨name, s⟩, -, h⟩ := Option.bind_eq_some_iff.mp h
    dsimp only at h
    split at h
    · obtain ⟨⟨v, s⟩, hv, h⟩ := Option.bind_eq_some_iff.mp h
      have hv := hfuel.value _ _ _ hv
      dsimp only at h
      split at h
      · obtain ⟨⟨gs, s⟩, hgs, heq⟩ := Option.map_eq_some_iff.mp h
        cases heq
        exact List.forall_mem_cons.mpr ⟨hv, hfuel.fields _ _ _ hgs⟩
      · cases h
        exact List.forall_mem_singleton.mpr hv
      · cases h
    · cases h
  · cases h

end

theorem readsTidy (fuel : Nat) : ReadsTidy fuel := by
  induction fuel with
  | zero => exact ⟨nofun, nofun, nofun⟩
  | succ fuel ih =>
    exact ⟨fun _ _ _ => isTidy_of_readValue ih, fun _ _ _ => isTidy_of_readItems ih,
      fun _ _ _ => isTidy_of_readFields ih⟩

/-- Every value that is read names the fields of its records once. -/
theorem isTidy_of_read {t : String} (h : read t = some v) : IsTidy IsScalar v := by
  rw [read] at h
  split at h
  · rename_i heq
    split at h
    · cases h
      exact (readsTidy _).value _ _ _ heq
    · cases h
  · cases h

end

end Json

end TokenMetadata
