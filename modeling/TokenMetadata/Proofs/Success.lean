import Mathlib
import TokenMetadata.Fault

/-!
# Chains of steps

What is known of each step when a chain of steps comes to a result, and where a chain that fails has
failed.
-/

namespace TokenMetadata

variable {ε ζ α β : Type}

theorem bind_eq_ok_iff {x : Except ε α} {f : α → Except ε β} {b : β} :
    (x >>= f) = .ok b ↔ ∃ a, x = .ok a ∧ f a = .ok b := by
  cases x with
  | error e => simp [bind, Except.bind]
  | ok a => simp [bind, Except.bind]

theorem map_eq_ok_iff {x : Except ε α} {f : α → β} {b : β} :
    f <$> x = .ok b ↔ ∃ a, x = .ok a ∧ f a = b := by
  cases x with
  | error e => simp [Functor.map, Except.map]
  | ok a => simp [Functor.map, Except.map]

/-- A chain fails at its first step, or behind it. -/
theorem bind_eq_error_iff {x : Except ε α} {f : α → Except ε β} {e : ε} :
    (x >>= f) = .error e ↔ x = .error e ∨ ∃ a, x = .ok a ∧ f a = .error e := by
  cases x with
  | error d => simp [bind, Except.bind]
  | ok a => simp [bind, Except.bind]

theorem map_eq_error_iff {x : Except ε α} {f : α → β} {e : ε} :
    f <$> x = .error e ↔ x = .error e := by
  cases x with
  | error d => simp [Functor.map, Except.map]
  | ok a => simp [Functor.map, Except.map]

theorem mapError_eq_error_iff {x : Except ε α} {f : ε → ζ} {e : ζ} :
    x.mapError f = .error e ↔ ∃ d, x = .error d ∧ f d = e := by
  cases x <;> simp [Except.mapError]

theorem mapError_eq_ok_iff {x : Except ε α} {f : ε → ζ} {a : α} :
    x.mapError f = .ok a ↔ x = .ok a := by
  cases x <;> simp [Except.mapError]

theorem liftSigning_eq_ok_iff {x : Except SigningFault α} {a : α} :
    (liftM x : Except Fault α) = .ok a ↔ x = .ok a :=
  mapError_eq_ok_iff

theorem liftSigning_eq_error_iff {x : Except SigningFault α} {e : Fault} :
    (liftM x : Except Fault α) = .error e ↔ ∃ f, x = .error f ∧ .signing f = e :=
  mapError_eq_error_iff

theorem liftMisuse_eq_ok_iff {x : Except Misuse α} {a : α} :
    (liftM x : Except Fault α) = .ok a ↔ x = .ok a :=
  mapError_eq_ok_iff

theorem ok_bind (a : α) (f : α → Except ε β) : (Except.ok a >>= f) = f a := rfl

theorem error_bind (e : ε) (f : α → Except ε β) : (Except.error e >>= f) = .error e := rfl

theorem liftSigning_ok (a : α) :
    (liftM (.ok a : Except SigningFault α) : Except Fault α) = .ok a := rfl

theorem liftSigning_error (e : SigningFault) :
    (liftM (.error e : Except SigningFault α) : Except Fault α) = .error (.signing e) := rfl

theorem liftSigning_bind (x : Except SigningFault α) (f : α → Except SigningFault β) :
    (liftM x >>= fun a => (liftM (f a) : Except Fault β)) = liftM (x >>= f) := by
  cases x with
  | error e => rfl
  | ok a => rfl

theorem liftViolation_ok (a : α) :
    (liftM (.ok a : Except Violation α) : Except Fault α) = .ok a := rfl

theorem liftMisuse_ok (a : α) : (liftM (.ok a : Except Misuse α) : Except Fault α) = .ok a := rfl

theorem return_eq_ok_iff {a b : α} : (return a : Except ε α) = .ok b ↔ a = b := by
  simp [pure, Except.pure]

theorem return_ne_error {a : α} {e : ε} : (return a : Except ε α) ≠ .error e := by
  simp [pure, Except.pure]

/-- A step that only ever gives `x` leaves its condition and what is built from `x`. -/
theorem bind_return_eq_ok_iff {run : Except ε α} {x : α} {condition : Prop} {f : α → β} {b : β}
    (h : ∀ y, run = .ok y ↔ y = x ∧ condition) :
    (do let y ← run; return f y) = .ok b ↔ b = f x ∧ condition := by
  rw [bind_eq_ok_iff]
  constructor
  · rintro ⟨y, hy, hb⟩
    obtain ⟨rfl, hcondition⟩ := (h y).mp hy
    exact ⟨(return_eq_ok_iff.mp hb).symm, hcondition⟩
  · rintro ⟨rfl, hcondition⟩
    exact ⟨x, (h x).mpr ⟨rfl, hcondition⟩, rfl⟩

/-- A check that lets values of one form through, on a value of that form. -/
theorem check_form_eq_ok_iff {check : α → Except ε β} {form : β → α} {condition : β → Prop}
    (hform : Function.Injective form)
    (h : ∀ x y, check x = .ok y ↔ x = form y ∧ condition y) {x y : β} :
    check (form x) = .ok y ↔ y = x ∧ condition x := by
  rw [h]
  constructor
  · rintro ⟨hxy, hy⟩
    obtain rfl := hform hxy
    exact ⟨rfl, hy⟩
  · rintro ⟨rfl, hx⟩
    exact ⟨rfl, hx⟩

/-- A run that passes a guard does not meet what the guard refuses. -/
theorem refuse_eq_ok_iff {p : Prop} [Decidable p] {e : ε} {next : Unit → Except ε α} {a : α} :
    (if p then throw e >>= next else next ()) = .ok a ↔ ¬ p ∧ next () = .ok a := by
  by_cases h : p
  · simp [h, throw, throwThe, MonadExceptOf.throw, bind, Except.bind]
  · simp [h]

/-- A run that passes a requirement meets it. -/
theorem require_eq_ok_iff {p : Prop} [Decidable p] {e : ε} {next : Unit → Except ε α} {a : α} :
    (if p then next () else throw e >>= next) = .ok a ↔ p ∧ next () = .ok a := by
  by_cases h : p
  · simp [h]
  · simp [h, throw, throwThe, MonadExceptOf.throw, bind, Except.bind]

/-- A list of steps succeeds when each of them does. -/
theorem mapM_eq_ok_iff {f : α → Except ε β} {xs : List α} {ys : List β} :
    xs.mapM f = .ok ys ↔ List.Forall₂ (fun x y => f x = .ok y) xs ys := by
  induction xs generalizing ys with
  | nil =>
    rw [List.mapM_nil, return_eq_ok_iff, List.forall₂_nil_left_iff]
    exact eq_comm
  | cons x xs ih =>
    rw [List.mapM_cons, bind_eq_ok_iff]
    constructor
    · rintro ⟨y, hy, h⟩
      obtain ⟨rest, hrest, h⟩ := bind_eq_ok_iff.mp h
      obtain rfl := return_eq_ok_iff.mp h
      exact .cons hy (ih.mp hrest)
    · intro h
      cases h with
      | cons hy hrest =>
        exact ⟨_, hy, bind_eq_ok_iff.mpr ⟨_, ih.mpr hrest, rfl⟩⟩

theorem mapM_eq_ok_iff_map {f : α → Except ε β} {xs : List α} {ys : List β} :
    xs.mapM f = .ok ys ↔ xs.map f = ys.map .ok := by
  rw [mapM_eq_ok_iff, ← List.forall₂_eq_eq_eq, List.forall₂_map_left_iff,
    List.forall₂_map_right_iff]

theorem mapM_eq_ok_map {f : α → Except ε β} {g : α → β} (h : ∀ x, f x = .ok (g x)) (xs : List α) :
    xs.mapM f = .ok (xs.map g) := by
  rw [mapM_eq_ok_iff_map, List.map_map]
  exact List.map_congr_left fun x _ => h x

theorem exists_mapM_eq_ok {f : α → Except ε β} {xs : List α} (h : ∀ x ∈ xs, ∃ y, f x = .ok y) :
    ∃ ys, xs.mapM f = .ok ys := by
  induction xs with
  | nil => exact ⟨[], rfl⟩
  | cons x xs ih =>
    obtain ⟨hx, hxs⟩ := List.forall_mem_cons.mp h
    obtain ⟨y, hy⟩ := hx
    obtain ⟨ys, hys⟩ := ih hxs
    refine ⟨y :: ys, ?_⟩
    rw [List.mapM_cons]
    exact bind_eq_ok_iff.mpr ⟨y, hy, bind_eq_ok_iff.mpr ⟨ys, hys, rfl⟩⟩

theorem exists_option_mapM_eq_ok {f : α → Except ε β} {v : Option α}
    (h : ∀ x, v = some x → ∃ y, f x = .ok y) : ∃ y, v.mapM f = .ok y := by
  cases v with
  | none => exact ⟨none, rfl⟩
  | some x =>
    obtain ⟨y, hy⟩ := h x rfl
    exact ⟨some y, by rw [Option.mapM_some, hy]; rfl⟩

/-- Of the attempts, the first that fails fails with `e`. -/
def FirstFailure (attempts : List (Except ε α)) (e : ε) : Prop :=
  ∃ before after, attempts = before ++ .error e :: after ∧ ∀ x ∈ before, ∃ a, x = .ok a

theorem FirstFailure.mem {attempts : List (Except ε α)} {e : ε} (h : FirstFailure attempts e) :
    .error e ∈ attempts := by
  obtain ⟨before, after, rfl, -⟩ := h
  exact List.mem_append_right _ List.mem_cons_self

theorem not_firstFailure_nil {e : ε} : ¬ FirstFailure ([] : List (Except ε α)) e := by
  rintro ⟨before, after, hsplit, -⟩
  simp at hsplit

theorem firstFailure_cons {x : Except ε α} {xs : List (Except ε α)} {e : ε} :
    FirstFailure (x :: xs) e ↔ x = .error e ∨ (∃ a, x = .ok a) ∧ FirstFailure xs e := by
  constructor
  · rintro ⟨before, after, hsplit, hbefore⟩
    cases before with
    | nil => exact Or.inl (List.cons.inj hsplit).1
    | cons y before =>
      obtain ⟨rfl, hrest⟩ := List.cons.inj hsplit
      obtain ⟨hx, hall⟩ := List.forall_mem_cons.mp hbefore
      exact Or.inr ⟨hx, before, after, hrest, hall⟩
  · rintro (rfl | ⟨hx, before, after, rfl, hall⟩)
    · exact ⟨[], xs, rfl, by simp⟩
    · exact ⟨x :: before, after, rfl, List.forall_mem_cons.mpr ⟨hx, hall⟩⟩

theorem exists_eq_ok_iff {x : Except ε α} : (∃ a, x = .ok a) ↔ ∀ e, x ≠ .error e := by
  cases x <;> simp

theorem exists_eq_error_iff {x : Except ε α} : (∃ e, x = .error e) ↔ ∀ a, x ≠ .ok a := by
  cases x <;> simp

/-- All attempts succeed when there is no first failure. -/
theorem forall_ok_iff {xs : List (Except ε α)} :
    (∀ x ∈ xs, ∃ a, x = .ok a) ↔ ∀ e, ¬ FirstFailure xs e := by
  induction xs with
  | nil => simp [not_firstFailure_nil]
  | cons x xs ih =>
    rw [List.forall_mem_cons, ih]
    simp only [firstFailure_cons, not_or, forall_and, ← exists_eq_ok_iff]
    refine and_congr_right fun hx => ?_
    simp only [hx, true_and]

/-- Attempts in two parts fail in the first part, or behind it. -/
theorem firstFailure_append {xs ys : List (Except ε α)} {e : ε} :
    FirstFailure (xs ++ ys) e ↔
      FirstFailure xs e ∨ (∀ x ∈ xs, ∃ a, x = .ok a) ∧ FirstFailure ys e := by
  induction xs with
  | nil => simp [not_firstFailure_nil]
  | cons x xs ih =>
    rw [List.cons_append, firstFailure_cons, firstFailure_cons, ih, List.forall_mem_cons]
    tauto

theorem firstFailure_mapError {f : ε → ζ} {xs : List (Except ε α)} {e : ζ} :
    FirstFailure (xs.map (·.mapError f)) e ↔ ∃ d, FirstFailure xs d ∧ f d = e := by
  induction xs with
  | nil => simp [not_firstFailure_nil]
  | cons x xs ih =>
    rw [List.map_cons, firstFailure_cons, ih, mapError_eq_error_iff]
    simp only [firstFailure_cons, mapError_eq_ok_iff, or_and_right, and_assoc, exists_or,
      exists_and_left]

theorem mapM_eq_error_iff {f : α → Except ε β} {xs : List α} {e : ε} :
    xs.mapM f = .error e ↔ FirstFailure (xs.map f) e := by
  induction xs with
  | nil => simp [not_firstFailure_nil, pure, Except.pure]
  | cons x xs ih =>
    rw [List.mapM_cons, List.map_cons, firstFailure_cons, bind_eq_error_iff, ← ih]
    simp only [bind_eq_error_iff, return_ne_error, and_false, exists_false, or_false,
      exists_and_right]

/-- A list of steps fails with the first of them that fails. -/
theorem mapM_eq_error_of_first {f : α → Except ε β} {before after : List α} {x : α} {e : ε}
    (hbefore : ∀ y ∈ before, ∃ z, f y = .ok z) (hx : f x = .error e) :
    (before ++ x :: after).mapM f = .error e := by
  rw [mapM_eq_error_iff, List.map_append, List.map_cons, hx]
  exact ⟨before.map f, after.map f, rfl, List.forall_mem_map.mpr hbefore⟩

theorem option_mapM_eq_error_iff {f : α → Except ε β} {v : Option α} {e : ε} :
    v.mapM f = .error e ↔ FirstFailure (v.toList.map f) e := by
  cases v with
  | none => simp [not_firstFailure_nil, pure, Except.pure]
  | some x =>
    rw [Option.mapM_some, map_eq_error_iff, Option.toList_some, List.map_cons, firstFailure_cons]
    simp [not_firstFailure_nil]

theorem option_mapM_eq_ok_iff {f : α → Except ε β} {v : Option α} {o : Option β} :
    v.mapM f = .ok o ↔ Option.Rel (fun x y => f x = .ok y) v o := by
  cases v with
  | none =>
    constructor
    · intro h
      cases h
      exact .none
    · intro h
      cases h
      rfl
  | some x =>
    rw [Option.mapM_some, map_eq_ok_iff]
    constructor
    · rintro ⟨y, hy, rfl⟩
      exact .some hy
    · intro h
      cases h with
      | some hy => exact ⟨_, hy, rfl⟩

theorem option_mapM_mapError {f : ε → ζ} {g : α → Except ε β} (v : Option α) :
    v.mapM (fun x => (g x).mapError f) = (v.mapM g).mapError f := by
  cases v with
  | none => rfl
  | some x =>
    rw [Option.mapM_some, Option.mapM_some]
    cases g x <;> rfl

end TokenMetadata
