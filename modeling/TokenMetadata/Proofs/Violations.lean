import Mathlib
import TokenMetadata.Proofs.Payload

/-!
# The first violation

Everything in which texts break the limits, in the order in which it is looked for. Accepting stops
at the first of these and names it; when there is none, the texts are accepted as they are.
-/

namespace TokenMetadata

/-- A run over `x` that stops at the first of the violations found. -/
def report {α : Type} (found : List Violation) (x : α) : Except Violation α :=
  match found with
  | [] => .ok x
  | v :: _ => .error v

section

variable {α β : Type}

theorem report_bind (found : List Violation) (x : α) (next : α → Except Violation β)
    {behind : List Violation} {y : β} (h : next x = report behind y) :
    (report found x >>= next) = report (found ++ behind) y := by
  cases found with
  | nil => exact h
  | cons v rest => rfl

theorem report_bind_return (found : List Violation) (x : α) (f : α → β) :
    (do let y ← report found x; return f y) = report found (f x) := by
  cases found <;> rfl

/-- Nothing is found exactly when the run comes to a result. -/
theorem eq_nil_iff_of_report {run : Except Violation α} {found : List Violation} {x : α}
    {within : Prop} (hrun : run = report found x) (hok : run = .ok x ↔ x = x ∧ within) :
    found = [] ↔ within := by
  rw [hrun] at hok
  cases found <;> simpa [report] using hok

/-- A run that cannot fail behind the violations found fails with the first of them only. -/
theorem lift_report_bind (found : List Violation) (x : α) (next : α → Except Fault β) {y : β}
    (h : next x = .ok y) :
    (do let x ← report found x; next x : Except Fault β) =
      (report found y).mapError .violation := by
  cases found with
  | nil => exact h
  | cons v rest => rfl

theorem map_lift_report (found : List Violation) (x : α) (f : α → β) :
    f <$> ((report found x).mapError .violation : Except Fault α) =
      (report found (f x)).mapError .violation := by
  cases found <;> rfl

/-- Looking for the same violations twice is looking for them once. -/
theorem lift_report_bind_lift (found : List Violation) (x : α) (next : α → Except Fault β) {y : β}
    (h : next x = (report found y).mapError .violation) :
    ((report found x).mapError .violation >>= next) = (report found y).mapError .violation := by
  cases found with
  | nil => exact h
  | cons v rest => rfl

end

/-- A text of more bytes than the field may have. -/
def overlong (field : String) (limit : Nat) (s : String) : List Violation :=
  if limit < s.utf8ByteSize then [⟨field, .tooLong s.utf8ByteSize (.int limit)⟩] else []

/-- A text without characters where there has to be one. -/
def blank (field : String) (s : String) : List Violation :=
  if s = "" then [⟨field, .empty⟩] else []

theorem acceptText_eq_report (field : String) (limit : Nat) (s : String) :
    acceptText field limit (.text s) = report (overlong field limit s) s := by
  rw [acceptText, overlong]
  split <;> rfl

/-- A text is asked to have characters before what follows. -/
theorem require_eq_report {α : Type} (field s : String) (next : Unit → Except Violation α)
    {behind : List Violation} {y : α} (h : next () = report behind y) :
    (if (Datum.text s).isTruthy then next () else throw ⟨field, .empty⟩ >>= next) =
      report (blank field s ++ behind) y := by
  by_cases hs : s = ""
  · subst hs
    rfl
  · have htruthy : (Datum.text s).isTruthy = true := by simpa [Datum.isTruthy] using hs
    rw [if_pos htruthy, blank, if_neg hs]
    exact h

/-- What a violation of a limit says: that something is empty, or the limit and the number that is
above it. -/
def Violation.IsMeasured (v : Violation) : Prop :=
  v.cause = .empty ∨
    ∃ size limit : Nat, limit < size ∧ v.limit = some (.int limit) ∧ v.actual = some (size : Int)

theorem isMeasured_of_overlong {field s : String} {limit : Nat} {v : Violation}
    (h : v ∈ overlong field limit s) : v.IsMeasured := by
  unfold overlong at h
  split at h
  · rename_i hlt
    obtain rfl := List.mem_singleton.mp h
    exact Or.inr ⟨_, _, hlt, rfl, rfl⟩
  · cases h

theorem isMeasured_of_blank {field s : String} {v : Violation} (h : v ∈ blank field s) :
    v.IsMeasured := by
  unfold blank at h
  split at h
  · obtain rfl := List.mem_singleton.mp h
    exact Or.inl rfl
  · cases h

namespace Fields

/-- What is found in the fields, in their order. -/
def inOrder {α : Type} (found : TextField → α → List Violation) (x : Fields α) : List Violation :=
  found .name x.name ++ (found .symbol x.symbol ++
    (found .image x.image ++ found .description x.description))

theorem traverse_eq_report {α β : Type} {form : α → β} {step : TextField → β → Except Violation α}
    {found : TextField → α → List Violation} (h : ∀ f a, step f (form a) = report (found f a) a)
    (x : Fields α) : (x.map form).traverse step = report (x.inOrder found) x := by
  simp only [traverse, map, h]
  refine report_bind _ _ _ (report_bind _ _ _ (report_bind _ _ _ ?_))
  exact report_bind_return _ _ _

theorem exists_of_mem_inOrder {α : Type} {found : TextField → α → List Violation} {x : Fields α}
    {v : Violation} (h : v ∈ x.inOrder found) : ∃ f a, v ∈ found f a := by
  simp only [inOrder, List.mem_append] at h
  obtain h | h | h | h := h
  all_goals exact ⟨_, _, h⟩

/-- Where the fields break their limits. -/
def violations (x : Fields String) : List Violation :=
  x.inOrder fun f s => overlong f.label f.limit s

/-- Where those fields that are present break their limits. -/
def presentViolations (x : Fields (Option String)) : List Violation :=
  x.inOrder fun f o => o.toList.flatMap (overlong f.label f.limit)

theorem accept_eq_report (x : Fields String) :
    (x.map .text).accept = report x.violations x :=
  traverse_eq_report (fun f s => acceptText_eq_report f.label f.limit s) x

theorem acceptPresent_eq_report (x : Fields (Option String)) :
    (x.map (·.map .text)).acceptPresent = report x.presentViolations x := by
  refine traverse_eq_report (fun f o => ?_) x
  cases o with
  | none => rfl
  | some s =>
    change some <$> acceptText f.label f.limit (.text s) = _
    rw [acceptText_eq_report, Option.toList_some, List.flatMap_singleton]
    exact report_bind_return _ _ _

theorem violations_eq_nil_iff (x : Fields String) : x.violations = [] ↔ x.Within :=
  eq_nil_iff_of_report x.accept_eq_report accept_text_iff

theorem isMeasured_of_violations {x : Fields String} {v : Violation} (h : v ∈ x.violations) :
    v.IsMeasured := by
  obtain ⟨f, s, hv⟩ := exists_of_mem_inOrder h
  exact isMeasured_of_overlong hv

theorem isMeasured_of_presentViolations {x : Fields (Option String)} {v : Violation}
    (h : v ∈ x.presentViolations) : v.IsMeasured := by
  obtain ⟨f, o, hv⟩ := exists_of_mem_inOrder h
  obtain ⟨s, -, hs⟩ := List.mem_flatMap.mp hv
  exact isMeasured_of_overlong hs

end Fields

namespace Attribute

/-- Where the pair at an index breaks its limits: both texts are looked at for emptiness before
either is measured. -/
def violations (index : Nat) (a : Attribute) : List Violation :=
  blank s!"attributes[{index}].key" a.1 ++ (blank s!"attributes[{index}].value" a.2 ++
    (overlong s!"attributes[{index}].key" 64 a.1 ++
      overlong s!"attributes[{index}].value" 240 a.2))

/-- Where a list breaks its limits: the count is looked at before the pairs. -/
def allViolations (xs : List Attribute) : List Violation :=
  (if 32 < xs.length then [⟨"attributes", .tooMany xs.length 32⟩] else []) ++
    xs.zipIdx.flatMap fun (a, i) => violations i a

theorem accept_eq_report (i : Nat) (a : Attribute) :
    accept i (.text a.1) (.text a.2) = report (violations i a) a := by
  refine require_eq_report _ _ _ (require_eq_report _ _ _ ?_)
  rw [acceptText_eq_report, acceptText_eq_report]
  exact report_bind _ _ _ (report_bind_return _ _ _)

/-- A list of which each item is accepted like an attribute. -/
theorem acceptEach_eq_report {α : Type} {accept : Nat → α → Except Violation Attribute}
    {xs : List α} {ys : List Attribute}
    (h : List.Forall₂ (fun x a => ∀ i, accept i x = report (violations i a) a) xs ys) :
    acceptEach accept xs = report (allViolations ys) ys := by
  -- the index runs along, so the induction is for every index to start from
  have heach : ∀ start, (xs.zipIdx start).mapM (fun x => accept x.2 x.1) =
      report ((ys.zipIdx start).flatMap fun (a, i) => violations i a) ys := by
    induction h with
    | nil => exact fun _ => rfl
    | cons hx _ ih =>
      intro start
      simp only [List.zipIdx_cons, List.mapM_cons, List.flatMap_cons, hx, ih]
      exact report_bind _ _ _ (report_bind_return _ _ _)
  rw [acceptEach, allViolations, h.length_eq]
  by_cases hcount : 32 < ys.length
  · rw [if_pos hcount]
    exact if_pos hcount
  · rw [if_neg hcount]
    exact (if_neg hcount).trans (heach 0)

theorem acceptPairs_eq_report (xs : List Attribute) :
    acceptPairs (xs.map toData) = report (allViolations xs) xs := by
  refine acceptEach_eq_report (List.forall₂_map_left_iff.mpr (List.forall₂_same.mpr ?_))
  exact fun a _ i => accept_eq_report i a

/-- A value whose items stand for attributes. -/
theorem acceptAll_eq_report {data : Datum} {items : List Datum} {xs : List Attribute}
    (hitems : data.items? = some items)
    (h : List.Forall₂ (fun x a => pair? x = some (toData a)) items xs) :
    acceptAll data = (report (allViolations xs) xs).mapError .violation := by
  rw [acceptAll, hitems]
  refine congrArg (Except.mapError Fault.violation) (acceptEach_eq_report (h.imp ?_))
  intro x a hx i
  rw [hx]
  exact accept_eq_report i a

theorem allViolations_eq_nil_iff (xs : List Attribute) : allViolations xs = [] ↔ AllWithin xs :=
  eq_nil_iff_of_report (acceptPairs_eq_report xs) acceptPairs_text_iff

theorem isMeasured_of_allViolations {xs : List Attribute} {v : Violation}
    (h : v ∈ allViolations xs) : v.IsMeasured := by
  obtain hcount | hpairs := List.mem_append.mp h
  · split at hcount
    · rename_i hlt
      obtain rfl := List.mem_singleton.mp hcount
      exact Or.inr ⟨_, _, hlt, rfl, rfl⟩
    · cases hcount
  · obtain ⟨⟨a, i⟩, -, hv⟩ := List.mem_flatMap.mp hpairs
    simp only [violations, List.mem_append] at hv
    obtain hv | hv | hv | hv := hv
    · exact isMeasured_of_blank hv
    · exact isMeasured_of_blank hv
    · exact isMeasured_of_overlong hv
    · exact isMeasured_of_overlong hv

end Attribute

namespace Payload

/-- Where the fields of a payload break their limits. -/
def violations : Payload → List Violation
  | createMetadata fields _ => fields.violations
  | updateMetadata fields => fields.presentViolations
  | createAttributes data => Attribute.allViolations data
  | replaceAttributes data => Attribute.allViolations data
  | transferAuthority _ => []
  | makeImmutable => []

theorem check_eq_report (p : Payload) : p.check = report p.violations p := by
  cases p with
  | createMetadata fields immutable =>
    rw [check, Fields.accept_eq_report]
    exact report_bind_return _ _ _
  | updateMetadata fields =>
    rw [check, Fields.acceptPresent_eq_report]
    exact report_bind_return _ _ _
  | createAttributes data =>
    change (do let data ← Attribute.acceptPairs (data.map Attribute.toData); return _) = _
    rw [Attribute.acceptPairs_eq_report]
    exact report_bind_return _ _ _
  | replaceAttributes data =>
    change (do let data ← Attribute.acceptPairs (data.map Attribute.toData); return _) = _
    rw [Attribute.acceptPairs_eq_report]
    exact report_bind_return _ _ _
  | transferAuthority newAuthority => rfl
  | makeImmutable => rfl

theorem violations_eq_nil_iff (p : Payload) : p.violations = [] ↔ p.Within :=
  eq_nil_iff_of_report p.check_eq_report check_eq_ok_iff

theorem isMeasured_of_violations {p : Payload} {v : Violation} (h : v ∈ p.violations) :
    v.IsMeasured := by
  cases p with
  | createMetadata fields immutable => exact Fields.isMeasured_of_violations h
  | updateMetadata fields => exact Fields.isMeasured_of_presentViolations h
  | createAttributes data => exact Attribute.isMeasured_of_allViolations h
  | replaceAttributes data => exact Attribute.isMeasured_of_allViolations h
  | transferAuthority newAuthority => cases h
  | makeImmutable => cases h

end Payload

/-- A draft of texts is accepted like the payload that it stands for. -/
theorem Draft.accept_eq_report {d : Draft} {p : Payload} (h : d.normal = p.toDraft) :
    d.accept = (report p.violations p).mapError .violation := by
  cases p with
  | createMetadata texts mark =>
    cases d <;> cases h
    change (do let y ← (texts.map Datum.text).accept; return _ : Except Fault Payload) = _
    rw [Fields.accept_eq_report]
    exact lift_report_bind _ _ _ rfl
  | updateMetadata texts =>
    cases d <;> cases h
    change (do let y ← (texts.map (·.map Datum.text)).acceptPresent; return _ :
      Except Fault Payload) = _
    rw [Fields.acceptPresent_eq_report]
    exact lift_report_bind _ _ _ rfl
  | createAttributes data =>
    cases d <;> cases h
    rw [accept, Attribute.acceptPairs_eq_report]
    exact lift_report_bind _ _ _ rfl
  | replaceAttributes data =>
    cases d <;> cases h
    rw [accept, Attribute.acceptPairs_eq_report]
    exact lift_report_bind _ _ _ rfl
  | transferAuthority newAuthority =>
    cases d <;> cases h
    rw [accept, Key.accept_eq_ok_iff.mpr rfl]
    rfl
  | makeImmutable =>
    cases d <;> cases h
    rfl

end TokenMetadata
