import Mathlib
import TokenMetadata.Limits
import TokenMetadata.Proofs.Success
import TokenMetadata.Proofs.Wire.Law

/-!
# What the limits let through

The caps of the program as predicates on texts and attributes. Checking values succeeds exactly when
they are texts within the caps, and returns those texts. The caps are far below what the lengths on
the wire can carry.
-/

namespace TokenMetadata

theorem acceptText_eq_ok_iff {field : String} {limit : Nat} {v : Datum} {s : String} :
    acceptText field limit v = .ok s ↔ v = .text s ∧ s.utf8ByteSize ≤ limit := by
  cases v with
  | text t =>
    by_cases h : limit < t.utf8ByteSize
    · rw [acceptText, if_pos h]
      constructor
      · intro he
        cases he
      · rintro ⟨ht, hs⟩
        cases ht
        omega
    · rw [acceptText, if_neg h]
      constructor
      · intro he
        cases he
        exact ⟨rfl, not_lt.mp h⟩
      · rintro ⟨ht, -⟩
        cases ht
        rfl
  | _ => simp [acceptText]

namespace Fields

/-- Texts that the program accepts: their UTF-8 bytes are counted. -/
structure Within (x : Fields String) : Prop where
  name : x.name.utf8ByteSize ≤ 256
  symbol : x.symbol.utf8ByteSize ≤ 16
  image : x.image.utf8ByteSize ≤ 512
  description : x.description.utf8ByteSize ≤ 512

/-- Texts of which some may be absent; those present are within the caps. -/
structure PresentWithin (x : Fields (Option String)) : Prop where
  name : ∀ s, x.name = some s → s.utf8ByteSize ≤ 256
  symbol : ∀ s, x.symbol = some s → s.utf8ByteSize ≤ 16
  image : ∀ s, x.image = some s → s.utf8ByteSize ≤ 512
  description : ∀ s, x.description = some s → s.utf8ByteSize ≤ 512

theorem traverse_eq_ok_iff {ε α β : Type} {f : TextField → α → Except ε β} {x : Fields α}
    {y : Fields β} :
    x.traverse f = .ok y ↔ f .name x.name = .ok y.name ∧ f .symbol x.symbol = .ok y.symbol ∧
      f .image x.image = .ok y.image ∧ f .description x.description = .ok y.description := by
  constructor
  · intro h
    obtain ⟨a, ha, h₁⟩ := bind_eq_ok_iff.mp h
    obtain ⟨b, hb, h₂⟩ := bind_eq_ok_iff.mp h₁
    obtain ⟨c, hc, h₃⟩ := bind_eq_ok_iff.mp h₂
    obtain ⟨d, hd, h₄⟩ := bind_eq_ok_iff.mp h₃
    obtain rfl := return_eq_ok_iff.mp h₄
    exact ⟨ha, hb, hc, hd⟩
  · rintro ⟨ha, hb, hc, hd⟩
    refine bind_eq_ok_iff.mpr ⟨_, ha, bind_eq_ok_iff.mpr ⟨_, hb, ?_⟩⟩
    exact bind_eq_ok_iff.mpr ⟨_, hc, bind_eq_ok_iff.mpr ⟨_, hd, rfl⟩⟩

theorem accept_eq_ok_iff {x : Fields Datum} {y : Fields String} :
    x.accept = .ok y ↔ x = y.map .text ∧ y.Within := by
  obtain ⟨a, b, c, d⟩ := x
  simp only [accept, traverse_eq_ok_iff, TextField.accept, acceptText_eq_ok_iff]
  constructor
  · rintro ⟨⟨rfl, ha⟩, ⟨rfl, hb⟩, ⟨rfl, hc⟩, ⟨rfl, hd⟩⟩
    exact ⟨rfl, ha, hb, hc, hd⟩
  · rintro ⟨hx, hy⟩
    cases hx
    exact ⟨⟨rfl, hy.name⟩, ⟨rfl, hy.symbol⟩, ⟨rfl, hy.image⟩, ⟨rfl, hy.description⟩⟩

theorem map_injective {α β : Type} {f : α → β} (hf : Function.Injective f) :
    Function.Injective (map f) := by
  rintro ⟨a, b, c, d⟩ ⟨a', b', c', d'⟩ h
  simp only [map, mk.injEq] at h
  rw [hf h.1, hf h.2.1, hf h.2.2.1, hf h.2.2.2]

/-- Texts are accepted as they are. -/
theorem accept_text_iff {x y : Fields String} : (x.map .text).accept = .ok y ↔ y = x ∧ x.Within := by
  have hinj : Function.Injective Datum.text := fun _ _ h => Datum.text.inj h
  exact check_form_eq_ok_iff (map_injective hinj) fun _ _ => accept_eq_ok_iff

theorem Within.fits {x : Fields String} (h : x.Within) : (Codec.Law.fields .text).Fits x :=
  ⟨lt_of_le_of_lt h.name (by decide), lt_of_le_of_lt h.symbol (by decide),
    lt_of_le_of_lt h.image (by decide), lt_of_le_of_lt h.description (by decide)⟩

theorem mapM_acceptText_iff {field : String} {limit : Nat} {v : Option Datum} {o : Option String} :
    v.mapM (acceptText field limit) = .ok o ↔
      v = o.map .text ∧ ∀ s, o = some s → s.utf8ByteSize ≤ limit := by
  cases v with
  | none =>
    change Except.ok none = .ok o ↔ _
    cases o <;> simp
  | some w =>
    change some <$> acceptText field limit w = .ok o ↔ _
    rw [map_eq_ok_iff]
    constructor
    · rintro ⟨s, hs, rfl⟩
      obtain ⟨rfl, hle⟩ := acceptText_eq_ok_iff.mp hs
      exact ⟨rfl, by rintro t ⟨⟩; exact hle⟩
    · rintro ⟨hw, hle⟩
      cases o with
      | none => cases hw
      | some s =>
        cases hw
        exact ⟨s, acceptText_eq_ok_iff.mpr ⟨rfl, hle s rfl⟩, rfl⟩

theorem acceptPresent_eq_ok_iff {x : Fields (Option Datum)} {y : Fields (Option String)} :
    x.acceptPresent = .ok y ↔ x = y.map (·.map .text) ∧ y.PresentWithin := by
  obtain ⟨a, b, c, d⟩ := x
  simp only [acceptPresent, traverse_eq_ok_iff]
  constructor
  · rintro ⟨ha, hb, hc, hd⟩
    obtain ⟨rfl, hname⟩ := mapM_acceptText_iff.mp ha
    obtain ⟨rfl, hsymbol⟩ := mapM_acceptText_iff.mp hb
    obtain ⟨rfl, himage⟩ := mapM_acceptText_iff.mp hc
    obtain ⟨rfl, hdescription⟩ := mapM_acceptText_iff.mp hd
    exact ⟨rfl, hname, hsymbol, himage, hdescription⟩
  · rintro ⟨hx, hy⟩
    cases hx
    exact ⟨mapM_acceptText_iff.mpr ⟨rfl, hy.name⟩, mapM_acceptText_iff.mpr ⟨rfl, hy.symbol⟩,
      mapM_acceptText_iff.mpr ⟨rfl, hy.image⟩, mapM_acceptText_iff.mpr ⟨rfl, hy.description⟩⟩

theorem acceptPresent_text_iff {x y : Fields (Option String)} :
    (x.map (·.map .text)).acceptPresent = .ok y ↔ y = x ∧ x.PresentWithin := by
  have hinj : Function.Injective (Option.map Datum.text) :=
    Option.map_injective fun _ _ h => Datum.text.inj h
  exact check_form_eq_ok_iff (map_injective hinj) fun _ _ => acceptPresent_eq_ok_iff

theorem PresentWithin.fits {x : Fields (Option String)} (h : x.PresentWithin) :
    (Codec.Law.fields (.option .text)).Fits x :=
  ⟨fun s hs => lt_of_le_of_lt (h.name s hs) (by decide),
    fun s hs => lt_of_le_of_lt (h.symbol s hs) (by decide),
    fun s hs => lt_of_le_of_lt (h.image s hs) (by decide),
    fun s hs => lt_of_le_of_lt (h.description s hs) (by decide)⟩

end Fields

namespace Attribute

/-- A pair that the program accepts. -/
structure Within (a : Attribute) : Prop where
  key_pos : 1 ≤ a.1.utf8ByteSize
  key_le : a.1.utf8ByteSize ≤ 64
  value_pos : 1 ≤ a.2.utf8ByteSize
  value_le : a.2.utf8ByteSize ≤ 240

/-- A list of pairs that the program accepts. -/
structure AllWithin (xs : List Attribute) : Prop where
  count_le : xs.length ≤ 32
  each : ∀ a ∈ xs, Within a

/-- An attribute as values whose type has not been checked. -/
def toData (a : Attribute) : Datum × Datum := (.text a.1, .text a.2)

theorem isTruthy_text (s : String) : (Datum.text s).isTruthy = true ↔ 1 ≤ s.utf8ByteSize := by
  rw [Nat.one_le_iff_ne_zero, ne_eq, String.utf8ByteSize_eq_zero_iff]
  simp [Datum.isTruthy]

theorem accept_eq_ok_iff {index : Nat} {k v : Datum} {a : Attribute} :
    accept index k v = .ok a ↔ (k, v) = a.toData ∧ a.Within := by
  constructor
  · intro h
    obtain ⟨hk, h₁⟩ := require_eq_ok_iff.mp h
    obtain ⟨hv, h₂⟩ := require_eq_ok_iff.mp h₁
    obtain ⟨s, hs, h₃⟩ := bind_eq_ok_iff.mp h₂
    obtain ⟨t, ht, h₄⟩ := bind_eq_ok_iff.mp h₃
    obtain rfl := return_eq_ok_iff.mp h₄
    obtain ⟨rfl, hkey⟩ := acceptText_eq_ok_iff.mp hs
    obtain ⟨rfl, hvalue⟩ := acceptText_eq_ok_iff.mp ht
    exact ⟨rfl, (isTruthy_text s).mp hk, hkey, (isTruthy_text t).mp hv, hvalue⟩
  · rintro ⟨hkv, hw⟩
    obtain ⟨rfl, rfl⟩ := Prod.mk.inj hkv
    refine require_eq_ok_iff.mpr ⟨(isTruthy_text _).mpr hw.key_pos, ?_⟩
    refine require_eq_ok_iff.mpr ⟨(isTruthy_text _).mpr hw.value_pos, ?_⟩
    refine bind_eq_ok_iff.mpr ⟨_, acceptText_eq_ok_iff.mpr ⟨rfl, hw.key_le⟩, ?_⟩
    exact bind_eq_ok_iff.mpr ⟨_, acceptText_eq_ok_iff.mpr ⟨rfl, hw.value_le⟩, rfl⟩

section

variable {α : Type} {accept : Nat → α → Except Violation Attribute} {Matches : α → Attribute → Prop}

theorem mapM_zipIdx_eq_ok_iff (h : ∀ i x a, accept i x = .ok a ↔ Matches x a ∧ Within a)
    {xs : List α} {ys : List Attribute} (start : Nat) :
    (xs.zipIdx start).mapM (fun x => accept x.2 x.1) = .ok ys ↔
      List.Forall₂ Matches xs ys ∧ ∀ a ∈ ys, Within a := by
  rw [mapM_eq_ok_iff]
  induction xs generalizing start ys with
  | nil =>
    rw [List.zipIdx_nil, List.forall₂_nil_left_iff, List.forall₂_nil_left_iff]
    constructor
    · rintro rfl
      simp
    · exact And.left
  | cons x xs ih =>
    rw [List.zipIdx_cons, List.forall₂_cons_left_iff]
    constructor
    · rintro ⟨a, rest, ha, hrest, rfl⟩
      obtain ⟨hx, hw⟩ := (h _ _ _).mp ha
      obtain ⟨hxs, hall⟩ := (ih _).mp hrest
      exact ⟨.cons hx hxs, List.forall_mem_cons.mpr ⟨hw, hall⟩⟩
    · rintro ⟨hmatch, hall⟩
      obtain ⟨a, rest, hx, hxs, rfl⟩ := List.forall₂_cons_left_iff.mp hmatch
      obtain ⟨hw, hothers⟩ := List.forall_mem_cons.mp hall
      exact ⟨a, rest, (h _ _ _).mpr ⟨hx, hw⟩, (ih _).mpr ⟨hxs, hothers⟩, rfl⟩

/-- A list is accepted when its items are attributes, one by one, and the list is within the caps. -/
theorem acceptEach_eq_ok_iff (h : ∀ i x a, accept i x = .ok a ↔ Matches x a ∧ Within a)
    {xs : List α} {ys : List Attribute} :
    acceptEach accept xs = .ok ys ↔ List.Forall₂ Matches xs ys ∧ AllWithin ys := by
  rw [acceptEach]
  by_cases hcount : maxCount < xs.length
  · rw [if_pos hcount]
    constructor
    · intro he
      cases he
    · rintro ⟨hmatch, hw⟩
      have := hw.count_le
      rw [hmatch.length_eq] at hcount
      exact absurd this (not_le.mpr hcount)
  · rw [if_neg hcount]
    refine (mapM_zipIdx_eq_ok_iff h 0).trans ?_
    constructor
    · rintro ⟨hmatch, hall⟩
      rw [hmatch.length_eq] at hcount
      exact ⟨hmatch, not_lt.mp hcount, hall⟩
    · rintro ⟨hmatch, hw⟩
      exact ⟨hmatch, hw.each⟩

end

theorem acceptPairs_eq_ok_iff {xs : List (Datum × Datum)} {ys : List Attribute} :
    acceptPairs xs = .ok ys ↔ xs = ys.map toData ∧ AllWithin ys := by
  have hitem : ∀ i (x : Datum × Datum) a,
      accept i x.1 x.2 = .ok a ↔ x = a.toData ∧ Within a := by
    intro i x a
    exact accept_eq_ok_iff
  refine (acceptEach_eq_ok_iff hitem).trans ?_
  rw [← List.forall₂_map_right_iff, List.forall₂_eq_eq_eq]

theorem toData_injective : Function.Injective toData := by
  rintro ⟨k, v⟩ ⟨k', v'⟩ h
  simpa [toData] using h

theorem acceptPairs_text_iff {xs ys : List Attribute} :
    acceptPairs (xs.map toData) = .ok ys ↔ ys = xs ∧ AllWithin xs :=
  check_form_eq_ok_iff (List.map_injective_iff.mpr toData_injective) fun _ _ =>
    acceptPairs_eq_ok_iff

theorem AllWithin.fits {xs : List Attribute} (h : AllWithin xs) : Codec.Law.attributes.Fits xs :=
  ⟨lt_of_le_of_lt h.count_le (by decide), fun a ha =>
    ⟨lt_of_le_of_lt (h.each a ha).key_le (by decide),
      lt_of_le_of_lt (h.each a ha).value_le (by decide)⟩⟩

theorem acceptAll_eq_ok_iff {v : Datum} {ys : List Attribute} :
    acceptAll v = .ok ys ↔ ∃ xs, v.items? = some xs ∧
      List.Forall₂ (fun x a => pair? x = some a.toData) xs ys ∧ AllWithin ys := by
  rw [acceptAll]
  cases hv : v.items? with
  | none => simp
  | some xs =>
    simp only [mapError_eq_ok_iff, Option.some.injEq, exists_eq_left']
    refine acceptEach_eq_ok_iff fun i x a => ?_
    cases hx : pair? x with
    | none => simp
    | some kv =>
      simp only [Option.some.injEq]
      exact accept_eq_ok_iff

end Attribute

end TokenMetadata
