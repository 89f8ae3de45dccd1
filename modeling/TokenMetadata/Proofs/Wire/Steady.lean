import Mathlib
import TokenMetadata.Proofs.Wire.Reading

/-!
# Readers and the bytes behind them

A reader is steady when nothing behind the bytes it has looked at can change what it found: a value
is read again whatever follows the bytes it was read from, and a failure that is final stays. Every
format is steady by the way it is built. Bytes that end inside a value therefore give no other value
and no final failure.
-/

namespace TokenMetadata

/-- All bytes of a text that is not UTF-8 are there. Bytes that end too early may still go on. -/
def Flaw.IsFinal (f : Flaw) : Prop := f = .notUtf8

structure Steady {ε α : Type} (Final : ε → Prop) (read : Bytes → Except ε (α × Bytes)) : Prop where
  of_ok : ∀ b x rest, read b = .ok (x, rest) →
    ∃ used, b = used ++ rest ∧ ∀ tail, read (used ++ tail) = .ok (x, tail)
  of_final : ∀ b e, Final e → read b = .error e → ∀ tail, read (b ++ tail) = .error e

namespace Steady

section

variable {ε ζ α β : Type} {Final : ε → Prop} {read : Bytes → Except ε (α × Bytes)}

theorem read_append (h : Steady Final read) {b rest : Bytes} {x : α}
    (hread : read b = .ok (x, rest)) (tail : Bytes) : read (b ++ tail) = .ok (x, rest ++ tail) := by
  obtain ⟨used, rfl, hused⟩ := h.of_ok b x rest hread
  rw [List.append_assoc]
  exact hused (rest ++ tail)

/-- What was used is enough, and all of it is needed: less of it ends in a failure that more bytes
can mend. -/
theorem cut (h : Steady Final read) {used rest : Bytes} {x : α}
    (hread : read (used ++ rest) = .ok (x, rest)) {k : Nat} (hk : k < used.length) :
    ∃ e, read (used.take k) = .error e ∧ ¬ Final e := by
  obtain ⟨again, hagain, htail⟩ := h.of_ok _ x rest hread
  obtain rfl : used = again := List.append_cancel_right hagain
  have hsplit : used.take k ++ used.drop k = used := List.take_append_drop k used
  have hall : read used = .ok (x, []) := by simpa using htail []
  cases hcut : read (used.take k) with
  | error e =>
    refine ⟨e, rfl, ?_⟩
    intro hfinal
    have hstays := h.of_final _ e hfinal hcut (used.drop k)
    rw [hsplit, hall] at hstays
    cases hstays
  | ok p =>
    obtain ⟨y, left⟩ := p
    have hlonger := h.read_append hcut (used.drop k)
    rw [hsplit, hall] at hlonger
    have hnone : left ++ used.drop k = [] := (congrArg Prod.snd (Except.ok.inj hlonger)).symm
    have hdrop : used.length ≤ k := List.drop_eq_nil_iff.mp (List.append_eq_nil_iff.mp hnone).2
    omega

theorem value (x : α) : Steady Final fun b => .ok (x, b) where
  of_ok := by
    intro b y rest h
    obtain ⟨rfl, rfl⟩ : x = y ∧ b = rest := by simpa using h
    exact ⟨[], rfl, fun tail => rfl⟩
  of_final := by
    intro b e hfinal h
    cases h

theorem failure (e : ε) : Steady Final fun _ => (.error e : Except ε (α × Bytes)) where
  of_ok := by
    intro b x rest h
    cases h
  of_final := by
    intro b d hfinal h tail
    exact h

protected theorem bind {next : α → Bytes → Except ε (β × Bytes)} (h : Steady Final read)
    (hnext : ∀ x, Steady Final (next x)) :
    Steady Final fun b => read b >>= fun p => next p.1 p.2 where
  of_ok := by
    intro b y rest hboth
    obtain ⟨⟨x, b₁⟩, hx, hy⟩ := bind_eq_ok_iff.mp hboth
    obtain ⟨used₁, rfl, hused₁⟩ := h.of_ok b x b₁ hx
    obtain ⟨used₂, rfl, hused₂⟩ := (hnext x).of_ok b₁ y rest hy
    refine ⟨used₁ ++ used₂, (List.append_assoc _ _ _).symm, ?_⟩
    intro tail
    rw [List.append_assoc]
    exact bind_eq_ok_iff.mpr ⟨_, hused₁ (used₂ ++ tail), hused₂ tail⟩
  of_final := by
    intro b e hfinal hboth tail
    rcases bind_eq_error_iff.mp hboth with hfirst | ⟨⟨x, b₁⟩, hx, hsecond⟩
    · exact bind_eq_error_iff.mpr (Or.inl (h.of_final b e hfinal hfirst tail))
    · have hvalue := h.read_append hx tail
      have hstays := (hnext x).of_final b₁ e hfinal hsecond tail
      exact bind_eq_error_iff.mpr (Or.inr ⟨_, hvalue, hstays⟩)

/-- Failures may be told in other words, as long as none is made final by it. -/
protected theorem mapError {Final' : ζ → Prop} {f : ε → ζ} (h : Steady Final read)
    (hf : ∀ e, Final' (f e) → Final e) : Steady Final' fun b => (read b).mapError f where
  of_ok := by
    intro b x rest hread
    obtain ⟨used, hb, hused⟩ := h.of_ok b x rest (mapError_eq_ok_iff.mp hread)
    exact ⟨used, hb, fun tail => mapError_eq_ok_iff.mpr (hused tail)⟩
  of_final := by
    intro b e hfinal hread tail
    obtain ⟨d, hd, rfl⟩ := mapError_eq_error_iff.mp hread
    exact mapError_eq_error_iff.mpr ⟨d, h.of_final b d (hf d hfinal) hd tail, rfl⟩

end

section

variable {α β : Type} {c : Codec α} {d : Codec β}

theorem takeBytes (n : Nat) : Steady Flaw.IsFinal (Codec.takeBytes n) where
  of_ok := by
    intro b x rest h
    obtain ⟨rfl, rfl⟩ := Codec.takeBytes_eq_ok_iff.mp h
    exact ⟨x, rfl, Codec.takeBytes_append x⟩
  of_final := by
    intro b e hfinal h
    obtain rfl : e = .notUtf8 := hfinal
    rw [Codec.takeBytes] at h
    split at h <;> cases h

theorem number (width : Nat) : Steady Flaw.IsFinal (Codec.number width).read :=
  (takeBytes width).bind fun bytes => value (Bytes.toNatLE bytes)

theorem flag : Steady Flaw.IsFinal Codec.flag.read where
  of_ok := by
    intro b x rest h
    obtain ⟨y, rfl, rfl⟩ := Codec.flag_read_iff.mp h
    exact ⟨[y], rfl, fun tail => rfl⟩
  of_final := by
    intro b e hfinal h
    obtain rfl : e = .notUtf8 := hfinal
    cases b <;> cases h

theorem key : Steady Flaw.IsFinal Codec.key.read where
  of_ok := by
    intro b k rest h
    exact ⟨k.toBytes, Codec.key_read_iff.mp h, fun tail => Codec.key_read_iff.mpr rfl⟩
  of_final := by
    intro b e hfinal h
    obtain rfl : e = .notUtf8 := hfinal
    change (if h : 32 ≤ b.length then _ else _) = _ at h
    split at h <;> cases h

/-- The bytes of a text are all taken before they are decoded. -/
theorem text : Steady Flaw.IsFinal Codec.text.read := by
  have decoded : ∀ read? : Option String, Steady Flaw.IsFinal fun rest =>
      read?.elim (.error Flaw.notUtf8) fun s => Except.ok (s, rest) := by
    intro read?
    cases read? with
    | none => exact failure Flaw.notUtf8
    | some s => exact value s
  have htext : Codec.text.read = fun b => (Codec.number 4).read b >>= fun p =>
      Codec.takeBytes p.1 p.2 >>= fun q =>
        (Bytes.toText? q.1).elim (.error Flaw.notUtf8) fun s => .ok (s, q.2) := by
    funext b
    refine bind_congr fun p => bind_congr fun q => ?_
    obtain ⟨bytes, rest⟩ := q
    dsimp only
    cases Bytes.toText? bytes <;> rfl
  rw [htext]
  exact (number 4).bind fun size => (takeBytes size).bind fun bytes => decoded (Bytes.toText? bytes)

theorem option (h : Steady Flaw.IsFinal c.read) : Steady Flaw.IsFinal (Codec.option c).read := by
  have behind : ∀ present : Bool, Steady Flaw.IsFinal fun rest =>
      if present then c.read rest >>= fun p => .ok (some p.1, p.2) else .ok (none, rest) := by
    intro present
    cases present with
    | false => exact value none
    | true => exact h.bind fun x => value (some x)
  exact flag.bind behind

theorem readMany (h : Steady Flaw.IsFinal c.read) (count : Nat) :
    Steady Flaw.IsFinal (Codec.readMany c count) := by
  induction count with
  | zero => exact value []
  | succ count ih => exact h.bind fun x => ih.bind fun xs => value (x :: xs)

theorem list (h : Steady Flaw.IsFinal c.read) : Steady Flaw.IsFinal (Codec.list c).read :=
  (number 4).bind fun count => h.readMany count

theorem pair (h : Steady Flaw.IsFinal c.read) (k : Steady Flaw.IsFinal d.read) :
    Steady Flaw.IsFinal (Codec.pair c d).read :=
  h.bind fun x => k.bind fun y => value (x, y)

theorem imap {there : α → β} {back : β → α} (h : Steady Flaw.IsFinal c.read) :
    Steady Flaw.IsFinal (Codec.imap there back c).read :=
  h.bind fun x => value (there x)

theorem fields (h : Steady Flaw.IsFinal c.read) : Steady Flaw.IsFinal (Codec.fields c).read :=
  (h.pair (h.pair (h.pair h))).imap

theorem attributes : Steady Flaw.IsFinal Codec.attributes.read := (text.pair text).list

end

end Steady

end TokenMetadata
