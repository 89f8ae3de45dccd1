import Mathlib
import TokenMetadata.Proofs.Wire.Marks
import TokenMetadata.Proofs.Wire.Reading

/-!
# Laws of wire formats

A format is lawful when its reader undoes its writer and every reading is, flags apart, the writing
of the value that was read. Each way of building a format keeps this, so a whole layout is lawful by
the way it is built.
-/

namespace TokenMetadata.Codec

/-- What is known of a lawful format. `Fits` are the values that the lengths in the format can
carry; `marks` says where in the bytes of a value its flags are. -/
structure Law {α : Type} (c : Codec α) where
  marks : α → Marks
  Fits : α → Prop
  length_write : ∀ x, (c.write x).length = (marks x).length
  read_write : ∀ x rest, Fits x → c.read (c.write x ++ rest) = .ok (x, rest)
  of_read : ∀ b x rest, c.read b = .ok (x, rest) →
    Fits x ∧ ∃ used, b = used ++ rest ∧ used.length = (marks x).length ∧
      (marks x).settle used = c.write x

namespace Law

variable {α β : Type} {c : Codec α} {d : Codec β}

/-- A format without flags, which reads a value from its writing only. -/
def ofCanonical (c : Codec α) (Fits : α → Prop)
    (read_iff : ∀ b x rest, c.read b = .ok (x, rest) ↔ Fits x ∧ b = c.write x ++ rest) :
    Law c where
  marks x := .plain (c.write x).length
  Fits := Fits
  length_write x := by simp
  read_write x rest fits := (read_iff _ _ _).mpr ⟨fits, rfl⟩
  of_read b x rest h := by
    obtain ⟨fits, hb⟩ := (read_iff b x rest).mp h
    exact ⟨fits, c.write x, hb, by simp, Marks.settle_plain _⟩

def number (width : Nat) : Law (Codec.number width) :=
  ofCanonical _ (fun n => n < 256 ^ width) fun _ _ _ => number_read_iff

def key : Law Codec.key :=
  ofCanonical _ (fun _ => True) fun _ _ _ => key_read_iff.trans ⟨fun h => ⟨trivial, h⟩, And.right⟩

/-- The length of a text takes four bytes. -/
def text : Law Codec.text :=
  ofCanonical _ (fun s => s.utf8ByteSize < 256 ^ 4) fun _ _ _ => text_read_iff

def flag : Law Codec.flag where
  marks _ := [true]
  Fits _ := True
  length_write _ := rfl
  read_write x rest _ := flag_read_iff.mpr ⟨if x then 1 else 0, rfl, by cases x <;> rfl⟩
  of_read b x rest h := by
    obtain ⟨y, rfl, rfl⟩ := flag_read_iff.mp h
    refine ⟨trivial, [y], rfl, rfl, ?_⟩
    by_cases hy : y = 0
    · subst hy
      rfl
    · simp [Codec.flag, Marks.settle, Marks.settleByte, hy]

def pair (l : Law c) (k : Law d) : Law (Codec.pair c d) where
  marks x := l.marks x.1 ++ k.marks x.2
  Fits x := l.Fits x.1 ∧ k.Fits x.2
  length_write x := by simp [Codec.pair, l.length_write, k.length_write]
  read_write x rest fits := by
    have hfirst := l.read_write x.1 (d.write x.2 ++ rest) fits.1
    have hsecond := k.read_write x.2 rest fits.2
    rw [← List.append_assoc] at hfirst
    exact bind_eq_ok_iff.mpr ⟨_, hfirst, bind_eq_ok_iff.mpr ⟨_, hsecond, rfl⟩⟩
  of_read b x rest h := by
    obtain ⟨⟨y, b₁⟩, hy, hrest⟩ := bind_eq_ok_iff.mp h
    obtain ⟨⟨z, b₂⟩, hz, hvalue⟩ := bind_eq_ok_iff.mp hrest
    obtain ⟨rfl, rfl⟩ : (y, z) = x ∧ b₂ = rest := by simpa using return_eq_ok_iff.mp hvalue
    obtain ⟨fity, used₁, rfl, hlen₁, hsettle₁⟩ := l.of_read _ _ _ hy
    obtain ⟨fitz, used₂, rfl, hlen₂, hsettle₂⟩ := k.of_read _ _ _ hz
    refine ⟨⟨fity, fitz⟩, used₁ ++ used₂, by simp, by simp [hlen₁, hlen₂], ?_⟩
    rw [Marks.settle_append hlen₁, hsettle₁, hsettle₂]
    rfl

def option (l : Law c) : Law (Codec.option c) where
  marks
    | none => [true]
    | some x => true :: l.marks x
  Fits v := ∀ x, v = some x → l.Fits x
  length_write v := by
    cases v with
    | none => rfl
    | some x => simp [Codec.option, Codec.flag, l.length_write]
  read_write v rest fits := by
    cases v with
    | none =>
      have hflag := flag.read_write false rest trivial
      exact bind_eq_ok_iff.mpr ⟨_, hflag, rfl⟩
    | some x =>
      have hflag := flag.read_write true (c.write x ++ rest) trivial
      have hvalue := l.read_write x rest (fits x rfl)
      rw [← List.append_assoc] at hflag
      exact bind_eq_ok_iff.mpr ⟨_, hflag, bind_eq_ok_iff.mpr ⟨_, hvalue, rfl⟩⟩
  of_read b v rest h := by
    obtain ⟨⟨present, b₁⟩, hflag, hrest⟩ := bind_eq_ok_iff.mp h
    obtain ⟨-, used₁, rfl, hlen₁, hsettle₁⟩ := flag.of_read _ _ _ hflag
    cases present with
    | false =>
      obtain ⟨rfl, rfl⟩ : none = v ∧ b₁ = rest := by simpa using return_eq_ok_iff.mp hrest
      exact ⟨by simp, used₁, rfl, hlen₁, hsettle₁⟩
    | true =>
      obtain ⟨⟨x, b₂⟩, hx, hvalue⟩ := bind_eq_ok_iff.mp hrest
      obtain ⟨rfl, rfl⟩ : some x = v ∧ b₂ = rest := by simpa using return_eq_ok_iff.mp hvalue
      obtain ⟨fits, used₂, rfl, hlen₂, hsettle₂⟩ := l.of_read _ _ _ hx
      have hlen : (used₁ ++ used₂).length = (true :: l.marks x).length := by
        rw [List.length_append, hlen₁, hlen₂, List.length_cons]
        exact Nat.add_comm 1 _
      refine ⟨by rintro y ⟨⟩; exact fits, used₁ ++ used₂, by simp, hlen, ?_⟩
      change Marks.settle (flag.marks true ++ l.marks x) (used₁ ++ used₂) =
        Codec.flag.write true ++ c.write x
      rw [Marks.settle_append hlen₁, hsettle₁, hsettle₂]

/-- Where the flags of items are that stand one after the other. -/
def manyMarks (l : Law c) (xs : List α) : Marks := xs.flatMap l.marks

theorem length_writeMany (l : Law c) (xs : List α) :
    (xs.flatMap c.write).length = (l.manyMarks xs).length := by
  induction xs with
  | nil => rfl
  | cons x xs ih =>
    rw [manyMarks] at ih
    simp [manyMarks, l.length_write, ih]

theorem readMany_write (l : Law c) (xs : List α) (rest : Bytes) (fits : ∀ x ∈ xs, l.Fits x) :
    readMany c xs.length (xs.flatMap c.write ++ rest) = .ok (xs, rest) := by
  induction xs with
  | nil => rfl
  | cons x xs ih =>
    have hfirst := l.read_write x (xs.flatMap c.write ++ rest) (fits x List.mem_cons_self)
    have hothers := ih fun y hy => fits y (List.mem_cons_of_mem x hy)
    rw [← List.append_assoc] at hfirst
    exact bind_eq_ok_iff.mpr ⟨_, hfirst, bind_eq_ok_iff.mpr ⟨_, hothers, rfl⟩⟩

theorem of_readMany (l : Law c) {count : Nat} {b rest : Bytes} {xs : List α}
    (h : readMany c count b = .ok (xs, rest)) :
    xs.length = count ∧ (∀ x ∈ xs, l.Fits x) ∧ ∃ used, b = used ++ rest ∧
      used.length = (l.manyMarks xs).length ∧
      (l.manyMarks xs).settle used = xs.flatMap c.write := by
  induction count generalizing b xs with
  | zero =>
    obtain ⟨rfl, rfl⟩ : [] = xs ∧ b = rest := by simpa [readMany] using h
    exact ⟨rfl, by simp, [], rfl, rfl, rfl⟩
  | succ count ih =>
    obtain ⟨⟨x, b₁⟩, hx, hrest⟩ := bind_eq_ok_iff.mp h
    obtain ⟨⟨ys, b₂⟩, hys, hvalue⟩ := bind_eq_ok_iff.mp hrest
    obtain ⟨rfl, rfl⟩ : x :: ys = xs ∧ b₂ = rest := by simpa using return_eq_ok_iff.mp hvalue
    obtain ⟨fit, used₁, rfl, hlen₁, hsettle₁⟩ := l.of_read _ _ _ hx
    obtain ⟨hcount, fits, used₂, rfl, hlen₂, hsettle₂⟩ := ih hys
    refine ⟨by simp [hcount], by simpa using ⟨fit, fits⟩, used₁ ++ used₂, by simp, ?_, ?_⟩
    · simp [manyMarks, hlen₁, hlen₂]
    · rw [manyMarks, List.flatMap_cons, Marks.settle_append hlen₁, hsettle₁, List.flatMap_cons]
      exact congrArg _ hsettle₂

/-- The length of a list takes four bytes. -/
def list (l : Law c) : Law (Codec.list c) where
  marks xs := .plain 4 ++ l.manyMarks xs
  Fits xs := xs.length < 256 ^ 4 ∧ ∀ x ∈ xs, l.Fits x
  length_write xs := by simp [Codec.list, l.length_writeMany]
  read_write xs rest fits := by
    have hcount := (number 4).read_write xs.length (xs.flatMap c.write ++ rest) fits.1
    have hitems := l.readMany_write xs rest fits.2
    rw [← List.append_assoc] at hcount
    exact bind_eq_ok_iff.mpr ⟨_, hcount, hitems⟩
  of_read b xs rest h := by
    obtain ⟨⟨count, b₁⟩, hcount, hitems⟩ := bind_eq_ok_iff.mp h
    obtain ⟨hlt, rfl⟩ := number_read_iff.mp hcount
    obtain ⟨rfl, fits, used, rfl, hlen, hsettle⟩ := l.of_readMany hitems
    refine ⟨⟨hlt, fits⟩, Bytes.ofNatLE 4 xs.length ++ used, by simp, by simp [hlen], ?_⟩
    have hplain := Marks.settle_plain (Bytes.ofNatLE 4 xs.length)
    rw [Bytes.length_ofNatLE] at hplain
    rw [Marks.settle_append (by simp), hplain, hsettle]
    rfl

/-- The same bytes for another type, when nothing is lost on the way there and back. -/
def imap (l : Law c) {there : α → β} {back : β → α} (back_there : ∀ x, back (there x) = x)
    (there_back : ∀ y, there (back y) = y) : Law (Codec.imap there back c) where
  marks y := l.marks (back y)
  Fits y := l.Fits (back y)
  length_write y := l.length_write (back y)
  read_write y rest fits := by
    have hread := l.read_write (back y) rest fits
    exact bind_eq_ok_iff.mpr ⟨_, hread, by simp [there_back, pure, Except.pure]⟩
  of_read b y rest h := by
    obtain ⟨⟨x, b₁⟩, hx, hvalue⟩ := bind_eq_ok_iff.mp h
    obtain ⟨rfl, rfl⟩ : there x = y ∧ b₁ = rest := by simpa using return_eq_ok_iff.mp hvalue
    have hof := l.of_read _ _ _ hx
    rw [back_there]
    simpa [Codec.imap, back_there] using hof

def fields (l : Law c) : Law (Codec.fields c) :=
  (l.pair (l.pair (l.pair l))).imap (fun _ => rfl) (fun _ => rfl)

def attributes : Law Codec.attributes := (text.pair text).list

end Law

end TokenMetadata.Codec
