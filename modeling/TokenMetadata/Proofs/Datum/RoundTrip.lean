import Mathlib
import TokenMetadata.Proofs.Datum.Json

/-!
# Reading what was written

Null, truth values, integers and texts, and the lists and records of such values that name every
field once, are read from a file as they were written to it. The bound on the depth of reading is
never met: a value needs no more fuel than its text has characters.
-/

namespace TokenMetadata.Json

open Datum

section

variable {c : Char} {s rest : List Char} {level fuel : Nat} {v : Datum}

theorem skipSpace_newLine (level : Nat) (s : List Char) :
    skipSpace (newLine level ++ s) = skipSpace s := by
  have hblank : ∀ c ∈ newLine level, isSpace c = true := by
    intro c hc
    rcases List.mem_cons.mp hc with rfl | hc
    · rfl
    · rw [List.eq_of_mem_replicate hc]
      rfl
  exact List.dropWhile_append_of_pos hblank

theorem skipSpace_cons (hc : isSpace c = false) : skipSpace (c :: s) = c :: s :=
  List.dropWhile_cons_of_neg (by simp [hc])

theorem readValue_congr {t : List Char} (h : skipSpace s = skipSpace t) :
    readValue fuel s = readValue fuel t := by
  cases fuel with
  | zero => rfl
  | succ fuel => rw [readValue, readValue, h]

theorem readValue_blank : readValue fuel (' ' :: s) = readValue fuel s :=
  readValue_congr rfl

theorem readItems_congr {t : List Char} (h : skipSpace s = skipSpace t) :
    readItems fuel s = readItems fuel t := by
  cases fuel with
  | zero => rfl
  | succ fuel => rw [readItems, readItems, readValue_congr h]

theorem readFields_congr {t : List Char} (h : skipSpace s = skipSpace t) :
    readFields fuel s = readFields fuel t := by
  cases fuel with
  | zero => rfl
  | succ fuel => rw [readFields, readFields, h]

end

section

variable {fuel : Nat} {s rest : List Char}

theorem readValue_text : readValue (fuel + 1) ('"' :: s) =
    (readText s).map fun (t, rest) => (.text t, rest) := by
  rw [readValue]
  rfl

theorem skipSpace_idem (s : List Char) : skipSpace (skipSpace s) = skipSpace s :=
  List.dropWhile_idempotent _ _

theorem readValue_list (hs : ∀ t, skipSpace s ≠ ']' :: t) : readValue (fuel + 1) ('[' :: s) =
    (readItems fuel s).map fun (xs, rest) => (.list xs, rest) := by
  have hbracket : skipSpace ('[' :: s) = '[' :: s := skipSpace_cons rfl
  simp only [readValue, hbracket]
  rw [readItems_congr (skipSpace_idem s)]

theorem readValue_record (hs : ∀ t, skipSpace s ≠ '\x7d' :: t) :
    readValue (fuel + 1) ('\x7b' :: s) =
      (readFields fuel s).map fun (fs, rest) => (.record (mergeFields fs), rest) := by
  have hbrace : skipSpace ('\x7b' :: s) = '\x7b' :: s := skipSpace_cons rfl
  simp only [readValue, hbrace]
  rw [readFields_congr (skipSpace_idem s)]

theorem isSpace_of_isDigit {c : Char} (hc : c.isDigit = true) : isSpace c = false := by
  rw [← Bool.not_eq_true]
  intro hspace
  simp only [isSpace, Bool.or_eq_true, beq_iff_eq] at hspace
  rcases hspace with ((rfl | rfl) | rfl) | rfl <;> exact absurd hc (by decide)

/-- Where a number begins, a number is read. -/
theorem readValue_number {c : Char} (hc : c = '-' ∨ c.isDigit = true) :
    readValue (fuel + 1) (c :: s) = readNumber (c :: s) := by
  have hspace : isSpace c = false := by
    rcases hc with rfl | hdigit
    · rfl
    · exact isSpace_of_isDigit hdigit
  rw [readValue, skipSpace_cons hspace]
  split
  case h_9 => rfl
  all_goals
    rename_i heq
    rw [(List.cons.inj heq).1] at hc
    exact absurd hc (by decide)

end

/-- The text begins with a character that is neither blank nor a bracket that closes a list. -/
def StartsValue (s : List Char) : Prop :=
  ∃ c t, s = c :: t ∧ isSpace c = false ∧ c ≠ ']'

theorem startsValue_writeAt {v : Datum} (hv : IsTidy IsExact v) (level : Nat) :
    StartsValue (writeAt level v) := by
  cases v with
  | null => exact ⟨_, _, rfl, rfl, by decide⟩
  | bool b => cases b <;> exact ⟨_, _, rfl, rfl, by decide⟩
  | int n =>
    obtain ⟨c, s, hcs, hc⟩ := exists_cons_toString n
    refine ⟨c, s, hcs, ?_⟩
    rcases hc with rfl | hdigit
    · exact ⟨rfl, by decide⟩
    · refine ⟨isSpace_of_isDigit hdigit, ?_⟩
      rintro rfl
      exact absurd hdigit (by decide)
  | text t => exact ⟨_, _, rfl, rfl, by decide⟩
  | list xs => cases xs <;> exact ⟨_, _, rfl, rfl, by decide⟩
  | record fs => cases fs <;> exact ⟨_, _, rfl, rfl, by decide⟩
  | decimal d => cases hv with | leaf h => exact h.elim
  | bytes b => cases hv with | leaf h => exact h.elim

/-- The value is read from its text at any level, as soon as the fuel is no less than the number of
its characters. -/
def IsReadBack (v : Datum) : Prop :=
  ∀ level fuel rest, EndsNumber rest → (writeAt level v).length ≤ fuel + 1 →
    readValue (fuel + 1) (writeAt level v ++ rest) = some (v, rest)

theorem isReadBack_of_isExact {v : Datum} (hv : IsExact v) : IsReadBack v := by
  intro level fuel rest hrest _
  cases v with
  | null =>
    rw [readValue]
    rfl
  | bool b =>
    rw [readValue]
    cases b <;> rfl
  | int n =>
    obtain ⟨c, s, hcs, hc⟩ := exists_cons_toString n
    rw [writeAt, hcs, List.cons_append, readValue_number hc, ← List.cons_append, ← hcs]
    exact readNumber_integer n hrest
  | text t =>
    rw [writeAt, writeText, List.cons_append, List.append_assoc, readValue_text]
    exact congrArg (Option.map _) (readText_escaped t)
  | _ => exact hv.elim

section

variable {level outer fuel : Nat} {rest : List Char}

theorem endsNumber_comma (s : List Char) : EndsNumber (',' :: s) := by
  rintro c hc
  cases hc
  decide

theorem endsNumber_newLine (level : Nat) (s : List Char) : EndsNumber (newLine level ++ s) := by
  rintro c hc
  cases hc
  decide

/-- One entry of a list, and what stands behind it. -/
theorem readItems_of_readValue {s t : List Char} {x : Datum}
    (hx : readValue fuel s = some (x, t)) :
    (∀ rest, skipSpace t = ']' :: rest → readItems (fuel + 1) s = some ([x], rest)) ∧
      ∀ t' xs rest, skipSpace t = ',' :: t' → readItems fuel t' = some (xs, rest) →
        readItems (fuel + 1) s = some (x :: xs, rest) := by
  rw [readItems, hx]
  constructor
  · intro rest ht
    simp [ht]
  · intro t' xs rest ht hxs
    simp [ht, hxs]

/-- One entry of a record, and what stands behind it. -/
theorem readFields_of_readValue {name : String} {s t : List Char} {v : Datum}
    (hv : readValue fuel s = some (v, t)) :
    (∀ rest, skipSpace t = '\x7d' :: rest →
        readFields (fuel + 1) (writeText name ++ ':' :: s) = some ([(name, v)], rest)) ∧
      ∀ t' fs rest, skipSpace t = ',' :: t' → readFields fuel t' = some (fs, rest) →
        readFields (fuel + 1) (writeText name ++ ':' :: s) = some ((name, v) :: fs, rest) := by
  have hcolon : skipSpace (':' :: s) = ':' :: s := skipSpace_cons rfl
  have hname : readText (name.toList.flatMap escapeChar ++ '"' :: ':' :: s) =
      some (name, ':' :: s) := readText_escaped name
  rw [writeText, List.cons_append, List.append_assoc, readFields, skipSpace_cons rfl]
  constructor
  · intro rest ht
    simp [hname, hcolon, hv, ht]
  · intro t' fs rest ht hfs
    simp [hname, hcolon, hv, ht, hfs]

theorem writeItems_cons_append (level : Nat) (x : Datum) (xs : List Datum) (s : List Char) :
    writeItems level (x :: xs) ++ s =
      ',' :: (newLine level ++ (writeAt level x ++ (writeItems level xs ++ s))) := by
  simp only [writeItems, List.cons_append, List.append_assoc]

theorem writeFields_cons_append (level : Nat) (name : String) (v : Datum)
    (fs : List (String × Datum)) (s : List Char) : writeFields level ((name, v) :: fs) ++ s =
      ',' :: (newLine level ++ (writeText name ++
        ':' :: ' ' :: (writeAt level v ++ (writeFields level fs ++ s)))) := by
  simp only [writeFields, List.cons_append, List.append_assoc, List.nil_append]

theorem one_le_length_newLine (level : Nat) : 1 ≤ (newLine level).length := by
  simp [newLine]

/-- What a list holds is read from the text behind its bracket. -/
theorem readItems_written {x : Datum} {xs : List Datum} (hxs : ∀ y ∈ x :: xs, IsReadBack y)
    (hfuel : (writeAt level x).length + (writeItems level xs).length ≤ fuel + 1) :
    readItems (fuel + 2)
        (writeAt level x ++ (writeItems level xs ++ (newLine outer ++ ']' :: rest))) =
      some (x :: xs, rest) := by
  induction xs generalizing x fuel with
  | nil =>
    have hx := hxs x List.mem_cons_self level fuel (newLine outer ++ ']' :: rest)
      (endsNumber_newLine _ _) hfuel
    exact (readItems_of_readValue hx).1 rest ((skipSpace_newLine _ _).trans (skipSpace_cons rfl))
  | cons y ys ih =>
    -- The comma and the start of the line pay for the unit of fuel that the next item takes.
    obtain ⟨hx, hys⟩ := List.forall_mem_cons.mp hxs
    have hline := one_le_length_newLine level
    have hlength := congrArg List.length (writeItems_cons_append level y ys [])
    simp only [List.append_nil, List.length_cons, List.length_append] at hlength
    obtain ⟨fuel, rfl⟩ : ∃ n, fuel = n + 1 := Nat.exists_eq_add_of_le' (by omega)
    rw [writeItems_cons_append]
    refine (readItems_of_readValue (hx level (fuel + 1) _ (endsNumber_comma _) (by omega))).2 _ _
      rest (skipSpace_cons rfl) ?_
    rw [readItems_congr (skipSpace_newLine _ _)]
    exact ih hys (by omega)

/-- What a record holds is read from the text behind its brace. -/
theorem readFields_written {name : String} {v : Datum} {fs : List (String × Datum)}
    (hfs : ∀ f ∈ (name, v) :: fs, IsReadBack f.2)
    (hfuel : (writeAt level v).length + (writeFields level fs).length ≤ fuel + 1) :
    readFields (fuel + 2) (writeText name ++ ':' :: ' ' ::
        (writeAt level v ++ (writeFields level fs ++ (newLine outer ++ '\x7d' :: rest)))) =
      some ((name, v) :: fs, rest) := by
  induction fs generalizing name v fuel with
  | nil =>
    have hv := hfs (name, v) List.mem_cons_self level fuel (newLine outer ++ '\x7d' :: rest)
      (endsNumber_newLine _ _) hfuel
    exact (readFields_of_readValue (readValue_blank.trans hv)).1 rest
      ((skipSpace_newLine _ _).trans (skipSpace_cons rfl))
  | cons g gs ih =>
    obtain ⟨n, w⟩ := g
    obtain ⟨hv : IsReadBack v, hgs⟩ := List.forall_mem_cons.mp hfs
    have hline := one_le_length_newLine level
    have hlength := congrArg List.length (writeFields_cons_append level n w gs [])
    simp only [List.append_nil, List.length_cons, List.length_append] at hlength
    obtain ⟨fuel, rfl⟩ : ∃ n, fuel = n + 1 := Nat.exists_eq_add_of_le' (by omega)
    rw [writeFields_cons_append]
    refine (readFields_of_readValue (readValue_blank.trans
      (hv level (fuel + 1) _ (endsNumber_comma _) (by omega)))).2 _ _ rest (skipSpace_cons rfl) ?_
    rw [readFields_congr (skipSpace_newLine _ _)]
    exact ih hgs (by omega)

end

theorem writeAt_list_append (level : Nat) (x : Datum) (xs : List Datum) (s : List Char) :
    writeAt level (.list (x :: xs)) ++ s =
      '[' :: (newLine (level + 1) ++ (writeAt (level + 1) x ++
        (writeItems (level + 1) xs ++ (newLine level ++ ']' :: s)))) := by
  simp only [writeAt, List.cons_append, List.append_assoc, List.nil_append]

theorem writeAt_record_append (level : Nat) (name : String) (v : Datum)
    (fs : List (String × Datum)) (s : List Char) :
    writeAt level (.record ((name, v) :: fs)) ++ s =
      '\x7b' :: (newLine (level + 1) ++ (writeText name ++ ':' :: ' ' ::
        (writeAt (level + 1) v ++ (writeFields (level + 1) fs ++
          (newLine level ++ '\x7d' :: s))))) := by
  simp only [writeAt, List.cons_append, List.append_assoc, List.nil_append]

theorem isReadBack_list {xs : List Datum}
    (hstarts : ∀ x ∈ xs, ∀ level, StartsValue (writeAt level x))
    (hxs : ∀ x ∈ xs, IsReadBack x) : IsReadBack (.list xs) := by
  intro level fuel rest _ hfuel
  cases xs with
  | nil => rfl
  | cons x xs =>
    have hlength := congrArg List.length (writeAt_list_append level x xs [])
    have hline := one_le_length_newLine level
    simp only [List.append_nil, List.length_cons, List.length_append] at hlength
    obtain ⟨fuel, rfl⟩ : ∃ n, fuel = n + 2 := Nat.exists_eq_add_of_le' (by omega)
    obtain ⟨c, t, hct, hspace, hbracket⟩ := hstarts x List.mem_cons_self (level + 1)
    have hopen : ∀ s, skipSpace (newLine (level + 1) ++ (writeAt (level + 1) x ++ s)) =
        writeAt (level + 1) x ++ s := by
      intro s
      rw [skipSpace_newLine, hct, List.cons_append, skipSpace_cons hspace]
    rw [writeAt_list_append, readValue_list]
    · rw [readItems_congr (skipSpace_newLine _ _), readItems_written hxs (by omega)]
      rfl
    · intro s heq
      rw [hopen, hct] at heq
      exact hbracket (List.cons.inj heq).1

theorem isReadBack_record {fs : List (String × Datum)} (hnames : (fs.map (·.1)).Nodup)
    (hfs : ∀ f ∈ fs, IsReadBack f.2) : IsReadBack (.record fs) := by
  intro level fuel rest _ hfuel
  cases fs with
  | nil => rfl
  | cons f fs =>
    obtain ⟨name, v⟩ := f
    have hlength := congrArg List.length (writeAt_record_append level name v fs [])
    have hline := one_le_length_newLine level
    simp only [List.append_nil, List.length_cons, List.length_append] at hlength
    obtain ⟨fuel, rfl⟩ : ∃ n, fuel = n + 2 := Nat.exists_eq_add_of_le' (by omega)
    rw [writeAt_record_append, readValue_record]
    · rw [readFields_congr (skipSpace_newLine _ _), readFields_written hfs (by omega)]
      simp only [Option.map_some, mergeFields_eq_self hnames]
    · intro s heq
      rw [skipSpace_newLine, writeText, List.cons_append, skipSpace_cons rfl] at heq
      cases heq

theorem isReadBack_of_isTidy {v : Datum} (hv : IsTidy IsExact v) : IsReadBack v := by
  induction hv with
  | leaf hv => exact isReadBack_of_isExact hv
  | list hxs ih => exact isReadBack_list (fun x hx => startsValue_writeAt (hxs x hx)) ih
  | record hnames _ ih => exact isReadBack_record hnames ih

/-- A file is read as it was written. -/
theorem read_writeFile {v : Datum} (hv : IsTidy IsExact v) : read (writeFile v) = some v := by
  have hchars : (writeFile v).toList = writeAt 0 v ++ ['\n'] := by
    simp [writeFile, write]
  have hlength : (writeFile v).length = (writeAt 0 v).length + 1 := by
    rw [← String.length_toList, hchars, List.length_append, List.length_singleton]
  have hread := isReadBack_of_isTidy hv 0 (2 * (writeFile v).length + 1) ['\n']
    (endsNumber_newLine 0 []) (by omega)
  rw [read, hchars, hread]
  rfl

end TokenMetadata.Json
