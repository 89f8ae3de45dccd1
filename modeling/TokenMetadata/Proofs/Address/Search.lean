import Mathlib
import TokenMetadata.Proofs.Address

/-!
# The search for a bump

The search asks the curve test about the bumps 255, 254, … in turn, so that the number of a call and
the bump it is about always add up to 255. It ends with the first bump that is refused, which is the
greatest that is refused in its turn, or when the test has accepted all of them down to 1.
-/

namespace TokenMetadata.Address

/-- What the test says to a bump in its turn. -/
def accepts (test : CurveTest) (seeds : List Bytes) (program : Key) (bump : UInt8) : Bool :=
  test (255 - bump.toNat) (addressAt seeds program bump).toBytes

variable {test : CurveTest} {seeds : List Bytes} {program : Key} {d : Derived}

theorem toNat_ofNat_bump {bump : Nat} (h : bump ≤ 255) : (UInt8.ofNat bump).toNat = bump := by
  rw [UInt8.toNat_ofNat']
  omega

theorem eq_ofNat_bump {bump : Nat} {b : UInt8} (h : b.toNat = bump) : b = UInt8.ofNat bump := by
  rw [← h, UInt8.ofNat_toNat]

theorem accepts_in_turn {call bump : Nat} (hturn : call + (bump + 1) = 255) :
    accepts test seeds program (UInt8.ofNat (bump + 1)) =
      test call (addressAt seeds program (UInt8.ofNat (bump + 1))).toBytes := by
  have hcall : 255 - (UInt8.ofNat (bump + 1)).toNat = call := by
    rw [toNat_ofNat_bump (by omega)]
    omega
  rw [accepts, hcall]

theorem search_succ {call bump : Nat} (hturn : call + (bump + 1) = 255) :
    search test seeds program call (bump + 1) =
      if accepts test seeds program (UInt8.ofNat (bump + 1)) then
        search test seeds program (call + 1) bump
      else some ⟨addressAt seeds program (UInt8.ofNat (bump + 1)), UInt8.ofNat (bump + 1)⟩ := by
  simp only [search, ofHash_preimage, accepts_in_turn hturn]

/-- The bumps above `least`, up to `bump`, are all accepted in their turns. -/
def AcceptedAbove (test : CurveTest) (seeds : List Bytes) (program : Key) (least bump : Nat) :
    Prop :=
  ∀ b : UInt8, least < b.toNat → b.toNat ≤ bump → accepts test seeds program b = true

theorem acceptedAbove_self (bump : Nat) : AcceptedAbove test seeds program bump bump :=
  fun _ hlt hle => absurd hlt hle.not_gt

theorem acceptedAbove_succ {least bump : Nat} (hleast : least ≤ bump) (hbump : bump < 255) :
    AcceptedAbove test seeds program least (bump + 1) ↔
      accepts test seeds program (UInt8.ofNat (bump + 1)) = true ∧
        AcceptedAbove test seeds program least bump := by
  have htop : (UInt8.ofNat (bump + 1)).toNat = bump + 1 := toNat_ofNat_bump hbump
  constructor
  · intro h
    exact ⟨h _ (by omega) htop.le, fun b hlt hle => h b hlt (by omega)⟩
  · rintro ⟨haccepts, h⟩ b hlt hle
    by_cases hb : b.toNat = bump + 1
    · rwa [eq_ofNat_bump hb]
    · exact h b hlt (by omega)

theorem acceptedAbove_iff (least : UInt8) :
    AcceptedAbove test seeds program least.toNat 255 ↔
      ∀ b, least < b → accepts test seeds program b = true := by
  constructor
  · intro h b hlt
    exact h b (UInt8.lt_iff_toNat_lt.mp hlt) (Nat.le_of_lt_succ b.toNat_lt)
  · intro h b hlt _
    exact h b (UInt8.lt_iff_toNat_lt.mpr hlt)

theorem search_eq_none_iff {call bump : Nat} (hturn : call + bump = 255) :
    search test seeds program call bump = none ↔ AcceptedAbove test seeds program 0 bump := by
  induction bump generalizing call with
  | zero =>
    constructor
    · exact fun _ => acceptedAbove_self 0
    · exact fun _ => rfl
  | succ bump ih =>
    have hrest := ih (show call + 1 + bump = 255 by omega)
    rw [search_succ hturn, acceptedAbove_succ (Nat.zero_le bump) (by omega), ← hrest]
    cases accepts test seeds program (UInt8.ofNat (bump + 1)) <;> simp

/-- A search that starts from `bump` comes to the greatest bump that is refused. -/
theorem search_eq_some_iff {call bump : Nat} (hturn : call + bump = 255) :
    search test seeds program call bump = some d ↔
      (0 < d.bump.toNat ∧ d.bump.toNat ≤ bump) ∧ d.address = addressAt seeds program d.bump ∧
        accepts test seeds program d.bump = false ∧
          AcceptedAbove test seeds program d.bump.toNat bump := by
  induction bump generalizing call with
  | zero =>
    constructor
    · intro h
      cases h
    · rintro ⟨⟨hpos, hle⟩, -⟩
      exact absurd hpos hle.not_gt
  | succ bump ih =>
    have htop : (UInt8.ofNat (bump + 1)).toNat = bump + 1 := toNat_ofNat_bump (by omega)
    rw [search_succ hturn]
    cases haccepts : accepts test seeds program (UInt8.ofNat (bump + 1)) with
    | true =>
      rw [if_pos rfl, ih (by omega)]
      constructor
      · rintro ⟨⟨hpos, hle⟩, haddress, hrefused, habove⟩
        exact ⟨⟨hpos, by omega⟩, haddress, hrefused,
          (acceptedAbove_succ hle (by omega)).mpr ⟨haccepts, habove⟩⟩
      · rintro ⟨⟨hpos, hle⟩, haddress, hrefused, habove⟩
        -- the bump that has just been accepted is not the one that is refused
        have hne : d.bump.toNat ≠ bump + 1 := by
          intro heq
          rw [eq_ofNat_bump heq, haccepts] at hrefused
          cases hrefused
        obtain ⟨-, hrest⟩ := (acceptedAbove_succ (by omega) (by omega)).mp habove
        exact ⟨⟨hpos, by omega⟩, haddress, hrefused, hrest⟩
    | false =>
      rw [if_neg Bool.false_ne_true, Option.some.injEq]
      constructor
      · rintro rfl
        rw [htop]
        exact ⟨⟨by omega, by omega⟩, rfl, haccepts, acceptedAbove_self _⟩
      · rintro ⟨⟨-, hle⟩, haddress, -, habove⟩
        have heq : d.bump.toNat = bump + 1 := by
          by_contra hne
          obtain ⟨hlast, -⟩ := (acceptedAbove_succ (by omega) (by omega)).mp habove
          rw [haccepts] at hlast
          cases hlast
        rw [← eq_ofNat_bump heq, ← haddress]

theorem find_eq_ok_iff_search (h : TakeBump seeds) :
    find test seeds program = .ok d ↔ search test seeds program 0 255 = some d := by
  rw [find_of_takeBump h]
  cases search test seeds program 0 255 <;> simp

/-- What is found is the address of the greatest bump that is refused in its turn. -/
theorem find_eq_ok_iff (h : TakeBump seeds) :
    find test seeds program = .ok d ↔
      0 < d.bump ∧ d.address = addressAt seeds program d.bump ∧
        accepts test seeds program d.bump = false ∧
          ∀ b, d.bump < b → accepts test seeds program b = true := by
  have hle : d.bump.toNat ≤ 255 := Nat.le_of_lt_succ d.bump.toNat_lt
  have hpos : 0 < d.bump ↔ 0 < d.bump.toNat := UInt8.lt_iff_toNat_lt
  rw [find_eq_ok_iff_search h, search_eq_some_iff (by rfl), acceptedAbove_iff, hpos,
    and_iff_left hle]

theorem find_eq_exhausted_iff_search (h : TakeBump seeds) {n : Nat} :
    find test seeds program = .error (.exhausted n) ↔
      search test seeds program 0 255 = none ∧ n = seeds.length := by
  rw [find_of_takeBump h]
  cases search test seeds program 0 255 <;> simp [eq_comm]

theorem find_eq_exhausted_iff (h : TakeBump seeds) :
    find test seeds program = .error (.exhausted seeds.length) ↔
      ∀ b, 0 < b → accepts test seeds program b = true := by
  rw [find_eq_exhausted_iff_search h, search_eq_none_iff (by rfl), and_iff_left rfl]
  exact acceptedAbove_iff 0

/-- With a test that goes by the address alone, the bump that is found gives the address again as a
last seed, and no greater bump gives one. -/
theorem create_of_find {accepted : Bytes → Bool}
    (h : find (fun _ => accepted) seeds program = .ok d) :
    create (fun _ => accepted) (seeds ++ [[d.bump]]) program = .ok d.address ∧
      ∀ b, d.bump < b → create (fun _ => accepted) (seeds ++ [[b]]) program = .error .onCurve := by
  have htake := takeBump_of_find h
  obtain ⟨-, haddress, hrefused, habove⟩ := (find_eq_ok_iff htake).mp h
  constructor
  · rw [create_bump htake, haddress]
    exact if_neg (Bool.eq_false_iff.mp hrefused)
  · intro b hlt
    rw [create_bump htake]
    exact if_pos (habove b hlt)

section Record

/-- Asks the test about an address and puts the address on record. The test is told how many
addresses were on record before. -/
def ask (test : CurveTest) (address : Key) : StateM (List Key) Bool := do
  let asked ← get
  set (asked ++ [address])
  return test asked.length address.toBytes

/-- The search with everything that the test is asked about on record. -/
def searchOnRecord (test : CurveTest) (seeds : List Bytes) (program : Key) :
    (bump : Nat) → StateM (List Key) (Option Derived)
  | 0 => return none
  | bump + 1 => do
    let last := UInt8.ofNat (bump + 1)
    let address := addressAt seeds program last
    if ← ask test address then searchOnRecord test seeds program bump
    else return some ⟨address, last⟩

def findOnRecord (test : CurveTest) (seeds : List Bytes) (program : Key) :
    StateM (List Key) (Except Fault Derived) :=
  match checkSeeds (seeds ++ [[0]]) with
  | .error f => return .error (.seeds f)
  | .ok () => do
    match ← searchOnRecord test seeds program 255 with
    | some d => return .ok d
    | none => return .error (.exhausted seeds.length)

/-- The addresses of the first `count` bumps from 255 on downwards. -/
def turns (seeds : List Bytes) (program : Key) (count : Nat) : List Key :=
  (List.range count).map fun turn => addressAt seeds program (UInt8.ofNat (255 - turn))

theorem turns_succ {count bump : Nat} (h : count + (bump + 1) = 255) :
    turns seeds program (count + 1) =
      turns seeds program count ++ [addressAt seeds program (UInt8.ofNat (bump + 1))] := by
  have hlast : 255 - count = bump + 1 := by omega
  rw [turns, turns, List.range_succ, List.map_append, List.map_singleton, hlast]

/-- How many bumps a search from 255 has tried when it comes to its result. -/
def tried : Option Derived → Nat
  | some d => 256 - d.bump.toNat
  | none => 255

theorem run_searchOnRecord_succ (asked : List Key) {bump : Nat} {last : UInt8}
    (hlast : UInt8.ofNat (bump + 1) = last) :
    (searchOnRecord test seeds program (bump + 1)).run asked =
      if test asked.length (addressAt seeds program last).toBytes then
        (searchOnRecord test seeds program bump).run (asked ++ [addressAt seeds program last])
      else (some ⟨addressAt seeds program last, last⟩,
        asked ++ [addressAt seeds program last]) := by
  rw [searchOnRecord, hlast, StateT.run_bind]
  change (if test asked.length (addressAt seeds program last).toBytes then
    searchOnRecord test seeds program bump
    else return some ⟨addressAt seeds program last, last⟩).run
      (asked ++ [addressAt seeds program last]) = _
  split <;> rfl

/-- With the bumps so far on record, the search goes on as `search` does, and in the end each bump
that it tried is on record. -/
theorem run_searchOnRecord {call bump : Nat} (hturn : call + bump = 255) :
    (searchOnRecord test seeds program bump).run (turns seeds program call) =
      (search test seeds program call bump,
        turns seeds program (tried (search test seeds program call bump))) := by
  induction bump generalizing call with
  | zero =>
    obtain rfl : call = 255 := hturn
    rfl
  | succ bump ih =>
    have hlength : (turns seeds program call).length = call := by simp [turns]
    have htop : (UInt8.ofNat (bump + 1)).toNat = bump + 1 := toNat_ofNat_bump (by omega)
    rw [run_searchOnRecord_succ _ rfl, search_succ hturn]
    simp only [hlength, ← accepts_in_turn hturn, ← turns_succ hturn]
    by_cases haccepts : accepts test seeds program (UInt8.ofNat (bump + 1)) = true
    · rw [if_pos haccepts, if_pos haccepts]
      exact ih (by omega)
    · have hcount : 256 - (bump + 1) = call + 1 := by omega
      rw [if_neg haccepts, if_neg haccepts, tried, htop, hcount]

theorem run_findOnRecord_of_fault {f : SeedFault} (h : find test seeds program = .error (.seeds f)) :
    (findOnRecord test seeds program).run [] = (find test seeds program, []) := by
  rw [h, findOnRecord, find_eq_seeds_iff.mp h]
  rfl

theorem run_findOnRecord (h : TakeBump seeds) :
    (findOnRecord test seeds program).run [] =
      (find test seeds program,
        turns seeds program (tried (search test seeds program 0 255))) := by
  have hsearch : (searchOnRecord test seeds program 255).run [] =
      (search test seeds program 0 255,
        turns seeds program (tried (search test seeds program 0 255))) :=
    run_searchOnRecord (show 0 + 255 = 255 from rfl)
  rw [find_of_takeBump h, findOnRecord, checkSeeds_bump_eq_ok_iff.mpr h]
  simp only [StateT.run_bind, hsearch]
  cases search test seeds program 0 255 <;> rfl

end Record

/-- How the address of a program is found with a curve test. -/
structure FoundFromAbove (test : CurveTest) (seeds : List Bytes) (program : Key) : Prop where
  refuses : (∃ f, find test seeds program = .error (.seeds f)) ↔
    15 < seeds.length ∨ ∃ seed ∈ seeds, 32 < seed.length
  refusal : ∀ f, find test seeds program = .error (.seeds f) →
    ∀ other bump, create other (seeds ++ [[bump]]) program = .error f
  finds : TakeBump seeds → ∀ d, find test seeds program = .ok d ↔
    0 < d.bump ∧ d.address = addressAt seeds program d.bump ∧
      accepts test seeds program d.bump = false ∧
        ∀ b, d.bump < b → accepts test seeds program b = true
  exhausts : TakeBump seeds → (find test seeds program = .error (.exhausted seeds.length) ↔
    ∀ b, 0 < b → accepts test seeds program b = true)
  recorded : ((findOnRecord test seeds program).run []).1 = find test seeds program
  asks : ∀ d, find test seeds program = .ok d →
    ((findOnRecord test seeds program).run []).2 = turns seeds program (256 - d.bump.toNat)
  asksAll : ∀ n, find test seeds program = .error (.exhausted n) →
    ((findOnRecord test seeds program).run []).2 = turns seeds program 255
  asksNothing : ∀ f, find test seeds program = .error (.seeds f) →
    ((findOnRecord test seeds program).run []).2 = []

/-- Whatever the test answers, the bumps from 255 down to 1 are tried in this order, each once, and
the first that is refused gives the address. -/
theorem bumps_are_tried_downwards (seeds : List Bytes) (program : Key) :
    (∀ test, FoundFromAbove test seeds program) ∧
      ∀ (accepted : Bytes → Bool) (d : Derived), find (fun _ => accepted) seeds program = .ok d →
        create (fun _ => accepted) (seeds ++ [[d.bump]]) program = .ok d.address ∧
          ∀ b, d.bump < b →
            create (fun _ => accepted) (seeds ++ [[b]]) program = .error .onCurve := by
  refine ⟨fun test => ⟨?_, ?_, fun htake _ => find_eq_ok_iff htake, find_eq_exhausted_iff, ?_, ?_,
    ?_, ?_⟩, fun accepted d => create_of_find⟩
  · have htake : checkSeeds (seeds ++ [[0]]) = .ok () ↔ TakeBump seeds := checkSeeds_bump_eq_ok_iff
    simp only [find_eq_seeds_iff]
    rw [exists_eq_error_iff, ← not_takeBump_iff, ← htake]
    exact ⟨fun h => h (), fun h _ => h⟩
  · intro f h other bump
    have hcheck := find_eq_seeds_iff.mp h
    rw [checkSeeds_bump_eq 0 bump] at hcheck
    exact create_of_fault hcheck
  · cases hcheck : checkSeeds (seeds ++ [[0]]) with
    | error f => rw [run_findOnRecord_of_fault (find_of_fault hcheck)]
    | ok u => rw [run_findOnRecord (checkSeeds_bump_eq_ok_iff.mp hcheck)]
  · intro d h
    have htake := takeBump_of_find h
    rw [run_findOnRecord htake, (find_eq_ok_iff_search htake).mp h, tried]
  · intro n h
    have htake := takeBump_of_find_exhausted h
    rw [run_findOnRecord htake, ((find_eq_exhausted_iff_search htake).mp h).1, tried]
  · intro f h
    rw [run_findOnRecord_of_fault h]

/-- The seeds of the metadata account of the token whose key has a two in every byte. -/
def seedsOfTwos : List Bytes := [Program.metadataSeed, (Key.filled 2).toBytes]

theorem bumps_are_tried_downwards_twos :
    (∃ d, find (acceptsFirst 2) seedsOfTwos Program.metadataId = .ok d ∧ d.bump = 253 ∧
      ((findOnRecord (acceptsFirst 2) seedsOfTwos Program.metadataId).run []).2 =
        [255, 254, 253].map (addressAt seedsOfTwos Program.metadataId)) ∧
    ∃ accepted d, find (fun _ => accepted) seedsOfTwos Program.metadataId = .ok d ∧
      d.bump = 254 ∧
      create (fun _ => accepted) (seedsOfTwos ++ [[254]]) Program.metadataId = .ok d.address ∧
      create (fun _ => accepted) (seedsOfTwos ++ [[255]]) Program.metadataId =
        .error .onCurve := by
  have htake : TakeBump seedsOfTwos := by decide
  obtain ⟨hsearches, hsingle⟩ := bumps_are_tried_downwards seedsOfTwos Program.metadataId
  constructor
  · have hfind : find (acceptsFirst 2) seedsOfTwos Program.metadataId =
        .ok ⟨addressAt seedsOfTwos Program.metadataId 253, 253⟩ := by
      refine ((hsearches _).finds htake _).mpr ⟨by decide, rfl, rfl, fun b hlt => ?_⟩
      have hnumber : 253 < b.toNat := UInt8.lt_iff_toNat_lt.mp hlt
      have hcall : 255 - b.toNat < 2 := by omega
      simpa [accepts, acceptsFirst] using hcall
    exact ⟨_, hfind, rfl, (hsearches _).asks _ hfind⟩
  · -- only the address of the bump 255 is accepted
    let accepted : Bytes → Bool :=
      fun a => a == (addressAt seedsOfTwos Program.metadataId 255).toBytes
    have hfind : find (fun _ => accepted) seedsOfTwos Program.metadataId =
        .ok ⟨addressAt seedsOfTwos Program.metadataId 254, 254⟩ := by
      refine ((hsearches _).finds htake _).mpr ⟨by decide, rfl, by decide +kernel, fun b hlt => ?_⟩
      have hnumber : 254 < b.toNat := UInt8.lt_iff_toNat_lt.mp hlt
      have hlimit := b.toNat_lt
      obtain rfl : b = 255 := eq_ofNat_bump (show b.toNat = 255 by omega)
      exact beq_self_eq_true _
    obtain ⟨hcreate, hgreater⟩ := hsingle accepted _ hfind
    exact ⟨accepted, _, hfind, rfl, hcreate, hgreater 255 (by decide)⟩

end TokenMetadata.Address
