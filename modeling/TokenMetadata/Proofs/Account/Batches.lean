import Mathlib
import TokenMetadata.Proofs.Account.Serving
import TokenMetadata.Proofs.Bytes

/-!
# Keys in batches

The keys of a list are asked for in consecutive pieces, each of them once and in order. The first
piece whose answer is of the wrong length or cannot be decoded is the last that is asked for, and
nothing is returned then. Without such a piece there is one account for each key, at its place.
-/

namespace TokenMetadata

namespace Node

section Answers

variable (node : Node) (size : Nat) (keys : List Key)

/-- The entries of the answer to the `k`-th batch; no answer counts as an empty one. -/
def entries (k : Nat) : List (Option RawAccount) := (node k (piece size keys k)).getD []

/-- The answer to the `k`-th batch has one entry for each key. -/
def IsAligned (k : Nat) : Prop := (node.entries size keys k).length = (piece size keys k).length

/-- Every entry of the answer to the `k`-th batch can be decoded. -/
def IsReadable (k : Nat) : Prop :=
  ∀ entry ∈ node.entries size keys k, ∃ a, entry.mapM decodeAccount = .ok a

/-- The `k`-th batch is answered as it should be. -/
def IsAnswered (k : Nat) : Prop := node.IsAligned size keys k ∧ node.IsReadable size keys k

end Answers

/-- How a list of keys is asked for in batches. The run goes through the batches in order, and it
returns all accounts, or the failure of the first batch that is not answered as it should be. -/
structure AsksInBatches (node : Node) (size : Nat) (keys : List Key)
    (run : Exchange (List (Option Account))) : Prop where
  inOrder : run.calls.flatten <+: keys
  bounded : ∀ call ∈ run.calls, call ≠ [] ∧ call.length ≤ size
  full : ∀ call ∈ run.calls.dropLast, call.length = size
  returns : (∀ k < pieceCount size keys.length, node.IsAnswered size keys k) →
    run.calls.length = (keys.length + size - 1) / size ∧ run.calls.flatten = keys ∧
      ∃ out, run.result = .ok out ∧ out.length = keys.length ∧
        ∀ i < keys.length, ∃ entry a, (node.entries size keys (i / size))[i % size]? = some entry ∧
          entry.mapM decodeAccount = .ok a ∧ out[i]? = some a
  misaligned : ∀ k < pieceCount size keys.length, (∀ j < k, node.IsAnswered size keys j) →
    ∀ found asked, (node.entries size keys k).length = found →
      (piece size keys k).length = asked → found ≠ asked →
        run.calls.length = k + 1 ∧
          run.result = .error (.malformed (.nodeCount found asked)) ∧
            (Malformed.nodeCount found asked).message =
              s!"rpc returned {found} accounts for {asked} keys"
  unreadable : ∀ k < pieceCount size keys.length, (∀ j < k, node.IsAnswered size keys j) →
    node.IsAligned size keys k → ¬ node.IsReadable size keys k →
      run.calls.length = k + 1 ∧ ∃ e : Misuse, run.result = .error (.misuse e) ∧
        FirstFailure ((node.entries size keys k).map (·.mapM decodeAccount)) e

section Replies

variable {keys : List Key} {reply : Option (List (Option RawAccount))}

theorem decodeReply_eq_ok_iff {accounts : List (Option Account)} :
    decodeReply keys reply = .ok accounts ↔ (reply.getD []).length = keys.length ∧
      (reply.getD []).map (·.mapM decodeAccount) = accounts.map .ok := by
  by_cases h : (reply.getD []).length = keys.length
  · simp only [decodeReply, if_neg (not_not.mpr h), mapError_eq_ok_iff, mapM_eq_ok_iff_map]
    exact (and_iff_right h).symm
  · simp [decodeReply, h]

theorem length_of_decodeReply {accounts : List (Option Account)}
    (h : decodeReply keys reply = .ok accounts) : accounts.length = keys.length := by
  obtain ⟨hlength, hmap⟩ := decodeReply_eq_ok_iff.mp h
  have hboth := congrArg List.length hmap
  rw [List.length_map, List.length_map] at hboth
  omega

theorem exists_entry_of_decodeReply {accounts : List (Option Account)}
    (h : decodeReply keys reply = .ok accounts) {j : Nat} (hj : j < keys.length) :
    ∃ entry a, (reply.getD [])[j]? = some entry ∧ entry.mapM decodeAccount = .ok a ∧
      accounts[j]? = some a := by
  obtain ⟨hlength, hmap⟩ := decodeReply_eq_ok_iff.mp h
  have hentry := List.getElem?_eq_getElem (hlength ▸ hj)
  have haccount := List.getElem?_eq_getElem (length_of_decodeReply h ▸ hj)
  have hboth := congrArg (·[j]?) hmap
  simp only [List.getElem?_map, hentry, haccount, Option.map_some, Option.some.injEq] at hboth
  exact ⟨_, _, hentry, hboth, haccount⟩

theorem decodeReply_of_length_ne (h : (reply.getD []).length ≠ keys.length) :
    decodeReply keys reply =
      .error (.malformed (.nodeCount (reply.getD []).length keys.length)) := by
  simp only [decodeReply, if_pos h]

theorem decodeReply_of_firstFailure (h : (reply.getD []).length = keys.length) {e : Misuse}
    (he : FirstFailure ((reply.getD []).map (·.mapM decodeAccount)) e) :
    decodeReply keys reply = .error (.misuse e) := by
  simp only [decodeReply, if_neg (not_not.mpr h)]
  exact mapError_eq_error_iff.mpr ⟨e, mapM_eq_error_iff.mpr he, rfl⟩

end Replies

section Runs

variable {node : Node} {f : Nat → List Key} {accounts : Nat → List (Option Account)}

theorem calls_isPrefix (node : Node) (call : Nat) (batches : List (List Key)) :
    (readBatches node call batches).calls <+: batches := by
  induction batches generalizing call with
  | nil => exact List.prefix_rfl
  | cons batch rest ih =>
    rw [readBatches]
    cases decodeReply batch (node call batch) with
    | error e => exact ⟨rest, rfl⟩
    | ok accounts => exact (List.prefix_cons_inj batch).mpr (ih (call + 1))

/-- Behind batches that are answered as they should be the run goes on. -/
theorem readBatches_append (call n : Nat)
    (h : ∀ k, call ≤ k → k < call + n → decodeReply (f k) (node k (f k)) = .ok (accounts k))
    (rest : List (List Key)) :
    readBatches node call ((List.range' call n).map f ++ rest) =
      ⟨(List.range' call n).map f ++ (readBatches node (call + n) rest).calls,
        ((List.range' call n).flatMap accounts ++ ·) <$>
          (readBatches node (call + n) rest).result⟩ := by
  induction n generalizing call with
  | zero =>
    have hsame : ∀ run : Exchange (List (Option Account)),
        run = ⟨run.calls, ([] ++ ·) <$> run.result⟩ := by
      rintro ⟨calls, result⟩
      cases result <;> rfl
    exact hsame (readBatches node call rest)
  | succ n ih =>
    have hfirst := h call le_rfl (by omega)
    have hmore := ih (call + 1) fun k hk hlt => h k (by omega) (by omega)
    have hcall : call + 1 + n = call + (n + 1) := by omega
    rw [List.range'_succ, List.map_cons, List.cons_append, readBatches, hfirst]
    simp only [hmore, hcall, List.cons_append, List.flatMap_cons, List.append_assoc,
      Functor.map_map]

theorem readBatches_range {n : Nat}
    (h : ∀ k < n, decodeReply (f k) (node k (f k)) = .ok (accounts k)) :
    readBatches node 0 ((List.range n).map f) =
      ⟨(List.range n).map f, .ok ((List.range n).flatMap accounts)⟩ := by
  have hrun := readBatches_append 0 n (fun k _ hk => h k (by omega)) []
  simpa [← List.range_eq_range', readBatches] using hrun

/-- The first batch that is not answered as it should be is the last one. -/
theorem readBatches_range_of_error {n k : Nat} {e : Fault} (hk : k < n)
    (h : ∀ j < k, decodeReply (f j) (node j (f j)) = .ok (accounts j))
    (he : decodeReply (f k) (node k (f k)) = .error e) :
    readBatches node 0 ((List.range n).map f) = ⟨(List.range (k + 1)).map f, .error e⟩ := by
  obtain ⟨more, rfl⟩ := Nat.exists_eq_add_of_lt hk
  have hsplit : List.range (k + more + 1) = List.range' 0 k ++ k :: List.range' (k + 1) more := by
    rw [← List.range'_succ, List.range_eq_range', Nat.add_assoc, ← List.range'_append_1,
      Nat.zero_add]
  have hlast : readBatches node (0 + k) (f k :: (List.range' (k + 1) more).map f) =
      ⟨[f k], .error e⟩ := by
    rw [Nat.zero_add, readBatches, he]
  rw [hsplit, List.map_append, List.map_cons,
    readBatches_append 0 k fun j _ hj => h j (by omega), hlast, List.range_succ, List.map_append,
    List.range_eq_range']
  rfl

theorem exists_calls (node : Node) (f : Nat → List Key) (n : Nat) :
    ∃ m ≤ n, (readBatches node 0 ((List.range n).map f)).calls = (List.range m).map f := by
  have hcalls := List.prefix_iff_eq_take.mp (calls_isPrefix node 0 ((List.range n).map f))
  rw [← List.map_take, List.take_range] at hcalls
  exact ⟨_, Nat.min_le_right _ _, hcalls⟩

end Runs

variable {node : Node} {size : Nat} {keys : List Key} {k : Nat}

theorem exists_decodeReply (h : node.IsAnswered size keys k) :
    ∃ accounts, decodeReply (piece size keys k) (node k (piece size keys k)) = .ok accounts := by
  obtain ⟨haligned, hreadable⟩ := h
  obtain ⟨accounts, haccounts⟩ := exists_mapM_eq_ok hreadable
  exact ⟨accounts, decodeReply_eq_ok_iff.mpr ⟨haligned, mapM_eq_ok_iff_map.mp haccounts⟩⟩

/-- The accounts of the batches below `n`, when all of them are answered as they should be. -/
theorem exists_accounts {n : Nat} (h : ∀ k < n, node.IsAnswered size keys k) :
    ∃ accounts : Nat → List (Option Account), ∀ k < n,
      decodeReply (piece size keys k) (node k (piece size keys k)) = .ok (accounts k) := by
  have heach : ∀ k, ∃ accounts, k < n →
      decodeReply (piece size keys k) (node k (piece size keys k)) = .ok accounts := by
    intro k
    by_cases hk : k < n
    · obtain ⟨accounts, haccounts⟩ := exists_decodeReply (h k hk)
      exact ⟨accounts, fun _ => haccounts⟩
    · exact ⟨[], fun hlt => absurd hlt hk⟩
  exact ⟨fun k => (heach k).choose, fun k => (heach k).choose_spec⟩

theorem length_flatMap_accounts {n : Nat} {accounts : Nat → List (Option Account)}
    (h : ∀ k < n, decodeReply (piece size keys k) (node k (piece size keys k)) =
      .ok (accounts k)) :
    ((List.range n).flatMap accounts).length =
      ((List.range n).flatMap (piece size keys)).length := by
  rw [List.length_flatMap, List.length_flatMap]
  congr 1
  exact List.map_congr_left fun k hk => length_of_decodeReply (h k (List.mem_range.mp hk))

/-- The entry for a key stands in the reply to the batch of the key. -/
theorem exists_entry_of_accounts (hpos : size ≠ 0) {accounts : Nat → List (Option Account)}
    (h : ∀ k < pieceCount size keys.length,
      decodeReply (piece size keys k) (node k (piece size keys k)) = .ok (accounts k))
    {i : Nat} (hi : i < keys.length) :
    ∃ entry a, (node.entries size keys (i / size))[i % size]? = some entry ∧
      entry.mapM decodeAccount = .ok a ∧
        ((List.range (pieceCount size keys.length)).flatMap accounts)[i]? = some a := by
  have hplace := Nat.div_add_mod' i size
  have hmod := Nat.mod_lt i (by omega : 0 < size)
  have hnumber : i / size < pieceCount size keys.length := (lt_pieceCount_iff hpos).mpr (by omega)
  have hwithin : i % size < (piece size keys (i / size)).length := by
    rw [piece, List.length_take, List.length_drop]
    omega
  have hfull : ∀ k, k + 1 < pieceCount size keys.length → (accounts k).length = size := by
    intro k hk
    rw [length_of_decodeReply (h k (by omega)), length_piece_of_lt hpos hk]
  rw [getElem?_flatMap_range hpos hfull hnumber]
  exact exists_entry_of_decodeReply (h _ hnumber) hwithin

theorem exists_firstFailure (h : ¬ node.IsReadable size keys k) :
    ∃ e, FirstFailure ((node.entries size keys k).map (·.mapM decodeAccount)) e := by
  by_contra hnone
  refine h fun entry hentry => ?_
  exact forall_ok_iff.mpr (not_exists.mp hnone) _ (List.mem_map_of_mem hentry)

theorem source_eq (node : Node) (hsize : 1 ≤ size) (keys : List Key) :
    node.source size keys =
      readBatches node 0 ((List.range (pieceCount size keys.length)).map (piece size keys)) := by
  have hzero : ¬ (size : Int) = 0 := by omega
  have hnegative : ¬ (size : Int) < 0 := by omega
  rw [source, if_neg hzero, if_neg hnegative, Int.toNat_natCast,
    chunksOf_eq_map_piece (by omega)]

/-- Every key is asked for once and in order, up to the first batch that is not answered with an
entry for each key or whose entries cannot all be decoded. -/
theorem keys_are_asked_in_batches (node : Node) (keys : List Key) (hsize : 1 ≤ size) :
    AsksInBatches node size keys (node.source size keys) := by
  have hpos : size ≠ 0 := by omega
  rw [source_eq node hsize]
  obtain ⟨m, hm, hcalls⟩ := exists_calls node (piece size keys) (pieceCount size keys.length)
  refine ⟨?_, ?_, ?_, ?_, ?_, ?_⟩
  · rw [hcalls, ← List.flatMap_def, flatMap_piece]
    exact List.take_prefix _ _
  · rw [hcalls]
    intro call hcall
    obtain ⟨k, hk, rfl⟩ := List.mem_map.mp hcall
    rw [List.mem_range] at hk
    exact ⟨piece_ne_nil hpos (by omega), length_piece_le k⟩
  · rw [hcalls, List.dropLast_eq_take, ← List.map_take, List.take_range, List.length_map,
      List.length_range]
    intro call hcall
    obtain ⟨k, hk, rfl⟩ := List.mem_map.mp hcall
    rw [List.mem_range] at hk
    exact length_piece_of_lt hpos (by omega)
  · intro hgood
    obtain ⟨accounts, haccounts⟩ := exists_accounts hgood
    rw [readBatches_range haccounts]
    refine ⟨?_, ?_, _, rfl, ?_, ?_⟩
    · rw [List.length_map, List.length_range, pieceCount]
    · rw [← List.flatMap_def, flatMap_piece_pieceCount hpos]
    · rw [length_flatMap_accounts haccounts, flatMap_piece_pieceCount hpos]
    · exact fun i hi => exists_entry_of_accounts hpos haccounts hi
  · rintro k hk hbefore found asked rfl rfl halign
    obtain ⟨accounts, haccounts⟩ := exists_accounts hbefore
    rw [readBatches_range_of_error hk haccounts (decodeReply_of_length_ne halign)]
    exact ⟨by simp, rfl, rfl⟩
  · intro k hk hbefore halign hreadable
    obtain ⟨accounts, haccounts⟩ := exists_accounts hbefore
    obtain ⟨e, he⟩ := exists_firstFailure hreadable
    rw [readBatches_range_of_error hk haccounts (decodeReply_of_firstFailure halign he)]
    exact ⟨by simp, e, rfl, he⟩

/-- A node that knows no accounts and has no answer to its second call. -/
def silentOnce : Node := fun call keys => if call = 1 then none else some (keys.map fun _ => none)

def fiveKeys : List Key := [.filled 1, .filled 2, .filled 3, .filled 4, .filled 5]

theorem keys_are_asked_in_batches_silent_once :
    1 ≤ 2 ∧ AsksInBatches silentOnce 2 fiveKeys (silentOnce.source 2 fiveKeys) ∧
      (silentOnce.source 2 fiveKeys).calls.length = 2 ∧
        (silentOnce.source 2 fiveKeys).result = .error (.malformed (.nodeCount 0 2)) := by
  have hasks : AsksInBatches silentOnce 2 fiveKeys (silentOnce.source 2 fiveKeys) :=
    keys_are_asked_in_batches silentOnce fiveKeys (by decide)
  have hfirst : ∀ j < 1, silentOnce.IsAnswered 2 fiveKeys j := by
    intro j hj
    obtain rfl : j = 0 := by omega
    refine ⟨rfl, fun entry hentry => ⟨none, ?_⟩⟩
    obtain ⟨key, -, rfl⟩ := List.mem_map.mp hentry
    rfl
  obtain ⟨hcalls, hresult, -⟩ :=
    hasks.misaligned 1 (by decide) hfirst 0 2 (by decide) (by decide) (by decide)
  exact ⟨by decide, hasks, hcalls, hresult⟩

end Node

end TokenMetadata
