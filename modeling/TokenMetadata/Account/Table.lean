import TokenMetadata.Key

/-!
# Accounts and where they are asked for

A source answers a list of keys with one entry for each, absent accounts included. What is asked of
it is kept beside the result, call by call.
-/

namespace TokenMetadata

/-- An account as a reader sees it. -/
structure Account where
  data : Option Bytes
  owner : Option Key
  deriving DecidableEq

/-- A result together with the lists of keys that were asked for on the way to it. -/
structure Exchange (α : Type) where
  calls : List (List Key)
  result : Except Fault α

/-- Goes on with the result without asking again. -/
def Exchange.andThen {α β : Type} (x : Exchange α) (f : α → Except Fault β) : Exchange β :=
  ⟨x.calls, x.result.bind f⟩

/-- A place where accounts are asked for by key. -/
abbrev Source := List Key → Exchange (List (Option Account))

/-- Accounts by key; no key has two of them. -/
structure Table where
  entries : List (Key × Account) := []

namespace Table

def get? (t : Table) (k : Key) : Option Account := t.entries.lookup k

def erase (t : Table) (k : Key) : Table := ⟨t.entries.filter (·.1 ≠ k)⟩

def insert (t : Table) (k : Key) (a : Account) : Table := ⟨(k, a) :: (t.erase k).entries⟩

def size (t : Table) : Nat := t.entries.length

/-- One entry for each key, in order. -/
def answer (t : Table) (keys : List Key) : List (Option Account) := keys.map t.get?

/-- The table as a source: one call for the whole list. -/
def source (t : Table) : Source := fun keys => ⟨[keys], .ok (t.answer keys)⟩

/-- An answer that has lost entries at its end, or gained absent ones. -/
def skew {α : Type} (amount : Int) (answer : List (Option α)) : List (Option α) :=
  if amount < 0 then answer.take (answer.length - amount.natAbs)
  else answer ++ List.replicate amount.toNat none

/-- A table whose answers have the wrong length. -/
def skewedSource (t : Table) (amount : Int) : Source :=
  fun keys => ⟨[keys], .ok (skew amount (t.answer keys))⟩

end Table

end TokenMetadata
