import Mathlib
import TokenMetadata.Signing.Message
import TokenMetadata.Proofs.Signing.CompactSize

/-!
# What a signed hash stands for

The hash that is signed is the last of a chain of hashes. The chain is carried out here with a
record of everything that is hashed in it. Every step can be undone as long as no two of the recorded
strings have the same hash, and so the script, the message and the hash type can be told from the
end of the chain.
-/

namespace TokenMetadata

theorem Message.HashType.toByte_injective : Function.Injective toByte := by
  intro t t' h
  cases t <;> cases t' <;> first | rfl | cases h

/-- A value together with the byte strings that were hashed on the way to it. -/
structure Hashed (α : Type) where
  preimages : List Bytes
  value : α

/-- Two different strings of the list have the same hash. -/
def Collide (strings : List Bytes) : Prop :=
  ∃ x ∈ strings, ∃ y ∈ strings, x ≠ y ∧ Sha256.hash x = Sha256.hash y

theorem eq_of_not_collide {strings : List Bytes} (h : ¬ Collide strings) {x y : Bytes}
    (hx : x ∈ strings) (hy : y ∈ strings) (hxy : Sha256.hash x = Sha256.hash y) : x = y := by
  by_contra hne
  exact h ⟨x, hx, y, hy, hne, hxy⟩

namespace Hashed

instance : Monad Hashed where
  pure x := ⟨[], x⟩
  bind x f := ⟨x.preimages ++ (f x.value).preimages, (f x.value).value⟩

/-- Hashes a string and records it. -/
def sha256 (m : Bytes) : Hashed Bytes := ⟨[m], Sha256.hash m⟩

def tagged (tag : String) (m : Bytes) : Hashed Bytes := do
  let digest ← sha256 (Bytes.ofText tag)
  sha256 (digest ++ digest ++ m)

/-- The first transaction, for a message that is already hashed. -/
def spendOf (script digest : Bytes) : Bytes :=
  let scriptSig := 0x00 :: 0x20 :: digest
  Bytes.ofNatLE 4 0 ++ compactSize 1 ++ List.replicate 32 0 ++ Bytes.ofNatLE 4 0xffffffff ++
    compactSize scriptSig.length ++ scriptSig ++ Bytes.ofNatLE 4 0 ++ compactSize 1 ++
    Bytes.ofNatLE 8 0 ++ compactSize script.length ++ script ++ Bytes.ofNatLE 4 0

def spendId (script m : Bytes) : Hashed Bytes := do
  let digest ← tagged "BIP0322-signed-message" m
  let once ← sha256 (spendOf script digest)
  sha256 once

/-- The signed parts of the second transaction, with those that are hashed given by their hashes. -/
def partsOf (t : Message.HashType) (prevouts amounts scripts sequences outputs : Bytes) : Bytes :=
  t.toByte :: (Bytes.ofNatLE 4 0 ++ Bytes.ofNatLE 4 0 ++ prevouts ++ amounts ++ scripts ++
    sequences ++ outputs ++ [0x00] ++ Bytes.ofNatLE 4 0)

def sighash (script spendId : Bytes) (t : Message.HashType) : Hashed Bytes := do
  let prevouts ← sha256 (spendId ++ Bytes.ofNatLE 4 0)
  let amounts ← sha256 (Bytes.ofNatLE 8 0)
  let scripts ← sha256 (compactSize script.length ++ script)
  let sequences ← sha256 (Bytes.ofNatLE 4 0)
  let outputs ← sha256 (Bytes.ofNatLE 8 0 ++ compactSize 1 ++ [0x6a])
  tagged "TapSighash" (0x00 :: partsOf t prevouts amounts scripts sequences outputs)

/-- From a script and a message to the hash that is signed for them. -/
def signing (script m : Bytes) (t : Message.HashType) : Hashed Bytes := do
  let id ← spendId script m
  sighash script id t

theorem value_bind {α β : Type} (x : Hashed α) (f : α → Hashed β) :
    (x >>= f).value = (f x.value).value := rfl

/-- Recording what is hashed changes nothing about the result. -/
theorem value_signing (script m : Bytes) (t : Message.HashType) :
    (signing script m t).value = Message.sighash script (Message.toSpendId script m) t := rfl

/-- Eleven strings are hashed: a tag and the message behind it, the first transaction and its hash,
five parts of the second transaction, and a tag and the signed parts behind it. -/
theorem preimages_signing (script m : Bytes) (t : Message.HashType) :
    let messageTag := Bytes.ofText "BIP0322-signed-message"
    let sighashTag := Bytes.ofText "TapSighash"
    let id := Message.toSpendId script m
    (signing script m t).preimages =
      [messageTag, Sha256.hash messageTag ++ Sha256.hash messageTag ++ m,
        Message.toSpend script m, Sha256.hash (Message.toSpend script m),
        id ++ Bytes.ofNatLE 4 0, Bytes.ofNatLE 8 0, compactSize script.length ++ script,
        Bytes.ofNatLE 4 0, Bytes.ofNatLE 8 0 ++ compactSize 1 ++ [0x6a], sighashTag,
        Sha256.hash sighashTag ++ Sha256.hash sighashTag ++
          0x00 :: Message.signedParts script id t] := rfl

theorem length_value_sha256 (m m' : Bytes) :
    (sha256 m).value.length = (sha256 m').value.length :=
  (Sha256.length_hash m).trans (Sha256.length_hash m').symm

/-- Everything that was hashed is among the strings. -/
def Among {α : Type} (x : Hashed α) (strings : List Bytes) : Prop :=
  ∀ b ∈ x.preimages, b ∈ strings

theorem among_sha256 {m : Bytes} {strings : List Bytes} :
    (sha256 m).Among strings ↔ m ∈ strings :=
  List.forall_mem_singleton

theorem among_bind {α β : Type} {x : Hashed α} {f : α → Hashed β} {strings : List Bytes} :
    (x >>= f).Among strings ↔ x.Among strings ∧ (f x.value).Among strings :=
  List.forall_mem_append

variable {strings : List Bytes} (hfree : ¬ Collide strings)

include hfree

theorem sha256_injective {m m' : Bytes} (h : (sha256 m).Among strings)
    (h' : (sha256 m').Among strings) (heq : (sha256 m).value = (sha256 m').value) : m = m' :=
  eq_of_not_collide hfree (among_sha256.mp h) (among_sha256.mp h') heq

theorem tagged_injective {tag : String} {m m' : Bytes} (h : (tagged tag m).Among strings)
    (h' : (tagged tag m').Among strings) (heq : (tagged tag m).value = (tagged tag m').value) :
    m = m' := by
  obtain ⟨-, h⟩ := among_bind.mp h
  obtain ⟨-, h'⟩ := among_bind.mp h'
  exact List.append_cancel_left (sha256_injective hfree h h' heq)

omit hfree in
theorem spendOf_injective {s s' d d' : Bytes} (hd : d.length = 32) (hd' : d'.length = 32)
    (h : spendOf s d = spendOf s' d') : d = d' := by
  have hsize : (0x00 :: 0x20 :: d : Bytes).length = (0x00 :: 0x20 :: d' : Bytes).length := by
    rw [List.length_cons, List.length_cons, List.length_cons, List.length_cons, hd, hd']
  -- both sizes in front of the digests are the same, so the digests stand at the same place
  simp only [spendOf, hsize, List.append_assoc, List.append_cancel_left_eq] at h
  exact List.cons.inj (List.cons.inj (List.append_inj h hsize).1).2 |>.2

/-- The identifier of the first transaction stands for the message. -/
theorem spendId_injective {s s' m m' : Bytes} (h : (spendId s m).Among strings)
    (h' : (spendId s' m').Among strings) (heq : (spendId s m).value = (spendId s' m').value) :
    m = m' := by
  obtain ⟨hdigest, h⟩ := among_bind.mp h
  obtain ⟨hdigest', h'⟩ := among_bind.mp h'
  obtain ⟨honce, htwice⟩ := among_bind.mp h
  obtain ⟨honce', htwice'⟩ := among_bind.mp h'
  have hfirst := sha256_injective hfree htwice htwice' heq
  have hspend := sha256_injective hfree honce honce' hfirst
  exact tagged_injective hfree hdigest hdigest'
    (spendOf_injective (Sha256.length_hash _) (Sha256.length_hash _) hspend)

omit hfree in
theorem partsOf_injective {t t' : Message.HashType} {p p' a q q' b c : Bytes}
    (hp : p.length = p'.length) (hq : q.length = q'.length)
    (h : partsOf t p a q b c = partsOf t' p' a q' b c) : t = t' ∧ p = p' ∧ q = q' := by
  obtain ⟨hbyte, hrest⟩ := List.cons.inj h
  simp only [List.append_assoc, List.append_cancel_left_eq] at hrest
  obtain ⟨hpp, hrest⟩ := List.append_inj hrest hp
  have hqq := (List.append_inj (List.append_cancel_left hrest) hq).1
  exact ⟨Message.HashType.toByte_injective hbyte, hpp, hqq⟩

/-- The signed hash stands for the hash type, the script and the first transaction. -/
theorem sighash_injective {s s' id id' : Bytes} {t t' : Message.HashType} (hs : s.length < 2 ^ 64)
    (hs' : s'.length < 2 ^ 64) (h : (sighash s id t).Among strings)
    (h' : (sighash s' id' t').Among strings)
    (heq : (sighash s id t).value = (sighash s' id' t').value) : s = s' ∧ id = id' ∧ t = t' := by
  -- amounts, sequences and outputs are the same strings in every run
  obtain ⟨hprevouts, h⟩ := among_bind.mp h
  obtain ⟨-, h⟩ := among_bind.mp h
  obtain ⟨hscripts, h⟩ := among_bind.mp h
  obtain ⟨-, h⟩ := among_bind.mp h
  obtain ⟨-, h⟩ := among_bind.mp h
  obtain ⟨hprevouts', h'⟩ := among_bind.mp h'
  obtain ⟨-, h'⟩ := among_bind.mp h'
  obtain ⟨hscripts', h'⟩ := among_bind.mp h'
  obtain ⟨-, h'⟩ := among_bind.mp h'
  obtain ⟨-, h'⟩ := among_bind.mp h'
  have hparts := (List.cons.inj (tagged_injective hfree h h' heq)).2
  obtain ⟨ht, hp, hq⟩ := partsOf_injective (length_value_sha256 _ _) (length_value_sha256 _ _) hparts
  have hid := List.append_cancel_right (sha256_injective hfree hprevouts hprevouts' hp)
  have hscript := sha256_injective hfree hscripts hscripts' hq
  exact ⟨Witness.compactSize_append_injective hs hs' hscript, hid, ht⟩

theorem signing_injective {s s' m m' : Bytes} {t t' : Message.HashType} (hs : s.length < 2 ^ 64)
    (hs' : s'.length < 2 ^ 64) (h : (signing s m t).Among strings)
    (h' : (signing s' m' t').Among strings)
    (heq : (signing s m t).value = (signing s' m' t').value) : s = s' ∧ m = m' ∧ t = t' := by
  obtain ⟨hid, h⟩ := among_bind.mp h
  obtain ⟨hid', h'⟩ := among_bind.mp h'
  -- comparing the values by unfolding them would run into the hash itself
  rw [signing, signing, value_bind, value_bind] at heq
  obtain ⟨hscript, hspend, ht⟩ := sighash_injective hfree hs hs' h h' heq
  exact ⟨hscript, spendId_injective hfree hid hid' hspend, ht⟩

end Hashed

/-- Who finds two scripts, messages or hash types with the same signed hash has found two strings
with the same hash: they are among those that are hashed on the way. -/
theorem signed_hash_binds {s s' m m' : Bytes} {t t' : Message.HashType} (hs : s.length < 2 ^ 64)
    (hs' : s'.length < 2 ^ 64)
    (h : Message.sighash s (Message.toSpendId s m) t =
      Message.sighash s' (Message.toSpendId s' m') t') :
    (s = s' ∧ m = m' ∧ t = t') ∨
      Collide ((Hashed.signing s m t).preimages ++ (Hashed.signing s' m' t').preimages) := by
  by_cases hcollide :
      Collide ((Hashed.signing s m t).preimages ++ (Hashed.signing s' m' t').preimages)
  · exact Or.inr hcollide
  · left
    rw [← Hashed.value_signing, ← Hashed.value_signing] at h
    refine Hashed.signing_injective hcollide hs hs' ?_ ?_ h
    · intro b hb
      exact List.mem_append_left _ hb
    · intro b hb
      exact List.mem_append_right _ hb

theorem signed_hash_binds_itself :
    (([0x51, 0x20] : Bytes) = [0x51, 0x20] ∧ ([1] : Bytes) = [1] ∧ Message.HashType.all = .all) ∨
      Collide ((Hashed.signing [0x51, 0x20] [1] .all).preimages ++
        (Hashed.signing [0x51, 0x20] [1] .all).preimages) :=
  signed_hash_binds (by decide) (by decide) rfl

end TokenMetadata
