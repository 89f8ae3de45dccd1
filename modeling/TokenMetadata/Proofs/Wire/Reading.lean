import Mathlib
import TokenMetadata.Borsh
import TokenMetadata.Proofs.Bytes
import TokenMetadata.Proofs.Success

/-!
# What the plain formats read

A number, a key and a text are read from exactly the bytes that writing them gives; a flag is read
from any byte.
-/

namespace TokenMetadata

namespace Codec

theorem takeBytes_append (a rest : Bytes) : takeBytes a.length (a ++ rest) = .ok (a, rest) := by
  simp [takeBytes]

theorem takeBytes_eq_ok_iff {n : Nat} {b a rest : Bytes} :
    takeBytes n b = .ok (a, rest) ↔ a.length = n ∧ b = a ++ rest := by
  constructor
  · intro h
    rw [takeBytes] at h
    split at h
    · rename_i hn
      obtain ⟨rfl, rfl⟩ : b.take n = a ∧ b.drop n = rest := by simpa using h
      exact ⟨by simpa using hn, (List.take_append_drop n b).symm⟩
    · cases h
  · rintro ⟨rfl, rfl⟩
    exact takeBytes_append a rest

theorem number_read_iff {width n : Nat} {b rest : Bytes} :
    (number width).read b = .ok (n, rest) ↔
      n < 256 ^ width ∧ b = Bytes.ofNatLE width n ++ rest := by
  constructor
  · intro h
    obtain ⟨⟨a, rest'⟩, htake, hvalue⟩ := bind_eq_ok_iff.mp h
    obtain ⟨rfl, rfl⟩ := takeBytes_eq_ok_iff.mp htake
    obtain ⟨rfl, rfl⟩ : Bytes.toNatLE a = n ∧ rest' = rest := by
      simpa using return_eq_ok_iff.mp hvalue
    exact ⟨Bytes.toNatLE_lt a, by rw [Bytes.ofNatLE_toNatLE]⟩
  · rintro ⟨hn, rfl⟩
    have htake := takeBytes_append (Bytes.ofNatLE width n) rest
    rw [Bytes.length_ofNatLE] at htake
    refine bind_eq_ok_iff.mpr ⟨_, htake, return_eq_ok_iff.mpr ?_⟩
    rw [Bytes.toNatLE_ofNatLE, Nat.mod_eq_of_lt hn]

theorem key_read_iff {k : Key} {b rest : Bytes} :
    key.read b = .ok (k, rest) ↔ b = k.toBytes ++ rest := by
  constructor
  · intro h
    change (if h : 32 ≤ b.length then _ else _) = _ at h
    split at h
    · obtain ⟨rfl, rfl⟩ : _ = k ∧ b.drop 32 = rest := by simpa using h
      exact (List.take_append_drop 32 b).symm
    · cases h
  · rintro rfl
    have hk := k.length_toBytes
    change (if h : 32 ≤ (k.toBytes ++ rest).length then _ else _) = _
    rw [dif_pos (by simp [hk])]
    have htake : (k.toBytes ++ rest).take 32 = k.toBytes := List.take_left' hk
    have hdrop : (k.toBytes ++ rest).drop 32 = rest := List.drop_left' hk
    simp only [htake, hdrop]

theorem flag_read_iff {x : Bool} {b rest : Bytes} :
    flag.read b = .ok (x, rest) ↔ ∃ y, b = y :: rest ∧ x = (y != 0) := by
  cases b with
  | nil => simp [flag]
  | cons y b =>
    change Except.ok (y != 0, b) = .ok (x, rest) ↔ _
    constructor
    · intro h
      obtain ⟨rfl, rfl⟩ : (y != 0) = x ∧ b = rest := by simpa using h
      exact ⟨y, rfl, rfl⟩
    · rintro ⟨z, hz, rfl⟩
      obtain ⟨rfl, rfl⟩ := List.cons.inj hz
      rfl

theorem length_ofText (s : String) : (Bytes.ofText s).length = s.utf8ByteSize := by
  simp [Bytes.ofText, ← String.size_toByteArray]

theorem text_read_iff {s : String} {b rest : Bytes} :
    text.read b = .ok (s, rest) ↔ s.utf8ByteSize < 256 ^ 4 ∧ b = text.write s ++ rest := by
  constructor
  · intro h
    obtain ⟨⟨size, b₁⟩, hsize, hrest⟩ := bind_eq_ok_iff.mp h
    obtain ⟨⟨a, b₂⟩, ha, hvalue⟩ := bind_eq_ok_iff.mp hrest
    obtain ⟨hlt, rfl⟩ := number_read_iff.mp hsize
    obtain ⟨rfl, rfl⟩ := takeBytes_eq_ok_iff.mp ha
    cases htext : Bytes.toText? a with
    | none => simp [htext, throw, throwThe, MonadExceptOf.throw] at hvalue
    | some t =>
      simp only [htext] at hvalue
      obtain ⟨rfl, rfl⟩ : t = s ∧ b₂ = rest := by simpa using return_eq_ok_iff.mp hvalue
      have hbytes := Bytes.ofText_of_toText? htext
      rw [← hbytes, length_ofText] at hlt
      refine ⟨hlt, ?_⟩
      change _ = (Bytes.ofNatLE 4 t.utf8ByteSize ++ Bytes.ofText t) ++ b₂
      rw [← length_ofText, hbytes, List.append_assoc]
  · rintro ⟨hlt, rfl⟩
    have hsize : (number 4).read (text.write s ++ rest) =
        .ok (s.utf8ByteSize, Bytes.ofText s ++ rest) := by
      refine number_read_iff.mpr ⟨hlt, ?_⟩
      change (Bytes.ofNatLE 4 s.utf8ByteSize ++ Bytes.ofText s) ++ rest = _
      rw [List.append_assoc]
    have hbytes : takeBytes s.utf8ByteSize (Bytes.ofText s ++ rest) =
        .ok (Bytes.ofText s, rest) := takeBytes_eq_ok_iff.mpr ⟨length_ofText s, rfl⟩
    refine bind_eq_ok_iff.mpr ⟨_, hsize, bind_eq_ok_iff.mpr ⟨_, hbytes, ?_⟩⟩
    simp only [Bytes.toText?_ofText]
    rfl

end Codec

end TokenMetadata
