import Mathlib
import TokenMetadata.Signing.Wif
import TokenMetadata.Proofs.Text.Base58

/-!
# Exported keys and their texts

The checked text gives back what it was made of. Whether the public key is used in compressed form
is told by the length, so a secret that ends in a one is not mistaken for it. Apart from blanks at
its end no other text is read as the same key, and a text that is read as none is refused for its
checksum, its length or its version.
-/

namespace TokenMetadata.Wif

/-- What stands in front of the checksum. -/
def payload (w : Wif) : Bytes := w.version :: w.secret ++ if w.compressed then [1] else []

theorem ofPayload_payload {w : Wif} (hsecret : w.secret.length = 32)
    (hversion : w.version ∈ versions) : ofPayload (payload w) = .ok w := by
  obtain ⟨version, secret, compressed⟩ := w
  cases compressed with
  | true =>
    have hlength : (secret ++ [1]).length = 33 := by
      rw [List.length_append, hsecret]
      rfl
    have hmark : (secret ++ [1]).length = 33 ∧ (secret ++ [1]).getLast? = some 1 :=
      ⟨hlength, List.getLast?_concat⟩
    change ofPayload (version :: (secret ++ [1])) = _
    rw [ofPayload, if_pos hmark, List.take_left' hsecret, ofPayload.finish, if_pos hversion]
  | false =>
    have hmark : ¬ (secret.length = 33 ∧ secret.getLast? = some 1) := by
      rw [hsecret]
      exact fun h => absurd h.1 (by decide)
    change ofPayload (version :: (secret ++ [])) = _
    rw [List.append_nil, ofPayload, if_neg hmark, if_pos hsecret, ofPayload.finish,
      if_pos hversion]

theorem decode_encode {w : Wif} (hsecret : w.secret.length = 32) (hversion : w.version ∈ versions) :
    decode (encode w) = .ok w := by
  have hread : Base58.decodeChecked (encode w) = some (payload w) :=
    Base58.decodeChecked_encodeChecked _
  rw [decode, hread]
  exact ofPayload_payload hsecret hversion

/-- A secret of thirty-two bytes behind the version of a network. -/
structure IsValid (w : Wif) : Prop where
  length : w.secret.length = 32
  version : w.version = 0x80 ∨ w.version = 0xef

theorem mem_versions_iff {v : UInt8} : v ∈ versions ↔ v = 0x80 ∨ v = 0xef := by
  simp [versions]

/-- As long as a version and a secret, or by one byte longer, which is then a one. -/
def IsLong (p : Bytes) : Prop := p.length = 33 ∨ p.length = 34 ∧ p.getLast? = some 1

/-- Why bytes with a sound checksum are not an exported key. -/
inductive IsFlawed : Bytes → SigningFault → Prop
  | length {p : Bytes} : ¬ IsLong p → IsFlawed p (.wifLength p.length)
  | version {v : UInt8} {body : Bytes} : IsLong (v :: body) → ¬ (v = 0x80 ∨ v = 0xef) →
    IsFlawed (v :: body) (.wifVersion v)

/-- Why a text is not read as an exported key. -/
inductive IsRefused (s : String) : SigningFault → Prop
  | encoding : (∀ p, dropBlanksAtEnd s.toList ≠ (Base58.encodeChecked p).toList) →
    IsRefused s .wifEncoding
  | payload {p : Bytes} {f : SigningFault} :
    dropBlanksAtEnd s.toList = (Base58.encodeChecked p).toList → IsFlawed p f → IsRefused s f

variable {v : UInt8} {body : Bytes}

theorem isLong_cons_iff : IsLong (v :: body) ↔
    (body.length = 33 ∧ body.getLast? = some 1) ∨ body.length = 32 := by
  cases body with
  | nil => simp [IsLong]
  | cons x rest => simp [IsLong, or_comm]

/-- Bytes are split at a length of theirs, and the split is told by it. -/
theorem ofPayload_of_isLong (h : IsLong (v :: body)) :
    ∃ w : Wif, w.secret.length = 32 ∧ w.version = v ∧ payload w = v :: body ∧
      ofPayload (v :: body) = ofPayload.finish v w.secret w.compressed := by
  by_cases hmark : body.length = 33 ∧ body.getLast? = some 1
  · obtain ⟨secret, rfl⟩ := List.getLast?_eq_some_iff.mp hmark.2
    have hsecret : secret.length = 32 := by simpa using hmark.1
    refine ⟨⟨v, secret, true⟩, hsecret, rfl, rfl, ?_⟩
    rw [ofPayload, if_pos hmark, List.take_left' hsecret]
  · have hlength := (isLong_cons_iff.mp h).resolve_left hmark
    refine ⟨⟨v, body, false⟩, hlength, rfl, ?_, ?_⟩
    · simp [payload]
    · rw [ofPayload, if_neg hmark, if_pos hlength]

/-- The bytes behind a checksum are those of a valid key, or flawed. -/
theorem ofPayload_cases (p : Bytes) :
    (∃ w : Wif, w.IsValid ∧ p = payload w ∧ ofPayload p = .ok w) ∨
      ∃ f, IsFlawed p f ∧ ofPayload p = .error f := by
  cases p with
  | nil => exact Or.inr ⟨_, .length (by simp [IsLong]), rfl⟩
  | cons v body =>
    by_cases hlong : IsLong (v :: body)
    · obtain ⟨w, hsecret, rfl, hpayload, hsplit⟩ := ofPayload_of_isLong hlong
      rw [hsplit, ofPayload.finish]
      by_cases hversion : w.version ∈ versions
      · rw [if_pos hversion]
        exact Or.inl ⟨w, ⟨hsecret, mem_versions_iff.mp hversion⟩, hpayload.symm, rfl⟩
      · rw [if_neg hversion]
        exact Or.inr ⟨_, .version hlong (mem_versions_iff.not.mp hversion), rfl⟩
    · refine Or.inr ⟨_, .length hlong, ?_⟩
      obtain ⟨hmark, hlength⟩ := not_or.mp (isLong_cons_iff.not.mp hlong)
      rw [ofPayload, if_neg hmark, if_neg hlength]

theorem decode_cases (s : String) :
    (∃ w : Wif, w.IsValid ∧ String.ofList (dropBlanksAtEnd s.toList) = encode w ∧
        decode s = .ok w) ∨
      ∃ f, IsRefused s f ∧ decode s = .error f := by
  cases hread : Base58.decodeChecked s with
  | none =>
    refine Or.inr ⟨_, .encoding fun p hp => ?_, by rw [decode, hread]⟩
    cases hread.symm.trans (Base58.decodeChecked_eq_some_iff.mpr hp)
  | some p =>
    have htext := Base58.decodeChecked_eq_some_iff.mp hread
    rcases ofPayload_cases p with ⟨w, hvalid, rfl, hw⟩ | ⟨f, hflawed, hf⟩
    · exact Or.inl ⟨w, hvalid, by rw [htext, String.ofList_toList]; rfl, by rw [decode, hread]; exact hw⟩
    · exact Or.inr ⟨f, .payload htext hflawed, by rw [decode, hread]; exact hf⟩

/-- Every valid key is read from its text. What is read from a text is a valid key, whose own text is
the one that was read without the blanks at its end. All other texts are refused. -/
theorem exported_keys_have_one_text :
    (∀ w : Wif, w.IsValid → decode (encode w) = .ok w) ∧
    (∀ (s : String) (w : Wif), decode s = .ok w →
      w.IsValid ∧ encode w = String.ofList (dropBlanksAtEnd s.toList)) ∧
    ∀ s : String,
      (¬ ∃ w : Wif, w.IsValid ∧ encode w = String.ofList (dropBlanksAtEnd s.toList)) →
        ∃ f, decode s = .error f ∧ IsRefused s f := by
  refine ⟨?_, ?_, ?_⟩
  · intro w h
    exact decode_encode h.length (mem_versions_iff.mpr h.version)
  · intro s w h
    rcases decode_cases s with ⟨w', hvalid, htext, hw'⟩ | ⟨f, -, hf⟩
    · obtain rfl := Except.ok.inj (h.symm.trans hw')
      exact ⟨hvalid, htext.symm⟩
    · cases h.symm.trans hf
  · intro s hnone
    rcases decode_cases s with ⟨w, hvalid, htext, -⟩ | ⟨f, hrefused, hf⟩
    · exact absurd ⟨w, hvalid, htext.symm⟩ hnone
    · exact ⟨f, hf, hrefused⟩

/-- A secret with zeros in front and a one at its end, for use in uncompressed form. -/
def plainOne : Wif := ⟨0x80, Bytes.ofNatBE 32 1, false⟩

/-- The text of a key on a line of its own. -/
def line (w : Wif) : String := String.ofList ((encode w).toList ++ ['\n'])

theorem decode_line {w : Wif} (h : w.IsValid) : decode (line w) = .ok w := by
  have hblank : ∀ c ∈ ['\n'], isBlank c = true :=
    List.forall_mem_singleton.mpr rfl
  have hdrop : dropBlanksAtEnd (line w).toList = (encode w).toList := by
    rw [line, String.toList_ofList]
    exact dropBlanksAtEnd_append (fun _ => Base58.isBlank_of_mem_encode) hblank
  have hread : Base58.decodeChecked (line w) = some (payload w) :=
    Base58.decodeChecked_eq_some_iff.mpr hdrop
  rw [decode, hread]
  exact ofPayload_payload h.length (mem_versions_iff.mpr h.version)

theorem exported_keys_have_one_text_plain_one :
    plainOne.IsValid ∧ decode (encode plainOne) = .ok plainOne ∧
    decode (line plainOne) = .ok plainOne ∧
    encode plainOne = String.ofList (dropBlanksAtEnd (line plainOne).toList) ∧
    ∃ f, decode "0" = .error f ∧ IsRefused "0" f := by
  obtain ⟨hread, hwritten, hrefused⟩ := exported_keys_have_one_text
  have hvalid : plainOne.IsValid := ⟨by decide, by decide⟩
  have hline := decode_line hvalid
  refine ⟨hvalid, hread plainOne hvalid, hline, (hwritten _ _ hline).2, hrefused "0" ?_⟩
  rintro ⟨w, hw, htext⟩
  have hzero : String.ofList (dropBlanksAtEnd "0".toList) = "0" := by decide
  have hnone : decode "0" = .error .wifEncoding := by decide
  cases hnone.symm.trans ((htext.trans hzero) ▸ hread w hw)

end TokenMetadata.Wif
