import Mathlib
import TokenMetadata.Payload.Draft
import TokenMetadata.Proofs.Limits
import TokenMetadata.Proofs.Wire.Law

/-!
# Payloads and their bytes

The tag selects a lawful layout, so reading a payload undoes writing it and every reading is a
writing up to its flags. Drafts are accepted exactly when they are payloads within the limits.
-/

namespace TokenMetadata

namespace Payload

/-- The payload is within the limits of the program. -/
def Within : Payload → Prop
  | createMetadata fields _ => fields.Within
  | updateMetadata fields => fields.PresentWithin
  | createAttributes data => Attribute.AllWithin data
  | replaceAttributes data => Attribute.AllWithin data
  | transferAuthority _ => True
  | makeImmutable => True

def createLaw : Codec.Law createCodec := (Codec.Law.fields .text).pair .flag

def updateLaw : Codec.Law updateCodec := .fields (.option .text)

/-- Where the flags are behind the tag: the mark of a new token, and the presence of each field of
an update. -/
def bodyMarks : Payload → Marks
  | createMetadata fields immutable => createLaw.marks (fields, immutable)
  | updateMetadata fields => updateLaw.marks fields
  | createAttributes data => Codec.Law.attributes.marks data
  | replaceAttributes data => Codec.Law.attributes.marks data
  | transferAuthority newAuthority => Codec.Law.key.marks newAuthority
  | makeImmutable => []

/-- The tag is no flag. -/
def marks (p : Payload) : Marks := false :: p.bodyMarks

/-- What the lengths in the layouts can carry. -/
def Fits : Payload → Prop
  | createMetadata fields immutable => createLaw.Fits (fields, immutable)
  | updateMetadata fields => updateLaw.Fits fields
  | createAttributes data => Codec.Law.attributes.Fits data
  | replaceAttributes data => Codec.Law.attributes.Fits data
  | transferAuthority newAuthority => Codec.Law.key.Fits newAuthority
  | makeImmutable => True

/-- The bytes behind the tag. -/
def body : Payload → Bytes
  | createMetadata fields immutable => createCodec.write (fields, immutable)
  | updateMetadata fields => updateCodec.write fields
  | createAttributes data => Codec.attributes.write data
  | replaceAttributes data => Codec.attributes.write data
  | transferAuthority newAuthority => Codec.key.write newAuthority
  | makeImmutable => []

theorem write_eq (p : Payload) : p.write = p.tag :: p.body := by
  cases p <;> rfl

theorem tag_lt (p : Payload) : ¬ 6 ≤ p.tag := by
  cases p <;> simp only [tag] <;> decide

theorem readBody_body {p : Payload} (rest : Bytes) (fits : p.Fits) :
    readBody p.tag (p.body ++ rest) = .ok (p, rest) := by
  cases p with
  | createMetadata fields immutable =>
    exact bind_eq_ok_iff.mpr ⟨_, createLaw.read_write (fields, immutable) rest fits, rfl⟩
  | updateMetadata fields =>
    exact bind_eq_ok_iff.mpr ⟨_, updateLaw.read_write fields rest fits, rfl⟩
  | createAttributes data =>
    exact bind_eq_ok_iff.mpr ⟨_, Codec.Law.attributes.read_write data rest fits, rfl⟩
  | replaceAttributes data =>
    exact bind_eq_ok_iff.mpr ⟨_, Codec.Law.attributes.read_write data rest fits, rfl⟩
  | transferAuthority newAuthority =>
    exact bind_eq_ok_iff.mpr ⟨_, Codec.Law.key.read_write newAuthority rest fits, rfl⟩
  | makeImmutable => rfl

theorem read_write {p : Payload} (rest : Bytes) (fits : p.Fits) :
    read (p.write ++ rest) = .ok (p, rest) := by
  rw [write_eq, List.cons_append, read, if_neg p.tag_lt, readBody_body rest fits]
  rfl

/-- A body was read with the tag of the payload that came out, and is its body up to flags. -/
theorem of_readBody {tag : UInt8} {b rest : Bytes} {p : Payload} (htag : ¬ 6 ≤ tag)
    (h : readBody tag b = .ok (p, rest)) :
    tag = p.tag ∧ p.Fits ∧ ∃ used, b = used ++ rest ∧ used.length = p.bodyMarks.length ∧
      p.bodyMarks.settle used = p.body := by
  unfold readBody at h
  split at h
  · obtain ⟨⟨⟨fields, immutable⟩, b₁⟩, hx, hvalue⟩ := bind_eq_ok_iff.mp h
    obtain ⟨rfl, rfl⟩ := Prod.mk.inj (return_eq_ok_iff.mp hvalue)
    exact ⟨rfl, createLaw.of_read _ _ _ hx⟩
  · obtain ⟨⟨fields, b₁⟩, hx, hvalue⟩ := bind_eq_ok_iff.mp h
    obtain ⟨rfl, rfl⟩ := Prod.mk.inj (return_eq_ok_iff.mp hvalue)
    exact ⟨rfl, updateLaw.of_read _ _ _ hx⟩
  · obtain ⟨⟨data, b₁⟩, hx, hvalue⟩ := bind_eq_ok_iff.mp h
    obtain ⟨rfl, rfl⟩ := Prod.mk.inj (return_eq_ok_iff.mp hvalue)
    exact ⟨rfl, Codec.Law.attributes.of_read _ _ _ hx⟩
  · obtain ⟨⟨data, b₁⟩, hx, hvalue⟩ := bind_eq_ok_iff.mp h
    obtain ⟨rfl, rfl⟩ := Prod.mk.inj (return_eq_ok_iff.mp hvalue)
    exact ⟨rfl, Codec.Law.attributes.of_read _ _ _ hx⟩
  · obtain ⟨⟨newAuthority, b₁⟩, hx, hvalue⟩ := bind_eq_ok_iff.mp h
    obtain ⟨rfl, rfl⟩ := Prod.mk.inj (return_eq_ok_iff.mp hvalue)
    exact ⟨rfl, Codec.Law.key.of_read _ _ _ hx⟩
  · rename_i h0 h1 h2 h3 h4
    obtain ⟨rfl, rfl⟩ : makeImmutable = p ∧ b = rest := by simpa using h
    have hfive : tag = 5 := by
      clear h
      grind
    exact ⟨hfive, trivial, [], rfl, rfl, rfl⟩

theorem of_read {b rest : Bytes} {p : Payload} (h : read b = .ok (p, rest)) :
    p.Fits ∧ ∃ used, b = used ++ rest ∧ used.length = p.marks.length ∧
      p.marks.settle used = p.write := by
  cases b with
  | nil => cases h
  | cons tag b =>
    rw [read] at h
    split at h
    · cases h
    · rename_i htag
      obtain ⟨rfl, fits, used, rfl, hlen, hsettle⟩ := of_readBody htag (mapError_eq_ok_iff.mp h)
      refine ⟨fits, p.tag :: used, rfl, by simp [marks, hlen], ?_⟩
      rw [write_eq, ← hsettle]
      simp [marks, Marks.settle, Marks.settleByte]

theorem decode_write {p : Payload} (rest : Bytes) (fits : p.Fits) :
    decode (p.write ++ rest) = .ok p := by
  rw [decode, read_write rest fits]
  rfl

theorem fits_of_within {p : Payload} (h : p.Within) : p.Fits := by
  cases p with
  | createMetadata fields immutable => exact ⟨Fields.Within.fits h, trivial⟩
  | updateMetadata fields => exact Fields.PresentWithin.fits h
  | createAttributes data => exact Attribute.AllWithin.fits h
  | replaceAttributes data => exact Attribute.AllWithin.fits h
  | transferAuthority newAuthority => trivial
  | makeImmutable => trivial

theorem check_eq_ok_iff {p q : Payload} : p.check = .ok q ↔ q = p ∧ p.Within := by
  cases p with
  | createMetadata fields immutable => exact bind_return_eq_ok_iff fun _ => Fields.accept_text_iff
  | updateMetadata fields => exact bind_return_eq_ok_iff fun _ => Fields.acceptPresent_text_iff
  | createAttributes data => exact bind_return_eq_ok_iff fun _ => Attribute.acceptPairs_text_iff
  | replaceAttributes data => exact bind_return_eq_ok_iff fun _ => Attribute.acceptPairs_text_iff
  | transferAuthority newAuthority => simp [check, Within, eq_comm]
  | makeImmutable => simp [check, Within, eq_comm]

theorem encode_eq_ok_iff {p : Payload} {b : Bytes} : p.encode = .ok b ↔ p.Within ∧ b = p.write := by
  rw [encode, map_eq_ok_iff]
  simp only [check_eq_ok_iff]
  constructor
  · rintro ⟨_, ⟨rfl, hw⟩, rfl⟩
    exact ⟨hw, rfl⟩
  · rintro ⟨hw, rfl⟩
    exact ⟨p, ⟨rfl, hw⟩, rfl⟩

/-- The payload as fields whose type has not been checked. -/
def toDraft : Payload → Draft
  | createMetadata fields immutable => .createMetadata (fields.map .text) (.bool immutable)
  | updateMetadata fields => .updateMetadata (fields.map (·.map .text))
  | createAttributes data => .createAttributes (data.map Attribute.toData)
  | replaceAttributes data => .replaceAttributes (data.map Attribute.toData)
  | transferAuthority newAuthority => .transferAuthority (.bytes newAuthority.toBytes)
  | makeImmutable => .makeImmutable

end Payload

theorem Key.accept_eq_ok_iff {v : Datum} {k : Key} : Key.accept v = .ok k ↔ v = .bytes k.toBytes := by
  cases v with
  | bytes b =>
    rw [Key.accept, mapError_eq_ok_iff, Key.ofBytes]
    constructor
    · intro h
      split at h
      · cases h
        rfl
      · cases h
    · intro h
      cases h
      rw [dif_pos k.length_toBytes]
  | _ => simp [Key.accept]

namespace Draft

/-- The draft with its mark as a truth value. -/
def normal : Draft → Draft
  | createMetadata fields immutable => createMetadata fields (.bool immutable.isTruthy)
  | d => d

theorem normal_of_accept {d : Draft} {p : Payload} (h : d.accept = .ok p) :
    d.normal = p.toDraft ∧ p.Within := by
  cases d with
  | createMetadata fields immutable =>
    obtain ⟨texts, htexts, hp⟩ := bind_eq_ok_iff.mp h
    obtain rfl := return_eq_ok_iff.mp hp
    obtain ⟨rfl, hw⟩ := Fields.accept_eq_ok_iff.mp (mapError_eq_ok_iff.mp htexts)
    exact ⟨rfl, hw⟩
  | updateMetadata fields =>
    obtain ⟨texts, htexts, hp⟩ := bind_eq_ok_iff.mp h
    obtain rfl := return_eq_ok_iff.mp hp
    obtain ⟨rfl, hw⟩ := Fields.acceptPresent_eq_ok_iff.mp (mapError_eq_ok_iff.mp htexts)
    exact ⟨rfl, hw⟩
  | createAttributes pairs =>
    obtain ⟨data, hdata, hp⟩ := bind_eq_ok_iff.mp h
    obtain rfl := return_eq_ok_iff.mp hp
    obtain ⟨rfl, hw⟩ := Attribute.acceptPairs_eq_ok_iff.mp (mapError_eq_ok_iff.mp hdata)
    exact ⟨rfl, hw⟩
  | replaceAttributes pairs =>
    obtain ⟨data, hdata, hp⟩ := bind_eq_ok_iff.mp h
    obtain rfl := return_eq_ok_iff.mp hp
    obtain ⟨rfl, hw⟩ := Attribute.acceptPairs_eq_ok_iff.mp (mapError_eq_ok_iff.mp hdata)
    exact ⟨rfl, hw⟩
  | transferAuthority newAuthority =>
    obtain ⟨k, hk, hp⟩ := bind_eq_ok_iff.mp h
    obtain rfl := return_eq_ok_iff.mp hp
    obtain rfl := Key.accept_eq_ok_iff.mp hk
    exact ⟨rfl, trivial⟩
  | makeImmutable =>
    obtain rfl : Payload.makeImmutable = p := by simpa [accept] using h
    exact ⟨rfl, trivial⟩

theorem encode_eq_ok_iff_accept {d : Draft} {b : Bytes} :
    d.encode = .ok b ↔ ∃ p, d.accept = .ok p ∧ p.write = b := map_eq_ok_iff

end Draft

/-- Bytes that were made from a draft are read as that draft, with its mark as a truth value; bytes
that were made from a payload are read as that payload; and drafts with the same bytes differ in the
mark at most. -/
theorem accepted_draft_decodes :
    (∀ (d : Draft) (b : Bytes), d.encode = .ok b →
      ∃ p : Payload, Payload.decode b = .ok p ∧ p.toDraft = d.normal) ∧
    (∀ (p : Payload) (b : Bytes), p.encode = .ok b → Payload.decode b = .ok p) ∧
    (∀ (d e : Draft) (b : Bytes), d.encode = .ok b → e.encode = .ok b → d.normal = e.normal) := by
  have hdraft : ∀ (d : Draft) (b : Bytes), d.encode = .ok b →
      ∃ p : Payload, Payload.decode b = .ok p ∧ p.toDraft = d.normal := by
    intro d b h
    obtain ⟨p, hp, rfl⟩ := Draft.encode_eq_ok_iff_accept.mp h
    obtain ⟨hnormal, hw⟩ := Draft.normal_of_accept hp
    have hdecode := Payload.decode_write [] (Payload.fits_of_within hw)
    rw [List.append_nil] at hdecode
    exact ⟨p, hdecode, hnormal.symm⟩
  refine ⟨hdraft, ?_, ?_⟩
  · intro p b h
    obtain ⟨hw, rfl⟩ := Payload.encode_eq_ok_iff.mp h
    have hdecode := Payload.decode_write [] (Payload.fits_of_within hw)
    rwa [List.append_nil] at hdecode
  · intro d e b hd he
    obtain ⟨p, hp, hpd⟩ := hdraft d b hd
    obtain ⟨q, hq, hqe⟩ := hdraft e b he
    obtain rfl : p = q := Except.ok.inj (hp.symm.trans hq)
    exact hpd.symm.trans hqe

theorem accepted_draft_decodes_update :
    (∃ p, Payload.decode [1, 0, 1, 0, 0, 0, 0, 0, 1, 2, 0, 0, 0, 0xc3, 0xa9] = .ok p ∧
      p.toDraft = .updateMetadata ⟨none, some (.text ""), none, some (.text "é")⟩) ∧
    Payload.decode [2, 2, 0, 0, 0, 1, 0, 0, 0, 97, 1, 0, 0, 0, 98, 1, 0, 0, 0, 97, 1, 0, 0, 0, 99] =
      .ok (.createAttributes [("a", "b"), ("a", "c")]) ∧
    (Draft.createMetadata ⟨.text "n", .text "s", .text "", .text ""⟩ (.int 7)).normal =
      (Draft.createMetadata ⟨.text "n", .text "s", .text "", .text ""⟩ (.bool true)).normal :=
  ⟨accepted_draft_decodes.1
      (.updateMetadata ⟨none, some (.text ""), none, some (.text "é")⟩) _ (by decide +kernel),
    accepted_draft_decodes.2.1 (.createAttributes [("a", "b"), ("a", "c")]) _ (by decide +kernel),
    accepted_draft_decodes.2.2 _ _
      [0, 1, 0, 0, 0, 110, 1, 0, 0, 0, 115, 0, 0, 0, 0, 0, 0, 0, 0, 1]
      (by decide +kernel) (by decide +kernel)⟩

end TokenMetadata
