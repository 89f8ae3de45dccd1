import Mathlib
import TokenMetadata.Proofs.Padding
import TokenMetadata.Proofs.Violations

/-!
# The gate in front of the bytes

What is within the limits is written whole, in a number of bytes that is bounded for each layout, and
nothing else can go wrong. What is not is never cut short: the first violation is reported.
-/

namespace TokenMetadata

theorem Fields.Within.length_write_le {x : Fields String} (h : x.Within) :
    ((Codec.fields .text).write x).length ≤ 1312 := by
  have hname := h.name
  have hsymbol := h.symbol
  have himage := h.image
  have hdescription := h.description
  change (Codec.text.write x.name ++ (Codec.text.write x.symbol ++
    (Codec.text.write x.image ++ Codec.text.write x.description))).length ≤ 1312
  simp only [List.length_append, length_writeText]
  omega

theorem length_writeOptionText_le {o : Option String} {limit : Nat}
    (h : ∀ s, o = some s → s.utf8ByteSize ≤ limit) :
    ((Codec.option .text).write o).length ≤ 5 + limit := by
  cases o with
  | none =>
    change 1 ≤ _
    omega
  | some s =>
    have hs := h s rfl
    change (1 :: Codec.text.write s).length ≤ _
    rw [List.length_cons, length_writeText]
    omega

theorem Fields.PresentWithin.length_write_le {x : Fields (Option String)} (h : x.PresentWithin) :
    (Payload.updateCodec.write x).length ≤ 1316 := by
  have hname := length_writeOptionText_le h.name
  have hsymbol := length_writeOptionText_le h.symbol
  have himage := length_writeOptionText_le h.image
  have hdescription := length_writeOptionText_le h.description
  change ((Codec.option .text).write x.name ++ ((Codec.option .text).write x.symbol ++
    ((Codec.option .text).write x.image ++
      (Codec.option .text).write x.description))).length ≤ 1316
  simp only [List.length_append]
  omega

theorem Attribute.AllWithin.length_write_le {xs : List Attribute} (h : AllWithin xs) :
    (Codec.attributes.write xs).length ≤ 9988 := by
  have htotal := h.totalSize_le
  change (Bytes.ofNatLE 4 xs.length ++ xs.flatMap (Codec.pair .text .text).write).length ≤ 9988
  rw [List.length_append, Bytes.length_ofNatLE, length_flatMap_write]
  omega

namespace Payload

/-- The most bytes that a payload of its shape can have within the limits. -/
def mostBytes : Payload → Nat
  | createMetadata .. => 1314
  | updateMetadata .. => 1317
  | createAttributes .. => 9989
  | replaceAttributes .. => 9989
  | transferAuthority .. => 33
  | makeImmutable => 1

theorem Within.length_write_le {p : Payload} (h : p.Within) : p.write.length ≤ p.mostBytes := by
  rw [write_eq, List.length_cons]
  cases p with
  | createMetadata fields immutable =>
    have hfields := Fields.Within.length_write_le h
    change ((Codec.fields .text).write fields ++ [_]).length + 1 ≤ 1314
    rw [List.length_append, List.length_singleton]
    omega
  | updateMetadata fields => exact Nat.succ_le_succ (Fields.PresentWithin.length_write_le h)
  | createAttributes data => exact Nat.succ_le_succ (Attribute.AllWithin.length_write_le h)
  | replaceAttributes data => exact Nat.succ_le_succ (Attribute.AllWithin.length_write_le h)
  | transferAuthority newAuthority => exact Nat.succ_le_succ newAuthority.length_toBytes.le
  | makeImmutable => exact le_rfl

end Payload

/-- A gate in front of bytes. What is within the limits goes through whole, in a bounded number of
bytes that are read back as it. Anything else is stopped with the first of the violations that are
found in it. -/
structure IsGate {α : Type} (run : Except Fault Bytes) (within : Prop) (found : List Violation)
    (mostBytes : Nat) (decode : Bytes → Except Malformed α) (x : α) : Prop where
  found_nil_iff : found = [] ↔ within
  accepts : within → ∃ b, run = .ok b ∧ b.length ≤ mostBytes ∧ decode b = .ok x
  refuses : ¬ within → ∃ v rest, found = v :: rest ∧ run = .error (.violation v) ∧ v.IsMeasured

theorem IsGate.eq_error {α : Type} {run : Except Fault Bytes} {within : Prop} {mostBytes : Nat}
    {decode : Bytes → Except Malformed α} {x : α} {v : Violation} {rest : List Violation}
    (h : IsGate run within (v :: rest) mostBytes decode x) : run = .error (.violation v) := by
  have hnot : ¬ within := mt h.found_nil_iff.mpr (List.cons_ne_nil v rest)
  obtain ⟨w, others, hfound, hrun, -⟩ := h.refuses hnot
  obtain ⟨rfl, -⟩ := List.cons.inj hfound
  exact hrun

theorem isGate_of_report {α : Type} {run : Except Fault Bytes} {within : Prop}
    {found : List Violation} {mostBytes : Nat} {decode : Bytes → Except Malformed α} {x : α}
    {whole : Bytes} (hrun : run = (report found whole).mapError .violation)
    (hnil : found = [] ↔ within) (hmeasured : ∀ v ∈ found, v.IsMeasured)
    (hlength : within → whole.length ≤ mostBytes) (hdecode : within → decode whole = .ok x) :
    IsGate run within found mostBytes decode x where
  found_nil_iff := hnil
  accepts hw := by
    rw [hnil.mpr hw] at hrun
    exact ⟨whole, hrun, hlength hw, hdecode hw⟩
  refuses hw := by
    obtain ⟨v, rest, rfl⟩ := List.exists_cons_of_ne_nil (mt hnil.mp hw)
    exact ⟨v, rest, rfl, hrun, hmeasured v List.mem_cons_self⟩

theorem Payload.isGate_of_report {p : Payload} {run : Except Fault Bytes}
    (hrun : run = (report p.violations p.write).mapError .violation) :
    IsGate run p.Within p.violations p.mostBytes decode p := by
  refine TokenMetadata.isGate_of_report hrun p.violations_eq_nil_iff
    (fun v => isMeasured_of_violations) Within.length_write_le fun hw => ?_
  simpa using decode_write [] (fits_of_within hw)

namespace Metadata

theorem length_write_le {m : Metadata} (h : m.fields.Within) : (codec.write m).length ≤ 1378 := by
  have hname := h.name
  have hsymbol := h.symbol
  have himage := h.image
  have hdescription := h.description
  rw [length_write, packedSize]
  split <;> omega

theorem encode_eq_report (memory : Nat) (m : Metadata) :
    m.encode memory = (report m.fields.violations (codec.write m)).mapError .violation := by
  have hpack : m.pack = report m.fields.violations (codec.write m) := by
    rw [pack, Fields.accept_eq_report]
    exact report_bind_return _ _ _
  rw [encode, hpack]
  exact lift_report_bind _ _ _ rfl

theorem accept_eq_report (m : Metadata) {mark : Datum} (hmark : mark.isTruthy = m.isInitialized) :
    accept (.bytes m.mint.toBytes) (m.fields.map .text) (m.updateAuthority.map (.bytes ·.toBytes))
      mark = (report m.fields.violations m).mapError .violation := by
  have hmint : Key.accept (.bytes m.mint.toBytes) = .ok m.mint := Key.accept_eq_ok_iff.mpr rfl
  have hauthority :
      (m.updateAuthority.map (.bytes ·.toBytes)).mapM Key.accept = .ok m.updateAuthority := by
    cases m.updateAuthority with
    | none => rfl
    | some k => exact map_eq_ok_iff.mpr ⟨k, Key.accept_eq_ok_iff.mpr rfl, rfl⟩
  rw [accept, Fields.accept_eq_report, hauthority, hmint]
  refine lift_report_bind _ _ _ ?_
  rw [hmark]
  rfl

theorem isGate_of_report {m : Metadata} {run : Except Fault Bytes}
    (hrun : run = (report m.fields.violations (codec.write m)).mapError .violation) :
    IsGate run m.fields.Within m.fields.violations 1378 decode m := by
  refine TokenMetadata.isGate_of_report hrun m.fields.violations_eq_nil_iff
    (fun v => Fields.isMeasured_of_violations) length_write_le fun hw => ?_
  simpa using decode_write [] hw

end Metadata

namespace Attributes

theorem length_write_le {a : Attributes} (h : Attribute.AllWithin a.data) :
    (codec.write a).length ≤ 10021 := by
  have htotal := h.totalSize_le
  rw [length_write, packedSize]
  omega

theorem encode_eq_report (memory : Nat) (a : Attributes) :
    a.encode memory =
      (report (Attribute.allViolations a.data) (codec.write a)).mapError .violation := by
  have hpack : a.pack = report (Attribute.allViolations a.data) (codec.write a) := by
    change (do let data ← Attribute.acceptPairs (a.data.map Attribute.toData); return _) = _
    rw [Attribute.acceptPairs_eq_report]
    exact report_bind_return _ _ _
  rw [encode, hpack]
  exact lift_report_bind _ _ _ rfl

theorem accept_eq_report (a : Attributes) {data mark : Datum} {items : List Datum}
    (hmark : mark.isTruthy = a.isInitialized) (hitems : data.items? = some items)
    (h : List.Forall₂ (fun x pair => Attribute.pair? x = some (Attribute.toData pair)) items
      a.data) :
    accept (.bytes a.mint.toBytes) data mark =
      (report (Attribute.allViolations a.data) a).mapError .violation := by
  have hmint : Key.accept (.bytes a.mint.toBytes) = .ok a.mint := Key.accept_eq_ok_iff.mpr rfl
  rw [accept, Attribute.acceptAll_eq_report hitems h, hmint]
  refine lift_report_bind _ _ _ ?_
  rw [hmark]
  rfl

theorem isGate_of_report {a : Attributes} {run : Except Fault Bytes}
    (hrun : run = (report (Attribute.allViolations a.data) (codec.write a)).mapError .violation) :
    IsGate run (Attribute.AllWithin a.data) (Attribute.allViolations a.data) 10021 decode a := by
  refine TokenMetadata.isGate_of_report hrun (Attribute.allViolations_eq_nil_iff a.data)
    (fun v => Attribute.isMeasured_of_allViolations) length_write_le fun hw => ?_
  simpa using decode_write [] hw

end Attributes

/-- Texts are encoded exactly when they are within the limits; the first violation is reported
otherwise, whatever else is wrong. This holds of drafts and payloads, and of both records whether
they are given as values of any type or not. -/
theorem first_violation_is_reported (memory : Nat) :
    (∀ (d : Draft) (p : Payload), d.normal = p.toDraft →
      IsGate d.encode p.Within p.violations p.mostBytes Payload.decode p) ∧
    (∀ p : Payload, IsGate (p.encode.mapError .violation) p.Within p.violations p.mostBytes
      Payload.decode p) ∧
    (∀ m : Metadata,
      IsGate (m.encode memory) m.fields.Within m.fields.violations 1378 Metadata.decode m ∧
      ∀ mark : Datum, mark.isTruthy = m.isInitialized →
        IsGate
          (do
            let m ← Metadata.accept (.bytes m.mint.toBytes) (m.fields.map .text)
              (m.updateAuthority.map (.bytes ·.toBytes)) mark
            m.encode memory)
          m.fields.Within m.fields.violations 1378 Metadata.decode m) ∧
    (∀ a : Attributes,
      IsGate (a.encode memory) (Attribute.AllWithin a.data) (Attribute.allViolations a.data) 10021
        Attributes.decode a ∧
      ∀ (data mark : Datum) (items : List Datum), mark.isTruthy = a.isInitialized →
        data.items? = some items →
        List.Forall₂ (fun x pair => Attribute.pair? x = some (Attribute.toData pair)) items
          a.data →
        IsGate
          (do
            let a ← Attributes.accept (.bytes a.mint.toBytes) data mark
            a.encode memory)
          (Attribute.AllWithin a.data) (Attribute.allViolations a.data) 10021
          Attributes.decode a) := by
  refine ⟨?_, ?_, ?_, ?_⟩
  · intro d p hd
    refine Payload.isGate_of_report ?_
    rw [Draft.encode, Draft.accept_eq_report hd]
    exact map_lift_report _ _ _
  · intro p
    refine Payload.isGate_of_report ?_
    rw [Payload.encode, Payload.check_eq_report]
    exact congrArg (Except.mapError Fault.violation) (report_bind_return _ _ _)
  · refine fun m => ⟨Metadata.isGate_of_report (m.encode_eq_report memory), fun mark hmark => ?_⟩
    refine Metadata.isGate_of_report ?_
    rw [m.accept_eq_report hmark]
    exact lift_report_bind_lift _ _ _ (m.encode_eq_report memory)
  · refine fun a => ⟨Attributes.isGate_of_report (a.encode_eq_report memory), ?_⟩
    intro data mark items hmark hitems h
    refine Attributes.isGate_of_report ?_
    rw [a.accept_eq_report hmark hitems h]
    exact lift_report_bind_lift _ _ _ (a.encode_eq_report memory)

/-- Of an empty value and of an empty key behind it the first is named, and of a symbol and an image
that are too long the symbol; attributes with nothing wrong are written. -/
theorem first_violation_is_reported_of_several :
    Draft.encode (.createAttributes
        [(.text "k", .text "v"), (.text "k", .text ""), (.text "", .text "v")]) =
      .error (.violation ⟨"attributes[1].value", .empty⟩) ∧
    (do
      let m ← Metadata.accept (.bytes (Key.filled 1).toBytes)
        ⟨.text "é", .text "seventeen letters", .text (String.ofList (List.replicate 513 'i')),
          .text ""⟩ none (.int 7)
      m.encode Bytes.maxSize) = .error (.violation ⟨"symbol", .tooLong 17 (.int 16)⟩) ∧
    ∃ b, (do
      let a ← Attributes.accept (.bytes (Key.filled 1).toBytes)
        (.list [.list [.text "k", .text "é"]]) (.int 7)
      a.encode Bytes.maxSize) = .ok b ∧ b.length ≤ 10021 := by
  refine ⟨?_, ?_, ?_⟩
  · have gate := (first_violation_is_reported Bytes.maxSize).1
      (.createAttributes [(.text "k", .text "v"), (.text "k", .text ""), (.text "", .text "v")])
      (.createAttributes [("k", "v"), ("k", ""), ("", "v")]) rfl
    have hfound : Payload.violations (.createAttributes [("k", "v"), ("k", ""), ("", "v")]) =
        [⟨"attributes[1].value", .empty⟩, ⟨"attributes[2].key", .empty⟩] := by decide +kernel
    rw [hfound] at gate
    exact gate.eq_error
  · have gate := ((first_violation_is_reported Bytes.maxSize).2.2.1
      ⟨.filled 1, ⟨"é", "seventeen letters", String.ofList (List.replicate 513 'i'), ""⟩, none,
        true⟩).2 (.int 7) rfl
    have hfound : Fields.violations
        ⟨"é", "seventeen letters", String.ofList (List.replicate 513 'i'), ""⟩ =
        [⟨"symbol", .tooLong 17 (.int 16)⟩, ⟨"image", .tooLong 513 (.int 512)⟩] := by
      decide +kernel
    rw [hfound] at gate
    exact gate.eq_error
  · have gate := ((first_violation_is_reported Bytes.maxSize).2.2.2
      ⟨.filled 1, [("k", "é")], true⟩).2 (.list [.list [.text "k", .text "é"]]) (.int 7) _
        rfl rfl (.cons rfl .nil)
    obtain ⟨b, hb, hle, -⟩ := gate.accepts (gate.found_nil_iff.mp (by decide +kernel))
    exact ⟨b, hb, hle⟩

end TokenMetadata
