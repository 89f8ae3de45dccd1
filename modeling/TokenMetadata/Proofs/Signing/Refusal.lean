import Mathlib
import TokenMetadata.Proofs.Signing.Networks

/-!
# What keeps a message from being signed

The network, the form and the length of the key, the range of its number, and three guards on
hashes. The checks of the address and of the witness stack that stand behind these never fail: the
address is the key's own, and the stack holds a whole signature. The message is no reason by itself;
an empty one is signed like any other.
-/

namespace TokenMetadata

open Curve Taproot

/-- The faults of a network, of a key, and of hashes. Those of addresses and of witness stacks are
not among them. -/
def SigningFault.IsOfKey : SigningFault → Prop
  | unknownNetwork _ | keyNotHex | keyKind _ | keyLength _ | invalidScalar => True
  | tweakOutOfRange | tweakedAtInfinity | nonceZero => True
  | _ => False

namespace Network

theorem accept_eq_ok_iff {v : Datum} {n : Network} : accept v = .ok n ↔ v = .text n.name := by
  constructor
  · intro h
    unfold accept at h
    split at h
    · split at h
      · rename_i hfound
        obtain rfl := Except.ok.inj h
        have hname := List.find?_some hfound
        rw [decide_eq_true_eq.mp hname]
      · cases h
    · cases h
  · rintro rfl
    exact accept_name n

theorem accept_unknown {v : Datum} (h : ∀ n : Network, v ≠ .text n.name) :
    accept v = .error (.unknownNetwork v) := by
  cases haccept : accept v with
  | ok n => exact absurd (accept_eq_ok_iff.mp haccept) (h n)
  | error f =>
    unfold accept at haccept
    split at haccept
    · split at haccept
      · cases haccept
      · exact haccept.symm
    · exact haccept.symm

end Network

namespace Taproot

/-- The number that the key of a secret is tweaked with. -/
def tweakOf (d : Nat) : Nat := tweak (xBytes (Point.ofScalar d))

/-- A secret is tweaked when it passes the two guards. -/
theorem exists_tweakSecret_iff {d : Nat} (hpos : 0 < d) (hlt : d < groupOrder) :
    (∃ own, tweakSecret d = .ok own) ↔ tweakOf d < groupOrder ∧
      (evenSecret d (Point.ofScalar d) + tweakOf d) % groupOrder ≠ 0 := by
  constructor
  · rintro ⟨⟨t, own⟩, h⟩
    obtain ⟨d', p, hd', rfl, -, hrange, ht, htpos, -⟩ := tweakSecret_eq_ok_iff.mp h
    obtain rfl : d = d' := (toNat_emod_order hlt).symm.trans hd'
    exact ⟨hrange, ht ▸ htpos.ne'⟩
  · rintro ⟨hrange, hne⟩
    exact ⟨_, tweakSecret_eq_ok_iff.mpr ⟨d, _, toNat_emod_order hlt, rfl,
      ofScalar_ne_infinity hpos hlt, hrange, rfl, Nat.pos_of_ne_zero hne, rfl⟩⟩

end Taproot

theorem Schnorr.eq_nonceZero_of_sign {m aux : Bytes} {d : Nat} {f : SigningFault} (hpos : 0 < d)
    (hlt : d < groupOrder) (h : sign m d aux = .error f) : f = .nonceZero := by
  by_cases hnonce : nonce (evenSecret d (Point.ofScalar d)) (xBytes (Point.ofScalar d)) m aux = 0
  · rw [sign_of_nonce_zero hpos hlt hnonce] at h
    exact (Except.error.inj h).symm
  · have hsign := sign_eq_ok_iff.mpr
      ⟨d, rfl, hpos, hlt, _, rfl, Nat.pos_of_ne_zero hnonce, rfl⟩
    cases hsign.symm.trans h

namespace PrivateKey

variable {memory : Nat} {key message network : Datum} {k k' m : Bytes} {f : SigningFault}
  {e : Fault}

theorem IsForm.unique (h : IsForm k key) (h' : IsForm k' key) : k = k' :=
  Except.ok.inj ((bytes_form h).symm.trans (bytes_form h'))

/-- The reasons for which a message is not signed. -/
inductive IsRefused (m : Bytes) (key network : Datum) : Prop
  | network : (∀ n : Network, network ≠ .text n.name) → IsRefused m key network
  | form : (∀ k, ¬ IsForm k key) → IsRefused m key network
  | length {k : Bytes} : IsForm k key → k.length ≠ 32 → IsRefused m key network
  | zero {k : Bytes} : IsForm k key → Bytes.toNatBE k = 0 → IsRefused m key network
  | large {k : Bytes} : IsForm k key → groupOrder ≤ Bytes.toNatBE k → IsRefused m key network
  | tweakRange {k : Bytes} {d : Nat} : IsForm k key → Bytes.toNatBE k = d →
      groupOrder ≤ tweakOf d → IsRefused m key network
  | tweakedZero {k : Bytes} {d : Nat} : IsForm k key → Bytes.toNatBE k = d →
      (evenSecret d (Point.ofScalar d) + tweakOf d) % groupOrder = 0 → IsRefused m key network
  | nonceZero {k : Bytes} {d : Nat} : IsForm k key → Bytes.toNatBE k = d →
      NonceIsZero d m .all → IsRefused m key network

theorem isOfKey_of_bytes (h : bytes key = .error f) : f.IsOfKey := by
  unfold bytes at h
  split at h
  · split at h
    · cases h
    · obtain rfl := Except.error.inj h
      trivial
  · cases h
  · obtain rfl := Except.error.inj h
    trivial

theorem isOfKey_of_scalar (h : scalar key = .error f) : f.IsOfKey := by
  rcases bind_eq_error_iff.mp h with hsecret | ⟨k, -, hrange⟩
  · rcases bind_eq_error_iff.mp hsecret with hbytes | ⟨k, -, hlength⟩
    · exact isOfKey_of_bytes hbytes
    · split at hlength
      · obtain rfl := Except.error.inj hlength
        trivial
      · cases hlength
  · split at hrange
    · cases hrange
    · obtain rfl := Except.error.inj hrange
      trivial

theorem signTweaked_eq_ok_iff {sig : Bytes} :
    signTweaked key m = .ok sig ↔ ∃ d own t own', scalar key = .ok d ∧
      outputKey (xBytes (Point.ofScalar d)) = .ok own ∧ tweakSecret d = .ok (t, own') ∧
        Schnorr.sign (Simple.signedHash own m .all) t = .ok sig := by
  simp only [signTweaked, bind_eq_ok_iff, liftSigning_eq_ok_iff, Prod.exists, exists_and_left]

/-- A key signs when its number can be tweaked and the nonce does not come to zero. -/
theorem exists_signTweaked_iff :
    (∃ sig, signTweaked key m = .ok sig) ↔ ∃ d, scalar key = .ok d ∧
      (∃ own, tweakSecret d = .ok own) ∧ ¬ NonceIsZero d m .all := by
  constructor
  · rintro ⟨sig, h⟩
    obtain ⟨d, own, t, own', hscalar, hown, htweak, hsign⟩ := signTweaked_eq_ok_iff.mp h
    obtain ⟨-, -, -, -, hpos, hlt⟩ := scalar_eq_ok_iff.mp hscalar
    obtain rfl : own' = own :=
      Except.ok.inj ((outputKey_of_tweakSecret hpos hlt htweak).symm.trans hown)
    refine ⟨d, hscalar, ⟨_, htweak⟩, fun hnonce => ?_⟩
    have hstack := Simple.witness_of_nonceIsZero htweak hnonce
    cases hstack.symm.trans (Simple.witness_eq_ok_iff.mpr ⟨sig, hsign, rfl⟩)
  · rintro ⟨d, hscalar, ⟨⟨t, own⟩, htweak⟩, hnonce⟩
    obtain ⟨-, -, -, -, hpos, hlt⟩ := scalar_eq_ok_iff.mp hscalar
    obtain ⟨stack, hstack⟩ := Simple.exists_witness htweak hnonce
    obtain ⟨sig, hsign, -⟩ := Simple.witness_eq_ok_iff.mp hstack
    have hown := outputKey_of_tweakSecret hpos hlt htweak
    exact ⟨sig, signTweaked_eq_ok_iff.mpr ⟨d, own, t, own, hscalar, hown, htweak, hsign⟩⟩

theorem isOfKey_of_signTweaked (h : signTweaked key m = .error e) :
    ∃ f : SigningFault, e = .signing f ∧ f.IsOfKey := by
  rcases bind_eq_error_iff.mp h with hscalar | ⟨d, hscalar, h⟩
  · obtain ⟨f, hf, rfl⟩ := liftSigning_eq_error_iff.mp hscalar
    exact ⟨f, rfl, isOfKey_of_scalar hf⟩
  obtain ⟨-, -, -, -, hpos, hlt⟩ := scalar_eq_ok_iff.mp (liftSigning_eq_ok_iff.mp hscalar)
  rcases bind_eq_error_iff.mp h with hown | ⟨own, hown, h⟩
  · obtain ⟨f, hf, rfl⟩ := liftSigning_eq_error_iff.mp hown
    refine ⟨f, rfl, ?_⟩
    rcases outputKey_eq_error hf with hlift | hguard
    · -- the key of a scalar is on the curve
      cases hlift.symm.trans (lift_xBytes_ofScalar hpos hlt)
    · simp only [List.mem_cons, List.not_mem_nil, or_false] at hguard
      rcases hguard with rfl | rfl
      · trivial
      · trivial
  obtain ⟨t, htweak⟩ := (outputKey_ofScalar_iff hpos hlt).mp (liftSigning_eq_ok_iff.mp hown)
  obtain ⟨htpos, htlt, -⟩ := tweakSecret_ok htweak
  rw [htweak] at h
  obtain ⟨f, hf, rfl⟩ := liftSigning_eq_error_iff.mp h
  obtain rfl := Schnorr.eq_nonceZero_of_sign htpos htlt hf
  exact ⟨_, rfl, trivial⟩

/-- On a known network a message is signed without its address. -/
theorem sign_eq_signTweaked (hm : messageBytes memory message = .ok m) (n : Network) :
    sign memory key message (.text n.name) = signTweaked key m := by
  rw [sign_of_messageBytes hm, signOn_eq_signTweaked]

theorem length_of_sign {sig : Bytes} (h : sign memory key message network = .ok sig) :
    sig.length = 64 := by
  obtain ⟨n, m, -, -, hsign⟩ := sign_eq_ok_iff.mp h
  exact length_of_signOn hsign

theorem sign_of_unknown (h : ∀ n : Network, network ≠ .text n.name) :
    sign memory key message network = .error (.signing (.unknownNetwork network)) := by
  rw [sign, Network.accept_unknown h, liftSigning_error, error_bind]

/-- What is not refused is a key on a network that passes every check. -/
theorem exists_sign_iff (hm : messageBytes memory message = .ok m) :
    (∃ sig, sign memory key message network = .ok sig) ↔ ¬ IsRefused m key network := by
  constructor
  · rintro ⟨sig, h⟩ hrefused
    obtain ⟨n, m', hnetwork, hm', hsign⟩ := sign_eq_ok_iff.mp h
    obtain rfl := Except.ok.inj (hm.symm.trans hm')
    rw [signOn_eq_signTweaked] at hsign
    obtain ⟨d, hscalar, htweak, hnonce⟩ := exists_signTweaked_iff.mp ⟨sig, hsign⟩
    obtain ⟨k, hform, hlength, hvalue, hpos, hlt⟩ := scalar_eq_ok_iff.mp hscalar
    obtain ⟨hrange, hne⟩ := (exists_tweakSecret_iff hpos hlt).mp htweak
    -- a run that signs has passed the check behind each reason
    cases hrefused with
    | network hunknown => exact hunknown n (Network.accept_eq_ok_iff.mp hnetwork)
    | form hnone => exact hnone k hform
    | length hform' hother => exact hother (hform.unique hform' ▸ hlength)
    | zero hform' hzero =>
      obtain rfl := hform.unique hform'
      omega
    | large hform' hlarge =>
      obtain rfl := hform.unique hform'
      omega
    | tweakRange hform' hvalue' hlarge =>
      obtain rfl := hform.unique hform'
      obtain rfl := hvalue.symm.trans hvalue'
      omega
    | tweakedZero hform' hvalue' hzero =>
      obtain rfl := hform.unique hform'
      obtain rfl := hvalue.symm.trans hvalue'
      exact hne hzero
    | nonceZero hform' hvalue' hzero =>
      obtain rfl := hform.unique hform'
      obtain rfl := hvalue.symm.trans hvalue'
      exact hnonce hzero
  · -- without any of the reasons each check is passed in its turn
    intro h
    obtain ⟨n, rfl⟩ : ∃ n : Network, network = .text n.name := by
      by_contra hnone
      exact h (.network (not_exists.mp hnone))
    obtain ⟨k, hform⟩ : ∃ k, IsForm k key := by
      by_contra hnone
      exact h (.form (not_exists.mp hnone))
    have hlength : k.length = 32 := by
      by_contra hother
      exact h (.length hform hother)
    have hpos : 0 < Bytes.toNatBE k := Nat.pos_of_ne_zero fun hzero => h (.zero hform hzero)
    have hlt : Bytes.toNatBE k < groupOrder := not_le.mp fun hlarge => h (.large hform hlarge)
    have hrange : tweakOf (Bytes.toNatBE k) < groupOrder :=
      not_le.mp fun hlarge => h (.tweakRange hform rfl hlarge)
    have htweak := (exists_tweakSecret_iff hpos hlt).mpr
      ⟨hrange, fun hzero => h (.tweakedZero hform rfl hzero)⟩
    have hscalar := scalar_eq_ok_iff.mpr ⟨k, hform, hlength, rfl, hpos, hlt⟩
    obtain ⟨sig, hsign⟩ := exists_signTweaked_iff.mpr
      ⟨_, hscalar, htweak, fun hzero => h (.nonceZero hform rfl hzero)⟩
    exact ⟨sig, (sign_eq_signTweaked hm n).trans hsign⟩

/-- A run that does not sign reports a fault of the network, of the key, or of a hash. -/
theorem exists_isOfKey_of_sign (hm : messageBytes memory message = .ok m)
    (h : sign memory key message network = .error e) :
    ∃ f : SigningFault, e = .signing f ∧ f.IsOfKey := by
  by_cases hknown : ∃ n : Network, network = .text n.name
  · obtain ⟨n, rfl⟩ := hknown
    rw [sign_eq_signTweaked hm] at h
    exact isOfKey_of_signTweaked h
  · rw [sign_of_unknown (not_exists.mp hknown)] at h
    exact ⟨_, (Except.error.inj h).symm, trivial⟩

/-- How signing ends: with a whole signature, or with a signing fault for one of the reasons, which
is never a fault of the address or of the witness stack. -/
structure SignsOrRefuses (m : Bytes) (key network : Datum) (run : Except Fault Bytes) : Prop where
  refused_iff : (∃ f, run = .error (.signing f)) ↔ IsRefused m key network
  returns : ¬ IsRefused m key network → ∃ sig, run = .ok sig ∧ sig.length = 64
  ofKey : ∀ e, run = .error e → ∃ f : SigningFault, e = .signing f ∧ f.IsOfKey
  controlled : ∀ address, run ≠ .error (.signing (.notControlled address))
  whole : ∀ size, run ≠ .error (.signing (.witnessShort size))

/-- Nothing but the network, the key and the guards on hashes keeps a message from being signed. -/
theorem messages_are_signed_or_refused (hm : messageBytes memory message = .ok m) :
    SignsOrRefuses m key network (sign memory key message network) where
  refused_iff := by
    rw [← not_iff_not, ← exists_sign_iff hm]
    constructor
    · intro hnone
      refine exists_eq_ok_iff.mpr fun e he => ?_
      obtain ⟨f, rfl, -⟩ := exists_isOfKey_of_sign hm he
      exact hnone ⟨f, he⟩
    · rintro ⟨sig, hsig⟩ ⟨f, hf⟩
      cases hsig.symm.trans hf
  returns := by
    intro h
    obtain ⟨sig, hsig⟩ := (exists_sign_iff hm).mpr h
    exact ⟨sig, hsig, length_of_sign hsig⟩
  ofKey _ := exists_isOfKey_of_sign hm
  controlled address h := by
    obtain ⟨f, hf, hkey⟩ := exists_isOfKey_of_sign hm h
    cases hf
    exact hkey
  whole size h := by
    obtain ⟨f, hf, hkey⟩ := exists_isOfKey_of_sign hm h
    cases hf
    exact hkey

/-- Zero is no scalar, so nothing is signed with it, and the same message is signed with one. -/
theorem messages_are_signed_or_refused_zero :
    (∃ f, sign Bytes.maxSize (.bytes (List.replicate 32 0)) (.text "arch") (.text "regtest") =
      .error (.signing f) ∧ f.IsOfKey) ∧
    ¬ IsRefused (Bytes.ofText "arch") (.bytes (Bytes.ofNatBE 32 1)) (.text "regtest") ∧
    ∃ sig, sign Bytes.maxSize (.bytes (Bytes.ofNatBE 32 1)) (.text "arch") (.text "regtest") =
      .ok sig ∧ sig.length = 64 := by
  constructor
  · have hruns : SignsOrRefuses (Bytes.ofText "arch") (.bytes (List.replicate 32 0))
        (.text "regtest") (sign Bytes.maxSize (.bytes (List.replicate 32 0)) (.text "arch")
          (.text "regtest")) :=
      messages_are_signed_or_refused rfl
    obtain ⟨f, hf⟩ := hruns.refused_iff.mpr (.zero .bytes (by decide))
    obtain ⟨f', hsame, hkey⟩ := hruns.ofKey _ hf
    cases hsame
    exact ⟨f, hf, hkey⟩
  · have hruns : SignsOrRefuses (Bytes.ofText "arch") (.bytes (Bytes.ofNatBE 32 1))
        (.text "regtest") (sign Bytes.maxSize (.bytes (Bytes.ofNatBE 32 1)) (.text "arch")
          (.text "regtest")) :=
      messages_are_signed_or_refused rfl
    obtain ⟨sig, -, hsign⟩ := sign_one Bytes.maxSize (.text "arch") rfl (by simp [samples])
    have hnone : ¬ IsRefused (Bytes.ofText "arch") (.bytes (Bytes.ofNatBE 32 1))
        (.text "regtest") := by
      intro hrefused
      obtain ⟨f, hf⟩ := hruns.refused_iff.mpr hrefused
      cases hsign.symm.trans hf
    exact ⟨hnone, hruns.returns hnone⟩

/-- The message without characters is signed with the least scalar. -/
theorem empty_message_is_signed :
    ∃ sig, sign Bytes.maxSize (.bytes (Bytes.ofNatBE 32 1)) (.text "") (.text "regtest") =
      .ok sig ∧ sig.length = 64 := by
  obtain ⟨sig, hlength, hsign⟩ := sign_one Bytes.maxSize (.text "") rfl (by decide)
  exact ⟨sig, hsign, hlength⟩

end PrivateKey

end TokenMetadata
