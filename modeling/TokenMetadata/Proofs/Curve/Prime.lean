import Mathlib
import TokenMetadata.Curve.Point

/-!
# The field and the group have prime size

A number is prime when some base has full order modulo it, which is seen from its powers to the
predecessor divided by each prime factor of the predecessor. The powers are the curve's own.
-/

namespace TokenMetadata.Curve

theorem powBits_eq (m : Nat) {width e : Nat} (b : Nat) (h : e < 2 ^ width) :
    powBits m width b e = b ^ e % m := by
  induction width generalizing b e with
  | zero =>
    obtain rfl : e = 0 := by simpa using h
    rw [powBits, pow_zero]
  | succ width ih =>
    have hhalf : e / 2 < 2 ^ width := by
      rw [pow_succ] at h
      omega
    have hsquare : (b * b % m) ^ (e / 2) % m = b ^ (2 * (e / 2)) % m := by
      rw [← Nat.pow_mod, ← sq, ← pow_mul]
    rw [powBits, ih _ hhalf, hsquare]
    rcases Nat.mod_two_eq_zero_or_one e with heven | hodd
    · have he : 2 * (e / 2) = e := by omega
      rw [heven, if_neg (by decide), he]
    · have he : 2 * (e / 2) + 1 = e := by omega
      rw [if_pos hodd, Nat.mul_mod_mod, ← pow_succ', he]

theorem powMod_eq (m b e : Nat) : powMod m b e = b ^ e % m := by
  rw [powMod, powBits_eq m _ Nat.lt_log2_self, ← Nat.pow_mod]

/-- A number with a base of full order, and prime factors whose product is one less. -/
structure Certificate where
  number : Nat
  base : Nat
  factors : List Nat

namespace Certificate

/-- The powers of the base show that its order is full, if the factors are prime. -/
def Holds (c : Certificate) : Prop :=
  1 < c.number ∧ c.factors.prod + 1 = c.number ∧ powMod c.number c.base (c.number - 1) = 1 ∧
    ∀ q ∈ c.factors, powMod c.number c.base ((c.number - 1) / q) ≠ 1

instance (c : Certificate) : Decidable c.Holds := inferInstanceAs (Decidable (_ ∧ _))

theorem pow_eq_one_iff {n : Nat} (hn : 1 < n) (b e : Nat) :
    (b : ZMod n) ^ e = 1 ↔ powMod n b e = 1 := by
  rw [powMod_eq, ← Nat.cast_pow, ← Nat.cast_one, ZMod.natCast_eq_natCast_iff', Nat.mod_eq_of_lt hn]

theorem prime_of_holds {c : Certificate} (h : c.Holds) (factors : ∀ q ∈ c.factors, q.Prime) :
    c.number.Prime := by
  obtain ⟨hn, hprod, hfull, hpart⟩ := h
  have hpred : c.number - 1 = c.factors.prod := by omega
  refine lucas_primality c.number (c.base : ZMod c.number) ?_ ?_
  · exact (pow_eq_one_iff hn _ _).mpr hfull
  · intro q hq hdvd
    rw [hpred] at hdvd
    obtain ⟨r, hr, hqr⟩ := (Prime.dvd_prod_iff hq.prime).mp hdvd
    obtain rfl : q = r := (Nat.prime_dvd_prime_iff_eq hq (factors r hr)).mp hqr
    exact fun hone => hpart q hr ((pow_eq_one_iff hn _ _).mp hone)

end Certificate

/-- Trial division from `d` on, until the square of the divisor is larger. -/
def undivided (n : Nat) : (fuel d : Nat) → Bool
  | 0, _ => false
  | fuel + 1, d => n.blt (d * d) || (!(n % d).beq 0 && undivided n fuel (d + 1))

theorem prime_of_undivided {n fuel : Nat} (hn : 2 ≤ n) (h : undivided n fuel 2 = true) :
    n.Prime := by
  -- What trial division has passed without a divisor is no divisor.
  have key : ∀ fuel d, undivided n fuel d = true → ∀ m, d ≤ m → m * m ≤ n → ¬ m ∣ n := by
    intro fuel
    induction fuel with
    | zero => simp [undivided]
    | succ fuel ih =>
      intro d hd m hm hsquare hdvd
      have hcases : n < d * d ∨ n % d ≠ 0 ∧ undivided n fuel (d + 1) = true := by
        simpa only [undivided, Bool.or_eq_true, Bool.and_eq_true, Nat.blt_eq, Bool.not_eq_true',
          ← Bool.not_eq_true, Nat.beq_eq] using hd
      rcases hcases with hlarge | ⟨hrem, hrest⟩
      · have : d * d ≤ m * m := Nat.mul_le_mul hm hm
        omega
      · rcases Nat.eq_or_lt_of_le hm with rfl | hlt
        · exact hrem (Nat.mod_eq_zero_of_dvd hdvd)
        · exact ih (d + 1) hrest m hlt hsquare hdvd
  refine Nat.prime_def_le_sqrt.mpr ⟨hn, fun m hm hsqrt => key fuel 2 h m hm ?_⟩
  exact Nat.le_sqrt.mp hsqrt

/-- Every factor of a certificate is certified by one behind it, or small. -/
def certified : List Certificate → Bool
  | [] => true
  | c :: cs => certified cs && decide c.Holds && c.factors.all fun q =>
      (cs.map (·.number)).contains q || (2 ≤ q && undivided q 4000 2)

theorem prime_of_certified (cs : List Certificate) (h : certified cs = true) :
    ∀ c ∈ cs, c.number.Prime := by
  induction cs with
  | nil => simp
  | cons c cs ih =>
    simp only [certified, Bool.and_eq_true, decide_eq_true_eq, List.all_eq_true, Bool.or_eq_true,
      List.contains_iff_mem, List.mem_map] at h
    obtain ⟨⟨hrest, hholds⟩, hfactors⟩ := h
    refine List.forall_mem_cons.mpr ⟨Certificate.prime_of_holds hholds fun q hq => ?_, ih hrest⟩
    rcases hfactors q hq with ⟨d, hd, rfl⟩ | ⟨hle, hsmall⟩
    · exact ih hrest d hd
    · exact prime_of_undivided hle hsmall

def fieldCertificates : List Certificate :=
  [⟨fieldPrime, 3, [2, 3, 7, 13441,
      205115282021455665897114700593932402728804164701536103180137503955397371]⟩,
    ⟨205115282021455665897114700593932402728804164701536103180137503955397371, 10,
      [2, 3, 5, 29, 29, 31, 7723, 132896956044521568488119,
        255515944373312847190720520512484175977]⟩,
    ⟨255515944373312847190720520512484175977, 3,
      [2, 2, 2, 7, 7, 11, 1627, 2657, 4423, 41201, 96557, 7240687, 107590001]⟩,
    ⟨132896956044521568488119, 6, [2, 3, 22149492674086928081353]⟩,
    ⟨22149492674086928081353, 5, [2, 2, 2, 3, 5323, 173378833005251801]⟩,
    ⟨173378833005251801, 6, [2, 2, 2, 5, 5, 2621, 24809, 13331831]⟩,
    ⟨107590001, 3, [2, 2, 2, 2, 5, 5, 5, 5, 7, 29, 53]⟩]

def orderCertificates : List Certificate :=
  [⟨groupOrder, 7, [2, 2, 2, 2, 2, 2, 3, 149, 631, 107361793816595537, 174723607534414371449,
      341948486974166000522343609283189]⟩,
    ⟨341948486974166000522343609283189, 2, [2, 2, 3, 3, 3, 109, 29047611873442575647497758179]⟩,
    ⟨29047611873442575647497758179, 2, [2, 293, 305873, 545358713, 297159362677]⟩,
    ⟨174723607534414371449, 3, [2, 2, 2, 17, 59, 4051, 120233, 44706919]⟩,
    ⟨107361793816595537, 3, [2, 2, 2, 2, 16699, 85831, 4681609]⟩,
    ⟨297159362677, 2, [2, 2, 3, 3, 11, 461, 1627771]⟩,
    ⟨545358713, 5, [2, 2, 2, 41, 59, 28181]⟩,
    ⟨44706919, 6, [2, 3, 797, 9349]⟩]

theorem prime_fieldPrime : fieldPrime.Prime :=
  prime_of_certified fieldCertificates (by decide +kernel) _ List.mem_cons_self

theorem prime_groupOrder : groupOrder.Prime :=
  prime_of_certified orderCertificates (by decide +kernel) _ List.mem_cons_self

instance : Fact fieldPrime.Prime := ⟨prime_fieldPrime⟩

end TokenMetadata.Curve
