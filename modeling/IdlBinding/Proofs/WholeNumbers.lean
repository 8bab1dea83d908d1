import IdlBinding.Decimal
import IdlBinding.Proofs.Rounding

/-!
# The text of integers

An integer is written with its own decimal digits. The way there leads through the search for the
fewest digits that read back, and the layout of what was found:

* among the multiples of a power of ten next to an integer, one reads back only if it is the
  integer, since small integers are told apart by their numbers (`readsBack_iff`). So the search
  ends at the latest with the integer itself;
* `IsInteger` — a decimal denotes an integer and has no places after the point. The search finds
  such a decimal, dropping zeros keeps it one, and the layout puts the zeros back.
-/

namespace IdlBinding

/-- A factor of ten is a zero at the end. -/
theorem toDigits_mul_pow {n : Nat} (h : 0 < n) (k : Nat) :
    Nat.toDigits 10 (n * 10 ^ k) = Nat.toDigits 10 n ++ List.replicate k '0' := by
  induction k with
  | zero => rw [Nat.pow_zero, Nat.mul_one, List.replicate_zero, List.append_nil]
  | succ k ih =>
    have hpos : 0 < n * 10 ^ k := Nat.mul_pos h (Nat.pow_pos (by decide))
    calc Nat.toDigits 10 (n * 10 ^ (k + 1)) = Nat.toDigits 10 (10 * (n * 10 ^ k) + 0) := by
          rw [Nat.pow_succ, Nat.add_zero, ← Nat.mul_assoc, Nat.mul_comm 10]
      _ = Nat.toDigits 10 (n * 10 ^ k) ++ Nat.toDigits 10 0 :=
          (Nat.toDigits_append_toDigits (by decide) hpos (by decide)).symm
      _ = Nat.toDigits 10 n ++ List.replicate (k + 1) '0' := by
          rw [ih, Nat.toDigits_zero, List.append_assoc, List.replicate_succ']

namespace Decimal

/-- The decimal denotes an integer, and no digit of it is behind the point. -/
def IsInteger (n : Nat) (d : Decimal) : Prop :=
  ∃ k : Nat, d.exponent = k ∧ d.coefficient * 10 ^ k = n

/-! ## Layout -/

theorem IsInteger.stripZeros {n : Nat} {d : Decimal} (h : d.IsInteger n) (fuel : Nat) :
    (stripZeros fuel d).IsInteger n := by
  induction fuel generalizing d with
  | zero => exact h
  | succ fuel ih =>
    rw [Decimal.stripZeros]
    split
    next hzero =>
      obtain ⟨k, hexponent, hvalue⟩ := h
      refine ih ⟨k + 1, by rw [hexponent]; rfl, ?_⟩
      rw [Nat.pow_succ, Nat.mul_comm (10 ^ k), ← Nat.mul_assoc,
        Nat.div_mul_cancel (Nat.dvd_of_mod_eq_zero hzero), hvalue]
    next => exact h

/-- The notation of scripts puts all digits of an integer in their places. -/
theorem IsInteger.script_eq {n : Nat} {d : Decimal} (h : d.IsInteger n) (hpos : 0 < n)
    (hn : n < 10 ^ 21) : d.script = Nat.toDigits 10 n := by
  obtain ⟨k, hexponent, rfl⟩ := h
  have hcoefficient : 0 < d.coefficient := Nat.pos_of_mul_pos_right hpos
  have hdigits := toDigits_mul_pow hcoefficient k
  have hlength : (Nat.toDigits 10 d.coefficient).length + k ≤ 21 := by
    have hle := (Nat.length_toDigits_le_iff (by decide) (by decide)).mpr hn
    rwa [hdigits, List.length_append, List.length_replicate] at hle
  rw [script, hexponent, hdigits, if_pos]
  · congr 2
    omega
  · rw [Bool.and_eq_true, decide_eq_true_iff, decide_eq_true_iff]
    omega

/-! ## Search -/

open Binary64

/-- An integer reads back as another only if it is the other. -/
theorem readsBack_iff {n c k : Nat} (hn : n ≤ 2 ^ 53) (hc : c * 10 ^ k ≤ 2 ^ 53) :
    readsBack (rankOfNat n) ⟨c, k⟩ = true ↔ c * 10 ^ k = n := by
  have hrank : rankOfDecimal c k = rankOfNat (c * 10 ^ k) := by
    rw [rankOfDecimal, rankOfNat, Int.toNat_natCast, Int.toNat_neg_natCast]
    rfl
  rw [readsBack, beq_iff_eq, hrank]
  refine ⟨fun heq => ?_, congrArg rankOfNat⟩
  have hunits := congrArg units heq
  rw [(units_rankOfNat hn).2, (units_rankOfNat hc).2] at hunits
  exact Nat.eq_of_mul_eq_mul_right unitsPerOne_pos hunits

theorem choose_low (nearer : Bool) (low high : Decimal) :
    choose true false nearer low high = some low := by
  cases nearer <;> rfl

theorem choose_none (nearer : Bool) (low high : Decimal) :
    choose false false nearer low high = none := rfl

theorem scaled_integer {n : Nat} (hn : n ≤ 2 ^ 53) (k : Nat) :
    scaled (rankOfNat n) k = (unitsPerOne * n, unitsPerOne * 10 ^ k) := by
  rw [scaled, Int.toNat_natCast, Int.toNat_neg_natCast, (units_rankOfNat hn).2]
  exact Prod.ext ((Nat.mul_one _).trans (Nat.mul_comm n unitsPerOne)) rfl

/-- A power of ten that is no greater than the integer is one to write it with when it divides the
integer. Otherwise neither neighbour will do: one is too small and the other too great. -/
theorem candidate?_integer {n k : Nat} (hn : n ≤ 2 ^ 52) (hk : 10 ^ k ≤ n) :
    candidate? (rankOfNat n) k = if 10 ^ k ∣ n then some ⟨n / 10 ^ k, k⟩ else none := by
  have hpow : 0 < 10 ^ k := Nat.pow_pos (by decide)
  have hdivide := Nat.div_add_mod n (10 ^ k)
  have hmod := Nat.mod_lt n hpow
  rw [Nat.mul_comm] at hdivide
  have hhigh : (n / 10 ^ k + 1) * 10 ^ k = n / 10 ^ k * 10 ^ k + 10 ^ k := Nat.succ_mul _ _
  have hlow_iff : readsBack (rankOfNat n) ⟨n / 10 ^ k, k⟩ = true ↔ 10 ^ k ∣ n := by
    rw [readsBack_iff (by omega) (by omega), Nat.dvd_iff_mod_eq_zero]
    omega
  have hhigh_false : readsBack (rankOfNat n) ⟨n / 10 ^ k + 1, k⟩ = false := by
    rw [← Bool.not_eq_true, readsBack_iff (by omega) (by omega)]
    omega
  have hscaled := scaled_integer (by omega : n ≤ 2 ^ 53) k
  simp only [candidate?, hscaled, Nat.mul_div_mul_left n (10 ^ k) unitsPerOne_pos, hhigh_false]
  by_cases hdvd : 10 ^ k ∣ n
  · simp only [hlow_iff.mpr hdvd, if_pos hdvd, choose_low]
  · have hlow_false := Bool.eq_false_iff.mpr fun htrue => hdvd (hlow_iff.mp htrue)
    simp only [hlow_false, if_neg hdvd, choose_none]

/-- The search ends with a decimal of the integer, at the latest when it comes to single units. -/
theorem search_integer {n k fuel : Nat} (hn : n ≤ 2 ^ 52) (hk : 10 ^ k ≤ n) (hfuel : k < fuel) :
    (search (rankOfNat n) fuel k).IsInteger n := by
  induction k generalizing fuel with
  | zero =>
    obtain ⟨fuel, rfl⟩ := Nat.exists_eq_add_of_lt hfuel
    rw [search, candidate?_integer hn hk, if_pos ⟨n, (Nat.one_mul n).symm⟩]
    exact ⟨0, rfl, by rw [Option.getD_some, Nat.pow_zero, Nat.div_one, Nat.mul_one]⟩
  | succ k ih =>
    obtain ⟨fuel, rfl⟩ := Nat.exists_eq_add_of_lt hfuel
    rw [search, candidate?_integer hn hk]
    by_cases hdvd : 10 ^ (k + 1) ∣ n
    · rw [if_pos hdvd]
      exact ⟨k + 1, rfl, Nat.div_mul_cancel hdvd⟩
    · rw [if_neg hdvd, Option.getD_none]
      have hsmaller : 10 ^ k ≤ n :=
        Nat.le_trans (Nat.pow_le_pow_right (by decide) (Nat.le_succ k)) hk
      have hexponent : ((k + 1 : Nat) : Int) - 1 = k := by omega
      rw [hexponent]
      exact ih hsmaller (by omega)

/-- The digits of an integer with zeros behind the point, as many as are asked for. -/
theorem decimalLength_scaled {n : Nat} (hpos : 0 < n) (hn : n ≤ 2 ^ 53) (k : Nat) :
    decimalLength ((scaled (rankOfNat n) (-(k : Int))).1 / (scaled (rankOfNat n) (-(k : Int))).2) =
      (Nat.toDigits 10 n).length + k := by
  have hquotient : (scaled (rankOfNat n) (-(k : Int))).1 / (scaled (rankOfNat n) (-(k : Int))).2 =
      n * 10 ^ k := by
    simp only [scaled, Int.neg_neg, Int.toNat_natCast, Int.toNat_neg_natCast, Nat.pow_eq,
      (units_rankOfNat hn).2, Nat.pow_zero, Nat.mul_one]
    rw [Nat.mul_right_comm, Nat.mul_div_cancel _ unitsPerOne_pos]
  rw [hquotient, decimalLength, toDigits_mul_pow hpos, List.length_append, List.length_replicate]

/-- The point stands behind the last digit of an integer. -/
theorem pointPosition_integer {n : Nat} (hpos : 0 < n) (hn : n ≤ 2 ^ 53) :
    pointPosition (rankOfNat n) = (Nat.toDigits 10 n).length := by
  have hlength : decimalLength ((scaled (rankOfNat n) (-400)).1 /
      (scaled (rankOfNat n) (-400)).2) = (Nat.toDigits 10 n).length + 400 :=
    decimalLength_scaled hpos hn 400
  rw [pointPosition, hlength]
  omega

/-- **The fewest digits of an integer** denote it, and none of them is behind the point. -/
theorem shortest_integer {n : Nat} (hpos : 0 < n) (hn : n ≤ 2 ^ 52) :
    (shortest (rankOfNat n)).IsInteger n := by
  obtain ⟨k, hlength⟩ : ∃ k, (Nat.toDigits 10 n).length = k + 1 :=
    ⟨_, (Nat.sub_add_cancel Nat.length_toDigits_pos).symm⟩
  have hexponent : pointPosition (rankOfNat n) - 1 = k := by
    rw [pointPosition_integer hpos (by omega), hlength]
    omega
  have hk : 10 ^ k ≤ n := by
    rcases Nat.eq_zero_or_pos k with rfl | hk
    · exact hpos
    · refine Nat.le_of_not_lt fun hlt => ?_
      have hshorter := (Nat.length_toDigits_le_iff (by decide) hk).mpr hlt
      omega
  have hfuel : (Nat.toDigits 10 n).length ≤ 16 :=
    (Nat.length_toDigits_le_iff (by decide) (by decide)).mpr (by omega)
  rw [shortest, hexponent]
  exact (search_integer hn hk (by omega)).stripZeros _

end Decimal

/-! ## Numbers -/

namespace Binary64

theorem IsInteger.eq_rankOfNat {negative : Bool} {n : Nat} {x : Binary64}
    (h : x.IsInteger negative n) (hn : n ≤ 2 ^ 53) :
    ∃ rank : Fin finiteRanks, x = .finite negative rank ∧ rank = rankOfNat n := by
  cases x with
  | nan => cases h
  | infinite sign => cases h
  | finite sign rank =>
    obtain ⟨rfl, hrank⟩ := h
    refine ⟨rank, rfl, units_strictMono.injective ?_⟩
    rw [hrank, (units_rankOfNat hn).2]

theorem rankOfNat_eq_zero_iff {n : Nat} (hn : n ≤ 2 ^ 53) : rankOfNat n = 0 ↔ n = 0 := by
  have hunits := (units_rankOfNat hn).2
  refine ⟨fun hzero => ?_, fun hzero => ?_⟩
  · rw [hzero, units_of_lt (Nat.two_pow_pos 52)] at hunits
    exact (Nat.mul_eq_zero.mp hunits.symm).resolve_right (Nat.pos_iff_ne_zero.mp unitsPerOne_pos)
  · rw [hzero, Nat.zero_mul] at hunits
    refine units_strictMono.injective ?_
    rw [hzero, hunits, units_of_lt (Nat.two_pow_pos 52)]

theorem IsInteger.isZero_iff {negative : Bool} {n : Nat} {x : Binary64}
    (h : x.IsInteger negative n) (hn : n ≤ 2 ^ 53) : x.isZero = true ↔ n = 0 := by
  obtain ⟨rank, rfl, hrank⟩ := h.eq_rankOfNat hn
  rw [isZero, beq_iff_eq, hrank, rankOfNat_eq_zero_iff hn]

/-- **An integer is written with its decimal digits**, and with a sign unless it is zero. -/
theorem IsInteger.scriptText_eq {negative : Bool} {n : Nat} {x : Binary64}
    (h : x.IsInteger negative n) (hn : n ≤ 2 ^ 52) :
    x.scriptText = signed (negative && n ≠ 0) (Nat.toDigits 10 n) := by
  obtain ⟨rank, rfl, hrank⟩ := h.eq_rankOfNat (by omega)
  rw [scriptText, hrank]
  rcases Nat.eq_zero_or_pos n with rfl | hpos
  · rw [if_pos ((rankOfNat_eq_zero_iff (by omega)).mpr rfl), Nat.toDigits_zero]
    cases negative <;> rfl
  · have hne : n ≠ 0 := Nat.pos_iff_ne_zero.mp hpos
    rw [if_neg fun hzero => hne ((rankOfNat_eq_zero_iff (by omega)).mp hzero),
      (Decimal.shortest_integer hpos hn).script_eq hpos (by omega), decide_eq_true hne,
      Bool.and_true]

end Binary64

end IdlBinding
