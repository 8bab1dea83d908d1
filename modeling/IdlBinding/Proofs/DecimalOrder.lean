import IdlBinding.Decimal
import IdlBinding.Proofs.Rounding
import Mathlib.Algebra.Order.Floor.Semifield
import Mathlib.Data.Rat.Floor
import Mathlib.Tactic.FieldSimp
import Mathlib.Tactic.Linarith
import Mathlib.Tactic.NormNum

/-!
# Decimals around a magnitude

Decimals and the magnitudes of binary64 as rational numbers, in one order.

* The nearest rank keeps this order, so what reads back as a rank is an interval around the
  magnitude of the rank (`readsBack_of_le`, `readsBack_of_ge`);
* the multiples of a power of ten next to a magnitude are `below` and `above`. If any multiple
  reads back one of them does (`candidate?_isSome`), and the one that is chosen is nearer than
  everything that reads back and is not between the two (`candidate?_nearer`).
-/

namespace IdlBinding

namespace Binary64

/-- The magnitude of a rank. -/
def magnitude (rank : Nat) : ℚ := units rank / unitsPerOne

theorem unitsPerOne_cast_pos : (0 : ℚ) < unitsPerOne := Nat.cast_pos.mpr unitsPerOne_pos

theorem units_pos {rank : Nat} (h : 0 < rank) : 0 < units rank := by
  have hzero : units 0 = 0 := units_of_lt (Nat.two_pow_pos 52)
  exact hzero ▸ units_strictMono h

theorem magnitude_nonneg (rank : Nat) : 0 ≤ magnitude rank :=
  div_nonneg (Nat.cast_nonneg _) (Nat.cast_nonneg _)

end Binary64

namespace Decimal

open Binary64

/-! ## Values -/

/-- The number that a decimal denotes. -/
def value (d : Decimal) : ℚ := d.coefficient * 10 ^ d.exponent

theorem ten_pow_pos (n : Nat) : 0 < Nat.pow 10 n := Nat.pow_pos (by decide)

theorem ten_pow_cast_pos (n : Nat) : (0 : ℚ) < (Nat.pow 10 n : Nat) :=
  Nat.cast_pos.mpr (ten_pow_pos n)

theorem ten_zpow_pos (e : Int) : (0 : ℚ) < 10 ^ e := zpow_pos (by norm_num) e

theorem ten_zpow (e : Int) : (10 : ℚ) ^ e = 10 ^ e.toNat / 10 ^ (-e).toNat := by
  obtain ⟨n, rfl | rfl⟩ := Int.eq_nat_or_neg e
  · simp
  · simp [zpow_neg]

theorem value_one (e : Int) : value ⟨1, e⟩ = 10 ^ e := by rw [value, Nat.cast_one, one_mul]

theorem value_mono {a b : Nat} (e : Int) (h : a ≤ b) : value ⟨a, e⟩ ≤ value ⟨b, e⟩ :=
  mul_le_mul_of_nonneg_right (Nat.cast_le.mpr h) (ten_zpow_pos e).le

/-- A decimal is a multiple of every smaller power of ten. -/
theorem exists_value_eq (d : Decimal) {e : Int} (h : e ≤ d.exponent) :
    ∃ c : Nat, value ⟨c, e⟩ = d.value := by
  obtain ⟨n, hn⟩ := Int.eq_ofNat_of_zero_le (Int.sub_nonneg.mpr h)
  refine ⟨d.coefficient * 10 ^ n, ?_⟩
  have hexponent : d.exponent = n + e := by omega
  rw [value, value, hexponent, zpow_add₀ (by norm_num), zpow_natCast]
  push_cast
  ring

/-! ## Reading back -/

/-- The quotient that is rounded, in units. -/
theorem value_mul_unitsPerOne (d : Decimal) : d.value * unitsPerOne =
    ((d.coefficient * Nat.pow 10 d.exponent.toNat * unitsPerOne : Nat) : ℚ) /
      (Nat.pow 10 (-d.exponent).toNat : Nat) := by
  rw [value, ten_zpow]
  simp only [Nat.pow_eq]
  push_cast
  ring

/-- **The nearest rank keeps the order of decimals.** -/
theorem rankOfDecimal_mono {a b : Decimal} (h : a.value ≤ b.value) :
    rankOfDecimal a.coefficient a.exponent ≤ rankOfDecimal b.coefficient b.exponent := by
  have hunits := mul_le_mul_of_nonneg_right h unitsPerOne_cast_pos.le
  rw [value_mul_unitsPerOne, value_mul_unitsPerOne,
    div_le_div_iff₀ (ten_pow_cast_pos _) (ten_pow_cast_pos _)] at hunits
  exact nearestRank_le_nearestRank (ten_pow_pos _) (ten_pow_pos _) (by exact_mod_cast hunits)

theorem le_rankOfDecimal {rank : Nat} {d : Decimal} (h : magnitude rank ≤ d.value) :
    rank ≤ rankOfDecimal d.coefficient d.exponent := by
  rw [magnitude, div_le_iff₀ unitsPerOne_cast_pos, value_mul_unitsPerOne,
    le_div_iff₀ (ten_pow_cast_pos _)] at h
  exact le_nearestRank (ten_pow_pos _) (by exact_mod_cast h)

theorem rankOfDecimal_le {rank : Nat} {d : Decimal} (h : d.value ≤ magnitude rank) :
    rankOfDecimal d.coefficient d.exponent ≤ rank := by
  rw [magnitude, le_div_iff₀ unitsPerOne_cast_pos, value_mul_unitsPerOne,
    div_le_iff₀ (ten_pow_cast_pos _)] at h
  have hnum : d.coefficient * Nat.pow 10 d.exponent.toNat * unitsPerOne ≤
      units rank * Nat.pow 10 (-d.exponent).toNat := by exact_mod_cast h
  have hround := nearestRank_mono (ten_pow_pos (-d.exponent).toNat) hnum
  rwa [nearestRank_units rank (ten_pow_pos _)] at hround

theorem readsBack_eq_true {rank : Nat} {d : Decimal} :
    d.readsBack rank = true ↔ rankOfDecimal d.coefficient d.exponent = rank := beq_iff_eq

/-- From a decimal that reads back up to the magnitude, everything reads back. -/
theorem readsBack_of_le {rank : Nat} {a b : Decimal} (ha : a.readsBack rank = true)
    (hab : a.value ≤ b.value) (hb : b.value ≤ magnitude rank) : b.readsBack rank = true := by
  rw [readsBack_eq_true] at ha ⊢
  exact Nat.le_antisymm (rankOfDecimal_le hb) (ha ▸ rankOfDecimal_mono hab)

/-- From a decimal that reads back down to the magnitude, everything reads back. -/
theorem readsBack_of_ge {rank : Nat} {a b : Decimal} (ha : a.readsBack rank = true)
    (hab : b.value ≤ a.value) (hb : magnitude rank ≤ b.value) : b.readsBack rank = true := by
  rw [readsBack_eq_true] at ha ⊢
  exact Nat.le_antisymm (ha ▸ rankOfDecimal_mono hab) (le_rankOfDecimal hb)

theorem readsBack_of_eq {rank : Nat} {a b : Decimal} (ha : a.readsBack rank = true)
    (hab : a.value = b.value) : b.readsBack rank = true := by
  rw [readsBack_eq_true] at ha ⊢
  exact Nat.le_antisymm (ha ▸ rankOfDecimal_mono hab.ge) (ha ▸ rankOfDecimal_mono hab.le)

theorem readsBack_of_value_eq {rank : Nat} {d : Decimal} (h : d.value = magnitude rank) :
    d.readsBack rank = true :=
  readsBack_eq_true.mpr (Nat.le_antisymm (rankOfDecimal_le h.le) (le_rankOfDecimal h.ge))

/-- What reads back as a positive magnitude is not zero. -/
theorem coefficient_pos {rank : Nat} {d : Decimal} (hrank : 0 < rank)
    (h : d.readsBack rank = true) : 0 < d.coefficient := by
  refine Nat.pos_of_ne_zero fun hzero => ?_
  have hvalue : d.value ≤ magnitude 0 := by
    rw [value, hzero, Nat.cast_zero, zero_mul]
    exact magnitude_nonneg 0
  have hrank_le := rankOfDecimal_le hvalue
  rw [readsBack_eq_true.mp h] at hrank_le
  omega

/-! ## Neighbours -/

/-- The greatest multiple of a power of ten that is not above a magnitude. -/
def below (rank : Nat) (e : Int) : Decimal := ⟨(scaled rank e).1 / (scaled rank e).2, e⟩

/-- The next multiple, which is above it. -/
def above (rank : Nat) (e : Int) : Decimal := ⟨(scaled rank e).1 / (scaled rank e).2 + 1, e⟩

theorem scaled_div (rank : Nat) (e : Int) :
    ((scaled rank e).1 : ℚ) / (scaled rank e).2 = magnitude rank / 10 ^ e := by
  have hneg := ten_zpow (-e)
  rw [Int.neg_neg, zpow_neg] at hneg
  rw [magnitude, div_eq_mul_inv _ ((10 : ℚ) ^ e), hneg, scaled]
  simp only [Nat.pow_eq]
  push_cast
  rw [div_mul_div_comm]

theorem floor_scaled (rank : Nat) (e : Int) :
    ⌊magnitude rank / 10 ^ e⌋₊ = (scaled rank e).1 / (scaled rank e).2 := by
  rw [← scaled_div, Nat.floor_div_eq_div]

theorem scaled_nonneg (rank : Nat) (e : Int) : 0 ≤ magnitude rank / 10 ^ e :=
  div_nonneg (magnitude_nonneg rank) (ten_zpow_pos e).le

theorem below_le (rank : Nat) (e : Int) : (below rank e).value ≤ magnitude rank := by
  have hfloor := Nat.floor_le (scaled_nonneg rank e)
  rwa [floor_scaled, le_div_iff₀ (ten_zpow_pos e)] at hfloor

theorem lt_above (rank : Nat) (e : Int) : magnitude rank < (above rank e).value := by
  have hfloor := Nat.lt_floor_add_one (magnitude rank / 10 ^ e)
  rw [floor_scaled, div_lt_iff₀ (ten_zpow_pos e)] at hfloor
  rw [value, above]
  exact_mod_cast hfloor

theorem le_below {rank c : Nat} {e : Int} (h : value ⟨c, e⟩ ≤ magnitude rank) :
    c ≤ (below rank e).coefficient := by
  rw [value, ← le_div_iff₀ (ten_zpow_pos e)] at h
  have hfloor := Nat.le_floor h
  rwa [floor_scaled] at hfloor

theorem above_le {rank c : Nat} {e : Int} (h : magnitude rank < value ⟨c, e⟩) :
    (above rank e).coefficient ≤ c := by
  rw [value, ← div_lt_iff₀ (ten_zpow_pos e)] at h
  have hfloor := (Nat.floor_lt (scaled_nonneg rank e)).mpr h
  rwa [floor_scaled] at hfloor

/-- No multiple of the power of ten is between the neighbours. -/
theorem le_below_or_above_le (rank : Nat) {e : Int} {d : Decimal} (h : e ≤ d.exponent) :
    d.value ≤ (below rank e).value ∨ (above rank e).value ≤ d.value := by
  obtain ⟨c, hc⟩ := d.exists_value_eq h
  rw [← hc]
  rcases le_or_gt (value ⟨c, e⟩) (magnitude rank) with hle | hlt
  · exact Or.inl (value_mono e (le_below hle))
  · exact Or.inr (value_mono e (above_le hlt))

theorem scaled_den_pos (rank : Nat) (e : Int) : 0 < (scaled rank e).2 :=
  Nat.mul_pos unitsPerOne_pos (ten_pow_pos _)

/-- The remainder tells which neighbour is nearer. -/
theorem below_nearer_iff (rank : Nat) (e : Int) :
    2 * ((scaled rank e).1 % (scaled rank e).2) < (scaled rank e).2 ↔
      magnitude rank - (below rank e).value < (above rank e).value - magnitude rank := by
  have hmagnitude : magnitude rank = ((scaled rank e).1 : ℚ) / (scaled rank e).2 * 10 ^ e := by
    rw [scaled_div, div_mul_cancel₀ _ (ten_zpow_pos e).ne']
  have hden : (0 : ℚ) < (scaled rank e).2 := Nat.cast_pos.mpr (scaled_den_pos rank e)
  have hdivide : ((scaled rank e).2 * ((scaled rank e).1 / (scaled rank e).2 : Nat) : ℚ) +
      ((scaled rank e).1 % (scaled rank e).2 : Nat) = (scaled rank e).1 := by
    exact_mod_cast Nat.div_add_mod (scaled rank e).1 (scaled rank e).2
  rw [hmagnitude, below, above, value, value]
  generalize (scaled rank e).1 % (scaled rank e).2 = remainder at hdivide ⊢
  generalize (scaled rank e).1 / (scaled rank e).2 = quotient at hdivide ⊢
  generalize (scaled rank e).1 = num at hdivide ⊢
  generalize (scaled rank e).2 = den at hden hdivide ⊢
  have hquotient : (num : ℚ) / den = quotient + remainder / den := by
    rw [← hdivide]
    field_simp
  have hhalf : 2 * remainder < den ↔ (2 : ℚ) * (remainder / den) < 1 := by
    rw [← mul_div_assoc, div_lt_one hden]
    exact_mod_cast Iff.rfl
  rw [hquotient, hhalf, ← mul_lt_mul_iff_left₀ (ten_zpow_pos e)]
  push_cast
  constructor
  · intro h
    linarith
  · intro h
    linarith

/-! ## Choosing a neighbour -/

/-- The first decimal is nearer to a magnitude than the second, or as near and not less. -/
def Nearer (rank : Nat) (a b : Decimal) : Prop :=
  |a.value - magnitude rank| < |b.value - magnitude rank| ∨
    |a.value - magnitude rank| = |b.value - magnitude rank| ∧ b.value ≤ a.value

theorem nearer_of_le {rank : Nat} {a b : Decimal}
    (hle : |a.value - magnitude rank| ≤ |b.value - magnitude rank|)
    (htie : |a.value - magnitude rank| = |b.value - magnitude rank| → b.value ≤ a.value) :
    Nearer rank a b := by
  rcases hle.lt_or_eq with hlt | heq
  · exact Or.inl hlt
  · exact Or.inr ⟨heq, htie heq⟩

theorem Nearer.of_value_eq {rank : Nat} {a b c : Decimal} (h : Nearer rank a c)
    (hvalue : b.value = a.value) : Nearer rank b c := by
  rw [Nearer, hvalue]
  exact h

theorem Nearer.value_eq {rank : Nat} {a b : Decimal} (h : Nearer rank a b) (h' : Nearer rank b a) :
    a.value = b.value := by
  rcases h with hlt | ⟨heq, hle⟩
  · rcases h' with hlt' | ⟨heq', -⟩
    · exact absurd hlt (lt_asymm hlt')
    · exact absurd hlt heq'.le.not_gt
  · rcases h' with hlt' | ⟨-, hle'⟩
    · exact absurd hlt' heq.le.not_gt
    · exact le_antisymm hle' hle

theorem choose_isSome (lowReads highReads lowNearer : Bool) (low high : Decimal) :
    (choose lowReads highReads lowNearer low high).isSome = (lowReads || highReads) := by
  cases lowReads <;> cases highReads <;> cases lowNearer <;> rfl

theorem choose_eq_some {lowReads highReads lowNearer : Bool} {low high d : Decimal}
    (h : choose lowReads highReads lowNearer low high = some d) :
    d = low ∧ lowReads = true ∧ (highReads = true → lowNearer = true) ∨
      d = high ∧ highReads = true ∧ (lowReads = true → lowNearer = false) := by
  cases lowReads <;> cases highReads <;> cases lowNearer <;> simp_all [choose]

theorem candidate?_eq (rank : Nat) (e : Int) :
    candidate? rank e = choose ((below rank e).readsBack rank) ((above rank e).readsBack rank)
      (2 * ((scaled rank e).1 % (scaled rank e).2) < (scaled rank e).2)
      (below rank e) (above rank e) := rfl

/-- **If a multiple of the power of ten reads back, a neighbour does.** -/
theorem candidate?_isSome {rank : Nat} {e : Int} {d : Decimal} (h : d.readsBack rank = true)
    (he : e ≤ d.exponent) : (candidate? rank e).isSome = true := by
  rw [candidate?_eq, choose_isSome, Bool.or_eq_true]
  rcases le_below_or_above_le rank he with hle | hle
  · exact Or.inl (readsBack_of_le h hle (below_le rank e))
  · exact Or.inr (readsBack_of_ge h hle (lt_above rank e).le)

theorem candidate?_readsBack {rank : Nat} {e : Int} {d : Decimal} (h : candidate? rank e = some d) :
    d.readsBack rank = true ∧ (d = below rank e ∨ d = above rank e) := by
  rw [candidate?_eq] at h
  rcases choose_eq_some h with ⟨rfl, hreads, -⟩ | ⟨rfl, hreads, -⟩
  · exact ⟨hreads, Or.inl rfl⟩
  · exact ⟨hreads, Or.inr rfl⟩

/-- **The chosen neighbour is the nearer one**, and nearer than what is outside of both. -/
theorem candidate?_nearer {rank : Nat} {e : Int} {d d' : Decimal} (h : candidate? rank e = some d)
    (h' : d'.readsBack rank = true)
    (houtside : d'.value ≤ (below rank e).value ∨ (above rank e).value ≤ d'.value) :
    Nearer rank d d' := by
  have hbelow := below_le rank e
  have habove := lt_above rank e
  have hlow : |(below rank e).value - magnitude rank| = magnitude rank - (below rank e).value := by
    rw [abs_of_nonpos (by linarith), neg_sub]
  have hhigh : |(above rank e).value - magnitude rank| = (above rank e).value - magnitude rank :=
    abs_of_nonneg (by linarith)
  rw [candidate?_eq] at h
  rcases houtside with hle | hle
  · have habs : |d'.value - magnitude rank| = magnitude rank - d'.value := by
      rw [abs_of_nonpos (by linarith), neg_sub]
    rcases choose_eq_some h with ⟨rfl, -, -⟩ | ⟨rfl, -, hchoice⟩
    · exact nearer_of_le (by linarith) (fun _ => hle)
    · -- The lower neighbour reads back too, so the upper one was chosen for its distance.
      have hfarther := of_decide_eq_false (hchoice (readsBack_of_le h' hle hbelow))
      rw [below_nearer_iff, not_lt] at hfarther
      exact nearer_of_le (by linarith) (fun _ => by linarith)
  · have habs : |d'.value - magnitude rank| = d'.value - magnitude rank :=
      abs_of_nonneg (by linarith)
    rcases choose_eq_some h with ⟨rfl, -, hchoice⟩ | ⟨rfl, -, -⟩
    · have hcloser := of_decide_eq_true (hchoice (readsBack_of_ge h' hle habove.le))
      rw [below_nearer_iff] at hcloser
      exact Or.inl (by linarith)
    · exact nearer_of_le (by linarith) (fun heq => by linarith)

end Decimal

end IdlBinding
