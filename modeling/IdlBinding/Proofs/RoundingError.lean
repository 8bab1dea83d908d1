import IdlBinding.Proofs.DecimalOrder
import Mathlib.Algebra.Order.Ring.Pow
import Mathlib.Tactic.GCongr

/-!
# Rounding errors

How far a number may be from the nearest one when it comes out of several roundings.

A single rounding changes a magnitude by a factor of at most `roundoff`, above the numbers that are
all one unit apart. `Close k` says of two magnitudes that `k` such factors lie between them, and
products and quotients add these counts up. At the end the factors become places: what is `k`
factors away is rounded to a rank that is at most `k` places away (`nearestRank_near`), and this
holds of all magnitudes, also of the smallest.

The last step rests on a second description of the nearest rank. Rounding at any spacing, not only
at the one that fits, gives a rank, and the nearest rank is the least of these
(`nearestRank_le_rankAt`). So ranks can be compared at one spacing.
-/

namespace IdlBinding.Binary64

/-! ## Quotients rounded to integers -/

theorem roundDiv_add_mul (num : Nat) {den n : Nat} (hden : 0 < den) (hn : n % 2 = 0) :
    roundDiv (num + n * den) den = roundDiv num den + n := by
  simp only [roundDiv, Nat.add_mul_div_right _ _ hden, Nat.add_mul_mod_self_right]
  split
  · rfl
  · split <;> omega

/-- A rounded quotient is at most one half too large. -/
theorem roundDiv_mul_le (num den : Nat) :
    2 * (roundDiv num den * den) ≤ 2 * num + den := by
  have hdivide := Nat.div_add_mod' num den
  simp only [roundDiv]
  split
  · omega
  · split
    · rcases Nat.mod_two_eq_zero_or_one (num / den) with heven | hodd
      · rw [heven, Nat.add_zero]
        omega
      · rw [hodd, Nat.add_mul]
        omega
    · rw [Nat.add_mul]
      omega

/-- A rounded quotient is at most one half too small. -/
theorem le_roundDiv_mul (num : Nat) {den : Nat} (hden : 0 < den) :
    2 * num ≤ 2 * (roundDiv num den * den) + den := by
  have hdivide := Nat.div_add_mod' num den
  have hmod := Nat.mod_lt num hden
  simp only [roundDiv]
  split
  · omega
  · split
    · rw [Nat.add_mul]
      omega
    · rw [Nat.add_mul]
      omega

theorem roundDiv_add_le {num summand den : Nat} (hden : 0 < den) (h : summand < den) :
    roundDiv (num + summand) den ≤ roundDiv num den + 1 := by
  have hupper := roundDiv_mul_le (num + summand) den
  have hlower := le_roundDiv_mul num hden
  have hlt : roundDiv (num + summand) den * den < (roundDiv num den + 2) * den := by
    rw [Nat.add_mul]
    omega
  have := Nat.lt_of_mul_lt_mul_right hlt
  omega

/-! ## Rounding at any spacing -/

/-- The rank of a quotient that is rounded where the distance between neighbours has doubled that
often. -/
def rankAt (num den spacing : Nat) : Nat := spacing * 2 ^ 52 + roundDiv num (den * 2 ^ spacing)

/-- The quotient at a spacing, in terms of the next one. -/
theorem roundDiv_double (num den spacing : Nat) :
    roundDiv num (den * 2 ^ spacing) = roundDiv (num * 2) (den * 2 ^ (spacing + 1)) := by
  rw [Nat.pow_succ, ← Nat.mul_assoc, roundDiv_scale _ _ Nat.two_pos]

theorem rankAt_succ {den : Nat} (hden : 0 < den) (num spacing : Nat) :
    rankAt num den (spacing + 1) = spacing * 2 ^ 52 +
      roundDiv (num + 2 ^ 53 * (den * 2 ^ spacing)) (den * 2 ^ (spacing + 1)) := by
  have hpos : 0 < den * 2 ^ (spacing + 1) := Nat.mul_pos hden (Nat.two_pow_pos _)
  have hshift : 2 ^ 53 * (den * 2 ^ spacing) = 2 ^ 52 * (den * 2 ^ (spacing + 1)) := by ring
  rw [rankAt, hshift, roundDiv_add_mul num hpos (by decide)]
  omega

theorem rankAt_succ_le {num den spacing : Nat} (hden : 0 < den)
    (h : 2 ^ 53 * (den * 2 ^ spacing) ≤ num) :
    rankAt num den (spacing + 1) ≤ rankAt num den spacing := by
  rw [rankAt_succ hden, rankAt, roundDiv_double num]
  exact Nat.add_le_add_left (roundDiv_mono _ (by omega)) _

theorem rankAt_le_succ {num den spacing : Nat} (hden : 0 < den)
    (h : num ≤ 2 ^ 53 * (den * 2 ^ spacing)) :
    rankAt num den spacing ≤ rankAt num den (spacing + 1) := by
  rw [rankAt_succ hden, rankAt, roundDiv_double num]
  exact Nat.add_le_add_left (roundDiv_mono _ (by omega)) _

/-- **The nearest rank is the least one**, over the roundings at all spacings. -/
theorem nearestRank_le_rankAt (num : Nat) {den : Nat} (hden : 0 < den) (spacing : Nat) :
    nearestRank num den ≤ rankAt num den spacing := by
  -- From the spacing that fits, the rank grows on both sides.
  rcases Nat.le_total (doublings num den) spacing with hle | hle
  · induction spacing, hle using Nat.le_induction with
    | base => exact Nat.le_refl _
    | succ spacing hle ih =>
      refine Nat.le_trans ih (rankAt_le_succ hden (Nat.le_of_lt ?_))
      calc num < 2 ^ 53 * (den * 2 ^ doublings num den) := lt_doublings num hden
        _ ≤ 2 ^ 53 * (den * 2 ^ spacing) := by gcongr; decide
  · induction hle using Nat.decreasingInduction with
    | self => exact Nat.le_refl _
    | of_succ spacing hlt ih =>
      refine Nat.le_trans ih (rankAt_succ_le hden ?_)
      calc 2 ^ 53 * (den * 2 ^ spacing) = 2 ^ 52 * (den * 2 ^ (spacing + 1)) := by ring
        _ ≤ 2 ^ 52 * (den * 2 ^ doublings num den) := by gcongr; decide; exact hlt
        _ ≤ num := doublings_le hden (Nat.zero_lt_of_lt hlt)

/-- One factor of `1 + 2 ^ -53` is at most one place. -/
theorem nearestRank_mul_le (num : Nat) {den : Nat} (hden : 0 < den) :
    nearestRank (num * (2 ^ 53 + 1)) (den * 2 ^ 53) ≤ nearestRank num den + 1 := by
  have hscale : 0 < den * 2 ^ doublings num den := Nat.mul_pos hden (Nat.two_pow_pos _)
  have hsummand : num < den * 2 ^ doublings num den * 2 ^ 53 := by
    rw [Nat.mul_comm]
    exact lt_doublings num hden
  calc nearestRank (num * (2 ^ 53 + 1)) (den * 2 ^ 53)
      ≤ rankAt (num * (2 ^ 53 + 1)) (den * 2 ^ 53) (doublings num den) :=
        nearestRank_le_rankAt _ (Nat.mul_pos hden (Nat.two_pow_pos _)) _
    _ = doublings num den * 2 ^ 52 +
        roundDiv (num * 2 ^ 53 + num) (den * 2 ^ doublings num den * 2 ^ 53) := by
        rw [rankAt, Nat.mul_add, Nat.mul_one, Nat.mul_right_comm den]
    _ ≤ doublings num den * 2 ^ 52 +
        (roundDiv (num * 2 ^ 53) (den * 2 ^ doublings num den * 2 ^ 53) + 1) :=
        Nat.add_le_add_left
          (roundDiv_add_le (Nat.mul_pos hscale (Nat.two_pow_pos _)) hsummand) _
    _ = nearestRank num den + 1 := by
        rw [roundDiv_scale _ _ (Nat.two_pow_pos 53), nearestRank_eq, Nat.add_assoc]

theorem nearestRank_mul_pow_le (num : Nat) {den : Nat} (hden : 0 < den) (k : Nat) :
    nearestRank (num * (2 ^ 53 + 1) ^ k) (den * (2 ^ 53) ^ k) ≤ nearestRank num den + k := by
  induction k with
  | zero => rw [Nat.pow_zero, Nat.pow_zero, Nat.mul_one, Nat.mul_one, Nat.add_zero]
  | succ k ih =>
    have hpos : 0 < den * (2 ^ 53) ^ k := Nat.mul_pos hden (Nat.pow_pos (Nat.two_pow_pos 53))
    rw [Nat.pow_succ (2 ^ 53 + 1), Nat.pow_succ (2 ^ 53), ← Nat.mul_assoc, ← Nat.mul_assoc,
      ← Nat.add_assoc]
    exact Nat.le_trans (nearestRank_mul_le _ hpos) (Nat.add_le_add_right ih 1)

/-! ## Errors as factors -/

/-- The greatest factor by which one rounding changes a magnitude. -/
def roundoff : ℚ := (2 ^ 53 + 1) / 2 ^ 53

theorem one_le_roundoff : 1 ≤ roundoff := by norm_num [roundoff]

theorem roundoff_pow_pos (k : Nat) : 0 < roundoff ^ k :=
  pow_pos (lt_of_lt_of_le one_pos one_le_roundoff) k

/-- At most `k` rounding errors lie between two magnitudes. -/
structure Close (k : Nat) (x y : ℚ) : Prop where
  /-- the first is not much larger -/
  upper : x ≤ y * roundoff ^ k
  /-- the second is not much larger -/
  lower : y ≤ x * roundoff ^ k

theorem close_of_eq {x y : ℚ} (h : x = y) : Close 0 x y :=
  ⟨by rw [pow_zero, mul_one, h], by rw [pow_zero, mul_one, h]⟩

theorem Close.symm {k : Nat} {x y : ℚ} (h : Close k x y) : Close k y x := ⟨h.lower, h.upper⟩

theorem Close.trans {j k : Nat} {x y z : ℚ} (hxy : Close j x y) (hyz : Close k y z) :
    Close (j + k) x z := by
  refine ⟨?_, ?_⟩
  · calc x ≤ y * roundoff ^ j := hxy.upper
      _ ≤ z * roundoff ^ k * roundoff ^ j :=
        mul_le_mul_of_nonneg_right hyz.upper (roundoff_pow_pos j).le
      _ = z * roundoff ^ (j + k) := by ring
  · calc z ≤ y * roundoff ^ k := hyz.lower
      _ ≤ x * roundoff ^ j * roundoff ^ k :=
        mul_le_mul_of_nonneg_right hxy.lower (roundoff_pow_pos k).le
      _ = x * roundoff ^ (j + k) := by ring

theorem Close.pos {k : Nat} {x y : ℚ} (h : Close k x y) (hy : 0 < y) : 0 < x :=
  pos_of_mul_pos_left (lt_of_lt_of_le hy h.lower) (roundoff_pow_pos k).le

theorem Close.mono {j k : Nat} {x y : ℚ} (h : Close j x y) (hx : 0 ≤ x) (hy : 0 ≤ y)
    (hjk : j ≤ k) : Close k x y := by
  have hpow := pow_le_pow_right₀ one_le_roundoff hjk
  exact ⟨h.upper.trans (mul_le_mul_of_nonneg_left hpow hy),
    h.lower.trans (mul_le_mul_of_nonneg_left hpow hx)⟩

theorem Close.mul {j k : Nat} {x y x' y' : ℚ} (h : Close j x y) (h' : Close k x' y')
    (hy : 0 < y) (hy' : 0 < y') : Close (j + k) (x * x') (y * y') := by
  have hx := h.pos hy
  have hx' := h'.pos hy'
  refine ⟨?_, ?_⟩
  · calc x * x' ≤ y * roundoff ^ j * (y' * roundoff ^ k) :=
        mul_le_mul h.upper h'.upper hx'.le (mul_nonneg hy.le (roundoff_pow_pos j).le)
      _ = y * y' * roundoff ^ (j + k) := by ring
  · calc y * y' ≤ x * roundoff ^ j * (x' * roundoff ^ k) :=
        mul_le_mul h.lower h'.lower hy'.le (mul_nonneg hx.le (roundoff_pow_pos j).le)
      _ = x * x' * roundoff ^ (j + k) := by ring

theorem Close.mul_right {k : Nat} {x y : ℚ} (h : Close k x y) {z : ℚ} (hz : 0 ≤ z) :
    Close k (x * z) (y * z) := by
  refine ⟨?_, ?_⟩
  · rw [mul_right_comm]
    exact mul_le_mul_of_nonneg_right h.upper hz
  · rw [mul_right_comm]
    exact mul_le_mul_of_nonneg_right h.lower hz

theorem Close.inv {k : Nat} {x y : ℚ} (h : Close k x y) (hy : 0 < y) : Close k x⁻¹ y⁻¹ := by
  have hx := h.pos hy
  refine ⟨?_, ?_⟩
  · rw [inv_mul_eq_div, le_div_iff₀ hy, inv_mul_le_iff₀ hx]
    exact h.lower
  · rw [inv_mul_eq_div, le_div_iff₀ hx, inv_mul_le_iff₀ hy]
    exact h.upper

theorem Close.div {j k : Nat} {x y x' y' : ℚ} (h : Close j x y) (h' : Close k x' y')
    (hy : 0 < y) (hy' : 0 < y') : Close (j + k) (x / x') (y / y') := by
  rw [div_eq_mul_inv, div_eq_mul_inv]
  exact h.mul (h'.inv hy') hy (inv_pos.mpr hy')

/-! ## One rounding -/

theorem units_zero : units 0 = 0 := units_of_lt (Nat.two_pow_pos 52)

theorem nearestRank_zero {den : Nat} (hden : 0 < den) : nearestRank 0 den = 0 := by
  have hround := nearestRank_units 0 hden
  rwa [units_zero, Nat.zero_mul] at hround

/-- The magnitude that a quotient is rounded to: a multiple of the distance between neighbours. -/
theorem units_nearestRank (num : Nat) {den : Nat} (hden : 0 < den) :
    units (nearestRank num den) =
      roundDiv num (den * 2 ^ doublings num den) * 2 ^ doublings num den := by
  have hscale : 0 < den * 2 ^ doublings num den := Nat.mul_pos hden (Nat.two_pow_pos _)
  have hupper := roundDiv_le hscale (lt_doublings num hden)
  have hlower : 0 < doublings num den → 2 ^ 52 ≤ roundDiv num (den * 2 ^ doublings num den) :=
    fun hpos => le_roundDiv hscale (doublings_le hden hpos)
  rw [nearestRank_eq]
  generalize roundDiv num (den * 2 ^ doublings num den) = m at hupper hlower ⊢
  generalize doublings num den = e at hlower ⊢
  rcases Nat.lt_or_ge m (2 ^ 52) with hsmall | hlarge
  · have hzero : e = 0 := by omega
    rw [hzero, Nat.zero_mul, Nat.zero_add, units_of_lt hsmall, Nat.pow_zero, Nat.mul_one]
  · rcases Nat.lt_or_eq_of_le hupper with hlt | rfl
    · exact units_significand hlarge hlt e
    · -- Rounding up reached the least magnitude of the next spacing.
      have hnext : e * 2 ^ 52 + 2 ^ 53 = (e + 1) * 2 ^ 52 + 2 ^ 52 := by omega
      rw [hnext, units_significand (Nat.le_refl _) (by decide), Nat.pow_succ]
      ring

/-- An error of half a distance, where so many distances fit in. -/
theorem le_mul_roundoff_pow {a b distance s : Nat} (h : 2 * a ≤ 2 * b + distance)
    (hdistance : 2 ^ 52 * distance ≤ s * b) : (a : ℚ) ≤ b * roundoff ^ s := by
  have hfactor : 1 + s * (1 / 2 ^ 53 : ℚ) ≤ roundoff ^ s := by
    have hroundoff : roundoff = 1 + 1 / 2 ^ 53 := by norm_num [roundoff]
    rw [hroundoff]
    exact one_add_mul_le_pow (by norm_num) s
  have hq : (2 * a : ℚ) ≤ 2 * b + distance := by exact_mod_cast h
  have hdistanceq : (2 ^ 52 * distance : ℚ) ≤ s * b := by exact_mod_cast hdistance
  calc (a : ℚ) ≤ b * (1 + s * (1 / 2 ^ 53)) := by linarith
    _ ≤ b * roundoff ^ s := mul_le_mul_of_nonneg_left hfactor (Nat.cast_nonneg b)

/-- **The error of one rounding.** It is one factor where the distance between neighbours follows
the magnitude. Below, where all are one unit apart, it is the more factors the smaller the magnitude
is. -/
theorem close_nearestRank {num den s : Nat} (hden : 0 < den) (hs : 0 < s)
    (h : (2 ^ 52 + s) * den ≤ s * num) :
    Close s (magnitude (nearestRank num den)) (num / den / unitsPerOne) := by
  have hscale : 0 < den * 2 ^ doublings num den := Nat.mul_pos hden (Nat.two_pow_pos _)
  have hupper := roundDiv_mul_le num (den * 2 ^ doublings num den)
  have hlower := le_roundDiv_mul num hscale
  have hdistance : 2 ^ 52 * (den * 2 ^ doublings num den) ≤ s * num ∧
      2 ^ 52 * (den * 2 ^ doublings num den) ≤
        s * (roundDiv num (den * 2 ^ doublings num den) * (den * 2 ^ doublings num den)) := by
    rcases Nat.eq_zero_or_pos (doublings num den) with hzero | hpos
    · rw [hzero, Nat.pow_zero, Nat.mul_one] at hlower ⊢
      have htwice := Nat.mul_le_mul_left s hlower
      rw [Nat.add_mul] at h
      rw [Nat.mul_add, Nat.mul_left_comm, Nat.mul_left_comm s 2] at htwice
      omega
    · have hle := doublings_le hden hpos
      exact ⟨Nat.le_trans hle (Nat.le_mul_of_pos_left num hs),
        Nat.le_trans (Nat.mul_le_mul_right _ (le_roundDiv hscale hle))
          (Nat.le_mul_of_pos_left _ hs)⟩
  have hrounded : (units (nearestRank num den) : ℚ) * den =
      (roundDiv num (den * 2 ^ doublings num den) * (den * 2 ^ doublings num den) : Nat) := by
    rw [units_nearestRank num hden]
    push_cast
    ring
  have hdenq : (0 : ℚ) < den := Nat.cast_pos.mpr hden
  refine ⟨?_, ?_⟩
  · rw [magnitude, div_mul_eq_mul_div]
    refine div_le_div_of_nonneg_right ?_ unitsPerOne_cast_pos.le
    rw [div_mul_eq_mul_div, le_div_iff₀ hdenq, hrounded]
    exact le_mul_roundoff_pow hupper hdistance.1
  · rw [magnitude, div_mul_eq_mul_div]
    refine div_le_div_of_nonneg_right ?_ unitsPerOne_cast_pos.le
    rw [div_le_iff₀ hdenq, mul_right_comm, hrounded]
    exact le_mul_roundoff_pow hlower hdistance.2

/-! ## From factors to places -/

theorem nearestRank_le_add {a b c d k : Nat} (hb : 0 < b) (hd : 0 < d)
    (h : (a / b : ℚ) ≤ c / d * roundoff ^ k) : nearestRank a b ≤ nearestRank c d + k := by
  have hpow : 0 < d * (2 ^ 53) ^ k := Nat.mul_pos hd (Nat.pow_pos (Nat.two_pow_pos 53))
  refine Nat.le_trans (nearestRank_le_nearestRank hb hpow ?_) (nearestRank_mul_pow_le c hd k)
  have hbq : (0 : ℚ) < b := Nat.cast_pos.mpr hb
  have hpowq : (0 : ℚ) < d * (2 ^ 53) ^ k := by exact_mod_cast hpow
  rw [roundoff, div_pow, div_mul_div_comm, div_le_div_iff₀ hbq hpowq] at h
  exact_mod_cast h

/-- At most `k` places lie between two ranks. -/
structure Near (k a b : Nat) : Prop where
  /-- the first is not far above -/
  upper : a ≤ b + k
  /-- the second is not far above -/
  lower : b ≤ a + k

theorem Near.refl (k a : Nat) : Near k a a := ⟨Nat.le_add_right a k, Nat.le_add_right a k⟩

theorem Near.mono {j k a b : Nat} (h : Near j a b) (hjk : j ≤ k) : Near k a b :=
  ⟨Nat.le_trans h.upper (Nat.add_le_add_left hjk b),
    Nat.le_trans h.lower (Nat.add_le_add_left hjk a)⟩

theorem Near.eq {a b : Nat} (h : Near 0 a b) : a = b := Nat.le_antisymm h.upper h.lower

/-- **Errors become places.** A quotient that is `k` factors from a decimal is rounded to a rank at
most `k` places from that of the decimal. -/
theorem nearestRank_near {num den k : Nat} {d : Decimal} (hden : 0 < den)
    (h : Close k (num / den / unitsPerOne) d.value) :
    Near k (nearestRank num den) (rankOfDecimal d.coefficient d.exponent) := by
  obtain ⟨hupper, hlower⟩ := h
  rw [div_le_iff₀ unitsPerOne_cast_pos, mul_right_comm, d.value_mul_unitsPerOne] at hupper
  rw [div_mul_eq_mul_div, le_div_iff₀ unitsPerOne_cast_pos, d.value_mul_unitsPerOne] at hlower
  exact ⟨nearestRank_le_add hden (Decimal.ten_pow_pos _) hupper,
    nearestRank_le_add (Decimal.ten_pow_pos _) hden hlower⟩

/-- The nearest rank of a decimal that is not below one is one error away. -/
theorem close_rankOfDecimal {d : Decimal} (h : 1 ≤ d.value) :
    Close 1 (magnitude (rankOfDecimal d.coefficient d.exponent)) d.value := by
  have hunits : 2 ^ 52 + 1 ≤ unitsPerOne := by decide +kernel
  have hden := Decimal.ten_pow_pos (-d.exponent).toNat
  have hquotient := d.value_mul_unitsPerOne
  rw [eq_div_iff (Decimal.ten_pow_cast_pos _).ne'] at hquotient
  have hlarge : (2 ^ 52 + 1) * Nat.pow 10 (-d.exponent).toNat ≤
      1 * (d.coefficient * Nat.pow 10 d.exponent.toNat * unitsPerOne) := by
    have hunitsq : (2 ^ 52 + 1 : ℚ) ≤ unitsPerOne := by exact_mod_cast hunits
    have hvalue : (2 ^ 52 + 1 : ℚ) ≤ d.value * unitsPerOne :=
      hunitsq.trans (le_mul_of_one_le_left unitsPerOne_cast_pos.le h)
    have := mul_le_mul_of_nonneg_right hvalue (Decimal.ten_pow_cast_pos (-d.exponent).toNat).le
    rw [hquotient] at this
    rw [Nat.one_mul]
    exact_mod_cast this
  have hclose := close_nearestRank hden Nat.one_pos hlarge
  rwa [← d.value_mul_unitsPerOne, mul_div_cancel_right₀ _ unitsPerOne_cast_pos.ne'] at hclose

/-! ## Products and quotients -/

theorem units_product_div (a b : Nat) :
    ((units a * units b : Nat) : ℚ) / unitsPerOne / unitsPerOne = magnitude a * magnitude b := by
  rw [magnitude, magnitude, Nat.cast_mul, div_mul_div_comm, div_div]

theorem units_quotient_div (a b : Nat) :
    ((units a * unitsPerOne : Nat) : ℚ) / units b / unitsPerOne = magnitude a / magnitude b := by
  have hne := unitsPerOne_cast_pos.ne'
  rw [magnitude, magnitude, Nat.cast_mul, div_div_div_cancel_right₀ hne, div_right_comm,
    mul_div_cancel_right₀ _ hne]

theorem product_near {a b k : Nat} {d : Decimal}
    (h : Close k (magnitude a * magnitude b) d.value) :
    Near k (product a b) (rankOfDecimal d.coefficient d.exponent) :=
  nearestRank_near unitsPerOne_pos ((units_product_div a b).symm ▸ h)

theorem quotient_near {a b k : Nat} {d : Decimal} (hb : 0 < b)
    (h : Close k (magnitude a / magnitude b) d.value) :
    Near k (quotient a b) (rankOfDecimal d.coefficient d.exponent) :=
  nearestRank_near (units_pos hb) ((units_quotient_div a b).symm ▸ h)

theorem close_quotient {a b s : Nat} (hb : 0 < b) (hs : 0 < s)
    (h : (2 ^ 52 + s) * units b ≤ s * (units a * unitsPerOne)) :
    Close s (magnitude (quotient a b)) (magnitude a / magnitude b) :=
  units_quotient_div a b ▸ close_nearestRank (units_pos hb) hs h

theorem quotient_mono {a b c : Nat} (hc : 0 < c) (h : a ≤ b) : quotient a c ≤ quotient b c :=
  nearestRank_mono (units_pos hc) (Nat.mul_le_mul_right _ (units_strictMono.monotone h))

theorem product_zero (b : Nat) : product 0 b = 0 := by
  rw [product, units_zero, Nat.zero_mul, nearestRank_zero unitsPerOne_pos]

theorem quotient_zero {b : Nat} (hb : 0 < b) : quotient 0 b = 0 := by
  rw [quotient, units_zero, Nat.zero_mul, nearestRank_zero (units_pos hb)]

end IdlBinding.Binary64
