import IdlBinding.Binary64
import Mathlib.Data.Nat.Log
import Mathlib.Order.Monotone.Basic
import Mathlib.Tactic.Positivity
import Mathlib.Tactic.Ring

/-!
# Rounding to binary64

Two facts about `nearestRank` carry everything else: it is monotone, and a magnitude of the format
is its own rounding. From these,

* `units` increases strictly, so a rank is known by its magnitude;
* `le_nearestRank` — what is no less than a magnitude of the format is rounded to something no less;
* integers up to 2^53 are magnitudes of the format (`units_rankOfNat`).

An operation on numbers is exact in units and rounded once. `Counts` says what is left of a natural
number in a binary64 number after such operations: the number itself up to 2^53, and from there on
that it is no less. Products and sums of natural numbers keep this.
-/

namespace IdlBinding.Binary64

/-! ## Quotients rounded to integers -/

theorem div_le_roundDiv (num den : Nat) : num / den ≤ roundDiv num den := by
  simp only [roundDiv]
  split
  · exact Nat.le_refl _
  · split <;> omega

theorem roundDiv_le_div_add_one (num den : Nat) : roundDiv num den ≤ num / den + 1 := by
  simp only [roundDiv]
  split
  · omega
  · split <;> omega

theorem roundDiv_mono {a b : Nat} (den : Nat) (h : a ≤ b) : roundDiv a den ≤ roundDiv b den := by
  rcases Nat.lt_or_eq_of_le (Nat.div_le_div_right (c := den) h) with hlt | heq
  · calc roundDiv a den ≤ a / den + 1 := roundDiv_le_div_add_one a den
      _ ≤ b / den := hlt
      _ ≤ roundDiv b den := div_le_roundDiv b den
  · -- The quotients are the same, so the remainders decide, and these are in order.
    have hmod : a % den ≤ b % den := by
      have ha := Nat.div_add_mod a den
      have hb := Nat.div_add_mod b den
      rw [heq] at ha
      omega
    simp only [roundDiv, heq]
    split
    · split
      · exact Nat.le_refl _
      · split <;> omega
    · split
      · split
        · omega
        · split <;> omega
      · split
        · omega
        · split <;> omega

theorem roundDiv_mul (quotient : Nat) {den : Nat} (h : 0 < den) :
    roundDiv (quotient * den) den = quotient := by
  simp only [roundDiv, Nat.mul_mod_left, Nat.mul_div_cancel quotient h, Nat.mul_zero, if_pos h]

theorem roundDiv_scale (num den : Nat) {k : Nat} (h : 0 < k) :
    roundDiv (num * k) (den * k) = roundDiv num den := by
  have hlt : 2 * (num % den * k) < den * k ↔ 2 * (num % den) < den := by
    rw [← Nat.mul_assoc, Nat.mul_lt_mul_right h]
  have heq : 2 * (num % den * k) = den * k ↔ 2 * (num % den) = den := by
    rw [← Nat.mul_assoc, Nat.mul_left_inj (Nat.pos_iff_ne_zero.mp h)]
  simp only [roundDiv, Nat.mul_div_mul_right _ _ h, Nat.mul_mod_mul_right, hlt, heq]

theorem le_roundDiv {num den m : Nat} (hden : 0 < den) (h : m * den ≤ num) :
    m ≤ roundDiv num den :=
  Nat.le_trans ((Nat.le_div_iff_mul_le hden).mpr h) (div_le_roundDiv num den)

theorem roundDiv_le {num den m : Nat} (hden : 0 < den) (h : num < m * den) :
    roundDiv num den ≤ m :=
  Nat.le_trans (roundDiv_le_div_add_one num den) ((Nat.div_lt_iff_lt_mul hden).mpr h)

/-! ## Magnitudes -/

theorem units_of_lt {rank : Nat} (h : rank < 2 ^ 52) : units rank = rank :=
  if_pos h

theorem units_of_le {rank : Nat} (h : 2 ^ 52 ≤ rank) :
    units rank = (2 ^ 52 + rank % 2 ^ 52) * 2 ^ (rank / 2 ^ 52 - 1) :=
  if_neg (Nat.not_lt.mpr h)

/-! ## The nearest rank -/

/-- How often the distance between neighbours has doubled at a magnitude. -/
def doublings (num den : Nat) : Nat := Nat.log2 (num / den) - 52

theorem nearestRank_eq (num den : Nat) :
    nearestRank num den =
      doublings num den * 2 ^ 52 + roundDiv num (den * 2 ^ doublings num den) := rfl

theorem doublings_mono {a b : Nat} (den : Nat) (h : a ≤ b) : doublings a den ≤ doublings b den := by
  rw [doublings, doublings, Nat.log2_eq_log_two, Nat.log2_eq_log_two]
  exact Nat.sub_le_sub_right (Nat.log_mono_right (Nat.div_le_div_right h)) 52

theorem lt_doublings (num : Nat) {den : Nat} (h : 0 < den) :
    num < 2 ^ 53 * (den * 2 ^ doublings num den) := by
  have hexponent : Nat.log2 (num / den) + 1 ≤ 53 + doublings num den := by
    rw [doublings]
    omega
  have hquotient : num / den < 2 ^ (53 + doublings num den) :=
    Nat.lt_of_lt_of_le Nat.lt_log2_self (Nat.pow_le_pow_right Nat.two_pos hexponent)
  rw [Nat.div_lt_iff_lt_mul h] at hquotient
  calc num < 2 ^ (53 + doublings num den) * den := hquotient
    _ = 2 ^ 53 * (den * 2 ^ doublings num den) := by ring

theorem doublings_le {num den : Nat} (h : 0 < den) (hpos : 0 < doublings num den) :
    2 ^ 52 * (den * 2 ^ doublings num den) ≤ num := by
  have hexponent : Nat.log2 (num / den) = 52 + doublings num den := by
    rw [doublings] at hpos ⊢
    omega
  have hne : num / den ≠ 0 := by
    intro hzero
    rw [hzero, Nat.log2_zero] at hexponent
    omega
  have hquotient := Nat.log2_self_le hne
  rw [hexponent, Nat.le_div_iff_mul_le h] at hquotient
  calc 2 ^ 52 * (den * 2 ^ doublings num den) = 2 ^ (52 + doublings num den) * den := by ring
    _ ≤ num := hquotient

/-- **Rounding is monotone.** -/
theorem nearestRank_mono {a b den : Nat} (hden : 0 < den) (h : a ≤ b) :
    nearestRank a den ≤ nearestRank b den := by
  have hscale (k : Nat) : 0 < den * 2 ^ k := Nat.mul_pos hden (Nat.two_pow_pos k)
  rcases Nat.lt_or_eq_of_le (doublings_mono den h) with hlt | heq
  · -- Between two spacings lies the magnitude with which the wider one begins.
    have hupper : roundDiv a (den * 2 ^ doublings a den) ≤ 2 ^ 53 :=
      roundDiv_le (hscale _) (lt_doublings a hden)
    have hlower : 2 ^ 52 ≤ roundDiv b (den * 2 ^ doublings b den) :=
      le_roundDiv (hscale _) (doublings_le hden (Nat.zero_lt_of_lt hlt))
    rw [nearestRank_eq, nearestRank_eq]
    omega
  · rw [nearestRank_eq, nearestRank_eq, heq]
    exact Nat.add_le_add_left (roundDiv_mono _ h) _

theorem nearestRank_scale (num den : Nat) {k : Nat} (h : 0 < k) :
    nearestRank (num * k) (den * k) = nearestRank num den := by
  have hdoublings : doublings (num * k) (den * k) = doublings num den := by
    rw [doublings, doublings, Nat.mul_div_mul_right _ _ h]
  rw [nearestRank_eq, nearestRank_eq, hdoublings, Nat.mul_right_comm den k, roundDiv_scale _ _ h]

/-- Quotients are rounded in their order, whatever their denominators. -/
theorem nearestRank_le_nearestRank {a b c d : Nat} (hb : 0 < b) (hd : 0 < d)
    (h : a * d ≤ c * b) : nearestRank a b ≤ nearestRank c d := by
  calc nearestRank a b = nearestRank (a * d) (b * d) := (nearestRank_scale a b hd).symm
    _ ≤ nearestRank (c * b) (b * d) := nearestRank_mono (Nat.mul_pos hb hd) h
    _ = nearestRank (c * b) (d * b) := by rw [Nat.mul_comm b d]
    _ = nearestRank c d := nearestRank_scale c d hb

/-- A significand of 53 bits and a power of two, as the logarithm shows them. -/
theorem log2_significand {m : Nat} (hlo : 2 ^ 52 ≤ m) (hhi : m < 2 ^ 53) (e : Nat) :
    Nat.log2 (m * 2 ^ e) = 52 + e := by
  have hpow := Nat.two_pow_pos e
  rw [Nat.log2_eq_iff (Nat.pos_iff_ne_zero.mp (Nat.mul_pos (by omega) hpow))]
  refine ⟨?_, ?_⟩
  · rw [Nat.pow_add]
    exact Nat.mul_le_mul_right _ hlo
  · rw [Nat.add_right_comm, Nat.pow_add]
    exact Nat.mul_lt_mul_of_pos_right hhi hpow

/-- **A magnitude of the format is its own rounding.** -/
theorem nearestRank_units (rank : Nat) {den : Nat} (h : 0 < den) :
    nearestRank (units rank * den) den = rank := by
  rw [nearestRank_eq, doublings, Nat.mul_div_cancel _ h]
  rcases Nat.lt_or_ge rank (2 ^ 52) with hlt | hge
  · have hlog : Nat.log2 rank - 52 = 0 := by
      rcases Nat.eq_zero_or_pos rank with rfl | hpos
      · rfl
      · have := (Nat.log2_lt (Nat.pos_iff_ne_zero.mp hpos)).mpr hlt
        omega
    rw [units_of_lt hlt, hlog, Nat.zero_mul, Nat.zero_add, Nat.pow_zero, Nat.mul_one]
    exact roundDiv_mul rank h
  · have hexponent : Nat.log2 (units rank) = 52 + (rank / 2 ^ 52 - 1) := by
      rw [units_of_le hge]
      exact log2_significand (by omega) (by omega) _
    rw [hexponent, Nat.add_sub_cancel_left, units_of_le hge, Nat.mul_assoc, Nat.mul_comm _ den,
      roundDiv_mul _ (Nat.mul_pos h (Nat.two_pow_pos _))]
    omega

/-! ## Order -/

theorem units_strictMono : StrictMono units := by
  intro a b hab
  by_contra hle
  -- Rounding both magnitudes would give the ranks back in the wrong order.
  have hround := nearestRank_mono Nat.one_pos
    (Nat.mul_le_mul_right 1 (Nat.le_of_not_lt hle))
  rw [nearestRank_units b Nat.one_pos, nearestRank_units a Nat.one_pos] at hround
  exact absurd hab (Nat.not_lt.mpr hround)

/-- What is not below a magnitude of the format is not rounded below it. -/
theorem le_nearestRank {num den rank : Nat} (hden : 0 < den) (h : units rank * den ≤ num) :
    rank ≤ nearestRank num den := by
  have hround := nearestRank_mono hden h
  rwa [nearestRank_units rank hden] at hround

/-! ## Integers -/

theorem units_significand {m : Nat} (hlo : 2 ^ 52 ≤ m) (hhi : m < 2 ^ 53) (e : Nat) :
    units (e * 2 ^ 52 + m) = m * 2 ^ e := by
  have hfraction : (e * 2 ^ 52 + m) % 2 ^ 52 = m - 2 ^ 52 := by omega
  have hexponent : (e * 2 ^ 52 + m) / 2 ^ 52 - 1 = e := by omega
  rw [units_of_le (by omega), hfraction, hexponent, Nat.add_sub_cancel' hlo]

/-- A significand of at most 53 bits and a power of two make a magnitude of the format. -/
theorem exists_units_eq {m : Nat} (hm : m < 2 ^ 53) (e : Nat) :
    ∃ rank < (e + 2) * 2 ^ 52, units rank = m * 2 ^ e := by
  -- On the power: while the significand is short, one factor of two can go over to it.
  induction e generalizing m with
  | zero =>
    rcases Nat.lt_or_ge m (2 ^ 52) with hlt | hge
    · exact ⟨m, by omega, by rw [units_of_lt hlt, Nat.pow_zero, Nat.mul_one]⟩
    · exact ⟨0 * 2 ^ 52 + m, by omega, units_significand hge hm 0⟩
  | succ e ih =>
    rcases Nat.lt_or_ge m (2 ^ 52) with hlt | hge
    · obtain ⟨rank, hrank, hunits⟩ := ih (m := 2 * m) (by omega)
      refine ⟨rank, Nat.lt_of_lt_of_le hrank (Nat.mul_le_mul_right _ (by omega)), ?_⟩
      rw [hunits, Nat.pow_succ]
      ring
    · exact ⟨(e + 1) * 2 ^ 52 + m, by omega, units_significand hge hm (e + 1)⟩

/-- The units in one are a power of two. Its exponent stays a variable below, since a number of
that size is nothing to compute with. -/
theorem exists_unitsPerOne_eq : ∃ e ≤ 1074, unitsPerOne = 2 ^ e := by
  unfold unitsPerOne
  generalize 1074 = e
  exact ⟨e, Nat.le_refl e, Nat.pow_eq⟩

theorem unitsPerOne_pos : 0 < unitsPerOne := by
  obtain ⟨e, -, he⟩ := exists_unitsPerOne_eq
  rw [he]
  exact Nat.two_pow_pos e

/-- **Integers up to 2^53 are exact.** -/
theorem units_rankOfNat {n : Nat} (h : n ≤ 2 ^ 53) :
    rankOfNat n < finiteRanks ∧ units (rankOfNat n) = n * unitsPerOne := by
  obtain ⟨e, hle, he⟩ := exists_unitsPerOne_eq
  have hexists : ∃ rank < (e + 3) * 2 ^ 52, units rank = n * unitsPerOne := by
    rw [he]
    rcases Nat.lt_or_eq_of_le h with hlt | rfl
    · obtain ⟨rank, hrank, hunits⟩ := exists_units_eq hlt e
      exact ⟨rank, Nat.lt_of_lt_of_le hrank (Nat.mul_le_mul_right _ (by omega)), hunits⟩
    · obtain ⟨rank, hrank, hunits⟩ := exists_units_eq (m := 2 ^ 52) (by omega) (e + 1)
      refine ⟨rank, hrank, ?_⟩
      rw [hunits, Nat.pow_succ]
      ring
  obtain ⟨rank, hrank, hunits⟩ := hexists
  have hround : rankOfNat n = rank := by
    have hself := nearestRank_units rank Nat.one_pos
    rwa [Nat.mul_one, hunits] at hself
  rw [hround]
  exact ⟨Nat.lt_of_lt_of_le hrank (Nat.mul_le_mul_right _ (by omega)), hunits⟩

/-- The number has that sign, and its magnitude is that integer. -/
def IsInteger (negative : Bool) (magnitude : Nat) : Binary64 → Prop
  | .finite sign rank => sign = negative ∧ units rank = magnitude * unitsPerOne
  | _ => False

/-- A number is known by its sign and its magnitude. -/
theorem IsInteger.unique {negative : Bool} {n : Nat} {x y : Binary64} (hx : x.IsInteger negative n)
    (hy : y.IsInteger negative n) : x = y := by
  cases x with
  | nan => cases hx
  | infinite sign => cases hx
  | finite sign rank =>
    cases y with
    | nan => cases hy
    | infinite sign' => cases hy
    | finite sign' rank' =>
      obtain ⟨rfl, hrank⟩ := hx
      obtain ⟨rfl, hrank'⟩ := hy
      have heq : rank = rank' := Fin.ext (units_strictMono.injective (hrank.trans hrank'.symm))
      rw [heq]

/-- What rounds to a magnitude of the format is that magnitude. -/
theorem isInteger_ofRank (negative : Bool) {n num : Nat} (h : n ≤ 2 ^ 53)
    (hnum : num = n * unitsPerOne) :
    (ofRank negative (nearestRank num 1)).IsInteger negative n := by
  obtain ⟨hlt, hunits⟩ := units_rankOfNat h
  have hround : nearestRank num 1 = rankOfNat n := by rw [hnum, rankOfNat]
  rw [hround, ofRank, dif_pos hlt]
  exact ⟨rfl, hunits⟩

theorem isInteger_ofInt {n : Int} (h : n.natAbs ≤ 2 ^ 53) :
    (ofInt n).IsInteger (n < 0) n.natAbs :=
  isInteger_ofRank _ h rfl

theorem isInteger_zero : zero.IsInteger false 0 :=
  ⟨rfl, (units_of_lt (Nat.two_pow_pos 52)).trans (Nat.zero_mul unitsPerOne).symm⟩

theorem IsInteger.negate {negative : Bool} {n : Nat} {x : Binary64} (h : x.IsInteger negative n) :
    x.negate.IsInteger (!negative) n := by
  cases x with
  | nan => cases h
  | infinite sign => cases h
  | finite sign rank => exact ⟨congrArg (!·) h.1, h.2⟩

/-! ## Counting -/

/-- The number is not negative and no less than an integer; it may be infinite. -/
def AtLeast (n : Nat) : Binary64 → Prop
  | .nan => False
  | .infinite negative => negative = false
  | .finite negative rank => negative = false ∧ n * unitsPerOne ≤ units rank

theorem IsInteger.atLeast {n : Nat} {x : Binary64} (h : x.IsInteger false n) : x.AtLeast n := by
  cases x with
  | nan => cases h
  | infinite sign => cases h
  | finite sign rank => exact ⟨h.1, Nat.le_of_eq h.2.symm⟩

/-- What is no less than an integer of the format is rounded to something no less. -/
theorem atLeast_ofRank {n num : Nat} (h : n ≤ 2 ^ 53) (hnum : n * unitsPerOne ≤ num) :
    (ofRank false (nearestRank num 1)).AtLeast n := by
  have hunits := (units_rankOfNat h).2
  have hround : rankOfNat n ≤ nearestRank num 1 := by
    refine le_nearestRank Nat.one_pos ?_
    rwa [Nat.mul_one, hunits]
  rw [ofRank]
  split
  · exact ⟨rfl, hunits ▸ units_strictMono.monotone hround⟩
  · rfl

theorem AtLeast.timesNat {m n factor : Nat} {x : Binary64} (hx : x.AtLeast n)
    (h : m ≤ n * factor) (hm : m ≤ 2 ^ 53) : (x.timesNat factor).AtLeast m := by
  cases x with
  | nan => cases hx
  | infinite negative => exact hx
  | finite negative rank =>
    obtain ⟨rfl, hrank⟩ := hx
    refine atLeast_ofRank hm ?_
    calc m * unitsPerOne ≤ n * factor * unitsPerOne := Nat.mul_le_mul_right _ h
      _ = n * unitsPerOne * factor := Nat.mul_right_comm n factor unitsPerOne
      _ ≤ units rank * factor := Nat.mul_le_mul_right _ hrank

theorem AtLeast.plusNat {m n summand : Nat} {x : Binary64} (hx : x.AtLeast n)
    (h : m ≤ n + summand) (hm : m ≤ 2 ^ 53) : (x.plusNat summand).AtLeast m := by
  cases x with
  | nan => cases hx
  | infinite negative => exact hx
  | finite negative rank =>
    obtain ⟨rfl, hrank⟩ := hx
    refine atLeast_ofRank hm ?_
    calc m * unitsPerOne ≤ (n + summand) * unitsPerOne := Nat.mul_le_mul_right _ h
      _ = n * unitsPerOne + summand * unitsPerOne := Nat.add_mul n summand unitsPerOne
      _ ≤ units rank + summand * unitsPerOne := Nat.add_le_add_right hrank _

theorem IsInteger.timesNat {n factor : Nat} {negative : Bool} {x : Binary64}
    (hx : x.IsInteger negative n) (h : n * factor ≤ 2 ^ 53) :
    (x.timesNat factor).IsInteger negative (n * factor) := by
  cases x with
  | nan => cases hx
  | infinite sign => cases hx
  | finite sign rank =>
    obtain ⟨rfl, hrank⟩ := hx
    refine isInteger_ofRank sign h ?_
    rw [hrank, Nat.mul_right_comm]

theorem IsInteger.plusNat {n summand : Nat} {x : Binary64}
    (hx : x.IsInteger false n) (h : n + summand ≤ 2 ^ 53) :
    (x.plusNat summand).IsInteger false (n + summand) := by
  cases x with
  | nan => cases hx
  | infinite sign => cases hx
  | finite sign rank =>
    obtain ⟨rfl, hrank⟩ := hx
    refine isInteger_ofRank false h ?_
    rw [hrank, Nat.add_mul]

/-- The number is `n` up to 2^53, and from there on no less than 2^53. -/
structure Counts (n : Nat) (x : Binary64) : Prop where
  /-- small integers are exact -/
  exact : n ≤ 2 ^ 53 → x.IsInteger false n
  /-- large integers stay large, whatever their rounding -/
  atLeast : x.AtLeast (min n (2 ^ 53))

theorem counts_zero : Counts 0 zero := by
  refine ⟨fun _ => isInteger_zero, ?_⟩
  rw [Nat.zero_min]
  exact isInteger_zero.atLeast

theorem Counts.timesNat {n factor : Nat} {x : Binary64} (h : x.Counts n) (hfactor : 0 < factor) :
    (x.timesNat factor).Counts (n * factor) := by
  have hle : n ≤ n * factor := Nat.le_mul_of_pos_right n hfactor
  refine ⟨fun hsmall => (h.exact (Nat.le_trans hle hsmall)).timesNat hsmall, ?_⟩
  refine h.atLeast.timesNat ?_ (Nat.min_le_right _ _)
  rcases Nat.le_total n (2 ^ 53) with hn | hn
  · rw [Nat.min_eq_left hn]
    exact Nat.min_le_left _ _
  · rw [Nat.min_eq_right hn]
    exact Nat.le_trans (Nat.min_le_right _ _) (Nat.le_mul_of_pos_right _ hfactor)

theorem Counts.plusNat {n : Nat} {x : Binary64} (h : x.Counts n) (summand : Nat) :
    (x.plusNat summand).Counts (n + summand) := by
  refine ⟨fun hsmall => (h.exact (by omega)).plusNat hsmall, ?_⟩
  exact h.atLeast.plusNat (by omega) (Nat.min_le_right _ _)

/-! ## Comparison with integers -/

/-- The integer of a sign and a magnitude. -/
def signedInt (negative : Bool) (magnitude : Nat) : Int :=
  if negative then -(magnitude : Int) else magnitude

theorem signedUnits_eq {rank n : Nat} (h : units rank = n * unitsPerOne) (negative : Bool) :
    signedUnits negative rank = signedInt negative n * unitsPerOne := by
  rw [signedUnits, signedInt, h]
  cases negative with
  | false => rw [if_neg Bool.false_ne_true, if_neg Bool.false_ne_true, Int.natCast_mul]
  | true => rw [if_pos rfl, if_pos rfl, Int.natCast_mul, Int.neg_mul]

/-- An integer lies between bounds as a number when it does as an integer. -/
theorem IsInteger.within_iff {negative : Bool} {n : Nat} {x : Binary64}
    (h : x.IsInteger negative n) (lo hi : Int) :
    x.within lo hi = true ↔ lo ≤ signedInt negative n ∧ signedInt negative n ≤ hi := by
  cases x with
  | nan => cases h
  | infinite sign => cases h
  | finite sign rank =>
    obtain ⟨rfl, hrank⟩ := h
    have hpos : (0 : Int) < unitsPerOne := Int.natCast_pos.mpr unitsPerOne_pos
    rw [within, Bool.and_eq_true, decide_eq_true_iff, decide_eq_true_iff, signedUnits_eq hrank,
      Int.mul_le_mul_right hpos, Int.mul_le_mul_right hpos]

/-- An integer exceeds a bound as a number when it does as an integer. -/
theorem IsInteger.exceeds_iff {negative : Bool} {n : Nat} {x : Binary64}
    (h : x.IsInteger negative n) (bound : Int) :
    x.exceeds bound = true ↔ bound < signedInt negative n := by
  cases x with
  | nan => cases h
  | infinite sign => cases h
  | finite sign rank =>
    obtain ⟨rfl, hrank⟩ := h
    have hpos : (0 : Int) < unitsPerOne := Int.natCast_pos.mpr unitsPerOne_pos
    rw [exceeds, decide_eq_true_iff, signedUnits_eq hrank, Int.mul_lt_mul_right hpos]

/-- What is no less than a bound is not below it, with either sign. -/
theorem AtLeast.not_within {n : Nat} {x : Binary64} (h : x.AtLeast n) {lo hi : Int}
    (hlo : -(n : Int) < lo) (hhi : hi < n) :
    x.within lo hi = false ∧ x.negate.within lo hi = false := by
  cases x with
  | nan => cases h
  | infinite sign => exact ⟨rfl, rfl⟩
  | finite sign rank =>
    obtain ⟨rfl, hrank⟩ := h
    have hpos : (0 : Int) < unitsPerOne := Int.natCast_pos.mpr unitsPerOne_pos
    have hunits : (n : Int) * unitsPerOne ≤ units rank := by exact_mod_cast hrank
    have habove : hi * unitsPerOne < n * unitsPerOne := Int.mul_lt_mul_of_pos_right hhi hpos
    have hbelow : -(n : Int) * unitsPerOne < lo * unitsPerOne :=
      Int.mul_lt_mul_of_pos_right hlo hpos
    rw [Int.neg_mul] at hbelow
    refine ⟨?_, ?_⟩
    · have hout : ¬ signedUnits false rank ≤ hi * unitsPerOne := by
        rw [signedUnits, if_neg Bool.false_ne_true]
        omega
      rw [within, decide_eq_false hout, Bool.and_false]
    · have hout : ¬ lo * unitsPerOne ≤ signedUnits true rank := by
        rw [signedUnits, if_pos rfl]
        omega
      rw [negate, Bool.not_false, within, decide_eq_false hout, Bool.false_and]

/-- The number with a sign put before it. -/
def withSign (negative : Bool) (x : Binary64) : Binary64 := if negative then x.negate else x

/-- **Counting and comparing.** Between bounds well below 2^53, what a number counts is between them
exactly when the number is, and then the number is what it counts. -/
theorem Counts.within_iff {n : Nat} {x : Binary64} (h : x.Counts n) (negative : Bool) {lo hi : Int}
    (hlo : -2 ^ 53 < lo) (hhi : hi < 2 ^ 53) :
    ((x.withSign negative).within lo hi = true ↔
        lo ≤ signedInt negative n ∧ signedInt negative n ≤ hi) ∧
      ((x.withSign negative).within lo hi = true → (x.withSign negative).IsInteger negative n) := by
  rcases Nat.le_total n (2 ^ 53) with hn | hn
  · have hinteger : (x.withSign negative).IsInteger negative n := by
      cases negative with
      | false => exact h.exact hn
      | true => exact (h.exact hn).negate
    exact ⟨hinteger.within_iff lo hi, fun _ => hinteger⟩
  · have hlarge := h.atLeast
    rw [Nat.min_eq_right hn] at hlarge
    obtain ⟨hpositive, hnegative⟩ := hlarge.not_within hlo hhi
    have hout : (x.withSign negative).within lo hi = false := by
      cases negative with
      | false => exact hpositive
      | true => exact hnegative
    have houtside : ¬ (lo ≤ signedInt negative n ∧ signedInt negative n ≤ hi) := by
      rw [signedInt]
      split <;> omega
    simp only [hout, houtside, Bool.false_eq_true, false_imp_iff, and_true]

end IdlBinding.Binary64
