import IdlBinding.Proofs.DecimalOrder

/-!
# The shortest decimal

What the search for the fewest digits finds. `IsShortest` says which decimal is to be written for a
magnitude: it reads back, it ends in no zero, nothing with fewer digits reads back, and of what has
as few digits nothing is nearer. There is one such decimal (`shortest_isShortest`) and no other
(`IsShortest.unique`).

The search goes down from the power of ten with which the magnitude begins (`pointPosition_spec`).
It ends at the latest where the magnitude is a whole multiple, which is within its fuel
(`exists_exact`, `found_search`). That nothing shorter reads back is a matter of the powers that the
search has passed: a shorter decimal would be a multiple of one of them, or else be so small that
the power of ten with which the magnitude begins would read back as well (`Found.le_length`).
-/

namespace IdlBinding.Decimal

open Binary64

/-! ## Lengths -/

theorem decimalLength_pos (n : Nat) : 0 < decimalLength n := Nat.length_toDigits_pos

theorem decimalLength_le_iff {n k : Nat} (h : 0 < k) : decimalLength n ≤ k ↔ n < 10 ^ k :=
  Nat.length_toDigits_le_iff (by decide) h

theorem lt_pow_decimalLength (n : Nat) : n < 10 ^ decimalLength n :=
  (decimalLength_le_iff (decimalLength_pos n)).mp (Nat.le_refl _)

theorem pow_le_of_decimalLength {n k : Nat} (hn : 0 < n) (h : decimalLength n = k + 1) :
    10 ^ k ≤ n := by
  rcases Nat.eq_zero_or_pos k with rfl | hk
  · exact hn
  · refine Nat.le_of_not_lt fun hlt => ?_
    have hshorter := (decimalLength_le_iff hk).mpr hlt
    omega

theorem zpow_ten_mono {a b : Int} (h : a ≤ b) : (10 : ℚ) ^ a ≤ 10 ^ b :=
  zpow_le_zpow_right₀ (by norm_num) h

theorem lt_of_zpow_ten_lt {a b : Int} (h : (10 : ℚ) ^ a < 10 ^ b) : a < b :=
  (zpow_lt_zpow_iff_right₀ (by norm_num)).mp h

/-- A decimal lies between the powers of ten that its digits span. -/
theorem value_lt (d : Decimal) :
    d.value < 10 ^ ((decimalLength d.coefficient : Int) + d.exponent) := by
  have hlt : (d.coefficient : ℚ) < 10 ^ decimalLength d.coefficient := by
    exact_mod_cast lt_pow_decimalLength d.coefficient
  rw [zpow_add₀ (by norm_num), zpow_natCast, value]
  exact mul_lt_mul_of_pos_right hlt (ten_zpow_pos d.exponent)

theorem le_value {d : Decimal} (h : 0 < d.coefficient) :
    (10 : ℚ) ^ ((decimalLength d.coefficient : Int) + d.exponent - 1) ≤ d.value := by
  obtain ⟨k, hk⟩ : ∃ k, decimalLength d.coefficient = k + 1 :=
    ⟨_, (Nat.sub_add_cancel (decimalLength_pos _)).symm⟩
  have hexponent : ((k + 1 : Nat) : Int) + d.exponent - 1 = k + d.exponent := by omega
  have hle : (10 : ℚ) ^ k ≤ d.coefficient := by exact_mod_cast pow_le_of_decimalLength h hk
  rw [hk, hexponent, zpow_add₀ (by norm_num), zpow_natCast, value]
  exact mul_le_mul_of_nonneg_right hle (ten_zpow_pos d.exponent).le

/-! ## The point -/

theorem two_pow_le_ten_pow {a n : Nat} (h : a ≤ 3 * n) : 2 ^ a ≤ 10 ^ n :=
  calc 2 ^ a ≤ 2 ^ (3 * n) := Nat.pow_le_pow_right (by decide) h
    _ = (2 ^ 3) ^ n := Nat.pow_mul 2 3 n
    _ ≤ 10 ^ n := Nat.pow_le_pow_left (by decide) n

theorem unitsPerOne_le {n : Nat} (h : 358 ≤ n) : unitsPerOne ≤ 10 ^ n := by
  obtain ⟨e, hle, he⟩ := exists_unitsPerOne_eq
  rw [he]
  exact two_pow_le_ten_pow (by omega)

/-- Far enough to the right of the point every magnitude has begun. -/
theorem one_le_below {rank n : Nat} (h : 0 < rank) (hn : unitsPerOne ≤ 10 ^ n) :
    1 ≤ (below rank (-n)).coefficient := by
  have hunits : (1 : ℚ) ≤ units rank := Nat.one_le_cast.mpr (units_pos h)
  have hpow : (unitsPerOne : ℚ) ≤ 10 ^ n := by exact_mod_cast hn
  refine le_below ?_
  rw [value_one, magnitude, zpow_neg, zpow_natCast, inv_eq_one_div]
  exact div_le_div₀ (by linarith) hunits unitsPerOne_cast_pos hpow

/-- The digits of a magnitude, up to a place where it has begun, tell the powers of ten on both
sides of it. -/
theorem length_below_spec {rank n : Nat} (h : 0 < rank) (hn : unitsPerOne ≤ 10 ^ n) :
    (10 : ℚ) ^ ((decimalLength (below rank (-n)).coefficient : Int) - n - 1) ≤ magnitude rank ∧
      magnitude rank < 10 ^ ((decimalLength (below rank (-n)).coefficient : Int) - n) := by
  refine ⟨(le_value (one_le_below h hn)).trans (below_le rank (-n)), ?_⟩
  have hupper : ((above rank (-n)).coefficient : ℚ) ≤
      10 ^ decimalLength (below rank (-n)).coefficient := by
    exact_mod_cast lt_pow_decimalLength (below rank (-n)).coefficient
  rw [Int.sub_eq_add_neg, zpow_add₀ (by norm_num), zpow_natCast]
  exact (lt_above rank (-n)).trans_le (mul_le_mul_of_nonneg_right hupper (ten_zpow_pos _).le)

/-- **The point** stands between two powers of ten. -/
theorem pointPosition_spec {rank : Nat} (h : 0 < rank) :
    (10 : ℚ) ^ (pointPosition rank - 1) ≤ magnitude rank ∧
      magnitude rank < 10 ^ pointPosition rank :=
  length_below_spec (n := 400) h (unitsPerOne_le (by decide))

/-! ## Magnitudes as decimals -/

theorem exists_units_eq_mul {rank : Nat} (h : rank < finiteRanks) :
    ∃ m k, m < 2 ^ 53 ∧ k ≤ 2045 ∧ units rank = m * 2 ^ k := by
  rcases Nat.lt_or_ge rank (2 ^ 52) with hlt | hge
  · exact ⟨rank, 0, by omega, by omega, by rw [units_of_lt hlt, Nat.pow_zero, Nat.mul_one]⟩
  · have hexponent : rank / 2 ^ 52 < 2047 := by
      refine Nat.div_lt_of_lt_mul ?_
      rw [Nat.mul_comm]
      exact h
    exact ⟨_, _, by omega, by omega, units_of_le hge⟩

/-- Every magnitude is a decimal. It has no places after the point, or not too many of them and then
not too many before it. -/
theorem exists_exact {rank : Nat} (h : rank < finiteRanks) :
    ∃ c t : Nat, value ⟨c, -t⟩ = magnitude rank ∧
      (t = 0 ∧ magnitude rank < 10 ^ 700 ∨ t ≤ 1074 ∧ magnitude rank < 10 ^ 18) := by
  obtain ⟨m, k, hm, hk, hunits⟩ := exists_units_eq_mul h
  obtain ⟨e, hle, he⟩ := exists_unitsPerOne_eq
  have htwo (n : Nat) : (2 : ℚ) ^ n ≠ 0 := pow_ne_zero n (by norm_num)
  rw [magnitude, hunits, he]
  rcases Nat.le_total e k with hek | hke
  · obtain ⟨i, rfl⟩ := Nat.exists_eq_add_of_le hek
    have hvalue : ((m * 2 ^ (e + i) : Nat) : ℚ) / (2 ^ e : Nat) = (m * 2 ^ i : Nat) := by
      push_cast
      rw [pow_add, div_eq_iff (htwo e)]
      ring
    have hlt : m * 2 ^ i < 10 ^ 700 :=
      calc m * 2 ^ i < 2 ^ 53 * 2 ^ i := Nat.mul_lt_mul_of_pos_right hm (Nat.two_pow_pos i)
        _ = 2 ^ (53 + i) := (Nat.pow_add 2 53 i).symm
        _ ≤ 10 ^ 700 := two_pow_le_ten_pow (by omega)
    refine ⟨m * 2 ^ i, 0, ?_, Or.inl ⟨rfl, ?_⟩⟩
    · rw [hvalue, value, Nat.cast_zero, neg_zero, zpow_zero, mul_one]
    · rw [hvalue]
      exact_mod_cast hlt
  · obtain ⟨t, rfl⟩ := Nat.exists_eq_add_of_le hke
    have hvalue : ((m * 2 ^ k : Nat) : ℚ) / (2 ^ (k + t) : Nat) = m / 2 ^ t := by
      push_cast
      rw [pow_add, mul_comm (m : ℚ), mul_div_mul_left _ _ (htwo k)]
    have hlt : (m : ℚ) < 10 ^ 18 := by
      have hnat : m < 10 ^ 18 := by omega
      exact_mod_cast hnat
    have hten : (10 : ℚ) ^ t = 2 ^ t * 5 ^ t := by
      rw [← mul_pow]
      norm_num
    refine ⟨m * 5 ^ t, t, ?_, Or.inr ⟨by omega, ?_⟩⟩
    · rw [hvalue, value, zpow_neg, zpow_natCast, hten]
      push_cast
      field_simp
    · rw [hvalue]
      exact (div_le_self (Nat.cast_nonneg m) (one_le_pow₀ (by norm_num))).trans_lt hlt

/-! ## The search -/

/-- The search ends with the first candidate, if there is one within its fuel. -/
theorem search_spec {rank fuel j : Nat} {e : Int} (hj : j < fuel)
    (h : (candidate? rank (e - j)).isSome = true) :
    ∃ i < fuel, candidate? rank (e - i) = some (search rank fuel e) ∧
      ∀ i' < i, candidate? rank (e - i') = none := by
  induction fuel generalizing j e with
  | zero => omega
  | succ fuel ih =>
    have hstart : e - (0 : Nat) = e := Int.sub_zero e
    have hstep (k : Nat) : e - (k + 1 : Nat) = e - 1 - k := by omega
    rw [search]
    cases hfirst : candidate? rank e with
    | some d =>
      refine ⟨0, Nat.zero_lt_succ fuel, ?_, fun i' hi' => absurd hi' (Nat.not_lt_zero i')⟩
      rw [hstart, hfirst, Option.getD_some]
    | none =>
      cases j with
      | zero =>
        rw [hstart, hfirst] at h
        cases h
      | succ j =>
        rw [hstep] at h
        obtain ⟨i, hi, hfound, hnone⟩ := ih (by omega) h
        refine ⟨i + 1, by omega, by rw [hstep]; exact hfound, fun i' hi' => ?_⟩
        cases i' with
        | zero => rw [hstart, hfirst]
        | succ k =>
          rw [hstep]
          exact hnone k (by omega)

/-- Where the search ends. -/
structure Found (rank : Nat) (d : Decimal) (e : Int) : Prop where
  /-- not above the power of ten with which the magnitude begins -/
  le_point : e ≤ pointPosition rank - 1
  /-- with a candidate -/
  candidate : candidate? rank e = some d
  /-- and with none on the way -/
  coarser : ∀ e', e < e' → e' ≤ pointPosition rank - 1 → candidate? rank e' = none

/-- **The search ends** at the latest where the magnitude is a whole multiple. -/
theorem found_search {rank : Nat} (hpos : 0 < rank) (h : rank < finiteRanks) :
    ∃ e, Found rank (search rank 1100 (pointPosition rank - 1)) e := by
  obtain ⟨c, t, hvalue, hbounds⟩ := exists_exact h
  obtain ⟨hlower, hupper⟩ := pointPosition_spec hpos
  have hreads : readsBack rank ⟨c, -t⟩ = true := readsBack_of_value_eq hvalue
  have hfine : -(t : Int) < pointPosition rank := by
    refine lt_of_zpow_ten_lt (lt_of_le_of_lt ?_ hupper)
    rw [← hvalue, ← value_one]
    exact value_mono _ (coefficient_pos hpos hreads)
  have hsteps : pointPosition rank - 1 + t < 1100 := by
    rcases hbounds with ⟨rfl, hlt⟩ | ⟨ht, hlt⟩
    · have hpoint : pointPosition rank - 1 < (700 : Nat) :=
        lt_of_zpow_ten_lt (hlower.trans_lt (by rwa [zpow_natCast]))
      omega
    · have hpoint : pointPosition rank - 1 < (18 : Nat) :=
        lt_of_zpow_ten_lt (hlower.trans_lt (by rwa [zpow_natCast]))
      omega
  obtain ⟨j, hj⟩ := Int.eq_ofNat_of_zero_le (by omega : 0 ≤ pointPosition rank - 1 + t)
  have hgrid : pointPosition rank - 1 - j = -t := by omega
  have hhit : (candidate? rank (pointPosition rank - 1 - j)).isSome = true := by
    rw [hgrid]
    exact candidate?_isSome hreads le_rfl
  obtain ⟨i, -, hfound, hnone⟩ := search_spec (by omega : j < 1100) hhit
  refine ⟨pointPosition rank - 1 - i, by omega, hfound, fun e' hlt hle => ?_⟩
  obtain ⟨i', hi'⟩ := Int.eq_ofNat_of_zero_le (Int.sub_nonneg.mpr hle)
  have he' : e' = pointPosition rank - 1 - i' := by omega
  rw [he']
  exact hnone i' (by omega)

/-- Nothing that reads back is a multiple of a power of ten that the search has passed. -/
theorem Found.exponent_lt {rank : Nat} {d a : Decimal} {e e' : Int} (h : Found rank d e)
    (ha : a.readsBack rank = true) (hlt : e < e') (hle : e' ≤ pointPosition rank - 1) :
    a.exponent < e' := by
  refine lt_of_not_ge fun hge => ?_
  have hsome := candidate?_isSome ha hge
  rw [h.coarser e' hlt hle] at hsome
  cases hsome

/-- **Nothing shorter reads back.** There are as many digits as places from the point to where the
search ends. -/
theorem Found.le_length {rank : Nat} {d d' : Decimal} {e : Int} (h : Found rank d e)
    (hpos : 0 < rank) (h' : d'.readsBack rank = true) :
    pointPosition rank - e ≤ decimalLength d'.coefficient := by
  have hle := h.le_point
  have hlength := decimalLength_pos d'.coefficient
  by_contra hshort
  have hexponent := h.exponent_lt h' (by omega : e < e + 1) (by omega)
  -- So small a decimal would be below the power of ten with which the magnitude begins.
  have hone : readsBack rank ⟨1, pointPosition rank - 1⟩ = true := by
    refine readsBack_of_le h' ?_ ?_
    · rw [value_one]
      exact (value_lt d').le.trans (zpow_ten_mono (by omega))
    · rw [value_one]
      exact (pointPosition_spec hpos).1
  exact absurd (h.exponent_lt hone (by omega) le_rfl) (lt_irrefl _)

theorem Found.coefficient_le {rank m : Nat} {d : Decimal} {e : Int} (h : Found rank d e)
    (hpos : 0 < rank) (hm : pointPosition rank = m + e) : d.coefficient ≤ 10 ^ m := by
  have hupper : magnitude rank < value ⟨10 ^ m, e⟩ := by
    have hpow : value ⟨10 ^ m, e⟩ = 10 ^ pointPosition rank := by
      rw [hm, zpow_add₀ (by norm_num), zpow_natCast, value]
      push_cast
      ring
    rw [hpow]
    exact (pointPosition_spec hpos).2
  have habove := above_le hupper
  rcases (candidate?_readsBack h.candidate).2 with rfl | rfl
  · exact Nat.le_of_succ_le habove
  · exact habove

/-! ## Zeros at the end -/

theorem stripZeros_spec (fuel : Nat) (d : Decimal) : ∃ j : Nat,
    (stripZeros fuel d).exponent = d.exponent + j ∧
      (stripZeros fuel d).coefficient * 10 ^ j = d.coefficient := by
  induction fuel generalizing d with
  | zero => exact ⟨0, (Int.add_zero _).symm, Nat.mul_one _⟩
  | succ fuel ih =>
    rw [stripZeros]
    split
    next hzero =>
      obtain ⟨j, hexponent, hcoefficient⟩ := ih ⟨d.coefficient / 10, d.exponent + 1⟩
      refine ⟨j + 1, by rw [hexponent]; push_cast; ring, ?_⟩
      rw [Nat.pow_succ, ← Nat.mul_assoc, hcoefficient]
      exact Nat.div_mul_cancel (Nat.dvd_of_mod_eq_zero hzero)
    next => exact ⟨0, (Int.add_zero _).symm, Nat.mul_one _⟩

theorem stripZeros_value (fuel : Nat) (d : Decimal) : (stripZeros fuel d).value = d.value := by
  obtain ⟨j, hexponent, hcoefficient⟩ := stripZeros_spec fuel d
  rw [value, value, hexponent, ← hcoefficient, zpow_add₀ (by norm_num), zpow_natCast]
  push_cast
  ring

theorem stripZeros_last {fuel : Nat} {d : Decimal} (hpos : 0 < d.coefficient)
    (h : d.coefficient < 10 ^ fuel) : (stripZeros fuel d).coefficient % 10 ≠ 0 := by
  induction fuel generalizing d with
  | zero => omega
  | succ fuel ih =>
    rw [stripZeros]
    split
    next hzero =>
      have hten : 10 ≤ d.coefficient := by omega
      rw [Nat.pow_succ, Nat.mul_comm] at h
      exact ih (Nat.div_pos hten (by decide)) (Nat.div_lt_of_lt_mul h)
    next hlast => exact hlast

/-! ## The decimal to write -/

/-- The decimal that is to be written for a magnitude. -/
structure IsShortest (rank : Nat) (d : Decimal) : Prop where
  /-- it is rounded to the magnitude -/
  readsBack : d.readsBack rank = true
  /-- its last digit is not zero -/
  last : d.coefficient % 10 ≠ 0
  /-- nothing with fewer digits is rounded to the magnitude -/
  fewest : ∀ d' : Decimal, d'.readsBack rank = true →
    decimalLength d.coefficient ≤ decimalLength d'.coefficient
  /-- and nothing with as few digits is nearer to it -/
  nearest : ∀ d' : Decimal, d'.readsBack rank = true →
    decimalLength d'.coefficient ≤ decimalLength d.coefficient → Nearer rank d d'

theorem Found.isShortest {rank : Nat} {d : Decimal} {e : Int} (h : Found rank d e)
    (hpos : 0 < rank) : IsShortest rank (stripZeros (decimalLength d.coefficient) d) := by
  have hle := h.le_point
  have hreads := (candidate?_readsBack h.candidate).1
  obtain ⟨m, hm⟩ := Int.eq_ofNat_of_zero_le (by omega : 0 ≤ pointPosition rank - e)
  have hvalue := stripZeros_value (decimalLength d.coefficient) d
  have hlast := stripZeros_last (coefficient_pos hpos hreads) (lt_pow_decimalLength d.coefficient)
  obtain ⟨j, -, hcoefficient⟩ := stripZeros_spec (decimalLength d.coefficient) d
  generalize stripZeros (decimalLength d.coefficient) d = s at hvalue hlast hcoefficient ⊢
  have hlength : decimalLength s.coefficient ≤ m := by
    have hbound : s.coefficient ≤ 10 ^ m :=
      calc s.coefficient ≤ s.coefficient * 10 ^ j := Nat.le_mul_of_pos_right _ (ten_pow_pos j)
        _ = d.coefficient := hcoefficient
        _ ≤ 10 ^ m := h.coefficient_le hpos (by omega)
    -- A power of ten has been stripped of its zeros.
    have hne : s.coefficient ≠ 10 ^ m := by
      intro heq
      refine hlast ?_
      rw [heq, ← Nat.sub_add_cancel (by omega : 1 ≤ m), Nat.pow_succ, Nat.mul_mod_left]
    exact (decimalLength_le_iff (by omega)).mpr (Nat.lt_of_le_of_ne hbound hne)
  refine ⟨readsBack_of_eq hreads hvalue.symm, hlast, fun d' h' => ?_, fun d' h' hshort => ?_⟩
  · have hlong := h.le_length hpos h'
    omega
  · have hlong := h.le_length hpos h'
    refine (candidate?_nearer h.candidate h' ?_).of_value_eq hvalue
    rcases le_or_gt e d'.exponent with hcoarse | hfine
    · exact le_below_or_above_le rank hcoarse
    · -- With as few digits and a smaller exponent it is below everything that was tried.
      obtain ⟨c, hc⟩ := exists_value_eq ⟨1, pointPosition rank - 1⟩ hle
      rw [value_one] at hc
      refine Or.inl ?_
      calc d'.value ≤ 10 ^ ((decimalLength d'.coefficient : Int) + d'.exponent) := (value_lt d').le
        _ ≤ 10 ^ (pointPosition rank - 1) := zpow_ten_mono (by omega)
        _ = value ⟨c, e⟩ := hc.symm
        _ ≤ (below rank e).value :=
          value_mono e (le_below (hc.le.trans (pointPosition_spec hpos).1))

/-- **The search finds the shortest decimal.** -/
theorem shortest_isShortest {rank : Nat} (hpos : 0 < rank) (h : rank < finiteRanks) :
    IsShortest rank (shortest rank) := by
  obtain ⟨e, hfound⟩ := found_search hpos h
  exact hfound.isShortest hpos

/-! ## Uniqueness -/

theorem exponent_le_of_value_eq {a b : Decimal} (h : a.value = b.value)
    (hlast : a.coefficient % 10 ≠ 0) : b.exponent ≤ a.exponent := by
  refine le_of_not_gt fun hlt => ?_
  obtain ⟨n, hn⟩ := Int.eq_ofNat_of_zero_le (by omega : 0 ≤ b.exponent - a.exponent - 1)
  have hexponent : b.exponent = (n + 1 : Nat) + a.exponent := by omega
  rw [value, value, hexponent, zpow_add₀ (by norm_num), ← mul_assoc,
    mul_left_inj' (ten_zpow_pos _).ne', zpow_natCast] at h
  have hcoefficient : a.coefficient = b.coefficient * 10 ^ (n + 1) := by exact_mod_cast h
  refine hlast ?_
  rw [hcoefficient, Nat.pow_succ, ← Nat.mul_assoc, Nat.mul_mod_left]

theorem eq_of_value_eq {a b : Decimal} (h : a.value = b.value) (ha : a.coefficient % 10 ≠ 0)
    (hb : b.coefficient % 10 ≠ 0) : a = b := by
  have hexponent : a.exponent = b.exponent :=
    le_antisymm (exponent_le_of_value_eq h.symm hb) (exponent_le_of_value_eq h ha)
  rw [value, value, hexponent, mul_left_inj' (ten_zpow_pos _).ne'] at h
  have hcoefficient : a.coefficient = b.coefficient := by exact_mod_cast h
  cases a
  cases b
  exact mk.injEq _ _ _ _ ▸ ⟨hcoefficient, hexponent⟩

/-- There is only one. -/
theorem IsShortest.unique {rank : Nat} {a b : Decimal} (ha : IsShortest rank a)
    (hb : IsShortest rank b) : a = b := by
  have hab := ha.nearest b hb.readsBack (hb.fewest a ha.readsBack)
  have hba := hb.nearest a ha.readsBack (ha.fewest b hb.readsBack)
  exact eq_of_value_eq (hab.value_eq hba) ha.last hb.last

end IdlBinding.Decimal
