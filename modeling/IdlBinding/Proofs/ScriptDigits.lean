import IdlBinding.Proofs.RoundingError
import IdlBinding.Proofs.ShortestDecimal

/-!
# Digits of numbers in scripts

Which digits a script writes for a number. The language asks for digits that are rounded to the
number and for as few of them as possible (`IsFewest`). That leaves the last digit open at times,
and then it recommends the nearest decimal, or of two that are equally near the even one
(`IsRecommended`).

The shortest decimal (`shortest`) is one that the language allows, but where two are equally near it
is the greater one. So it is the recommended one unless there is a tie of which the greater decimal
is odd (`isRecommended_iff_of_no_tie`), and then the lesser one is recommended
(`IsTie.isRecommended_iff`).

The two decimals of a tie are neighbours: they have one exponent, and coefficients that follow each
other (`IsTie.exponent_eq`, `IsTie.coefficient_eq`). Neighbours with two exponents would be nine
times a power of ten and the next power of ten. Half way between them lies no magnitude that both
are rounded to, because a fraction would need a factor five in its denominator, and numbers from one
on are closer together (`not_half_way`).
-/

namespace IdlBinding.Decimal

open Binary64

/-! ## Rules -/

/-- The distance of a decimal from a magnitude. -/
def distance (rank : Nat) (d : Decimal) : ℚ := |d.value - magnitude rank|

/-- The decimal is rounded to a magnitude, and nothing with fewer digits is. -/
structure IsFewest (rank : Nat) (d : Decimal) : Prop where
  /-- it is rounded to the magnitude -/
  readsBack : d.readsBack rank = true
  /-- nothing with fewer digits is -/
  fewest : ∀ d' : Decimal, d'.readsBack rank = true →
    decimalLength d.coefficient ≤ decimalLength d'.coefficient

/-- Of the decimals with the fewest digits the nearest, and of two the even one. -/
structure IsRecommended (rank : Nat) (d : Decimal) : Prop where
  /-- it has the fewest digits -/
  isFewest : IsFewest rank d
  /-- none of the others is nearer -/
  nearest : ∀ d', IsFewest rank d' → distance rank d ≤ distance rank d'
  /-- and if one is as near, this one is even -/
  even : ∀ d', IsFewest rank d' → d' ≠ d → distance rank d' = distance rank d →
    d.coefficient % 2 = 0

/-- Two decimals with the fewest digits, both of them nearest. -/
structure IsTie (rank : Nat) (low high : Decimal) : Prop where
  /-- the lesser one -/
  isFewest_low : IsFewest rank low
  /-- the greater one -/
  isFewest_high : IsFewest rank high
  /-- they are not equal -/
  lt : low.value < high.value
  /-- the magnitude is half way between them -/
  equal : magnitude rank - low.value = high.value - magnitude rank
  /-- nothing is nearer -/
  nearest : ∀ d, IsFewest rank d → distance rank high ≤ distance rank d

/-! ## Fewest digits -/

theorem decimalLength_mono {m n : Nat} (h : m ≤ n) : decimalLength m ≤ decimalLength n :=
  (decimalLength_le_iff (decimalLength_pos n)).mpr (Nat.lt_of_le_of_lt h (lt_pow_decimalLength n))

theorem IsFewest.length_eq {rank : Nat} {a b : Decimal} (ha : IsFewest rank a)
    (hb : IsFewest rank b) : decimalLength a.coefficient = decimalLength b.coefficient :=
  Nat.le_antisymm (ha.fewest b hb.readsBack) (hb.fewest a ha.readsBack)

/-- A zero at the end could be left out. -/
theorem IsFewest.last {rank : Nat} {d : Decimal} (hpos : 0 < rank) (h : IsFewest rank d) :
    d.coefficient % 10 ≠ 0 := by
  intro hzero
  have hcoefficient := coefficient_pos hpos h.readsBack
  have hstripped : stripZeros 1 d = ⟨d.coefficient / 10, d.exponent + 1⟩ := if_pos hzero
  have hvalue := stripZeros_value 1 d
  rw [hstripped] at hvalue
  have hshort : decimalLength d.coefficient ≤ decimalLength (d.coefficient / 10) :=
    h.fewest _ (readsBack_of_eq h.readsBack hvalue.symm)
  have hten : 10 ≤ d.coefficient := by omega
  have hlength : 1 < decimalLength d.coefficient := by
    refine Nat.lt_of_not_le fun hle => ?_
    have hlt := (decimalLength_le_iff Nat.one_pos).mp hle
    omega
  have hlt : d.coefficient / 10 < 10 ^ (decimalLength d.coefficient - 1) := by
    refine Nat.div_lt_of_lt_mul ?_
    rw [← Nat.pow_succ', Nat.succ_eq_add_one, Nat.sub_add_cancel hlength.le]
    exact lt_pow_decimalLength d.coefficient
  have hdropped := (decimalLength_le_iff (Nat.sub_pos_of_lt hlength)).mpr hlt
  omega

/-- Between two decimals that read back everything does. -/
theorem readsBack_of_between {rank : Nat} {a b d : Decimal} (ha : a.readsBack rank = true)
    (hb : b.readsBack rank = true) (hlow : a.value ≤ d.value) (hhigh : d.value ≤ b.value) :
    d.readsBack rank = true := by
  rcases le_total d.value (magnitude rank) with hle | hle
  · exact readsBack_of_le ha hlow hle
  · exact readsBack_of_ge hb hhigh hle

theorem IsShortest.isFewest {rank : Nat} {d : Decimal} (h : IsShortest rank d) :
    IsFewest rank d :=
  ⟨h.readsBack, h.fewest⟩

theorem IsShortest.nearer {rank : Nat} {d d' : Decimal} (h : IsShortest rank d)
    (h' : IsFewest rank d') : Nearer rank d d' :=
  h.nearest d' h'.readsBack (h'.fewest d h.readsBack)

theorem IsShortest.distance_le {rank : Nat} {d d' : Decimal} (h : IsShortest rank d)
    (h' : IsFewest rank d') : distance rank d ≤ distance rank d' := by
  rcases h.nearer h' with hlt | ⟨heq, -⟩
  · exact hlt.le
  · exact heq.le

/-! ## Ties -/

/-- No magnitude is half way between nine times a power of ten and the next power if the first of
them is rounded to it. -/
theorem not_half_way {rank : Nat} {e : Int} (h : readsBack rank ⟨9, e⟩ = true) :
    2 * magnitude rank ≠ 19 * 10 ^ e := by
  intro hhalf
  rcases le_or_gt 0 e with hnonneg | hneg
  · -- Numbers are one part in 2^53 apart here.
    have hpow : (1 : ℚ) ≤ 10 ^ e := one_le_zpow₀ (by norm_num) hnonneg
    have hvalue : value ⟨9, e⟩ = 9 * 10 ^ e := by
      rw [value]
      norm_num
    have hclose := close_rankOfDecimal (d := ⟨9, e⟩) (by rw [hvalue]; linarith)
    rw [readsBack_eq_true.mp h, hvalue] at hclose
    have hupper := hclose.upper
    rw [pow_one, roundoff] at hupper
    linarith
  · -- The denominator of a magnitude is a power of two.
    obtain ⟨n, hn⟩ := Int.eq_ofNat_of_zero_le (by omega : 0 ≤ -e - 1)
    obtain ⟨k, -, hk⟩ := exists_unitsPerOne_eq
    have he : e = -((n + 1 : Nat) : Int) := by omega
    rw [he, zpow_neg, zpow_natCast, magnitude, ← div_eq_mul_inv, ← mul_div_assoc,
      div_eq_div_iff unitsPerOne_cast_pos.ne' (by positivity), hk] at hhalf
    have hnat : 2 * units rank * 10 ^ (n + 1) = 19 * 2 ^ k := by exact_mod_cast hhalf
    have hdvd : 5 ∣ 19 * 2 ^ k := by
      rw [← hnat, Nat.pow_succ]
      exact Dvd.dvd.mul_left (Dvd.dvd.mul_left (by decide) _) _
    have hcoprime : Nat.Coprime 5 (19 * 2 ^ k) :=
      Nat.Coprime.mul_right (by decide) (Nat.Coprime.pow_right k (by decide))
    have hone := Nat.Coprime.eq_one_of_dvd hcoprime hdvd
    omega

namespace IsTie

variable {rank : Nat} {low high : Decimal}

theorem distance_high (h : IsTie rank low high) :
    distance rank high = high.value - magnitude rank := by
  have hlt := h.lt
  have hequal := h.equal
  exact abs_of_nonneg (by linarith)

theorem distance_low (h : IsTie rank low high) : distance rank low = distance rank high := by
  have hlt := h.lt
  have hequal := h.equal
  rw [h.distance_high, ← hequal, distance, abs_of_nonpos (by linarith), neg_sub]

/-- Nothing with as few digits is between the two: what is above the lesser one is not below the
greater one. -/
theorem high_le (h : IsTie rank low high) {d : Decimal} (hlow : low.value < d.value)
    (hlength : decimalLength d.coefficient ≤ decimalLength high.coefficient) :
    high.value ≤ d.value := by
  refine le_of_not_gt fun hhigh => ?_
  have hreads := readsBack_of_between h.isFewest_low.readsBack h.isFewest_high.readsBack hlow.le
    hhigh.le
  have hfewest : IsFewest rank d :=
    ⟨hreads, fun d' h' => hlength.trans (h.isFewest_high.fewest d' h')⟩
  have hequal := h.equal
  have hnearer : distance rank d < distance rank high := by
    rw [h.distance_high]
    exact abs_lt.mpr ⟨by linarith, by linarith⟩
  exact absurd (h.nearest d hfewest) (not_le.mpr hnearer)

theorem exponent_le (h : IsTie rank low high) (hpos : 0 < rank) : low.exponent ≤ high.exponent := by
  refine le_of_not_gt fun hgt => ?_
  have hlength := h.isFewest_low.length_eq h.isFewest_high
  have hlt : high.value < low.value :=
    calc high.value < 10 ^ ((decimalLength high.coefficient : Int) + high.exponent) := value_lt high
      _ ≤ 10 ^ ((decimalLength low.coefficient : Int) + low.exponent - 1) :=
        zpow_ten_mono (by omega)
      _ ≤ low.value := le_value (coefficient_pos hpos h.isFewest_low.readsBack)
  exact absurd h.lt hlt.asymm

/-- **The decimals of a tie have one exponent.** -/
theorem exponent_eq (h : IsTie rank low high) (hpos : 0 < rank) : low.exponent = high.exponent := by
  refine le_antisymm (h.exponent_le hpos) (le_of_not_gt fun hgt => ?_)
  have hlength := h.isFewest_low.length_eq h.isFewest_high
  have hone : decimalLength 1 = 1 := by decide
  have hnine : decimalLength 9 = 1 := by decide
  have hlong := decimalLength_pos high.coefficient
  obtain ⟨p, hp⟩ : ∃ p : Int, p = (decimalLength high.coefficient : Int) + high.exponent - 1 :=
    ⟨_, rfl⟩
  -- A power of ten lies between the two, so it is the greater one.
  have hbelow : low.value < value ⟨1, p⟩ := by
    rw [value_one]
    exact (value_lt low).trans_le (zpow_ten_mono (by omega))
  have hpower : high.value = value ⟨1, p⟩ := by
    refine le_antisymm (h.high_le hbelow (by rw [hone]; exact hlong)) ?_
    rw [value_one, hp]
    exact le_value (coefficient_pos hpos h.isFewest_high.readsBack)
  have hhigh : high = ⟨1, p⟩ :=
    eq_of_value_eq hpower (h.isFewest_high.last hpos) Nat.one_ne_zero
  rw [hhigh, hone] at hlength
  -- With one digit the lesser one is nine times the power before.
  have hcut : value ⟨1, p⟩ = 10 * 10 ^ (p - 1) := by
    rw [value_one, ← zpow_one_add₀ (by norm_num), add_sub_cancel]
  have hninth : value ⟨9, p - 1⟩ = 9 * 10 ^ (p - 1) := by
    rw [value]
    norm_num
  have hten := ten_zpow_pos (p - 1)
  have hlow : low.value = value ⟨9, p - 1⟩ := by
    refine le_antisymm ?_ (le_of_not_gt fun hlt => ?_)
    · have hdigit : low.coefficient ≤ 9 :=
        Nat.le_of_lt_succ ((decimalLength_le_iff Nat.one_pos).mp hlength.le)
      have hexponent : low.exponent ≤ p - 1 := by
        rw [hhigh] at hgt
        exact Int.le_sub_one_of_lt hgt
      calc low.value ≤ low.coefficient * 10 ^ (p - 1) :=
            mul_le_mul_of_nonneg_left (zpow_ten_mono hexponent) (Nat.cast_nonneg _)
        _ ≤ value ⟨9, p - 1⟩ := value_mono (p - 1) hdigit
    · have hle := h.high_le hlt (by rw [hnine]; exact hlong)
      rw [hpower, hcut, hninth] at hle
      linarith
  have hequal := h.equal
  refine not_half_way (readsBack_of_eq h.isFewest_low.readsBack hlow) ?_
  rw [hlow, hpower, hcut, hninth] at hequal
  linarith

/-- **Their coefficients follow each other.** -/
theorem coefficient_eq (h : IsTie rank low high) (hpos : 0 < rank) :
    high.coefficient = low.coefficient + 1 := by
  have hexponent := h.exponent_eq hpos
  have hvalue (c : Nat) : value ⟨c, low.exponent⟩ = c * 10 ^ low.exponent := rfl
  have hten := ten_zpow_pos low.exponent
  have hhigh : high.value = high.coefficient * 10 ^ low.exponent := by rw [hexponent, value]
  have hlt : low.coefficient < high.coefficient := by
    have hlt := h.lt
    rw [hhigh, value, mul_lt_mul_iff_left₀ hten] at hlt
    exact_mod_cast hlt
  refine Nat.le_antisymm ?_ hlt
  have hnext := h.high_le (d := ⟨low.coefficient + 1, low.exponent⟩)
    (mul_lt_mul_of_pos_right (by exact_mod_cast Nat.lt_succ_self _) hten) (decimalLength_mono hlt)
  rw [hhigh, hvalue, mul_le_mul_iff_left₀ hten] at hnext
  exact_mod_cast hnext

/-- The greater one of a tie is the shortest decimal. -/
theorem isShortest_high (h : IsTie rank low high) (hpos : 0 < rank) : IsShortest rank high := by
  refine ⟨h.isFewest_high.readsBack, h.isFewest_high.last hpos, h.isFewest_high.fewest,
    fun d' hreads hlength => ?_⟩
  have hfewest : IsFewest rank d' :=
    ⟨hreads, fun d'' h'' => hlength.trans (h.isFewest_high.fewest d'' h'')⟩
  refine nearer_of_le (h.nearest d' hfewest) fun htie => ?_
  have hdistance : high.value - magnitude rank = |d'.value - magnitude rank| :=
    h.distance_high.symm.trans htie
  have hle := le_abs_self (d'.value - magnitude rank)
  linarith

end IsTie

/-- A decimal that is as near as the shortest one is the lesser one of a tie. -/
theorem IsShortest.isTie {rank : Nat} {low high : Decimal} (hpos : 0 < rank)
    (h : IsShortest rank high) (hlow : IsFewest rank low) (hne : low ≠ high)
    (hequal : distance rank low = distance rank high) : IsTie rank low high := by
  have hvalue : low.value ≠ high.value := fun heq =>
    hne (eq_of_value_eq heq (hlow.last hpos) h.last)
  have hlt : low.value < high.value := by
    rcases h.nearer hlow with hlt | ⟨-, hle⟩
    · exact absurd hequal hlt.ne'
    · exact lt_of_le_of_ne hle hvalue
  refine ⟨hlow, h.isFewest, hlt, ?_, fun d => h.distance_le⟩
  -- Two numbers at one distance from a third are equal or on both sides of it.
  rcases abs_eq_abs.mp hequal with hsame | hopposite
  · exact absurd (sub_left_inj.mp hsame) hvalue
  · linarith

/-! ## The recommended decimal -/

variable {rank : Nat} {d low high : Decimal}

/-- Two recommended decimals would be the odd and the even one of a tie. -/
theorem IsRecommended.unique {d' : Decimal} (hpos : 0 < rank) (hrank : rank < finiteRanks)
    (h : IsRecommended rank d) (h' : IsRecommended rank d') : d = d' := by
  by_contra hne
  have hequal : distance rank d = distance rank d' :=
    le_antisymm (h.nearest d' h'.isFewest) (h'.nearest d h.isFewest)
  have heven := h.even d' h'.isFewest (Ne.symm hne) hequal.symm
  have heven' := h'.even d h.isFewest hne hequal
  have hshortest := shortest_isShortest hpos hrank
  have hdistance : distance rank d = distance rank (shortest rank) :=
    le_antisymm (h.nearest _ hshortest.isFewest) (hshortest.distance_le h.isFewest)
  -- One of them at most is the shortest decimal, and the other one is next to it.
  have hnext {a : Decimal} (ha : IsFewest rank a) (hne : a ≠ shortest rank)
      (hequal : distance rank a = distance rank (shortest rank)) :
      (shortest rank).coefficient = a.coefficient + 1 ∧ a.exponent = (shortest rank).exponent :=
    have htie := hshortest.isTie hpos ha hne hequal
    ⟨htie.coefficient_eq hpos, htie.exponent_eq hpos⟩
  by_cases hd : d = shortest rank
  · have hcoefficient := (hnext h'.isFewest (fun heq => hne (hd.trans heq.symm))
      (hequal.symm.trans hdistance)).1
    rw [← hd] at hcoefficient
    omega
  · obtain ⟨hcoefficient, hexponent⟩ := hnext h.isFewest hd hdistance
    by_cases hd' : d' = shortest rank
    · rw [← hd'] at hcoefficient
      omega
    · obtain ⟨hcoefficient', hexponent'⟩ := hnext h'.isFewest hd' (hequal.symm.trans hdistance)
      have hsame : d.coefficient = d'.coefficient := by omega
      exact hne (congrArg₂ Decimal.mk hsame (hexponent.trans hexponent'.symm))

/-- **Without a tie that the greater decimal loses** the shortest decimal is recommended. -/
theorem isRecommended_iff_of_no_tie (hpos : 0 < rank) (hrank : rank < finiteRanks)
    (h : ∀ low high, IsTie rank low high → high.coefficient % 2 = 0) :
    IsRecommended rank d ↔ d = shortest rank := by
  have hshortest := shortest_isShortest hpos hrank
  have hrecommended : IsRecommended rank (shortest rank) :=
    ⟨hshortest.isFewest, fun d' => hshortest.distance_le, fun d' h' hne hequal =>
      h d' _ (hshortest.isTie hpos h' hne hequal)⟩
  refine ⟨fun hd => hd.unique hpos hrank hrecommended, ?_⟩
  rintro rfl
  exact hrecommended

/-- **With such a tie** the lesser decimal is recommended. -/
theorem IsTie.isRecommended_iff (h : IsTie rank low high) (hpos : 0 < rank)
    (hrank : rank < finiteRanks) (hodd : high.coefficient % 2 = 1) :
    IsRecommended rank d ↔ d = low := by
  have hcoefficient := h.coefficient_eq hpos
  have hrecommended : IsRecommended rank low :=
    ⟨h.isFewest_low, fun d' h' => h.distance_low.le.trans (h.nearest d' h'),
      fun _ _ _ _ => by omega⟩
  refine ⟨fun hd => hd.unique hpos hrank hrecommended, ?_⟩
  rintro rfl
  exact hrecommended

end IdlBinding.Decimal
