import IdlBinding.Proofs.NumberDefaults
import IdlBinding.Proofs.RoundingError

/-!
# Numbers from digits and a power of ten

How far the number that is read from a literal may be from the nearest one. Each step may lose
something:

* digits that do not fit 64 bits are cut off, which costs at most one factor (`leading_close`);
* the digits that are taken up are rounded, and so is the power of ten;
* if it takes two divisions, the first quotient is rounded too. It may be so small that the rounding
  is coarse, but only if there are few digits (`close_first_quotient`).

Altogether at most five places are lost (`scale_near`), and none if coefficient and power of ten are
magnitudes of the format (`scale_eq_rankOfDecimal`).
-/

namespace IdlBinding.Digits

/-! ## Runs of digits -/

theorem foldl_eq (ds : List Nat) (n : Nat) :
    ds.foldl (fun n d => n * 10 + d) n = n * 10 ^ ds.length + toNat 10 ds := by
  induction ds generalizing n with
  | nil => simp [toNat]
  | cons d ds ih =>
    rw [toNat, List.foldl_cons, List.foldl_cons, ih, ih, List.length_cons, Nat.pow_succ]
    ring

theorem toNat_append (a b : List Nat) :
    toNat 10 (a ++ b) = toNat 10 a * 10 ^ b.length + toNat 10 b := by
  rw [toNat, List.foldl_append, foldl_eq]
  rfl

theorem toNat_lt {ds : List Nat} (h : ∀ d ∈ ds, d < 10) : toNat 10 ds < 10 ^ ds.length := by
  induction ds using List.reverseRecOn with
  | nil => simp [toNat]
  | append_singleton ds d ih =>
    obtain ⟨hds, hd⟩ := List.forall_mem_append.mp h
    have hlast := hd d List.mem_cons_self
    have hinit := ih hds
    rw [toNat, List.foldl_append, ← toNat, List.foldl_cons, List.foldl_nil, List.length_append,
      List.length_cons, List.length_nil, Nat.zero_add, Nat.pow_succ]
    omega

end IdlBinding.Digits

namespace IdlBinding.Json.Number

open Binary64

/-! ## Leading digits -/

/-- Of a number continued with digits, some are taken up and the others are left. -/
structure Absorbed (n : Nat) (ds : List Nat) (taken left : Nat) : Prop where
  /-- there are not more left than there were -/
  left_le : left ≤ ds.length
  /-- what is taken up, followed by zeros, is not above the whole -/
  lower : taken * 10 ^ left ≤ n * 10 ^ ds.length + Digits.toNat 10 ds
  /-- the next number, followed by zeros, is above the whole -/
  upper : n * 10 ^ ds.length + Digits.toNat 10 ds < (taken + 1) * 10 ^ left
  /-- the next digit would be too many -/
  full : left ≠ 0 → 2 ^ 64 * 10 ^ left ≤ 10 * (n * 10 ^ ds.length + Digits.toNat 10 ds)

theorem absorb_absorbed (n : Nat) {ds : List Nat} (h : ∀ d ∈ ds, d < 10) :
    Absorbed n ds (absorb n ds).1 (absorb n ds).2 := by
  induction ds generalizing n with
  | nil => exact ⟨Nat.le_refl 0, by simp [absorb, Digits.toNat], by simp [absorb, Digits.toNat],
      fun h => absurd rfl h⟩
  | cons d ds ih =>
    obtain ⟨hd, hds⟩ := List.forall_mem_cons.mp h
    have hvalue : n * 10 ^ (d :: ds).length + Digits.toNat 10 (d :: ds) =
        (n * 10 + d) * 10 ^ ds.length + Digits.toNat 10 ds := by
      rw [← Digits.foldl_eq, ← Digits.foldl_eq, List.foldl_cons]
    rw [absorb]
    split
    · obtain ⟨hleft, hlower, hupper, hfull⟩ := ih (n * 10 + d) hds
      rw [← hvalue] at hlower hupper hfull
      exact ⟨Nat.le_succ_of_le hleft, hlower, hupper, hfull⟩
    · next hover =>
      refine ⟨Nat.le_refl _, Nat.le_add_right _ _, ?_, fun _ => ?_⟩
      · rw [Nat.add_mul, Nat.one_mul]
        exact Nat.add_lt_add_left (Digits.toNat_lt h) _
      · have hle : 2 ^ 64 * 10 ^ ds.length ≤ (n * 10 + d) * 10 ^ ds.length :=
          Nat.mul_le_mul_right _ (Nat.le_of_not_lt hover)
        change 2 ^ 64 * 10 ^ (ds.length + 1) ≤ _
        rw [hvalue, Nat.pow_succ]
        omega

theorem Absorbed.grows {n taken left : Nat} {ds : List Nat} (h : Absorbed n ds taken left) :
    n * 10 ^ (ds.length - left) ≤ taken := by
  have hsplit : 10 ^ ds.length = 10 ^ (ds.length - left) * 10 ^ left := by
    rw [← Nat.pow_add, Nat.sub_add_cancel h.left_le]
  have hlt : n * 10 ^ (ds.length - left) * 10 ^ left < (taken + 1) * 10 ^ left := by
    rw [Nat.mul_assoc, ← hsplit]
    exact Nat.lt_of_le_of_lt (Nat.le_add_right _ _) h.upper
  exact Nat.le_of_lt_succ (Nat.lt_of_mul_lt_mul_right hlt)

/-- Digits are left only if many are taken up. -/
theorem Absorbed.large {n taken left : Nat} {ds : List Nat} (h : Absorbed n ds taken left)
    (hleft : left ≠ 0) : 2 ^ 53 < taken := by
  have hfull := h.full hleft
  have hupper := h.upper
  have hlt : 2 ^ 64 * 10 ^ left < (taken + 1) * 10 * 10 ^ left := by
    rw [Nat.mul_right_comm]
    omega
  have := Nat.lt_of_mul_lt_mul_right hlt
  omega

/-- No digit is left of a number that fits. -/
theorem Absorbed.all {n taken left : Nat} {ds : List Nat} (h : Absorbed n ds taken left)
    (hfits : n * 10 ^ ds.length + Digits.toNat 10 ds < 2 ^ 64) :
    left = 0 ∧ taken = n * 10 ^ ds.length + Digits.toNat 10 ds := by
  have hleft : left = 0 := by
    by_contra hleft
    have hfull := h.full hleft
    have hpow : 10 ^ 1 ≤ 10 ^ left := Nat.pow_le_pow_right (by decide) (Nat.pos_of_ne_zero hleft)
    omega
  have hlower := h.lower
  have hupper := h.upper
  rw [hleft, Nat.pow_zero, Nat.mul_one] at hlower hupper
  exact ⟨hleft, by omega⟩

theorem absorb_lt {n : Nat} (hn : n < 2 ^ 64) (ds : List Nat) : (absorb n ds).1 < 2 ^ 64 := by
  induction ds generalizing n with
  | nil => exact hn
  | cons d ds ih =>
    rw [absorb]
    split
    · next hfits => exact ih hfits
    · exact hn

/-- Numbers that start with the same digits, more than a binary64 number has, are close. -/
theorem close_of_between {m u a b : Nat} (hm : 2 ^ 53 < m) (ha : m * u ≤ a)
    (ha' : a ≤ (m + 1) * u) (hb : m * u ≤ b) (hb' : b ≤ (m + 1) * u) :
    Close 1 (a : ℚ) b := by
  have hstep {x y : Nat} (hx : x ≤ (m + 1) * u) (hy : m * u ≤ y) :
      (x : ℚ) ≤ y * roundoff ^ 1 := by
    have hu : 2 ^ 53 * u ≤ m * u := Nat.mul_le_mul_right _ hm.le
    rw [Nat.add_mul] at hx
    have herror : 2 * x ≤ 2 * y + 2 * u := by omega
    have hdistance : 2 ^ 52 * (2 * u) ≤ 1 * y := by omega
    exact le_mul_roundoff_pow herror hdistance
  exact ⟨hstep ha' hb, hstep hb' ha⟩

/-- Digits taken up in two parts are all digits, or there are many of them and they are close to
all digits. -/
theorem Absorbed.close {whole fraction : List Nat} {w above c below : Nat}
    (hwhole : Absorbed 0 whole w above) (hfraction : Absorbed w fraction c below)
    (hdigits : ∀ d ∈ fraction, d < 10) :
    c * 10 ^ (above + below) = Digits.toNat 10 (whole ++ fraction) ∨
      2 ^ 53 < c ∧
        Close 1 (c * 10 ^ (above + below) : Nat) (Digits.toNat 10 (whole ++ fraction) : Nat) := by
  have hlt := Digits.toNat_lt hdigits
  have hlower := hfraction.lower
  have hupper := hfraction.upper
  have hwholeLower := hwhole.lower
  have hwholeUpper := hwhole.upper
  rw [Digits.toNat_append]
  rw [Nat.zero_mul, Nat.zero_add] at hwholeLower hwholeUpper
  generalize Digits.toNat 10 fraction = f at hlt hlower hupper ⊢
  generalize Digits.toNat 10 whole = a at hwholeLower hwholeUpper ⊢
  rcases Nat.eq_zero_or_pos above with rfl | habove
  · obtain rfl : a = w := by omega
    rw [Nat.zero_add]
    rcases Nat.eq_zero_or_pos below with rfl | hbelow
    · exact Or.inl (by omega)
    · have hlarge := hfraction.large hbelow.ne'
      exact Or.inr ⟨hlarge, close_of_between hlarge (Nat.le_refl _)
        (Nat.mul_le_mul_right _ (Nat.le_succ _)) hlower hupper.le⟩
  · -- Both numbers lie between the digits taken up of the integer part and the next number.
    have hlarge := hwhole.large habove.ne'
    have hgrows := hfraction.grows
    have hone : 1 ≤ 10 ^ (fraction.length - below) := Nat.pow_pos (by decide)
    have hsplit : 10 ^ fraction.length = 10 ^ (fraction.length - below) * 10 ^ below := by
      rw [← Nat.pow_add, Nat.sub_add_cancel hfraction.left_le]
    refine Or.inr ⟨lt_of_lt_of_le hlarge (le_trans (Nat.le_mul_of_pos_right _ hone) hgrows),
      close_of_between (u := 10 ^ above * 10 ^ fraction.length) hlarge ?_ ?_ ?_ ?_⟩
    · calc w * (10 ^ above * 10 ^ fraction.length)
          = w * 10 ^ (fraction.length - below) * 10 ^ (above + below) := by
            rw [hsplit]
            ring
        _ ≤ c * 10 ^ (above + below) := Nat.mul_le_mul_right _ hgrows
    · calc c * 10 ^ (above + below) = c * 10 ^ below * 10 ^ above := by ring
        _ ≤ (w * 10 ^ fraction.length + 10 ^ fraction.length) * 10 ^ above :=
            Nat.mul_le_mul_right _ (le_trans hlower (Nat.add_le_add_left hlt.le _))
        _ = (w + 1) * (10 ^ above * 10 ^ fraction.length) := by ring
    · calc w * (10 ^ above * 10 ^ fraction.length)
          = w * 10 ^ above * 10 ^ fraction.length := (Nat.mul_assoc _ _ _).symm
        _ ≤ a * 10 ^ fraction.length := Nat.mul_le_mul_right _ hwholeLower
        _ ≤ a * 10 ^ fraction.length + f := Nat.le_add_right _ _
    · calc a * 10 ^ fraction.length + f ≤ a * 10 ^ fraction.length + 10 ^ fraction.length :=
            Nat.add_le_add_left hlt.le _
        _ = (a + 1) * 10 ^ fraction.length := by ring
        _ ≤ (w + 1) * 10 ^ above * 10 ^ fraction.length := Nat.mul_le_mul_right _ hwholeUpper
        _ = (w + 1) * (10 ^ above * 10 ^ fraction.length) := Nat.mul_assoc _ _ _

/-- The digits of a number are digits. -/
structure WellFormed (n : Number) : Prop where
  /-- those of the integer part -/
  whole : ∀ d ∈ n.whole, d < 10
  /-- those of the fraction -/
  fraction : ∀ d ∈ n.fraction, d < 10

/-- **What the leading digits lose.** They stand for a close number, and if there are few of them
for the same one. -/
theorem leading_close {n : Number} (h : n.WellFormed) :
    Close 1 n.leading.value n.exact.value ∧
      (n.leading.coefficient ≤ 2 ^ 53 → n.leading.value = n.exact.value) := by
  have hwhole := absorb_absorbed 0 h.whole
  have hfraction := absorb_absorbed (absorb 0 n.whole).1 h.fraction
  have hclose := hwhole.close hfraction h.fraction
  have hleft := hfraction.left_le
  simp only [leading, exact, Decimal.value]
  generalize absorb 0 n.whole = w at hclose hleft ⊢
  generalize absorb w.1 n.fraction = c at hclose hleft ⊢
  -- Both powers of ten are a common one times that of the digits that are left.
  have hexponent : n.exponent.getD 0 + w.2 - (n.fraction.length - c.2 : Nat) =
      ((w.2 + c.2 : Nat) : Int) + (n.exponent.getD 0 - n.fraction.length) := by omega
  have hten : (10 : ℚ) ≠ 0 := by norm_num
  have hcast : (c.1 : ℚ) * 10 ^ (w.2 + c.2) = (c.1 * 10 ^ (w.2 + c.2) : Nat) := by push_cast; rfl
  rw [hexponent, zpow_add₀ hten, zpow_natCast, ← mul_assoc, hcast]
  rcases hclose with heq | ⟨hlarge, hclose⟩
  · rw [heq]
    have hnonneg := mul_nonneg (Nat.cast_nonneg (Digits.toNat 10 (n.whole ++ n.fraction)))
      (Decimal.ten_zpow_pos (n.exponent.getD 0 - n.fraction.length)).le
    exact ⟨(close_of_eq rfl).mono hnonneg hnonneg (Nat.zero_le 1), fun _ => rfl⟩
  · exact ⟨hclose.mul_right (Decimal.ten_zpow_pos _).le, fun hsmall => absurd hlarge hsmall.not_gt⟩

theorem leading_lt (n : Number) : n.leading.coefficient < 2 ^ 64 :=
  absorb_lt (absorb_lt (Nat.two_pow_pos 64) n.whole) n.fraction

/-- Digits that fit are all taken up. -/
theorem leading_eq_exact {n : Number} (h : n.WellFormed) (hfits : n.exact.coefficient < 2 ^ 64) :
    n.leading = n.exact := by
  simp only [exact, Digits.toNat_append] at hfits
  have hone : 1 ≤ 10 ^ n.fraction.length := Nat.pow_pos (by decide)
  have hle : Digits.toNat 10 n.whole ≤ Digits.toNat 10 n.whole * 10 ^ n.fraction.length :=
    Nat.le_mul_of_pos_right _ hone
  obtain ⟨habove, hwhole⟩ := (absorb_absorbed 0 h.whole).all (by omega)
  rw [Nat.zero_mul, Nat.zero_add] at hwhole
  obtain ⟨hbelow, hfraction⟩ := (absorb_absorbed (Digits.toNat 10 n.whole) h.fraction).all hfits
  simp only [leading, exact, Digits.toNat_append, hfraction, hbelow, habove, hwhole, Nat.sub_zero,
    Int.natCast_zero, Int.add_zero]

end IdlBinding.Json.Number

namespace IdlBinding.Binary64

/-! ## Factors -/

theorem close_powerOfTen (k : Nat) : Close 1 (magnitude (powerOfTen k)) (10 ^ k) := by
  have hvalue : Decimal.value ⟨1, k⟩ = 10 ^ k := by rw [Decimal.value_one, zpow_natCast]
  have hclose := close_rankOfDecimal (d := ⟨1, k⟩) (hvalue ▸ one_le_pow₀ (by norm_num))
  rwa [hvalue] at hclose

theorem pos_of_magnitude_pos {rank : Nat} (h : 0 < magnitude rank) : 0 < rank := by
  rw [magnitude, div_pos_iff_of_pos_right unitsPerOne_cast_pos, Nat.cast_pos] at h
  refine Nat.pos_of_ne_zero fun hzero => ?_
  rw [hzero, units_zero] at h
  exact Nat.lt_irrefl 0 h

theorem powerOfTen_pos (k : Nat) : 0 < powerOfTen k :=
  pos_of_magnitude_pos ((close_powerOfTen k).pos (pow_pos (by norm_num) k))

theorem close_rankOfNat {n : Nat} (h : 0 < n) : Close 1 (magnitude (rankOfNat n)) n := by
  have hvalue : Decimal.value ⟨n, 0⟩ = n := by rw [Decimal.value, zpow_zero, mul_one]
  have hclose := close_rankOfDecimal (d := ⟨n, 0⟩) (hvalue ▸ Nat.one_le_cast.mpr h)
  rwa [hvalue, rankOfDecimal_integer] at hclose

theorem rankOfNat_pos {n : Nat} (h : 0 < n) : 0 < rankOfNat n :=
  pos_of_magnitude_pos ((close_rankOfNat h).pos (Nat.cast_pos.mpr h))

theorem magnitude_rankOfNat {n : Nat} (h : n ≤ 2 ^ 53) : magnitude (rankOfNat n) = n := by
  rw [magnitude, (units_rankOfNat h).2, Nat.cast_mul,
    mul_div_cancel_right₀ _ unitsPerOne_cast_pos.ne']

theorem rankOfNat_mono {m n : Nat} (h : m ≤ n) : rankOfNat m ≤ rankOfNat n :=
  nearestRank_mono Nat.one_pos (Nat.mul_le_mul_right _ h)

theorem le_units_rankOfNat {m n : Nat} (hm : m ≤ 2 ^ 53) (h : m ≤ n) :
    m * unitsPerOne ≤ units (rankOfNat n) :=
  (units_rankOfNat hm).2 ▸ units_strictMono.monotone (rankOfNat_mono h)

end IdlBinding.Binary64

namespace IdlBinding.Json

open Binary64

/-! ## Scaling -/

/-- The first of two divisions. A short coefficient is exact, and its quotient may be so small that
it is rounded coarsely. A long one has lost digits and was rounded, but its quotient is not that
small. -/
theorem close_first_quotient {c : Nat} {v : ℚ} (hc : 0 < c) (hclose : Close 1 (c : ℚ) v)
    (hexact : c ≤ 2 ^ 53 → (c : ℚ) = v) :
    Close 4 (magnitude (quotient (rankOfNat c) (powerOfTen maxPower))) (v / 10 ^ maxPower) := by
  have hpower := powerOfTen_pos maxPower
  have hten : (0 : ℚ) < 10 ^ maxPower := pow_pos (by norm_num) _
  have hcq : (0 : ℚ) < c := Nat.cast_pos.mpr hc
  rcases Nat.lt_or_ge (2 ^ 53) c with hlarge | hsmall
  · have hbound : (2 ^ 52 + 1) * units (powerOfTen maxPower) ≤
        1 * (2 ^ 53 * unitsPerOne * unitsPerOne) := by decide +kernel
    have hunits := Nat.mul_le_mul_right unitsPerOne
      (le_units_rankOfNat (Nat.le_refl (2 ^ 53)) hlarge.le)
    have hround := close_quotient hpower Nat.one_pos
      (Nat.le_trans hbound (Nat.mul_le_mul_left 1 hunits))
    have hquotient := ((close_rankOfNat hc).trans hclose).div (close_powerOfTen maxPower)
      (hclose.symm.pos hcq) hten
    exact hround.trans hquotient
  · have hbound : (2 ^ 52 + 3) * units (powerOfTen maxPower) ≤
        3 * (1 * unitsPerOne * unitsPerOne) := by decide +kernel
    have hunits := Nat.mul_le_mul_right unitsPerOne (le_units_rankOfNat (m := 1) (by decide) hc)
    have hround := close_quotient hpower (by decide : 0 < 3)
      (Nat.le_trans hbound (Nat.mul_le_mul_left 3 hunits))
    have hquotient := (close_of_eq (magnitude_rankOfNat hsmall)).div (close_powerOfTen maxPower)
      hcq hten
    rw [← hexact hsmall]
    exact hround.trans hquotient

theorem scaleDown_zero (places : Nat) : scaleDown 0 places = 0 := by
  rw [scaleDown, if_pos rfl, quotient_zero (powerOfTen_pos places), ite_self]

/-- Two divisions by the greatest power of ten leave nothing. -/
theorem second_quotient_eq_zero {c : Nat} (hc : c < 2 ^ 64) :
    quotient (quotient (rankOfNat c) (powerOfTen maxPower)) (powerOfTen maxPower) = 0 := by
  have hpower := powerOfTen_pos maxPower
  have hgreatest : quotient (quotient (rankOfNat (2 ^ 64)) (powerOfTen maxPower))
      (powerOfTen maxPower) = 0 := by decide +kernel
  have hle := quotient_mono hpower (quotient_mono hpower (rankOfNat_mono hc.le))
  rw [hgreatest] at hle
  exact Nat.le_zero.mp hle

/-- A decimal behind so many places is nearest to zero. -/
theorem rankOfDecimal_eq_zero {c places : Nat} {x : Decimal} (hlt : c < 2 ^ 64)
    (hclose : Close 1 (c : ℚ) (x.value * 10 ^ places)) (hplaces : 617 ≤ places) :
    rankOfDecimal x.coefficient x.exponent = 0 := by
  have hgreatest : rankOfDecimal (2 ^ 65) (-617) = 0 := by decide +kernel
  have hroundoff : roundoff ^ 1 ≤ 2 := by norm_num [roundoff]
  have hnonneg : 0 ≤ x.value := mul_nonneg (Nat.cast_nonneg _) (Decimal.ten_zpow_pos _).le
  have hcq : (c : ℚ) ≤ 2 ^ 64 := by exact_mod_cast hlt.le
  have hpow : (10 : ℚ) ^ 617 ≤ 10 ^ places := pow_le_pow_right₀ (by norm_num) hplaces
  have hvalue : x.value ≤ Decimal.value ⟨2 ^ 65, -617⟩ := by
    rw [Decimal.value.eq_1 ⟨2 ^ 65, -617⟩, zpow_neg, zpow_ofNat, ← div_eq_mul_inv,
      le_div_iff₀ (by positivity)]
    calc x.value * 10 ^ 617 ≤ x.value * 10 ^ places := mul_le_mul_of_nonneg_left hpow hnonneg
      _ ≤ c * roundoff ^ 1 := hclose.lower
      _ ≤ 2 ^ 64 * 2 := mul_le_mul hcq hroundoff (roundoff_pow_pos 1).le (by positivity)
      _ = (2 ^ 65 : Nat) := by norm_num
  have hle := Decimal.rankOfDecimal_mono hvalue
  rw [hgreatest] at hle
  exact Nat.le_zero.mp hle

/-- **Dividing by a power of ten** loses at most five places against the nearest number. -/
theorem scaleDown_near {c places : Nat} {x : Decimal} (hc : 0 < c) (hlt : c < 2 ^ 64)
    (hclose : Close 1 (c : ℚ) (x.value * 10 ^ places))
    (hexact : c ≤ 2 ^ 53 → (c : ℚ) = x.value * 10 ^ places) :
    Near 5 (scaleDown (rankOfNat c) places) (rankOfDecimal x.coefficient x.exponent) := by
  have hcq : (0 : ℚ) < c := Nat.cast_pos.mpr hc
  have hten (k : Nat) : (0 : ℚ) < 10 ^ k := pow_pos (by norm_num) k
  have hvalue := hclose.symm.pos hcq
  rw [scaleDown]
  split
  · -- One division: the coefficient, the digits it lacks and the power of ten.
    have hquotient := ((close_rankOfNat hc).trans hclose).div (close_powerOfTen places) hvalue
      (hten places)
    rw [mul_div_cancel_right₀ _ (hten places).ne'] at hquotient
    exact (quotient_near (powerOfTen_pos places) hquotient).mono (by decide)
  next hplaces =>
    have hfirst := close_first_quotient hc hclose hexact
    rw [if_neg (rankOfNat_pos hc).ne', scaleDown]
    split
    · have hquotient := hfirst.div (close_powerOfTen (places - maxPower))
        (div_pos hvalue (hten maxPower)) (hten _)
      rw [div_div, ← pow_add, Nat.add_sub_cancel' (by omega),
        mul_div_cancel_right₀ _ (hten places).ne'] at hquotient
      exact quotient_near (powerOfTen_pos _) hquotient
    · -- Nothing is left, and the number itself is nearest to zero.
      next hplaces' =>
      rw [second_quotient_eq_zero hlt, scaleDown_zero, ite_self,
        rankOfDecimal_eq_zero hlt hclose (by unfold maxPower at *; omega)]
      exact Near.refl 5 0

/-- **Multiplying by a power of ten** loses at most three places. -/
theorem product_powerOfTen_near {c k : Nat} {x : Decimal} (hc : 0 < c)
    (hclose : Close 1 (c * 10 ^ k : ℚ) x.value) :
    Near 3 (product (rankOfNat c) (powerOfTen k)) (rankOfDecimal x.coefficient x.exponent) := by
  have hproduct := (close_rankOfNat hc).mul (close_powerOfTen k) (Nat.cast_pos.mpr hc)
    (pow_pos (by norm_num) k)
  exact product_near (hproduct.trans hclose)

theorem scale_zero (e : Int) : scale ⟨0, e⟩ = 0 := by
  have hstart : rankOfNat 0 = 0 := (rankOfNat_eq_zero_iff (Nat.zero_le _)).mpr rfl
  simp only [scale, hstart, scaleDown_zero, product_zero, if_true, ite_self]

/-- **Reading a number loses at most five places** against the nearest number, if the result is
finite. -/
theorem scale_near {n : Number} (h : n.WellFormed) (hfinite : scale n.leading < finiteRanks) :
    Near 5 (scale n.leading) (rankOfDecimal n.exact.coefficient n.exact.exponent) := by
  obtain ⟨hclose, hexact⟩ := n.leading_close h
  have hlt := n.leading_lt
  generalize n.leading = d at hclose hexact hlt hfinite ⊢
  generalize n.exact = x at hclose hexact ⊢
  obtain ⟨c, e⟩ := d
  rcases Nat.eq_zero_or_pos c with rfl | hc
  · have hzero : x.value ≤ magnitude 0 := by
      have hlower := hclose.lower
      rw [Decimal.value.eq_1 ⟨0, e⟩, Nat.cast_zero, zero_mul, zero_mul] at hlower
      exact hlower.trans (magnitude_nonneg 0)
    rw [scale_zero, Nat.le_zero.mp (Decimal.rankOfDecimal_le hzero)]
    exact Near.refl 5 0
  · simp only [scale] at hfinite ⊢
    split at hfinite
    next hneg =>
      rw [if_pos hneg]
      obtain ⟨places, hplaces⟩ : ∃ places : Nat, e = -places := ⟨(-e).toNat, by omega⟩
      have hten : (0 : ℚ) < 10 ^ places := pow_pos (by norm_num) places
      have hvalue : Decimal.value ⟨c, e⟩ * 10 ^ places = c := by
        rw [Decimal.value, hplaces, zpow_neg, zpow_natCast, inv_mul_cancel_right₀ hten.ne']
      have hclose' := hclose.mul_right hten.le
      rw [hvalue] at hclose'
      rw [hplaces, Int.neg_neg, Int.toNat_natCast]
      exact scaleDown_near hc hlt hclose' fun hsmall => by rw [← hexact hsmall, hvalue]
    next hnonneg =>
      rw [if_neg hnonneg]
      split at hfinite
      next hle =>
        rw [if_pos hle]
        have hvalue : Decimal.value ⟨c, e⟩ = c * 10 ^ e.toNat := by
          rw [Decimal.value, ← zpow_natCast, Int.toNat_of_nonneg (by omega)]
        exact (product_powerOfTen_near hc (hvalue ▸ hclose)).mono (by decide)
      next =>
        rw [if_neg (rankOfNat_pos hc).ne'] at hfinite
        exact absurd hfinite (Nat.lt_irrefl _)

/-! ## Exact readings -/

/-- The coefficient and the power of ten are magnitudes of the format, or there is no power. -/
def IsShort (d : Decimal) : Prop :=
  d.coefficient ≤ 2 ^ 53 ∧ -22 ≤ d.exponent ∧ d.exponent ≤ 22 ∨
    d.coefficient < 2 ^ 64 ∧ d.exponent = 0

theorem magnitude_powerOfTen {k : Nat} (h : k ≤ 22) : magnitude (powerOfTen k) = 10 ^ k := by
  have hunits : ∀ k < 23, units (powerOfTen k) = 10 ^ k * unitsPerOne := by decide +kernel
  rw [magnitude, hunits k (by omega), Nat.cast_mul,
    mul_div_cancel_right₀ _ unitsPerOne_cast_pos.ne']
  push_cast
  rfl

/-- **Short numbers are read exactly**: the result is the nearest number. -/
theorem scale_eq_rankOfDecimal {d : Decimal} (h : IsShort d) :
    scale d = rankOfDecimal d.coefficient d.exponent := by
  obtain ⟨c, e⟩ := d
  simp only [IsShort] at h
  rcases h with ⟨hsmall, hlo, hhi⟩ | ⟨-, rfl⟩
  · have hstart := magnitude_rankOfNat hsmall
    simp only [scale]
    by_cases hneg : e < 0
    · have hpower := magnitude_powerOfTen (k := (-e).toNat) (by omega)
      have hvalue : magnitude (rankOfNat c) / magnitude (powerOfTen (-e).toNat) =
          Decimal.value ⟨c, e⟩ := by
        rw [hstart, hpower, Decimal.value, ← zpow_natCast, Int.toNat_of_nonneg (by omega), zpow_neg,
          div_inv_eq_mul]
      rw [if_pos hneg, scaleDown, if_pos (by unfold maxPower; omega)]
      exact (quotient_near (powerOfTen_pos _) (close_of_eq hvalue)).eq
    · have hpower := magnitude_powerOfTen (k := e.toNat) (by omega)
      have hvalue : magnitude (rankOfNat c) * magnitude (powerOfTen e.toNat) =
          Decimal.value ⟨c, e⟩ := by
        rw [hstart, hpower, Decimal.value, ← zpow_natCast, Int.toNat_of_nonneg (by omega)]
      rw [if_neg hneg, if_pos (by unfold maxPower; omega)]
      exact (product_near (close_of_eq hvalue)).eq
  · -- A product with one changes nothing, so the coefficient is rounded only once.
    have hone : units (powerOfTen 0) = unitsPerOne := by decide +kernel
    have hproduct : product (rankOfNat c) (powerOfTen 0) = rankOfNat c := by
      rw [product, hone, nearestRank_units _ unitsPerOne_pos]
    exact hproduct.trans (rankOfDecimal_integer c).symm

end IdlBinding.Json
