import IdlBinding.Proofs.DecimalLiteral
import IdlBinding.Proofs.WholeNumbers

/-!
# Digits in their places

Positional notation as rules: a run of digits is written with its point at a given place, and zeros
fill the gap between the point and the digits. There is a rule for a point behind the digits, among
them and before them; none of them asks how far away the point is.

`positional` follows the rules (`inPlace_positional`), although it never looks at a list of digits:
it divides the coefficient by a power of ten and writes quotient and remainder. From the rules alone
follows what the text denotes (`InPlace.denotes`), and that it has no exponent.
-/

namespace IdlBinding.Decimal

/-! ## Quotient and remainder -/

/-- One more place takes one more digit. -/
theorem paddedDigits_succ {width c : Nat} (hwidth : 0 < width) (hc : c < 10) (n : Nat) :
    paddedDigits (width + 1) (10 * n + c) = paddedDigits width n ++ Nat.toDigits 10 c := by
  have hone : (Nat.toDigits 10 c).length = 1 := by
    rw [Nat.toDigits_of_lt_base hc, List.length_singleton]
  simp only [paddedDigits]
  rcases Nat.eq_zero_or_pos n with rfl | hpos
  · obtain ⟨w, rfl⟩ := Nat.exists_eq_add_of_lt hwidth
    simp [hone, ← List.replicate_succ']
  · rw [← Nat.toDigits_append_toDigits (by decide) hpos hc, List.length_append, hone,
      Nat.add_sub_add_right, List.append_assoc]

theorem length_paddedDigits {width n : Nat} (hwidth : 0 < width) (h : n < 10 ^ width) :
    (paddedDigits width n).length = width := by
  have hle := (Nat.length_toDigits_le_iff (by decide) hwidth).mpr h
  rw [paddedDigits, List.length_append, List.length_replicate]
  exact Nat.sub_add_cancel hle

/-- **Division cuts the digits**: those of the quotient stand first, and the remainder fills the
places behind them. -/
theorem toDigits_mul_pow_add {q : Nat} (hq : 0 < q) (places : Nat) {r : Nat}
    (hr : r < 10 ^ (places + 1)) :
    Nat.toDigits 10 (q * 10 ^ (places + 1) + r) =
      Nat.toDigits 10 q ++ paddedDigits (places + 1) r := by
  induction places generalizing r with
  | zero =>
    rw [Nat.zero_add, Nat.pow_one] at hr ⊢
    rw [paddedDigits, Nat.sub_eq_zero_of_le Nat.length_toDigits_pos, List.replicate_zero,
      List.nil_append, Nat.toDigits_append_toDigits (by decide) hq hr, Nat.mul_comm]
  | succ places ih =>
    -- The last digit of the remainder is the last digit of all.
    have hlast : r % 10 < 10 := Nat.mod_lt r (by decide)
    have hrest : r / 10 < 10 ^ (places + 1) := by
      rw [Nat.pow_succ] at hr
      exact Nat.div_lt_of_lt_mul (Nat.mul_comm _ _ ▸ hr)
    have hpos : 0 < q * 10 ^ (places + 1) + r / 10 :=
      Nat.add_pos_left (Nat.mul_pos hq (Nat.pow_pos (by decide))) _
    calc Nat.toDigits 10 (q * 10 ^ (places + 1 + 1) + r)
        = Nat.toDigits 10 (10 * (q * 10 ^ (places + 1) + r / 10) + r % 10) := by
          rw [Nat.mul_add, Nat.add_assoc (10 * _), Nat.div_add_mod, Nat.pow_succ 10 (places + 1),
            ← Nat.mul_assoc, Nat.mul_comm 10]
      _ = Nat.toDigits 10 (q * 10 ^ (places + 1) + r / 10) ++ Nat.toDigits 10 (r % 10) :=
          (Nat.toDigits_append_toDigits (by decide) hpos hlast).symm
      _ = Nat.toDigits 10 q ++ paddedDigits (places + 1 + 1) (10 * (r / 10) + r % 10) := by
          rw [ih hrest, paddedDigits_succ (Nat.succ_pos _) hlast, List.append_assoc]
      _ = Nat.toDigits 10 q ++ paddedDigits (places + 1 + 1) r := by rw [Nat.div_add_mod]

/-! ## Rules -/

/-- A run of digits in positional notation. The point is known by its place, which is the number of
digits before it. -/
inductive InPlace (digits : List Char) (point : Int) : List Char → Prop
  /-- all digits, and zeros up to the point -/
  | integer {zeros : Nat} (behind : point = digits.length + zeros) :
    InPlace digits point (digits ++ List.replicate zeros '0')
  /-- the point among the digits -/
  | mixed {whole fraction : List Char} (cut : digits = whole ++ fraction)
    (among : point = whole.length) (begun : whole ≠ []) (continued : fraction ≠ []) :
    InPlace digits point (whole ++ '.' :: fraction)
  /-- zeros from the point to the digits -/
  | fraction {zeros : Nat} (before : point = -zeros) :
    InPlace digits point ('0' :: '.' :: (List.replicate zeros '0' ++ digits))

/-- **Positional notation** keeps to the rules, with as many digits as the coefficient has. -/
theorem inPlace_positional {d : Decimal} (h : 0 < d.coefficient) :
    InPlace (Nat.toDigits 10 d.coefficient)
      ((Nat.toDigits 10 d.coefficient).length + d.exponent) d.positional := by
  rcases d with ⟨c, e⟩
  simp only [positional, Nat.pow_eq]
  rcases lt_or_ge e 0 with he | he
  · obtain ⟨k, rfl⟩ := Int.eq_negSucc_of_lt_zero he
    have hplaces : (-Int.negSucc k).toNat = k + 1 := rfl
    rw [if_neg (by omega), hplaces]
    have hsplit := Nat.div_add_mod' c (10 ^ (k + 1))
    have hmod : c % 10 ^ (k + 1) < 10 ^ (k + 1) := Nat.mod_lt c (Nat.pow_pos (by decide))
    rcases Nat.eq_zero_or_pos (c / 10 ^ (k + 1)) with hzero | hpos
    · -- All digits are behind the point.
      have hsmall : c < 10 ^ (k + 1) := Nat.lt_of_div_eq_zero (Nat.pow_pos (by decide)) hzero
      have hlength := (Nat.length_toDigits_le_iff (by decide) (Nat.succ_pos k)).mpr hsmall
      rw [hzero, Nat.mod_eq_of_lt hsmall]
      exact .fraction (by omega)
    · have hlength : (paddedDigits (k + 1) (c % 10 ^ (k + 1))).length = k + 1 :=
        length_paddedDigits (Nat.succ_pos k) hmod
      have hcut := toDigits_mul_pow_add hpos k hmod
      rw [hsplit] at hcut
      refine .mixed hcut ?_ Nat.toDigits_ne_nil (List.ne_nil_of_length_pos (by omega))
      rw [hcut, List.length_append, hlength]
      omega
  · obtain ⟨k, rfl⟩ := Int.eq_ofNat_of_zero_le he
    rw [if_pos he, Int.toNat_natCast, toDigits_mul_pow h]
    exact .integer rfl

/-- Digits in their places start with a digit. -/
theorem InPlace.head {digits text : List Char} {point : Int} (h : InPlace digits point text)
    (hdigits : ∀ c ∈ digits, c.isDigit = true) (hne : digits ≠ []) :
    ∀ c ∈ text.head?, c.isDigit = true := by
  cases h with
  | integer behind =>
    rw [List.head?_append_of_ne_nil _ hne]
    exact fun c hc => hdigits c (List.mem_of_mem_head? hc)
  | mixed cut among begun continued =>
    rw [List.head?_append_of_ne_nil _ begun]
    exact fun c hc => hdigits c (cut ▸ List.mem_append_left _ (List.mem_of_mem_head? hc))
  | fraction before =>
    rintro _ ⟨⟩
    rfl

/-- Nothing but digits and a point is in positional notation, and so no exponent. -/
theorem InPlace.exponent {digits text : List Char} {point : Int} (h : InPlace digits point text)
    (hdigits : ∀ c ∈ digits, c.isDigit = true) : 'e' ∉ text := by
  have hzeros (n : Nat) := notMem_of_isDigit (x := 'e') (isDigit_zeros n) rfl
  have hmark := notMem_of_isDigit (x := 'e') hdigits rfl
  cases h with
  | integer behind =>
    rw [List.mem_append]
    exact not_or.mpr ⟨hmark, hzeros _⟩
  | mixed cut among begun continued =>
    rw [cut, List.mem_append, not_or] at hmark
    rw [List.mem_append, List.mem_cons]
    exact not_or.mpr ⟨hmark.1, not_or.mpr ⟨by decide, hmark.2⟩⟩
  | fraction before =>
    rw [List.mem_cons, List.mem_cons, List.mem_append]
    exact not_or.mpr ⟨by decide, not_or.mpr ⟨by decide, not_or.mpr ⟨hzeros _, hmark⟩⟩⟩

/-- **Digits in their places denote a decimal**: the digits, counted from the point. -/
theorem InPlace.denotes {digits text : List Char} {point : Int} (h : InPlace digits point text)
    (hdigits : ∀ c ∈ digits, c.isDigit = true) (hne : digits ≠ []) :
    ∃ v, readLiteral text = some v ∧
      v.value = value ⟨Digits.toNat 10 (digitValues digits), point - digits.length⟩ := by
  have hend : ∀ c ∈ ([] : List Char).head?, c.isDigit = false ∧ c ≠ '.' :=
    fun c hc => absurd hc (Option.not_mem_none c)
  cases h with
  | @integer zeros behind =>
    have hread := readLiteral_whole (List.forall_mem_append.mpr ⟨hdigits, isDigit_zeros zeros⟩)
      (List.append_ne_nil_of_left_ne_nil hne _) [] rfl hend
    have hplaces : point - digits.length = zeros := by omega
    rw [List.append_nil] at hread
    refine ⟨_, hread, ?_⟩
    rw [digitValues_append, digitValues_zeros, toNat_append_zeros, value, value, hplaces,
      zpow_natCast, Option.getD_none, zpow_zero, mul_one]
    push_cast
    rfl
  | @mixed whole fraction cut among begun continued =>
    obtain ⟨hwhole, hfraction⟩ := List.forall_mem_append.mp (cut ▸ hdigits)
    have hread := readLiteral_point hwhole begun hfraction [] rfl (fun c hc => (hend c hc).1)
    have hplaces : point - digits.length = 0 - fraction.length := by
      rw [cut, List.length_append]
      omega
    rw [List.append_nil] at hread
    exact ⟨_, hread, by rw [← cut, hplaces, Option.getD_none]⟩
  | @fraction zeros before =>
    have hread := readLiteral_point (isDigit_zeros 1) (List.cons_ne_nil _ _)
      (List.forall_mem_append.mpr ⟨isDigit_zeros zeros, hdigits⟩) [] rfl (fun c hc => (hend c hc).1)
    have hplaces : point - digits.length = 0 - (List.replicate zeros '0' ++ digits).length := by
      rw [List.length_append, List.length_replicate]
      omega
    rw [List.append_nil] at hread
    refine ⟨_, hread, ?_⟩
    rw [digitValues_append, digitValues_append, digitValues_zeros, digitValues_zeros,
      toNat_zeros_append, toNat_zeros_append, hplaces, Option.getD_none]

end IdlBinding.Decimal
