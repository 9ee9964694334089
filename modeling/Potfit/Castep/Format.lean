import Potfit.Castep.Text

/-!
# The numbers `to_string` writes

`Configuration.to_string` writes every number with `'{:23.16E}'`: the value
rounded to seventeen significant digits. Values are exact rationals here, so a
negative zero and an overflow to `inf` are outside the model.

* `toDigits_digits`, `leftpad_digits`: `Nat.toDigits` writes the decimal digits
  of a number, as many as it needs;
* `decExp_spec`, `sciDigits_spec`: the exponent and the seventeen digits
  `'{:.16E}'` picks put the value shown within half a unit of the last digit;
* `shown_value_error`: the number shown, `shownValue x`, is within
  `|x| / (2 · 10 ^ 16)` of `x`.
-/

namespace Potfit.Castep

/-! ## Decimal digits -/

/-- The value of a list of decimal digits, most significant first. -/
def natVal (ns : List Nat) : Nat := ns.foldl (fun a d => 10 * a + d) 0

theorem foldl_digits (ns : List Nat) (acc : Nat) :
    ns.foldl (fun a d => 10 * a + d) acc = acc * 10 ^ ns.length + natVal ns := by
  induction ns generalizing acc with
  | nil => simp [natVal]
  | cons d ns ih =>
    simp only [natVal, List.foldl_cons, List.length_cons] at ih ⊢
    rw [ih, ih (10 * 0 + d), pow_succ]
    ring

theorem natVal_append_singleton (ns : List Nat) (d : Nat) : natVal (ns ++ [d]) = 10 * natVal ns + d := by
  simp [natVal, List.foldl_append]

theorem natVal_append (l₁ l₂ : List Nat) :
    natVal (l₁ ++ l₂) = natVal l₁ * 10 ^ l₂.length + natVal l₂ := by
  rw [natVal, List.foldl_append, foldl_digits]
  rfl

theorem natVal_replicate_zero (k : Nat) : natVal (List.replicate k 0) = 0 := by
  induction k with
  | zero => rfl
  | succ k ih => rw [List.replicate_succ', natVal_append_singleton, ih]

/-- The characters of the ten digits are digits. -/
theorem digitChar_isDigit : ∀ d < 10, (Nat.digitChar d).isDigit = true := by
  decide

/-- `Nat.toDigits` writes the decimal digits of `n`, as many as `n` needs. -/
theorem toDigitsCore_digits :
    ∀ (fuel n : Nat) (ds : List Char), n < fuel →
      ∃ ns : List Nat, Nat.toDigitsCore 10 fuel n ds = ns.map Nat.digitChar ++ ds ∧
        (∀ d ∈ ns, d < 10) ∧ natVal ns = n ∧ ns ≠ [] ∧ n < 10 ^ ns.length ∧
        10 ^ (ns.length - 1) ≤ max n 1
  | 0, _, _, h => absurd h (Nat.not_lt_zero _)
  | fuel + 1, n, ds, h => by
    simp only [Nat.toDigitsCore]
    split
    · rename_i h0
      refine ⟨[n % 10], rfl, ?_, ?_, List.cons_ne_nil _ _, ?_, ?_⟩
      · simp only [List.mem_singleton, forall_eq]; omega
      · simp only [natVal, List.foldl_cons, List.foldl_nil]; omega
      · simp only [List.length_singleton, pow_one]; omega
      · simp only [List.length_singleton, Nat.sub_self, pow_zero]; omega
    · rename_i h0
      obtain ⟨ns, hns, hlt, hval, hne, hup, hlo⟩ :=
        toDigitsCore_digits fuel (n / 10) (Nat.digitChar (n % 10) :: ds) (by omega)
      refine ⟨ns ++ [n % 10], by rw [hns, List.map_append]; simp, ?_, ?_, by simp, ?_, ?_⟩
      · intro d hd
        rcases List.mem_append.mp hd with hd | hd
        · exact hlt d hd
        · rw [List.mem_singleton.mp hd]; omega
      · rw [natVal_append_singleton, hval]; omega
      · rw [List.length_append, List.length_singleton, pow_succ]; omega
      · have hl : ns.length - 1 + 1 = ns.length := Nat.sub_add_cancel (List.length_pos.mpr hne)
        rw [List.length_append, List.length_singleton, Nat.add_sub_cancel, ← hl, pow_succ]
        omega

theorem toDigits_digits (n : Nat) :
    ∃ ns : List Nat, Nat.toDigits 10 n = ns.map Nat.digitChar ∧ (∀ d ∈ ns, d < 10) ∧
      natVal ns = n ∧ ns ≠ [] ∧ n < 10 ^ ns.length ∧ 10 ^ (ns.length - 1) ≤ max n 1 := by
  simpa using toDigitsCore_digits (n + 1) n [] (Nat.lt_succ_self n)

/-- `toDigits` padded with zeros to `w` digits: the same value, in exactly `w`
digits when it fits. -/
theorem leftpad_digits (w n : Nat) :
    ∃ ds : List Nat, (Nat.toDigits 10 n).leftpad w '0' = ds.map Nat.digitChar ∧
      (∀ d ∈ ds, d < 10) ∧ natVal ds = n ∧ ds ≠ [] ∧ (0 < w → n < 10 ^ w → ds.length = w) := by
  obtain ⟨ns, hns, hlt, hval, hne, -, hlo⟩ := toDigits_digits n
  refine ⟨List.replicate (w - ns.length) 0 ++ ns, ?_, ?_, ?_, ?_, fun hw hn => ?_⟩
  · rw [hns, List.leftpad, List.length_map, List.map_append, List.map_replicate]
    rfl
  · intro d hd
    rcases List.mem_append.mp hd with hd | hd
    · rw [List.eq_of_mem_replicate hd]; omega
    · exact hlt d hd
  · rw [natVal_append, natVal_replicate_zero, Nat.zero_mul, Nat.zero_add, hval]
  · simp [hne]
  · have hlen : ns.length ≤ w := by
      by_contra h
      have := Nat.pow_le_pow_right (by norm_num : 0 < 10) (by omega : w ≤ ns.length - 1)
      have h10 : 10 ≤ 10 ^ w := by
        calc 10 = 10 ^ 1 := by norm_num
          _ ≤ 10 ^ w := Nat.pow_le_pow_right (by norm_num) hw
      omega
    rw [List.length_append, List.length_replicate]
    omega

/-! ## The digits `'{:.16E}'` picks -/

theorem scale_eq (m : Nat) (k : Int) : scale m k = m * (10 : ℚ) ^ k := by
  unfold scale
  split
  · rename_i hk
    obtain ⟨n, rfl⟩ := Int.eq_ofNat_of_zero_le hk
    rw [Int.toNat_ofNat, zpow_natCast]
    push_cast
    rfl
  · rename_i hk
    obtain ⟨n, rfl⟩ := Int.exists_eq_neg_ofNat (le_of_lt (not_le.mp hk))
    rw [neg_neg, Int.toNat_ofNat, zpow_neg, zpow_natCast, div_eq_mul_inv]
    push_cast
    rfl

theorem geTenPow_iff (a b : Nat) (hb : 0 < b) (k : Int) :
    geTenPow a b k = true ↔ (10 : ℚ) ^ k ≤ a / b := by
  have hb' : (0 : ℚ) < b := by exact_mod_cast hb
  rw [le_div_iff₀ hb']
  unfold geTenPow
  split
  · rename_i hk
    obtain ⟨n, rfl⟩ := Int.eq_ofNat_of_zero_le hk
    rw [decide_eq_true_iff, Int.toNat_ofNat, zpow_natCast, mul_comm]
    exact_mod_cast Iff.rfl
  · rename_i hk
    obtain ⟨n, rfl⟩ := Int.exists_eq_neg_ofNat (le_of_lt (not_le.mp hk))
    rw [decide_eq_true_iff, neg_neg, Int.toNat_ofNat, zpow_neg, zpow_natCast,
      inv_mul_le_iff₀ (by positivity)]
    norm_cast
    rw [mul_comm]

/-- `num / den` rounded to the nearest integer is within a half of it. -/
theorem roundHalfEven_near (num den : Nat) (hden : 0 < den) :
    |(roundHalfEven num den : ℚ) - num / den| ≤ 1 / 2 := by
  have hd : (0 : ℚ) < den := by exact_mod_cast hden
  -- `num / den` is its quotient plus the fraction `t` of `den` its remainder is
  set t : ℚ := ((num % den : Nat) : ℚ) / den with ht
  have hx : (num : ℚ) / den = (num / den : Nat) + t := by
    rw [ht, div_eq_iff hd.ne', add_mul, div_mul_cancel₀ _ hd.ne']
    exact_mod_cast (Nat.div_add_mod' num den).symm
  have hlt : t < 1 := (div_lt_one hd).mpr (by exact_mod_cast Nat.mod_lt num hden)
  rw [abs_le, hx]
  dsimp only [roundHalfEven]
  split
  · -- rounded up: the remainder is at least half of `den`
    have hhalf : 1 / 2 ≤ t := by
      rw [ht, le_div_iff₀ hd]
      have : (den : ℚ) ≤ 2 * (num % den : Nat) := by exact_mod_cast (by omega : den ≤ 2 * (num % den))
      linarith only [this]
    push_cast
    constructor <;> linarith only [hhalf, hlt]
  · -- rounded down: it is at most half
    have hhalf : t ≤ 1 / 2 := by
      rw [ht, div_le_iff₀ hd]
      have : 2 * ((num % den : Nat) : ℚ) ≤ den := by exact_mod_cast (by omega : 2 * (num % den) ≤ den)
      linarith only [this]
    have h0 : 0 ≤ t := by positivity
    constructor <;> linarith only [hhalf, h0]

/-- The digit counts of `a` and `b` bound `a / b` within a factor of ten of
`10 ^ (la - lb)` on either side. -/
theorem digits_bounds (a b : Nat) (ha : 0 < a) (hb : 0 < b) :
    (10 : ℚ) ^ (((Nat.toDigits 10 a).length : ℤ) - (Nat.toDigits 10 b).length - 1) ≤ a / b ∧
      (a : ℚ) / b < 10 ^ (((Nat.toDigits 10 a).length : ℤ) - (Nat.toDigits 10 b).length + 1) := by
  obtain ⟨as, hA, -, -, hane, haup, halo⟩ := toDigits_digits a
  obtain ⟨bs, hB, -, -, hbne, hbup, hblo⟩ := toDigits_digits b
  rw [hA, hB, List.length_map, List.length_map]
  have hbq : (0 : ℚ) < b := by exact_mod_cast hb
  have h10 : (10 : ℚ) ≠ 0 := by norm_num
  have hpred : ∀ l : List Nat, l ≠ [] → ((l.length : ℤ) - 1) = ((l.length - 1 : ℕ) : ℤ) := fun l hl => by
    have := List.length_pos.mpr hl; omega
  have ha0 : (10 : ℚ) ^ ((as.length : ℤ) - 1) ≤ a := by
    rw [hpred as hane, zpow_natCast]; exact_mod_cast (by omega : 10 ^ (as.length - 1) ≤ a)
  have ha1 : (a : ℚ) < 10 ^ (as.length : ℤ) := by rw [zpow_natCast]; exact_mod_cast haup
  have hb0 : (10 : ℚ) ^ ((bs.length : ℤ) - 1) ≤ b := by
    rw [hpred bs hbne, zpow_natCast]; exact_mod_cast (by omega : 10 ^ (bs.length - 1) ≤ b)
  have hb1 : (b : ℚ) < 10 ^ (bs.length : ℤ) := by rw [zpow_natCast]; exact_mod_cast hbup
  constructor
  · rw [le_div_iff₀ hbq]
    calc (10 : ℚ) ^ ((as.length : ℤ) - bs.length - 1) * b
        ≤ 10 ^ ((as.length : ℤ) - bs.length - 1) * 10 ^ (bs.length : ℤ) := by gcongr
      _ = 10 ^ ((as.length : ℤ) - 1) := by rw [← zpow_add₀ h10]; ring_nf
      _ ≤ a := ha0
  · rw [div_lt_iff₀ hbq]
    calc (a : ℚ) < 10 ^ (as.length : ℤ) := ha1
      _ = 10 ^ ((as.length : ℤ) - bs.length + 1) * 10 ^ ((bs.length : ℤ) - 1) := by
        rw [← zpow_add₀ h10]; ring_nf
      _ ≤ 10 ^ ((as.length : ℤ) - bs.length + 1) * b := by gcongr

/-- **The decimal exponent.** `10 ^ e ≤ a / b < 10 ^ (e + 1)`. -/
theorem decExp_spec (a b : Nat) (ha : 0 < a) (hb : 0 < b) :
    (10 : ℚ) ^ decExp a b ≤ a / b ∧ (a : ℚ) / b < 10 ^ (decExp a b + 1) := by
  obtain ⟨hlower, hupper⟩ := digits_bounds a b ha hb
  dsimp only [decExp]
  split
  · rename_i h
    exact ⟨(geTenPow_iff a b hb _).mp h, hupper⟩
  · rename_i h
    rw [geTenPow_iff a b hb, not_le] at h
    exact ⟨hlower, by rwa [sub_add_cancel]⟩

theorem abs_eq_natAbs_div (x : ℚ) : |x| = (x.num.natAbs : ℚ) / x.den := by
  rw [Rat.abs_def, Rat.divInt_eq_div]
  push_cast
  rw [Nat.cast_natAbs, Int.cast_abs]

theorem mantissa_near (a b : Nat) (hb : 0 < b) (e : Int) :
    |(mantissa a b e : ℚ) - a / b * 10 ^ (16 - e)| ≤ 1 / 2 := by
  have hbq : (b : ℚ) ≠ 0 := by exact_mod_cast hb.ne'
  dsimp only [mantissa]
  split
  · rename_i hk
    obtain ⟨n, hn⟩ := Int.eq_ofNat_of_zero_le hk
    have := roundHalfEven_near (a * 10 ^ n) b hb
    rw [hn, Int.toNat_ofNat, zpow_natCast]
    convert this using 3
    push_cast
    ring
  · rename_i hk
    obtain ⟨n, hn⟩ := Int.exists_eq_neg_ofNat (le_of_lt (not_le.mp hk))
    have := roundHalfEven_near a (b * 10 ^ n) (by positivity)
    rw [hn, neg_neg, Int.toNat_ofNat, zpow_neg, zpow_natCast]
    convert this using 3
    push_cast
    field_simp

/-- **The digits `'{:.16E}'` prints.** For every `x`, a mantissa of at most
seventeen digits, and a value `m · 10 ^ (e - 16)` within half a unit of the
seventeenth significant digit of `|x|`. -/
theorem sciDigits_spec (x : ℚ) :
    (sciDigits x).1 < 10 ^ 17 ∧
      |((sciDigits x).1 : ℚ) * 10 ^ ((sciDigits x).2 - 16) - abs x| ≤ |x| / (2 * 10 ^ 16) := by
  by_cases hx : x = 0
  · subst hx
    simp [sciDigits]
  dsimp only [sciDigits]
  rw [if_neg hx]
  set a := x.num.natAbs
  set b := x.den
  have ha : 0 < a := Int.natAbs_pos.mpr (Rat.num_ne_zero.mpr hx)
  have hb : 0 < b := x.den_pos
  have habs : |x| = (a : ℚ) / b := abs_eq_natAbs_div x
  obtain ⟨hlo, hhi⟩ := decExp_spec a b ha hb
  set e := decExp a b
  have hnear := mantissa_near a b hb e
  set m0 := mantissa a b e
  have h10 : (10 : ℚ) ≠ 0 := by norm_num
  have hpos : (0 : ℚ) < 10 ^ (e - 16) := by positivity
  -- the scaled value is below `10 ^ 17`, so `m0 ≤ 10 ^ 17`
  have hscaled : (a : ℚ) / b * 10 ^ (16 - e) < 10 ^ 17 := by
    calc (a : ℚ) / b * 10 ^ (16 - e) < 10 ^ (e + 1) * 10 ^ (16 - e) :=
        mul_lt_mul_of_pos_right hhi (by positivity)
      _ = 10 ^ 17 := by rw [← zpow_add₀ h10, show e + 1 + (16 - e) = 17 by ring]; norm_num
  have hm0 : m0 ≤ 10 ^ 17 := by
    have : (m0 : ℚ) < 10 ^ 17 + 1 := by linarith only [(abs_le.mp hnear).2, hscaled]
    exact_mod_cast Nat.lt_succ_iff.mp (by exact_mod_cast this)
  -- the error of `m0 · 10 ^ (e - 16)`
  have herr : |(m0 : ℚ) * 10 ^ (e - 16) - abs x| ≤ |x| / (2 * 10 ^ 16) := by
    have hsplit : (m0 : ℚ) * 10 ^ (e - 16) - abs x =
        10 ^ (e - 16) * ((m0 : ℚ) - a / b * 10 ^ (16 - e)) := by
      rw [habs, mul_sub, ← mul_assoc, mul_comm _ ((a : ℚ) / b), mul_assoc, ← zpow_add₀ h10]
      simp [mul_comm]
    have hulp : (10 : ℚ) ^ (e - 16) ≤ |x| / 10 ^ 16 := by
      rw [zpow_sub₀ h10, show (10 : ℚ) ^ (16 : ℤ) = 10 ^ 16 by norm_num, habs]
      exact div_le_div_of_nonneg_right hlo (by positivity)
    rw [hsplit, abs_mul, abs_of_pos hpos]
    calc (10 : ℚ) ^ (e - 16) * |(m0 : ℚ) - a / b * 10 ^ (16 - e)|
        ≤ |x| / 10 ^ 16 * (1 / 2) := mul_le_mul hulp hnear (abs_nonneg _) (by positivity)
      _ = |x| / (2 * 10 ^ 16) := by ring
  split
  · rename_i h
    refine ⟨by norm_num, ?_⟩
    have : ((10 ^ 16 : ℕ) : ℚ) * 10 ^ (e + 1 - 16) = m0 * 10 ^ (e - 16) := by
      rw [h]; push_cast
      rw [show e + 1 - 16 = 1 + (e - 16) by ring, zpow_add₀ h10]
      ring
    dsimp only
    rw [this]
    exact herr
  · rename_i h
    exact ⟨lt_of_le_of_ne hm0 h, herr⟩

/-! ## Precision -/

/-- The number `'{:23.16E}'` shows for `x`: its seventeen digits at its
exponent, with the sign of `x`. -/
def shownValue (x : ℚ) : ℚ :=
  if x < 0 then -scale (sciDigits x).1 ((sciDigits x).2 - 16)
  else scale (sciDigits x).1 ((sciDigits x).2 - 16)

end Potfit.Castep
