import Mathlib.Algebra.Order.Field.Power
import Mathlib.Data.Nat.Cast.Order.Field
import Mathlib.Data.Rat.Floor
import Mathlib.Data.UInt
import Mathlib.Tactic.FieldSimp
import Mathlib.Tactic.Linarith

namespace MiningpoolObserver.Library.Binary32

open Float.Model Float.Model.UnpackedFloat

/-- The nearest `f32` to an integer. -/
def ofInt64 (n : Int64) : Float32 := .ofModel (.ofInt64 n)

/-- The smallest integer that is no smaller, as an `f32`. -/
def ceil (x : Float32) : Float32 :=
  match x.toModel.unpack with
  | .finite s m e _ =>
    if 0 ≤ e then x
    else .ofModel (.pack (UnpackedFloat.normalize .binary32 (-(-s.apply m / 2 ^ (-e).toNat)) 0 s))
  | _ => x

section Quotients

variable {a b : ℕ} {em : ExtendedMantissa}

/-- The mantissa with its two bits for what is left is that of `a / b`. -/
structure IsQuotient (em : ExtendedMantissa) (a b : ℕ) : Prop where
  mantissa : em.mantissa = a / b
  roundBit : em.roundBit = decide (b ≤ 2 * (a % b))
  stickyBit : em.stickyBit = decide (2 * (a % b) ≠ 0 ∧ 2 * (a % b) ≠ b)

theorem isQuotient_of_fraction (hb : 0 < b) :
    IsQuotient (.ofMantissaAndAccuracy (a / b) (accuracyOfFraction (a % b) b)) a b := by
  unfold accuracyOfFraction
  by_cases hzero : a % b = 0
  · rw [if_pos hzero]
    constructor <;> simp [ExtendedMantissa.ofMantissaAndAccuracy, hzero]
    omega
  · rw [if_neg hzero]
    obtain hlt | heq | hgt := lt_trichotomy (2 * (a % b)) b
    · rw [compare_lt_iff_lt.mpr hlt]
      constructor <;> simp [ExtendedMantissa.ofMantissaAndAccuracy] <;> omega
    · rw [compare_eq_iff_eq.mpr heq]
      constructor <;> simp [ExtendedMantissa.ofMantissaAndAccuracy] <;> omega
    · rw [compare_gt_iff_gt.mpr hgt]
      constructor <;> simp [ExtendedMantissa.ofMantissaAndAccuracy] <;> omega

theorem IsQuotient.shiftRightOne (hb : 0 < b) (h : IsQuotient em a b) :
    IsQuotient em.shiftRightOne a (b * 2) := by
  have hr : a % b < b := Nat.mod_lt a hb
  have hrest : a % (b * 2) = a % b + b * (a / b % 2) := Nat.mod_mul
  constructor
  · rw [ExtendedMantissa.shiftRightOne, h.mantissa, Nat.div_div_eq_div_mul]
  · rw [ExtendedMantissa.shiftRightOne, h.mantissa, hrest]
    rcases Nat.mod_two_eq_zero_or_one (a / b) with hp | hp <;> simp [hp] <;> omega
  · rw [ExtendedMantissa.shiftRightOne, h.roundBit, h.stickyBit, hrest]
    rcases Nat.mod_two_eq_zero_or_one (a / b) with hp | hp <;>
      simp only [hp, ← Bool.decide_or, decide_eq_decide] <;> omega

/-- Shifting to the right divides, and loses nothing that rounding needs. -/
theorem IsQuotient.shiftRight (hb : 0 < b) (h : IsQuotient em a b) (k : ℕ) :
    IsQuotient (em >>> k) a (b * 2 ^ k) := by
  induction k with
  | zero => rwa [pow_zero, mul_one]
  | succ k ih =>
    rw [pow_succ, ← mul_assoc]
    exact ih.shiftRightOne (Nat.mul_pos hb (Nat.two_pow_pos k))

/-- The rounded mantissa is the quotient or the next number, at most a half away. -/
theorem IsQuotient.rounded (hb : 0 < b) (h : IsQuotient em a b) :
    a / b ≤ em.roundedMantissa ∧ em.roundedMantissa ≤ a / b + 1 ∧
      |(em.roundedMantissa : ℚ) - a / b| ≤ 1 / 2 := by
  have hnat : a / b ≤ em.roundedMantissa ∧ em.roundedMantissa ≤ a / b + 1 ∧
      2 * (b * em.roundedMantissa) ≤ 2 * a + b ∧ 2 * a ≤ 2 * (b * em.roundedMantissa) + b := by
    obtain ⟨m, r, s⟩ := em
    obtain ⟨hm, hr, hs⟩ := h
    dsimp only at hm hr hs
    have hdiv : b * (a / b) + a % b = a := Nat.div_add_mod a b
    have hrest : a % b < b := Nat.mod_lt a hb
    have hodd : m % 2 = 0 ∨ m % 2 = 1 := Nat.mod_two_eq_zero_or_one m
    rw [← hm] at hdiv ⊢
    cases r <;> cases s <;>
      simp only [eq_comm (a := false), eq_comm (a := true), decide_eq_true_eq,
        decide_eq_false_iff_not] at hr hs <;>
      simp only [ExtendedMantissa.roundedMantissa, ExtendedMantissa.accuracy,
        Accuracy.roundToNearestEven]
    · omega
    · omega
    · rcases hodd with hp | hp <;> rw [hp, mul_add] <;> omega
    · rw [mul_add]
      omega
  obtain ⟨hlow, hhigh, hle, hge⟩ := hnat
  refine ⟨hlow, hhigh, ?_⟩
  have hpos : (0 : ℚ) < b := Nat.cast_pos.mpr hb
  have hle' : 2 * ((b : ℚ) * em.roundedMantissa) ≤ 2 * a + b := by exact_mod_cast hle
  have hge' : 2 * (a : ℚ) ≤ 2 * (b * em.roundedMantissa) + b := by exact_mod_cast hge
  have hcancel : (b : ℚ) * (a / b) = a := mul_div_cancel₀ _ hpos.ne'
  rw [abs_le]
  constructor <;> nlinarith

end Quotients

section Rounding

/-- A positive normal number with its mantissa and its exponent. -/
structure IsNormal (f : UnpackedFloat) (m : ℕ) (e : ℤ) : Prop where
  low : 2 ^ 23 ≤ m
  high : m < 2 ^ 24
  eq : ∃ h, f = .finite .positive m e h

/-- To nearest: a multiple of a power of two that is at most half of that power away. -/
def Rounds (q r : ℚ) : Prop :=
  ∃ (n : ℕ) (t : ℤ), r = n * 2 ^ t ∧ |r - q| ≤ 2 ^ t / 2 ∧ 2 ^ 23 * 2 ^ t ≤ q

theorem log2_eq_of_normal {m : ℕ} (hlow : 2 ^ 23 ≤ m) (hhigh : m < 2 ^ 24) : m.log2 = 23 :=
  (Nat.log2_eq_iff (by omega)).mpr ⟨hlow, hhigh⟩

theorem mantissaBits_eq : Format.binary32.mantissaBits = 24 := rfl

theorem targetExponent_eq {m : ℕ} {e : ℤ} {s : ℕ} (hlog : m.log2 = 23 + s)
    (he : -149 ≤ e + s) : Format.binary32.targetExponent (totalExponent m e) = e + s := by
  simp only [Format.targetExponent, totalExponent, mantissaBits_eq, Format.minExponent, hlog]
  omega

theorem shiftToTargetExponent_eq {m : ℕ} {e : ℤ} {s : ℕ} (acc : Accuracy)
    (hlog : m.log2 = 23 + s) (he : -149 ≤ e + s) :
    shiftToTargetExponent .binary32 m e acc =
      (ExtendedMantissa.ofMantissaAndAccuracy m acc >>> s, e + s) := by
  have hs : (e + s - e).toNat = s := by omega
  simp only [shiftToTargetExponent, shiftToExponent, targetExponent_eq hlog he, hs]

theorem finite_congr {s s' : Sign} {m m' : ℕ} {e e' : ℤ} (hs : s = s') (hm : m = m') (he : e = e')
    (h : 0 < m) (h' : 0 < m') : UnpackedFloat.finite s m e h = .finite s' m' e' h' := by
  subst hs hm he
  rfl

/-- After rounding, the mantissa may have one bit too many, and is then even. -/
theorem roundWithAccuracy_eq {m : ℕ} {e : ℤ} {s n : ℕ} (acc : Accuracy)
    (hlog : m.log2 = 23 + s) (he : -149 ≤ e + s)
    (hn : (ExtendedMantissa.ofMantissaAndAccuracy m acc >>> s).roundedMantissa = n)
    (hlow : 2 ^ 23 ≤ n) (hhigh : n ≤ 2 ^ 24) :
    ∃ m' e', IsNormal (roundWithAccuracy .binary32 .positive m e acc) m' e' ∧
      (m' : ℚ) * 2 ^ e' = n * 2 ^ (e + s) ∧ e + s ≤ e' ∧ e' ≤ e + s + 1 := by
  obtain hlt | rfl := hhigh.lt_or_eq
  · refine ⟨n, e + s, ⟨hlow, hlt, by omega, ?_⟩, rfl, le_rfl, by omega⟩
    have hlog' : n.log2 = 23 + 0 := log2_eq_of_normal hlow hlt
    have hshift := shiftToTargetExponent_eq (e := e + s) .exact hlog' (by simpa using he)
    rw [roundWithAccuracy, shiftToTargetExponent_eq acc hlog he]
    dsimp only
    rw [hn, hshift]
    have hne : n ≠ 0 := by omega
    have hmantissa : (ExtendedMantissa.ofMantissaAndAccuracy n .exact >>> 0).mantissa = n := rfl
    rw [dif_neg (hmantissa.trans_ne hne)]
    exact finite_congr rfl hmantissa (add_zero _) _ _
  · refine ⟨2 ^ 23, e + s + 1, ⟨le_rfl, by norm_num, by norm_num, ?_⟩, ?_, by omega, le_rfl⟩
    · have hlog' : (2 ^ 24 : ℕ).log2 = 23 + 1 := Nat.log2_two_pow
      have hshift := shiftToTargetExponent_eq (e := e + s) .exact hlog' (by push_cast; omega)
      rw [roundWithAccuracy, shiftToTargetExponent_eq acc hlog he]
      dsimp only
      rw [hn, hshift]
      rfl
    · rw [zpow_add_one₀ two_ne_zero]
      push_cast
      ring

/-- A quotient with enough bits is rounded to nearest. -/
theorem rounds_roundWithAccuracy {a b : ℕ} {e : ℤ} {s : ℕ} (hb : 0 < b)
    (hlog : (a / b).log2 = 23 + s) (he : -149 ≤ e + s) :
    ∃ m' e', IsNormal (roundWithAccuracy .binary32 .positive (a / b) e
        (accuracyOfFraction (a % b) b)) m' e' ∧
      Rounds (a / b * 2 ^ e) (m' * 2 ^ e') ∧ e + s ≤ e' ∧ e' ≤ e + s + 1 := by
  have hem := (isQuotient_of_fraction (a := a) hb).shiftRight hb s
  have hb' : 0 < b * 2 ^ s := Nat.mul_pos hb (Nat.two_pow_pos s)
  obtain ⟨hlow, hhigh, hnear⟩ := hem.rounded hb'
  -- the shift leaves 24 bits
  have hbits : 2 ^ 23 ≤ a / (b * 2 ^ s) ∧ a / (b * 2 ^ s) < 2 ^ 24 := by
    obtain ⟨hl, hh⟩ := (Nat.log2_eq_iff (by rintro h; simp [h] at hlog; omega)).mp hlog
    rw [← Nat.div_div_eq_div_mul]
    constructor
    · rwa [Nat.le_div_iff_mul_le (Nat.two_pow_pos s), ← pow_add]
    · rwa [Nat.div_lt_iff_lt_mul (Nat.two_pow_pos s), ← pow_add, Nat.add_right_comm 23 1 s]
  obtain ⟨m', e', hnormal, hvalue, hmin, hmax⟩ :=
    roundWithAccuracy_eq (accuracyOfFraction (a % b) b) hlog he rfl (by omega) (by omega)
  have hpos : (0 : ℚ) < 2 ^ (e + s) := zpow_pos two_pos _
  have hq : (a : ℚ) / b * 2 ^ e = a / ((b * 2 ^ s : ℕ) : ℚ) * 2 ^ (e + s) := by
    have hb₀ : (b : ℚ) ≠ 0 := by exact_mod_cast hb.ne'
    rw [zpow_add₀ two_ne_zero, zpow_natCast]
    push_cast
    field_simp
  refine ⟨m', e', hnormal, ⟨_, e + s, hvalue, ?_, ?_⟩, hmin, hmax⟩
  · rw [hvalue, hq, ← sub_mul, abs_mul, abs_of_pos hpos]
    calc _ ≤ 1 / 2 * (2 : ℚ) ^ (e + s) := by gcongr
      _ = 2 ^ (e + s) / 2 := by ring
  · rw [hq]
    gcongr
    calc (2 : ℚ) ^ 23 = ((2 ^ 23 : ℕ) : ℚ) := by norm_num
      _ ≤ ((a / (b * 2 ^ s) : ℕ) : ℚ) := Nat.cast_le.mpr hbits.1
      _ ≤ a / ((b * 2 ^ s : ℕ) : ℚ) := Nat.cast_div_le

end Rounding

section Packing

variable {f : UnpackedFloat} {m : ℕ} {e : ℤ}

/-- A mantissa with its leading bit left out, and put back. -/
theorem toNat_append_mantissa (hlow : 2 ^ 23 ≤ m) (hhigh : m < 2 ^ 24) :
    (1#1 ++ BitVec.ofNat 23 m).toNat = m := by
  rw [BitVec.toNat_append, BitVec.toNat_ofNat, BitVec.toNat_ofNat,
    ← Nat.shiftLeft_add_eq_or_of_lt (Nat.mod_lt m (Nat.two_pow_pos 23)), Nat.shiftLeft_eq]
  omega

theorem sign_packComponents (k : BitVec 8) (m : BitVec 23) :
    Sign.ofBitVec (unpackSign (packComponents .binary32 .positive k m)) = .positive := by
  have hbit : (0#1 ++ k ++ m).getLsbD 31 = false := by
    rw [BitVec.getLsbD_append, BitVec.getLsbD_append]
    rfl
  have hsign : unpackSign (packComponents .binary32 .positive k m) = 0#1 := by
    change (0#1 ++ k ++ m).extractLsb' 31 1 = 0#1
    ext i hi
    obtain rfl : i = 0 := by omega
    rw [BitVec.getElem_extractLsb', BitVec.getElem_zero]
    exact hbit
  rw [hsign]
  rfl

/-- A normal number within the range of the exponent is read as it was written. -/
theorem IsNormal.unpack_pack (h : IsNormal f m e) (hlow : -149 ≤ e) (hhigh : e ≤ 104) :
    (Float32.Model.pack f).unpack = f := by
  obtain ⟨hmlow, hmhigh, hpos, rfl⟩ := h
  have hlog : m.log2 + 1 = Format.binary32.mantissaBits := by
    rw [log2_eq_of_normal hmlow hmhigh]
    rfl
  obtain ⟨k, hk⟩ : ∃ k : ℕ, e + 150 = k := ⟨(e + 150).toNat, by omega⟩
  have hbias : (e + Format.binary32.exponentBias +
      Format.binary32.mantissaBitsWithoutImplicit).toNat = k := by
    simp only [Format.exponentBias]
    omega
  have hfits : ¬ 2 ^ Format.binary32.exponentBits ≤ k + 1 := by
    simp only
    omega
  have hpack : UnpackedFloat.pack .binary32 (.finite .positive m e hpos) =
      packComponents .binary32 .positive (BitVec.ofNat _ k) (BitVec.ofNat _ m) := by
    delta UnpackedFloat.pack
    dsimp only
    rw [hbias, if_neg hfits, if_pos hlog]
  have hk' : (BitVec.ofNat 8 k).toNat = k := by
    rw [BitVec.toNat_ofNat]
    omega
  have hinf : BitVec.ofNat 8 k ≠ -1#8 := by
    intro he
    have hval := congrArg BitVec.toNat he
    rw [hk'] at hval
    simp at hval
    omega
  have hzero : BitVec.ofNat 8 k ≠ 0#8 := by
    intro he
    have hval := congrArg BitVec.toNat he
    rw [hk'] at hval
    simp at hval
    omega
  have hexponent : (k : ℤ) - (Format.binary32.exponentBias + 23) = e := by
    simp only [Format.exponentBias]
    omega
  rw [Float32.Model.unpack, Float32.Model.pack]
  dsimp only
  rw [hpack]
  have hmantissa : unpackMantissa (packComponents .binary32 .positive (BitVec.ofNat 8 k)
      (BitVec.ofNat 23 m)) = BitVec.ofNat 23 m := unpackMantissa_packComponents
  have hexp : unpackExponent (packComponents .binary32 .positive (BitVec.ofNat 8 k)
      (BitVec.ofNat 23 m)) = BitVec.ofNat 8 k := unpackExponent_packComponents
  delta UnpackedFloat.unpack
  dsimp only
  rw [if_neg (hexp.trans_ne hinf), if_neg (hexp.trans_ne hzero)]
  refine finite_congr (sign_packComponents _ _) ?_ ?_ _ _
  · exact (congrArg (fun v => (1#1 ++ v).toNat) hmantissa).trans
      (toNat_append_mantissa hmlow hmhigh)
  · rw [hexp, hk']
    exact hexponent

end Packing

section Integers

variable {n : ℕ}

theorem log2_shiftLeft (hpos : 0 < n) (k : ℕ) : (n <<< k).log2 = n.log2 + k := by
  obtain ⟨hlow, hhigh⟩ := (Nat.log2_eq_iff hpos.ne').mp rfl
  apply (Nat.log2_eq_iff (Nat.shiftLeft_pos_iff.mpr hpos).ne').mpr
  rw [Nat.shiftLeft_eq]
  constructor
  · rw [pow_add]
    exact Nat.mul_le_mul_right _ hlow
  · rw [add_right_comm, pow_add]
    exact Nat.mul_lt_mul_of_pos_right hhigh (Nat.two_pow_pos k)

/-- Integers of at most 24 bits are normal numbers. -/
theorem isNormal_normalize (hpos : 0 < n) (hle : n ≤ 2 ^ 24) (s : Sign) :
    ∃ m e, IsNormal (UnpackedFloat.normalize .binary32 n 0 s) m e ∧ (m : ℚ) * 2 ^ e = n ∧
      -23 ≤ e ∧ e ≤ 1 := by
  have hround : UnpackedFloat.normalize .binary32 n 0 s =
      UnpackedFloat.round .binary32 .positive n 0 := by
    rw [UnpackedFloat.normalize, compare_gt_iff_gt.mpr (Int.natCast_pos.mpr hpos),
      Int.toNat_natCast]
  rw [hround]
  obtain hlt | rfl := hle.lt_or_eq
  · obtain ⟨k, hk⟩ : ∃ k, n.log2 + k = 23 := by
      have hlog : n.log2 < 24 := (Nat.log2_lt hpos.ne').mpr hlt
      exact ⟨23 - n.log2, by omega⟩
    have htarget : Format.binary32.targetExponent (totalExponent n 0) = -k := by
      simp only [Format.targetExponent, totalExponent, mantissaBits_eq, Format.minExponent]
      omega
    have hshift : (n <<< k).log2 = 23 + 0 := by
      rw [log2_shiftLeft hpos, hk]
    have hn : (ExtendedMantissa.ofMantissaAndAccuracy (n <<< k) .exact >>> 0).roundedMantissa =
        n <<< k := rfl
    obtain ⟨hlow, hhigh⟩ := (Nat.log2_eq_iff (Nat.shiftLeft_pos_iff.mpr hpos).ne').mp hshift
    obtain ⟨m, e, hnormal, hvalue, hmin, hmax⟩ := roundWithAccuracy_eq (e := -k) .exact hshift
      (by omega) hn hlow hhigh.le
    refine ⟨m, e, ?_, ?_, by omega, by omega⟩
    · rw [UnpackedFloat.round, htarget, decreaseExponent]
      simpa using hnormal
    · rw [hvalue, Nat.shiftLeft_eq]
      simp
  · exact ⟨2 ^ 23, 1, ⟨le_rfl, by norm_num, by norm_num, rfl⟩, by norm_num, by norm_num, le_rfl⟩

end Integers

section Division

variable {f g : UnpackedFloat} {m₁ m₂ : ℕ} {e₁ e₂ : ℤ}

theorem divCore_eq (hm₁ : m₁.log2 = 23) (hm₂ : m₂.log2 = 23) (he : -125 ≤ e₁ - e₂) :
    divCore .binary32 m₁ e₁ m₂ e₂ =
      (m₁ <<< 24 / m₂, e₁ - e₂ - 24, accuracyOfFraction (m₁ <<< 24 % m₂) m₂) := by
  have htarget : min (e₁ - e₂) (Format.binary32.targetExponent
      (totalExponent m₁ e₁ - totalExponent m₂ e₂)) = e₁ - e₂ - 24 := by
    simp only [Format.targetExponent, totalExponent, mantissaBits_eq, Format.minExponent, hm₁,
      hm₂]
    omega
  have hshift : (e₁ - e₂ - (e₁ - e₂ - 24)).toNat = 24 := by omega
  rw [divCore, htarget, hshift]

theorem div_finite (h₁ : 0 < m₁) (h₂ : 0 < m₂) :
    UnpackedFloat.div .binary32 (.finite .positive m₁ e₁ h₁) (.finite .positive m₂ e₂ h₂) =
      roundWithAccuracy .binary32 .positive (divCore .binary32 m₁ e₁ m₂ e₂).1
        (divCore .binary32 m₁ e₁ m₂ e₂).2.1 (divCore .binary32 m₁ e₁ m₂ e₂).2.2 := rfl

/-- A quotient of normal numbers, when it is not too small, is rounded to nearest. -/
theorem IsNormal.div (hf : IsNormal f m₁ e₁) (hg : IsNormal g m₂ e₂) (he : -125 ≤ e₁ - e₂) :
    ∃ m e, IsNormal (UnpackedFloat.div .binary32 f g) m e ∧
      Rounds (m₁ * 2 ^ e₁ / (m₂ * 2 ^ e₂)) (m * 2 ^ e) ∧ e₁ - e₂ - 24 ≤ e ∧
        e ≤ e₁ - e₂ - 22 := by
  obtain ⟨hlow₁, hhigh₁, hpos₁, rfl⟩ := hf
  obtain ⟨hlow₂, hhigh₂, hpos₂, rfl⟩ := hg
  have hquotient : 2 ^ 23 ≤ m₁ <<< 24 / m₂ ∧ m₁ <<< 24 / m₂ < 2 ^ 25 := by
    rw [Nat.shiftLeft_eq, Nat.le_div_iff_mul_le hpos₂, Nat.div_lt_iff_lt_mul hpos₂]
    constructor <;> omega
  obtain ⟨s, hs, hlog⟩ : ∃ s ≤ 1, (m₁ <<< 24 / m₂).log2 = 23 + s := by
    obtain ⟨hlow, hhigh⟩ := hquotient
    have hne : m₁ <<< 24 / m₂ ≠ 0 := by omega
    have hge : 23 ≤ (m₁ <<< 24 / m₂).log2 := (Nat.le_log2 hne).mpr hlow
    have hlt : (m₁ <<< 24 / m₂).log2 < 25 := (Nat.log2_lt hne).mpr hhigh
    exact ⟨(m₁ <<< 24 / m₂).log2 - 23, by omega, by omega⟩
  obtain ⟨m, e, hnormal, hrounds, hmin, hmax⟩ := rounds_roundWithAccuracy (a := m₁ <<< 24)
    (e := e₁ - e₂ - 24) hpos₂ hlog (by omega)
  refine ⟨m, e, ?_, ?_, by omega, by omega⟩
  · rw [div_finite hpos₁ hpos₂, divCore_eq (log2_eq_of_normal hlow₁ hhigh₁)
      (log2_eq_of_normal hlow₂ hhigh₂) he]
    dsimp only
    exact hnormal
  · have hvalue : (m₁ * 2 ^ e₁ / (m₂ * 2 ^ e₂) : ℚ) =
        (m₁ <<< 24 : ℕ) / m₂ * 2 ^ (e₁ - e₂ - 24) := by
      rw [zpow_sub₀ two_ne_zero, zpow_sub₀ two_ne_zero, Nat.shiftLeft_eq]
      push_cast
      field_simp
    rw [hvalue]
    exact hrounds

end Division

section Ceiling

/-- A quotient of integers has no integer between it and its rounding. -/
theorem Rounds.ceil_eq {a b : ℕ} {r : ℚ} (h : Rounds (a / b) r) (hb : 0 < b) (ha : a < 2 ^ 24) :
    ⌈r⌉ = ⌈(a / b : ℚ)⌉ := by
  obtain ⟨n, t, rfl, hnear, hlow⟩ := h
  obtain ⟨hge, hle⟩ := abs_le.mp hnear
  have hb' : (0 : ℚ) < b := Nat.cast_pos.mpr hb
  have ha' : (a : ℚ) + 1 ≤ 2 ^ 24 := by exact_mod_cast ha
  have hcancel : (b : ℚ) * (a / b) = a := mul_div_cancel₀ _ hb'.ne'
  have hunit : (b : ℚ) * 2 ^ t < 2 := by nlinarith
  -- the quotient is less than 2 ^ 24, so its unit is at most 1
  obtain ⟨j, rfl⟩ : ∃ j : ℕ, t = -j := by
    have ht : t < 1 := by
      rw [← zpow_lt_zpow_iff_right₀ (one_lt_two (α := ℚ)), zpow_one]
      have hone : (1 : ℚ) ≤ b := by exact_mod_cast hb
      nlinarith [zpow_pos (two_pos (α := ℚ)) t]
    exact ⟨(-t).toNat, by omega⟩
  have hj : (0 : ℚ) < 2 ^ j := pow_pos two_pos j
  rw [zpow_neg, zpow_natCast] at *
  have hinv : ((2 : ℚ) ^ j)⁻¹ * 2 ^ j = 1 := inv_mul_cancel₀ hj.ne'
  have hlt : (⌈(a / b : ℚ)⌉ : ℚ) - 1 < a / b := by linarith [Int.ceil_lt_add_one (a / b : ℚ)]
  have hceil : (a / b : ℚ) ≤ ⌈(a / b : ℚ)⌉ := Int.le_ceil _
  generalize ⌈(a / b : ℚ)⌉ = k at hlt hceil ⊢
  rw [Int.ceil_eq_iff]
  constructor
  · -- below the quotient, the next integer is at least `1 / b` away
    have hnext : (b : ℚ) * (k - 1) + 1 ≤ a := by
      have hmul : (b : ℚ) * (k - 1) < a := by
        rw [← hcancel]
        exact mul_lt_mul_of_pos_left hlt hb'
      have hint : (b : ℤ) * (k - 1) < a := by exact_mod_cast hmul
      exact_mod_cast Int.add_one_le_of_lt hint
    have hfar : (b : ℚ) * (k - 1) < b * (n * (2 ^ j)⁻¹) := by nlinarith
    exact lt_of_mul_lt_mul_left hfar hb'.le
  · -- and integers above it are multiples of the unit
    have hhalf : (n : ℚ) < k * 2 ^ j + 1 := by nlinarith
    have hint : (n : ℤ) < k * 2 ^ j + 1 := by exact_mod_cast hhalf
    have hmul : (n : ℚ) ≤ k * 2 ^ j := by exact_mod_cast Int.lt_add_one_iff.mp hint
    rw [← div_eq_mul_inv, div_le_iff₀ hj]
    exact hmul

theorem mantissa_shiftRight (m k : ℕ) :
    (ExtendedMantissa.ofMantissaAndAccuracy m .exact >>> k).mantissa = m / 2 ^ k := by
  have h := (isQuotient_of_fraction (a := m) one_pos).shiftRight one_pos k
  simpa [accuracyOfFraction, Nat.mod_one] using h.mantissa

theorem mul_zpow_neg (m k : ℕ) :
    (m * 2 ^ (-k : ℤ) : ℚ) = ((m : ℤ) : ℚ) / ((2 ^ k : ℕ) : ℚ) := by
  rw [zpow_neg, zpow_natCast, div_eq_mul_inv]
  push_cast
  rfl

/-- Converting to an integer rounds down. -/
theorem roundToInt_eq (m : ℕ) (e : ℤ) :
    roundToInt .positive m e = ⌊(m * 2 ^ e : ℚ)⌋ := by
  obtain ⟨k, rfl | rfl⟩ := e.eq_nat_or_neg
  · have hvalue : (m * 2 ^ (k : ℤ) : ℚ) = ((m <<< k : ℕ) : ℤ) := by
      rw [Nat.shiftLeft_eq]
      push_cast
      rw [zpow_natCast]
    rw [hvalue, Int.floor_intCast, roundToInt, decreaseExponent]
    simp [shiftToExponent, mantissa_shiftRight, Sign.apply]
  · rw [mul_zpow_neg, Rat.floor_intCast_div_natCast, roundToInt, decreaseExponent]
    simp [shiftToExponent, mantissa_shiftRight, Sign.apply]

theorem toNat_toUInt32 {x : Float32} {m : ℕ} {e : ℤ} (hx : IsNormal x.toModel.unpack m e)
    {n : ℕ} (hn : ⌊(m * 2 ^ e : ℚ)⌋ = n) (hlt : n < 2 ^ 32) : x.toUInt32.toNat = n := by
  obtain ⟨-, -, hpos, heq⟩ := hx
  have hint : x.toModel.unpack.toInt 0 (UInt32.size - 1) = n := by
    rw [heq]
    change roundToInt .positive m e = n
    rw [roundToInt_eq, hn]
  rw [Float32.toUInt32, Float32.Model.toUInt32, UnpackedFloat.toUInt32, hint, Int.toNat_natCast,
    UInt32.toNat_ofNatClamp_of_lt hlt]

theorem exists_ceil {m : ℕ} (hpos : 0 < m) (hhigh : m < 2 ^ 24) (k : ℕ) :
    ∃ c : ℕ, ⌈(m * 2 ^ (-k : ℤ) : ℚ)⌉ = c ∧ 0 < c ∧ c ≤ 2 ^ 24 := by
  have hlow : 0 < ⌈(m * 2 ^ (-k : ℤ) : ℚ)⌉ := Int.ceil_pos.mpr (by positivity)
  have hle : ⌈(m * 2 ^ (-k : ℤ) : ℚ)⌉ ≤ 2 ^ 24 := by
    apply Int.ceil_le.mpr
    rw [mul_zpow_neg, div_le_iff₀ (by positivity)]
    exact_mod_cast hhigh.le.trans (Nat.le_mul_of_pos_right _ (Nat.two_pow_pos k))
  obtain ⟨c, hc⟩ := Int.eq_ofNat_of_zero_le hlow.le
  rw [hc] at hlow hle
  exact ⟨c, hc, by exact_mod_cast hlow, by exact_mod_cast hle⟩

/-- The integer above a normal number that has at most 24 bits before the point. -/
theorem toNat_ceil {x : Float32} {m : ℕ} {e : ℤ} (hx : IsNormal x.toModel.unpack m e)
    (he : e ≤ 0) : ((ceil x).toUInt32.toNat : ℤ) = ⌈(m * 2 ^ e : ℚ)⌉ := by
  obtain ⟨hlow, hhigh, hpos, heq⟩ := id hx
  unfold ceil
  rw [heq]
  dsimp only
  by_cases hzero : 0 ≤ e
  · obtain rfl : e = 0 := by omega
    rw [if_pos hzero, toNat_toUInt32 hx (n := m) (by simp) (by omega)]
    simp
  · rw [if_neg hzero]
    obtain ⟨k, hk, rfl⟩ : ∃ k : ℕ, 0 < k ∧ e = -k := ⟨(-e).toNat, by omega, by omega⟩
    obtain ⟨c, hc, hcpos, hcle⟩ := exists_ceil hpos hhigh k
    have hceil : -(-Sign.positive.apply (m : ℤ) / 2 ^ (- -(k : ℤ)).toNat) = c := by
      rw [← hc, mul_zpow_neg, Rat.ceil_intCast_div_natCast, neg_neg, Int.toNat_natCast]
      push_cast
      rfl
    rw [hceil, hc]
    obtain ⟨m', e', hnormal, hvalue, hmin, hmax⟩ := isNormal_normalize hcpos hcle .positive
    have hread := hnormal.unpack_pack (by omega) (by omega)
    have hread' : IsNormal (Float32.ofModel (.pack
        (UnpackedFloat.normalize .binary32 c 0 .positive))).toModel.unpack m' e' := by
      rwa [hread]
    rw [toNat_toUInt32 hread' (by rw [hvalue, Int.floor_natCast]) (by omega)]

/-- Integers of at most 24 bits are exact. -/
theorem isNormal_ofInt64 {n : ℕ} (hpos : 0 < n) (hlt : n < 2 ^ 24) :
    ∃ m e, IsNormal (ofInt64 (Int64.ofNat n)).toModel.unpack m e ∧ (m * 2 ^ e : ℚ) = n ∧ -23 ≤ e ∧
      e ≤ 1 := by
  obtain ⟨m, e, hnormal, hvalue, hmin, hmax⟩ := isNormal_normalize hpos hlt.le .positive
  refine ⟨m, e, ?_, hvalue, hmin, hmax⟩
  have hint : (Int64.ofNat n).toInt = n := Int64.toInt_ofNat_of_lt (by omega)
  rw [ofInt64, Float32.Model.ofInt64, UnpackedFloat.ofInt64, hint, UnpackedFloat.ofInt,
    hnormal.unpack_pack (by omega) (by omega)]
  exact hnormal

/-- Dividing two integers as floats and rounding up gives the quotient rounded up. -/
theorem toNat_ceil_div {a b : ℕ} (ha : a < 2 ^ 24) (hb : 0 < b) (hb' : b < 2 ^ 24) :
    ((ceil (ofInt64 (Int64.ofNat a) / ofInt64 (Int64.ofNat b))).toUInt32.toNat : ℤ) =
      ⌈(a / b : ℚ)⌉ := by
  obtain ⟨m₂, e₂, hy, hvalue₂, hmin₂, hmax₂⟩ := isNormal_ofInt64 hb hb'
  obtain rfl | hpos := Nat.eq_zero_or_pos a
  · obtain ⟨-, -, hpos₂, heq⟩ := hy
    have hzero : (ofInt64 (Int64.ofNat 0) / ofInt64 (Int64.ofNat b)) = ofInt64 0 := by
      change Float32.ofModel (.pack (.div .binary32 (.zero .positive)
        (ofInt64 (Int64.ofNat b)).toModel.unpack)) = _
      rw [heq]
      rfl
    rw [hzero, Nat.cast_zero, zero_div, Int.ceil_zero]
    rfl
  obtain ⟨m₁, e₁, hx, hvalue₁, hmin₁, hmax₁⟩ := isNormal_ofInt64 hpos ha
  obtain ⟨m, e, hnormal, hrounds, hmin, hmax⟩ := hx.div hy (by omega)
  have hread : IsNormal (ofInt64 (Int64.ofNat a) / ofInt64 (Int64.ofNat b)).toModel.unpack m e := by
    have hpack := hnormal.unpack_pack (by omega) (by omega)
    exact (congrArg (IsNormal · m e) hpack).mpr hnormal
  rw [hvalue₁, hvalue₂] at hrounds
  have hceil := hrounds.ceil_eq hb ha
  -- a larger exponent would make the quotient too large
  have he : e ≤ 0 := by
    by_contra hne
    have hone : (1 : ℚ) ≤ b := by exact_mod_cast hb
    have hle : ⌈(m * 2 ^ e : ℚ)⌉ ≤ a := by
      rw [hceil, Int.ceil_le]
      exact div_le_self (Nat.cast_nonneg a) hone
    have hunit : (2 : ℚ) ≤ 2 ^ e := by
      simpa using zpow_le_zpow_right₀ (one_le_two (α := ℚ)) (by omega : 1 ≤ e)
    have hm : ((2 ^ 23 : ℕ) : ℚ) ≤ m := Nat.cast_le.mpr hnormal.low
    have hbound : (a : ℚ) + 1 ≤ 2 ^ 24 := by exact_mod_cast ha
    have hvalue : (m * 2 ^ e : ℚ) ≤ a := by exact_mod_cast Int.ceil_le.mp hle
    push_cast at hm
    nlinarith
  rw [toNat_ceil hread he, hceil]

end Ceiling

end MiningpoolObserver.Library.Binary32
