import Mathlib

/-! Rounding to a number of binary digits, the nearest number and the even one of two, without
bounds on the exponent; and growth by a factor whose products are rounded. -/

namespace Charybdis.Foundation

/-- A rounding keeps the order, and what is rounded already. -/
structure Rounding (α : Type) [Zero α] [Preorder α] where
  round : α → α
  mono : Monotone round
  stable : ∀ value, round (round value) = round value
  zero : round 0 = 0

namespace Rounding

section Growth

variable {α : Type} [Field α] [LinearOrder α] [IsStrictOrderedRing α] (rounding : Rounding α) {start factor : α}

def growth (start factor : α) : Nat → α
  | 0 => start
  | step + 1 => rounding.round (growth start factor step * factor)

def cappedGrowth (start factor cap : α) (step : Nat) : α := min (rounding.growth start factor step) cap

omit [IsStrictOrderedRing α] in
private theorem growth_stable (exact : rounding.round start = start) (step : Nat) :
    rounding.round (rounding.growth start factor step) = rounding.growth start factor step := by
  cases step with
  | zero => exact exact
  | succ step => exact rounding.stable _

private theorem growth_nonneg (nonneg : 0 ≤ start) (positive : 0 ≤ factor) (step : Nat) :
    0 ≤ rounding.growth start factor step := by
  induction step with
  | zero => exact nonneg
  | succ step ih => exact rounding.zero.ge.trans (rounding.mono (mul_nonneg ih positive))

private theorem growth_nonpos (nonpos : start ≤ 0) (positive : 0 ≤ factor) (step : Nat) :
    rounding.growth start factor step ≤ 0 := by
  induction step with
  | zero => exact nonpos
  | succ step ih => exact (rounding.mono (mul_nonpos_of_nonpos_of_nonneg ih positive)).trans rounding.zero.le

theorem growth_mono (exact : rounding.round start = start) (nonneg : 0 ≤ start) (growing : 1 ≤ factor) :
    Monotone (rounding.growth start factor) := by
  refine monotone_nat_of_le_succ fun step => ?_
  have grown := le_mul_of_one_le_right (rounding.growth_nonneg nonneg (zero_le_one.trans growing) step) growing
  exact (rounding.growth_stable exact step).ge.trans (rounding.mono grown)

theorem growth_anti (exact : rounding.round start = start) (nonpos : start ≤ 0) (growing : 1 ≤ factor) :
    Antitone (rounding.growth start factor) := by
  refine antitone_nat_of_succ_le fun step => ?_
  have grown := mul_le_of_one_le_right (rounding.growth_nonpos nonpos (zero_le_one.trans growing) step) growing
  exact (rounding.mono grown).trans (rounding.growth_stable exact step).le

/-- Rounded growth under a cap moves away from zero only, whatever the signs of its start and cap. -/
theorem cappedGrowth_outward (exact : rounding.round start = start) (growing : 1 ≤ factor) (cap : α)
    {earlier later : Nat} (before : earlier ≤ later) :
    (0 ≤ rounding.cappedGrowth start factor cap earlier ∧
      rounding.cappedGrowth start factor cap earlier ≤ rounding.cappedGrowth start factor cap later) ∨
    (rounding.cappedGrowth start factor cap later ≤ rounding.cappedGrowth start factor cap earlier ∧
      rounding.cappedGrowth start factor cap earlier ≤ 0) := by
  have positive : 0 ≤ factor := zero_le_one.trans growing
  rcases le_total 0 start with nonneg | nonpos
  · rcases le_total 0 cap with above | below
    · exact .inl ⟨le_min (rounding.growth_nonneg nonneg positive earlier) above,
        min_le_min_right cap (rounding.growth_mono exact nonneg growing before)⟩
    · -- the cap is below every product
      have flat (step : Nat) : rounding.cappedGrowth start factor cap step = cap :=
        min_eq_right (below.trans (rounding.growth_nonneg nonneg positive step))
      rw [flat, flat]
      exact .inr ⟨le_rfl, below⟩
  · exact .inr ⟨min_le_min_right cap (rounding.growth_anti exact nonpos growing before),
      (min_le_left _ _).trans (rounding.growth_nonpos nonpos positive earlier)⟩

end Growth

end Rounding

/-! ### The nearest integer -/

/-- The integer next to a number, the even one of two. -/
def roundEven (value : ℚ) : ℤ :=
  let rest := value - ⌊value⌋
  if rest < 1 / 2 then ⌊value⌋
  else if 1 / 2 < rest then ⌊value⌋ + 1
  else if ⌊value⌋ % 2 = 0 then ⌊value⌋ else ⌊value⌋ + 1

private theorem roundEven_bounds (value : ℚ) : ⌊value⌋ ≤ roundEven value ∧ roundEven value ≤ ⌊value⌋ + 1 := by
  unfold roundEven
  dsimp only
  split_ifs <;> omega

theorem roundEven_intCast (value : ℤ) : roundEven value = value := by
  simp [roundEven]

theorem roundEven_mono : Monotone roundEven := by
  intro first second ordered
  rcases (Int.floor_mono ordered).lt_or_eq with below | same
  · exact (roundEven_bounds first).2.trans (le_trans below (roundEven_bounds second).1)
  · unfold roundEven
    dsimp only
    rw [same]
    have rests : first - ⌊second⌋ ≤ second - ⌊second⌋ := by linarith
    split_ifs <;> first | omega | linarith

/-! ### Binary digits -/

section Digits

variable (precision : Nat)

/-- The place of the last digit, counted from the first one of a positive number. -/
def lastPlace (value : ℚ) : ℤ := Int.log 2 value + 1 - precision

def roundPositive (value : ℚ) : ℚ :=
  roundEven (value / 2 ^ lastPlace precision value) * 2 ^ lastPlace precision value

/-- Both signs are rounded alike. -/
def roundDigits (value : ℚ) : ℚ := if value < 0 then -roundPositive precision (-value) else roundPositive precision value

variable {precision}

private theorem place_pos (place : ℤ) : (0 : ℚ) < 2 ^ place := zpow_pos (by norm_num) place

private theorem log_bounds {value : ℚ} (positive : 0 < value) :
    2 ^ Int.log 2 value ≤ value ∧ value < 2 ^ (Int.log 2 value + 1) := by
  have base : ((2 : ℕ) : ℚ) = 2 := Nat.cast_ofNat
  constructor
  · simpa only [base] using Int.zpow_log_le_self (b := 2) one_lt_two positive
  · simpa only [base] using Int.lt_zpow_succ_log_self (b := 2) one_lt_two value

private theorem log_eq {value : ℚ} {place : ℤ} (low : 2 ^ place ≤ value) (high : value < 2 ^ (place + 1)) :
    Int.log 2 value = place := by
  have positive : 0 < value := (place_pos place).trans_le low
  obtain ⟨least, most⟩ := log_bounds positive
  have below := (zpow_lt_zpow_iff_right₀ one_lt_two).mp (low.trans_lt most)
  have above := (zpow_lt_zpow_iff_right₀ one_lt_two).mp (least.trans_lt high)
  omega

private theorem roundPositive_of_multiple {value : ℚ} {count place : ℤ} (multiple : value = count * 2 ^ place)
    (within : lastPlace precision value ≤ place) : roundPositive precision value = value := by
  obtain ⟨shift, further⟩ := Int.le.dest within
  have positive := place_pos (lastPlace precision value)
  have whole : value / 2 ^ lastPlace precision value = ((count * 2 ^ shift : ℤ) : ℚ) := by
    rw [div_eq_iff positive.ne']
    refine multiple.trans ?_
    rw [← further, zpow_add₀ two_ne_zero, zpow_natCast]
    push_cast
    ring
  rw [roundPositive, whole, roundEven_intCast, ← whole]
  exact div_mul_cancel₀ value positive.ne'

private theorem roundPositive_bounds (digits : 0 < precision) {value : ℚ} (positive : 0 < value) :
    2 ^ Int.log 2 value ≤ roundPositive precision value ∧
      roundPositive precision value ≤ 2 ^ (Int.log 2 value + 1) := by
  obtain ⟨low, high⟩ := log_bounds positive
  have place := place_pos (lastPlace precision value)
  obtain ⟨more, rfl⟩ := Nat.exists_eq_add_of_lt digits
  have least : ((2 ^ more : ℤ) : ℚ) * 2 ^ lastPlace (0 + more + 1) value = 2 ^ Int.log 2 value := by
    rw [lastPlace]
    push_cast
    rw [← zpow_natCast, ← zpow_add₀ two_ne_zero]
    congr 1
    ring
  have most : ((2 ^ (more + 1) : ℤ) : ℚ) * 2 ^ lastPlace (0 + more + 1) value = 2 ^ (Int.log 2 value + 1) := by
    rw [lastPlace]
    push_cast
    rw [← zpow_natCast, ← zpow_add₀ two_ne_zero]
    congr 1
    push_cast
    ring
  rw [← least] at low
  rw [← most] at high
  rw [← least, ← most, roundPositive]
  constructor
  · refine mul_le_mul_of_nonneg_right (Int.cast_le.mpr ?_) place.le
    rw [← roundEven_intCast (2 ^ more)]
    exact roundEven_mono ((le_div_iff₀ place).mpr low)
  · refine mul_le_mul_of_nonneg_right (Int.cast_le.mpr ?_) place.le
    rw [← roundEven_intCast (2 ^ (more + 1))]
    exact roundEven_mono ((div_le_iff₀ place).mpr high.le)

private theorem roundPositive_mono (digits : 0 < precision) {first second : ℚ} (positive : 0 < first)
    (ordered : first ≤ second) : roundPositive precision first ≤ roundPositive precision second := by
  rcases (Int.log_mono_right (b := 2) positive ordered).lt_or_eq with below | same
  · have power : (2 : ℚ) ^ (Int.log 2 first + 1) ≤ 2 ^ Int.log 2 second := zpow_le_zpow_right₀ one_le_two below
    exact ((roundPositive_bounds digits positive).2.trans power).trans
      (roundPositive_bounds digits (positive.trans_le ordered)).1
  · have place := place_pos (lastPlace precision second)
    have places : lastPlace precision first = lastPlace precision second := by rw [lastPlace, same, lastPlace]
    rw [roundPositive, roundPositive, places]
    refine mul_le_mul_of_nonneg_right (Int.cast_le.mpr (roundEven_mono ?_)) place.le
    exact div_le_div_of_nonneg_right ordered place.le

private theorem roundPositive_stable (digits : 0 < precision) {value : ℚ} (positive : 0 < value) :
    roundPositive precision (roundPositive precision value) = roundPositive precision value := by
  obtain ⟨low, high⟩ := roundPositive_bounds digits positive
  rcases high.lt_or_eq with inside | power
  · refine roundPositive_of_multiple rfl ?_
    rw [lastPlace, log_eq low inside, lastPlace]
  · have single : roundPositive precision value = (1 : ℤ) * 2 ^ (Int.log 2 value + 1) := by rw [power, Int.cast_one, one_mul]
    have double : (2 : ℚ) ^ (Int.log 2 value + 1) < 2 ^ (Int.log 2 value + 1 + 1) :=
      zpow_lt_zpow_right₀ one_lt_two (by omega)
    refine roundPositive_of_multiple single ?_
    rw [lastPlace, power, log_eq le_rfl double]
    omega

private theorem roundPositive_zero : roundPositive precision 0 = 0 := by
  rw [roundPositive, zero_div]
  simp [roundEven]

private theorem roundPositive_pos (digits : 0 < precision) {value : ℚ} (positive : 0 < value) :
    0 < roundPositive precision value :=
  (place_pos _).trans_le (roundPositive_bounds digits positive).1

private theorem roundDigits_of_nonneg {value : ℚ} (nonneg : 0 ≤ value) :
    roundDigits precision value = roundPositive precision value :=
  if_neg nonneg.not_gt

private theorem roundDigits_neg (value : ℚ) : roundDigits precision (-value) = -roundDigits precision value := by
  unfold roundDigits
  rcases lt_trichotomy value 0 with negative | rfl | positive
  · rw [if_pos negative, if_neg (by linarith), neg_neg]
  · simp [roundPositive_zero]
  · rw [if_pos (by linarith), if_neg (by linarith), neg_neg]

private theorem roundDigits_nonneg (digits : 0 < precision) {value : ℚ} (nonneg : 0 ≤ value) :
    0 ≤ roundDigits precision value := by
  rw [roundDigits_of_nonneg nonneg]
  rcases nonneg.lt_or_eq with positive | rfl
  · exact (roundPositive_pos digits positive).le
  · exact roundPositive_zero.ge

private theorem roundDigits_mono (digits : 0 < precision) : Monotone (roundDigits precision) := by
  have upward : ∀ first second : ℚ, 0 ≤ first → first ≤ second →
      roundDigits precision first ≤ roundDigits precision second := by
    intro first second nonneg ordered
    rcases nonneg.lt_or_eq with positive | rfl
    · rw [roundDigits_of_nonneg nonneg, roundDigits_of_nonneg (nonneg.trans ordered)]
      exact roundPositive_mono digits positive ordered
    · rw [roundDigits_of_nonneg le_rfl, roundPositive_zero]
      exact roundDigits_nonneg digits ordered
  intro first second ordered
  rcases le_total 0 first with nonneg | negative
  · exact upward first second nonneg ordered
  · have under := roundDigits_nonneg digits (neg_nonneg.mpr negative)
    rw [roundDigits_neg] at under
    rcases le_total 0 second with nonneg | below
    · exact (neg_nonneg.mp under).trans (roundDigits_nonneg digits nonneg)
    · have mirrored := upward (-second) (-first) (neg_nonneg.mpr below) (neg_le_neg ordered)
      rw [roundDigits_neg, roundDigits_neg] at mirrored
      exact neg_le_neg_iff.mp mirrored

private theorem roundDigits_stable (digits : 0 < precision) (value : ℚ) :
    roundDigits precision (roundDigits precision value) = roundDigits precision value := by
  have upward : ∀ value : ℚ, 0 ≤ value →
      roundDigits precision (roundDigits precision value) = roundDigits precision value := by
    intro value nonneg
    rw [roundDigits_of_nonneg (roundDigits_nonneg digits nonneg), roundDigits_of_nonneg nonneg]
    rcases nonneg.lt_or_eq with positive | rfl
    · exact roundPositive_stable digits positive
    · rw [roundPositive_zero, roundPositive_zero]
  rcases le_total 0 value with nonneg | negative
  · exact upward value nonneg
  · have mirrored := upward (-value) (neg_nonneg.mpr negative)
    rw [roundDigits_neg, roundDigits_neg] at mirrored
    exact neg_inj.mp mirrored

/-- Rounding to the nearest number of so many binary digits. -/
def nearestEven (precision : Nat) (digits : 0 < precision) : Rounding ℚ where
  round := roundDigits precision
  mono := roundDigits_mono digits
  stable := roundDigits_stable digits
  zero := (roundDigits_of_nonneg le_rfl).trans roundPositive_zero

theorem nearestEven_intCast (digits : 0 < precision) {value : ℤ} (short : |value| < 2 ^ precision) :
    (nearestEven precision digits).round value = value := by
  change roundDigits precision value = value
  have upward : ∀ value : ℤ, 0 ≤ value → value < 2 ^ precision → roundDigits precision value = value := by
    intro value nonneg below
    rw [roundDigits_of_nonneg (by exact_mod_cast nonneg)]
    rcases nonneg.lt_or_eq with positive | rfl
    · have power : (value : ℚ) < 2 ^ (precision : ℤ) := by
        rw [zpow_natCast]
        exact_mod_cast below
      have place := (zpow_lt_zpow_iff_right₀ one_lt_two).mp
        ((log_bounds (by exact_mod_cast positive : (0 : ℚ) < value)).1.trans_lt power)
      have single : (value : ℚ) = value * 2 ^ (0 : ℤ) := by rw [zpow_zero, mul_one]
      refine roundPositive_of_multiple single ?_
      rw [lastPlace]
      omega
    · exact_mod_cast roundPositive_zero
  rcases le_total 0 value with nonneg | negative
  · exact upward value nonneg (by rwa [abs_of_nonneg nonneg] at short)
  · have mirrored := upward (-value) (neg_nonneg.mpr negative) (by rwa [abs_of_nonpos negative] at short)
    rw [Int.cast_neg, roundDigits_neg] at mirrored
    exact neg_inj.mp mirrored

end Digits

end Charybdis.Foundation
