import DataBinding.Number.Layout
import Mathlib.Algebra.Order.Field.Power
import Mathlib.Algebra.Order.Archimedean.Basic
import Mathlib.Tactic.Linarith
import Mathlib.Tactic.Positivity
import Mathlib.Tactic.Ring
import Mathlib.Tactic.NormNum

/-! Rounding to numbers, by what it is for: a real is rounded to the magnitude nearest to it. The
reals rounded to a magnitude lie between the halves of the two steps around it, which is what the
interval of a number holds. -/
namespace DataBinding.Number

/-- The distance from a magnitude to the next one. -/
def step (k : Nat) : ℚ := (2 : ℚ) ^ (((max (k >>> 52) 1 : Nat) : Int) - 1075)

/-- What a magnitude stands for. That of the infinities stands for the power of two that follows the
finite numbers. -/
def worth (k : Nat) : ℚ :=
  (k % (1 <<< 52) + (if k >>> 52 = 0 then 0 else 1 <<< 52) : Nat) * step k

/-- The magnitude is the nearest one, the even one of two that are equally near. -/
def Rounds (q : ℚ) (k : Nat) : Prop :=
  ∀ other ≤ infinite, other ≠ k →
    |q - worth k| < |q - worth other| ∨ |q - worth k| = |q - worth other| ∧ k % 2 = 0

theorem step_pos (k : Nat) : 0 < step k := by
  unfold step
  positivity

private theorem carry (k : Nat) :
    (k + 1) >>> 52 = k >>> 52 ∧ (k + 1) % (1 <<< 52) = k % (1 <<< 52) + 1 ∨
    (k + 1) >>> 52 = k >>> 52 + 1 ∧ (k + 1) % (1 <<< 52) = 0 ∧
      k % (1 <<< 52) + 1 = 1 <<< 52 := by
  simp only [Nat.shiftRight_eq_div_pow, Nat.one_shiftLeft]
  omega

/-- The steps stay equal but for powers of two among the normal numbers, where they double. -/
theorem step_succ (k : Nat) : step (k + 1) =
    if (k + 1) % (1 <<< 52) = 0 ∧ 1 < (k + 1) >>> 52 then 2 * step k else step k := by
  unfold step
  rcases carry k with ⟨field, rest⟩ | ⟨field, rest, -⟩
  · rw [field, rest, if_neg (fun h => Nat.succ_ne_zero _ h.1)]
  · rw [field, rest]
    by_cases subnormal : k >>> 52 = 0
    · simp [subnormal]
    · rw [if_pos ⟨rfl, by omega⟩, ← zpow_one_add₀ two_ne_zero]
      congr 1
      omega

theorem worth_succ (k : Nat) : worth (k + 1) = worth k + step k := by
  have next := step_succ k
  unfold worth
  rcases carry k with ⟨field, rest⟩ | ⟨field, rest, full⟩
  · rw [rest, if_neg (fun h => Nat.succ_ne_zero _ h.1)] at next
    rw [field, rest, next]
    push_cast
    ring
  · rw [rest] at next
    rw [field, rest]
    generalize k % (1 <<< 52) = units at full
    by_cases subnormal : k >>> 52 = 0
    · rw [field, subnormal, if_neg (by simp)] at next
      rw [subnormal, next, if_pos rfl, if_neg (by simp), ← full]
      push_cast
      ring
    · rw [field, if_pos ⟨rfl, by omega⟩] at next
      rw [next, if_neg subnormal, if_neg (Nat.succ_ne_zero _), ← full]
      push_cast
      ring

theorem worth_strictMono : StrictMono worth :=
  strictMono_nat_of_lt_succ fun k => by
    rw [worth_succ]
    exact lt_add_of_pos_right _ (step_pos k)

theorem worth_zero : worth 0 = 0 := by
  simp [worth]

private theorem nearer_iff {q a b : ℚ} (less : a < b) : |q - a| < |q - b| ↔ 2 * q < a + b := by
  rw [← sq_lt_sq]
  constructor
  · intro nearer
    nlinarith
  · intro half
    nlinarith

private theorem farther_iff {q a b : ℚ} (less : a < b) : |q - b| < |q - a| ↔ a + b < 2 * q := by
  rw [← sq_lt_sq]
  constructor
  · intro nearer
    nlinarith
  · intro half
    nlinarith

private theorem as_near_iff {q a b : ℚ} (less : a < b) : |q - a| = |q - b| ↔ 2 * q = a + b := by
  rw [← sq_eq_sq_iff_abs_eq_abs]
  constructor
  · intro near
    have zero : (b - a) * (a + b - 2 * q) = 0 := by linarith
    rcases mul_eq_zero.mp zero with same | half <;> linarith
  · intro half
    have : q = (a + b) / 2 := by linarith
    rw [this]
    ring

section Halves

variable {k l : Nat} {a b q : ℚ}

/-- The reals rounded to a magnitude lie between the halves of the steps around it, the ends among
them if it is even. -/
theorem rounds_iff (finite : k + 1 < infinite) : Rounds q (k + 1) ↔
    worth k + worth (k + 1) ≤ 2 * q ∧ 2 * q ≤ worth (k + 1) + worth (k + 2) ∧
    (2 * q = worth k + worth (k + 1) ∨ 2 * q = worth (k + 1) + worth (k + 2) →
      (k + 1) % 2 = 0) := by
  have below : worth k < worth (k + 1) := worth_strictMono (Nat.lt_succ_self k)
  have above : worth (k + 1) < worth (k + 2) := worth_strictMono (Nat.lt_succ_self (k + 1))
  constructor
  · intro rounds
    have down := rounds k (by omega) (by omega)
    have up := rounds (k + 2) (by omega) (by omega)
    rw [nearer_iff above, as_near_iff above] at up
    rw [farther_iff below, eq_comm, as_near_iff below] at down
    refine ⟨?_, ?_, ?_⟩
    · rcases down with less | ⟨same, -⟩ <;> linarith
    · rcases up with less | ⟨same, -⟩ <;> linarith
    · rintro (same | same)
      · rcases down with less | ⟨-, even⟩
        · linarith
        · exact even
      · rcases up with less | ⟨-, even⟩
        · linarith
        · exact even
  · rintro ⟨low, high, ends⟩ other legal differs
    rcases Nat.lt_or_gt_of_ne differs with less | more
    · have lower : worth other ≤ worth k := worth_strictMono.monotone (by omega)
      have apart := lower.trans_lt below
      rw [farther_iff apart, eq_comm, as_near_iff apart]
      rcases (add_le_add_left lower (worth (k + 1))).trans low |>.lt_or_eq with less | same
      · exact .inl less
      · exact .inr ⟨same.symm, ends (.inl (by linarith))⟩
    · have upper : worth (k + 2) ≤ worth other := worth_strictMono.monotone (by omega)
      have apart := above.trans_le upper
      rw [nearer_iff apart, as_near_iff apart]
      rcases high.trans (add_le_add_right upper (worth (k + 1))) |>.lt_or_eq with less | same
      · exact .inl less
      · exact .inr ⟨same, ends (.inr (by linarith))⟩

/-- What lies between two reals with the same nearest magnitude has it as well. -/
theorem Rounds.between (rounds : Rounds a k) (rounds' : Rounds b k) (positive : 0 < k)
    (finite : k < infinite) (low : a ≤ q) (high : q ≤ b) : Rounds q k := by
  obtain ⟨k, rfl⟩ := Nat.exists_eq_add_one.mpr positive
  rw [rounds_iff finite] at rounds rounds' ⊢
  obtain ⟨least, -, ends⟩ := rounds
  obtain ⟨-, most, ends'⟩ := rounds'
  refine ⟨by linarith, by linarith, ?_⟩
  rintro (same | same)
  · exact ends (.inl (by linarith))
  · exact ends' (.inr (by linarith))

theorem rounds_worth (k : Nat) : Rounds (worth k) k := by
  intro other _ differs
  rw [sub_self, abs_zero]
  have apart : worth k ≠ worth other := fun same => differs (worth_strictMono.injective same).symm
  exact .inl (abs_pos.mpr (sub_ne_zero.mpr apart))

/-- A greater real is rounded to a magnitude that is no less. -/
theorem Rounds.mono (rounds : Rounds a k) (rounds' : Rounds b l) (legal : k ≤ infinite)
    (legal' : l ≤ infinite) (least : a ≤ b) : k ≤ l := by
  by_contra less
  rw [not_le] at less
  have apart : worth l < worth k := worth_strictMono less
  have low := rounds l legal' (by omega)
  have high := rounds' k legal (by omega)
  rw [farther_iff apart, eq_comm, as_near_iff apart] at low
  rw [nearer_iff apart, as_near_iff apart] at high
  -- equally near to both, so both are even and there is another one between them
  have same : 2 * b = worth l + worth k ∧ k % 2 = 0 ∧ l % 2 = 0 := by
    rcases low with low | ⟨low, even⟩ <;> rcases high with high | ⟨high, even'⟩
    · linarith
    · linarith
    · linarith
    · exact ⟨high, even, even'⟩
  have next : worth l < worth (l + 1) := worth_strictMono (Nat.lt_succ_self l)
  have between : worth (l + 1) < worth k := worth_strictMono (by omega)
  have nearer := rounds' (l + 1) (by omega) (by omega)
  rw [nearer_iff next, as_near_iff next] at nearer
  rcases nearer with nearer | ⟨nearer, -⟩ <;> linarith

end Halves

section Intervals

/-- What a decimal stands for. -/
def Decimal.value (d : Decimal) : ℚ := d.digits * (10 : ℚ) ^ d.exponent

/-- The distance from zero of a finite number. -/
def size (n : Number) : ℚ := worth n.magnitude

theorem size_eq (n : Number) : n.size = n.mantissa * (2 : ℚ) ^ n.exponent := rfl

/-- A power as a quotient of powers of which one is 1. -/
theorem zpow_eq_div {b : ℚ} (nonzero : b ≠ 0) (e : Int) : b ^ e = b ^ e.toNat / b ^ (-e).toNat := by
  rw [eq_div_iff (pow_ne_zero _ nonzero), ← zpow_natCast b (-e).toNat, ← zpow_natCast b e.toNat,
    ← zpow_add₀ nonzero]
  congr 1
  omega

/-- The unit in which an interval is measured. -/
def Interval.unit (i : Interval) : ℚ := i.num / i.den

theorem Interval.contains_iff (i : Interval) (positive : 0 < i.den) (d : Decimal) :
    i.contains d = true ↔ i.lower * i.unit ≤ d.value ∧ d.value ≤ i.upper * i.unit ∧
      (d.value = i.lower * i.unit ∨ d.value = i.upper * i.unit → i.closed = true) := by
  -- both sides are multiplied by what makes them naturals
  have den : (0 : ℚ) < i.den := by exact_mod_cast positive
  have scale : (0 : ℚ) < 10 ^ (-d.exponent).toNat * i.den := by positivity
  have point : ((d.digits * Nat.pow 10 d.exponent.toNat * i.den : Nat) : ℚ) =
      d.value * (10 ^ (-d.exponent).toNat * i.den) := by
    rw [Decimal.value, zpow_eq_div (by norm_num : (10 : ℚ) ≠ 0)]
    push_cast [Nat.pow_eq]
    field_simp
  have bound (b : Nat) : ((b * (Nat.pow 10 (-d.exponent).toNat * i.num) : Nat) : ℚ) =
      b * i.unit * (10 ^ (-d.exponent).toNat * i.den) := by
    rw [Interval.unit]
    push_cast [Nat.pow_eq]
    field_simp
  unfold contains
  cases closed : i.closed with
  | true =>
    rw [if_pos rfl, Bool.and_eq_true, decide_eq_true_iff, decide_eq_true_iff, ← @Nat.cast_le ℚ,
      ← @Nat.cast_le ℚ, point, bound, bound, mul_le_mul_iff_left₀ scale,
      mul_le_mul_iff_left₀ scale]
    simp
  | false =>
    rw [if_neg Bool.false_ne_true, Bool.and_eq_true, decide_eq_true_iff, decide_eq_true_iff,
      ← @Nat.cast_lt ℚ, ← @Nat.cast_lt ℚ, point, bound, bound, mul_lt_mul_iff_left₀ scale,
      mul_lt_mul_iff_left₀ scale, lt_iff_le_and_ne, lt_iff_le_and_ne]
    simp only [Bool.false_eq_true, imp_false, not_or]
    tauto

variable {n : Number} {d : Decimal}

theorem magnitude_lt (finite : n.isFinite = true) : n.magnitude < infinite :=
  of_decide_eq_true finite

theorem magnitude_pos (nonzero : n.isZero = false) : 0 < n.magnitude :=
  Nat.pos_of_ne_zero (ne_of_beq_false nonzero)

theorem interval_den_pos (n : Number) : 0 < n.interval.den := by
  change 0 < 1 <<< _
  rw [Nat.one_shiftLeft]
  positivity

theorem interval_unit (n : Number) : n.interval.unit = (2 : ℚ) ^ n.exponent / 4 := by
  have four : (2 : ℚ) ^ n.exponent / 4 = 2 ^ (n.exponent - 2) := by
    rw [zpow_sub₀ two_ne_zero]
    norm_num
  rw [four, zpow_eq_div two_ne_zero]
  change ((1 <<< (n.exponent - 2).toNat : Nat) : ℚ) / (1 <<< (-(n.exponent - 2)).toNat : Nat) = _
  rw [Nat.one_shiftLeft, Nat.one_shiftLeft]
  push_cast
  rfl

theorem mantissa_pos (found : n.magnitude = k + 1) : 0 < n.mantissa := by
  unfold mantissa exponentField
  rw [found, Nat.shiftRight_eq_div_pow, Nat.one_shiftLeft]
  split <;> omega

theorem mantissa_even_iff (n : Number) : n.mantissa % 2 = 0 ↔ n.magnitude % 2 = 0 := by
  unfold mantissa
  rw [Nat.one_shiftLeft]
  split <;> omega

/-- The mantissa of a power of two whose lower neighbours lie twice as dense. -/
theorem mantissa_eq_iff (n : Number) : n.mantissa = 1 <<< 52 ∧ 1 < n.exponentField ↔
    n.magnitude % (1 <<< 52) = 0 ∧ 1 < n.magnitude >>> 52 := by
  unfold mantissa exponentField
  generalize n.magnitude >>> 52 = field
  by_cases subnormal : field = 0
  · simp [subnormal]
  · rw [if_neg subnormal, Nat.add_eq_right]

theorem upper_eq (found : n.magnitude = k + 1) :
    2 * (n.interval.upper * n.interval.unit) = worth (k + 1) + worth (k + 2) := by
  have value : worth (k + 1) = n.mantissa * step (k + 1) := by rw [← found]; rfl
  have next : (2 : ℚ) ^ n.exponent = step (k + 1) := by rw [← found]; rfl
  rw [worth_succ (k + 1), interval_unit, next, value]
  change 2 * (((4 * n.mantissa + 2 : Nat) : ℚ) * _) = _
  push_cast
  ring

theorem lower_eq (found : n.magnitude = k + 1) :
    2 * (n.interval.lower * n.interval.unit) = worth k + worth (k + 1) := by
  have positive := mantissa_pos found
  have value : worth (k + 1) = n.mantissa * step (k + 1) := by rw [← found]; rfl
  have next : (2 : ℚ) ^ n.exponent = step (k + 1) := by rw [← found]; rfl
  have before : worth k = worth (k + 1) - step k := by rw [worth_succ]; ring
  have steps := step_succ k
  have lower : n.interval.lower =
      if n.mantissa = 1 <<< 52 ∧ 1 < n.exponentField then 4 * n.mantissa - 1
      else 4 * n.mantissa - 2 := rfl
  rw [← found, ← if_congr (mantissa_eq_iff n) rfl rfl, found] at steps
  rw [before, interval_unit, next, value, lower]
  split at steps
  · rename_i power
    rw [if_pos power, steps, Nat.cast_sub (by omega)]
    push_cast
    ring
  · rename_i other
    rw [if_neg other, steps, Nat.cast_sub (by omega)]
    push_cast
    ring

theorem contains_iff_rounds (finite : n.isFinite = true) (nonzero : n.isZero = false) :
    n.interval.contains d = true ↔ Rounds d.value n.magnitude := by
  have below := magnitude_lt finite
  obtain ⟨k, found⟩ := Nat.exists_eq_add_one.mpr (magnitude_pos nonzero)
  have low := lower_eq found
  have high := upper_eq found
  have closed : n.interval.closed = true ↔ (k + 1) % 2 = 0 := by
    rw [← found, ← mantissa_even_iff]
    exact beq_iff_eq
  rw [Interval.contains_iff _ (interval_den_pos n), closed, found, rounds_iff (found ▸ below)]
  refine and_congr ⟨fun _ => by linarith, fun _ => by linarith⟩
    (and_congr ⟨fun _ => by linarith, fun _ => by linarith⟩ (imp_congr_left (or_congr ?_ ?_)))
  · exact ⟨fun _ => by linarith, fun _ => by linarith⟩
  · exact ⟨fun _ => by linarith, fun _ => by linarith⟩

end Intervals

end DataBinding.Number
