import DataBinding.Proofs.Rounding

/-! The shortest decimals that read back. The decimals of one length near a number lie on a grid;
if any decimal of that length reads back, then one of the two grid points next to the number does,
and no decimal of that length is nearer than the better of the two. -/
namespace DataBinding.Number

section Lengths

/-- The number of digits of a natural. -/
theorem length_digitsOf_le_iff (positive : 0 < count) :
    (digitsOf n).length ≤ count ↔ n < 10 ^ count :=
  Nat.length_toDigits_le_iff (by decide) positive

theorem length_digitsOf_pos (n : Nat) : 0 < (digitsOf n).length := Nat.length_toDigits_pos

theorem lt_pow_length (n : Nat) : n < 10 ^ (digitsOf n).length :=
  (length_digitsOf_le_iff (length_digitsOf_pos n)).mp (Nat.le_refl _)

theorem pow_length_le (positive : 0 < n) : 10 ^ ((digitsOf n).length - 1) ≤ n := by
  rcases Nat.eq_zero_or_pos ((digitsOf n).length - 1) with single | more
  · rw [single]
    exact positive
  · by_contra less
    rw [not_le, ← length_digitsOf_le_iff more] at less
    omega

theorem length_digitsOf_mono (le : n ≤ m) : (digitsOf n).length ≤ (digitsOf m).length :=
  (length_digitsOf_le_iff (length_digitsOf_pos m)).mpr (le.trans_lt (lt_pow_length m))

end Lengths

section Points

theorem leadingZeros_spec (less : num < den) (enough : den ≤ num * 10 ^ bound) :
    num * 10 ^ leadingZeros bound num den < den ∧
      den ≤ num * 10 ^ (leadingZeros bound num den + 1) := by
  induction bound generalizing num with
  | zero => omega
  | succ bound ih =>
    unfold leadingZeros
    split
    · rename_i more
      have later := ih more (by rw [pow_succ] at enough; linarith)
      constructor
      · have := later.1
        rw [pow_succ]
        linarith
      · have := later.2
        rw [pow_succ]
        linarith
    · rename_i last
      rw [pow_zero, zero_add, pow_one, mul_one]
      exact ⟨less, not_lt.mp last⟩

/-- The decimal point stands behind the first `decimalPoint num den` digits. -/
theorem decimalPoint_spec (positive : 0 < den) (enough : den ≤ num * 10 ^ 400) :
    (10 : ℚ) ^ (decimalPoint num den - 1) ≤ num / den ∧
      (num / den : ℚ) < (10 : ℚ) ^ decimalPoint num den := by
  have den' : (0 : ℚ) < den := by exact_mod_cast positive
  unfold decimalPoint
  split
  · rename_i whole
    have most := lt_pow_length (num / den)
    have least := pow_length_le (Nat.div_pos whole positive)
    have nonempty := length_digitsOf_pos (num / den)
    change (10 : ℚ) ^ (((digitsOf (num / den)).length : Int) - 1) ≤ _ ∧
      _ < (10 : ℚ) ^ ((digitsOf (num / den)).length : Int)
    rw [le_div_iff₀ den', div_lt_iff₀ den', zpow_natCast]
    constructor
    · rw [← Nat.cast_pred nonempty, zpow_natCast]
      exact_mod_cast (Nat.le_div_iff_mul_le positive).mp least
    · exact_mod_cast (Nat.div_lt_iff_lt_mul positive).mp most
  · rename_i fraction
    have zeros := leadingZeros_spec (not_le.mp fraction) enough
    generalize leadingZeros 400 num den = z at zeros
    have less : (num * 10 ^ z : ℚ) < den := by exact_mod_cast zeros.1
    have most : (den : ℚ) ≤ num * 10 ^ (z + 1) := by exact_mod_cast zeros.2
    rw [zpow_sub_one₀ (by norm_num), zpow_neg, zpow_natCast, ← mul_inv, ← pow_succ, inv_eq_one_div,
      inv_eq_one_div, div_le_div_iff₀ (by positivity) den', div_lt_div_iff₀ den' (by positivity),
      one_mul]
    exact ⟨most, less⟩

variable {n : Number}

theorem mantissa_lt (n : Number) : n.mantissa < 2 ^ 53 := by
  unfold mantissa
  rw [Nat.one_shiftLeft]
  split <;> omega

/-- The size of a number, as the printing measures it. -/
theorem size_eq_div (n : Number) :
    n.size = ((n.interval.value * n.interval.num : Nat) : ℚ) / n.interval.den := by
  have unit := interval_unit n
  rw [Interval.unit] at unit
  rw [Nat.cast_mul, mul_div_assoc, unit, size_eq]
  change _ = ((4 * n.mantissa : Nat) : ℚ) * _
  push_cast
  ring

/-- The place of the decimal point of a number. -/
def point (n : Number) : Int := decimalPoint (n.interval.value * n.interval.num) n.interval.den

theorem point_spec (nonzero : n.isZero = false) :
    (10 : ℚ) ^ (n.point - 1) ≤ n.size ∧ n.size < (10 : ℚ) ^ n.point := by
  rw [size_eq_div]
  refine decimalPoint_spec (interval_den_pos n) ?_
  obtain ⟨k, found⟩ := Nat.exists_eq_add_one.mpr (magnitude_pos nonzero)
  have positive := mantissa_pos found
  have least : -1076 ≤ n.exponent - 2 := by
    unfold exponent
    omega
  have fits : n.interval.den ≤ 10 ^ 400 := by
    change 1 <<< (-(n.exponent - 2)).toNat ≤ _
    rw [Nat.one_shiftLeft]
    have cube (e j : Nat) (bound : e ≤ 3 * j) : 2 ^ e ≤ 10 ^ j :=
      calc 2 ^ e ≤ 2 ^ (3 * j) := Nat.pow_le_pow_right two_pos bound
        _ = (2 ^ 3) ^ j := pow_mul 2 3 j
        _ ≤ 10 ^ j := Nat.pow_le_pow_left (by decide) j
    exact cube _ 400 (by omega)
  have whole : 1 ≤ n.interval.value * n.interval.num := by
    change 1 ≤ 4 * n.mantissa * 1 <<< (n.exponent - 2).toNat
    rw [Nat.one_shiftLeft]
    exact Nat.mul_pos (by omega) (Nat.two_pow_pos _)
  exact fits.trans (Nat.le_mul_of_pos_left _ whole)

end Points

section Grids

variable {n : Number} {d : Decimal} {k p : Int} {c count : Nat}

/-- The size of a number in units of `10 ^ k`, as a quotient. -/
def numerator (n : Number) (k : Int) : Nat :=
  n.interval.value * n.interval.num * Nat.pow 10 (-k).toNat

def denominator (n : Number) (k : Int) : Nat := n.interval.den * Nat.pow 10 k.toNat

theorem denominator_pos (n : Number) (k : Int) : 0 < n.denominator k :=
  Nat.mul_pos (interval_den_pos n) (Nat.pow_pos (by decide))

theorem size_eq_grid (n : Number) (k : Int) :
    n.size = (n.numerator k : ℚ) / n.denominator k * (10 : ℚ) ^ k := by
  have den : (n.interval.den : ℚ) ≠ 0 := by exact_mod_cast (interval_den_pos n).ne'
  rw [size_eq_div, zpow_eq_div (by norm_num : (10 : ℚ) ≠ 0), numerator, denominator]
  push_cast [Nat.pow_eq]
  field_simp

/-- The size of a number between its neighbours on the grid. -/
theorem size_eq_floor (n : Number) (k : Int) : n.size =
    ((n.numerator k / n.denominator k : Nat) +
      ((n.numerator k % n.denominator k : Nat) : ℚ) / n.denominator k) * (10 : ℚ) ^ k := by
  have den : (n.denominator k : ℚ) ≠ 0 := by exact_mod_cast (denominator_pos n k).ne'
  rw [size_eq_grid n k]
  congr 1
  rw [div_eq_iff den, add_mul, div_mul_cancel₀ _ den]
  exact_mod_cast (Nat.div_add_mod' (n.numerator k) (n.denominator k)).symm

theorem grid_le_size_iff : c * (10 : ℚ) ^ k ≤ n.size ↔ c ≤ n.numerator k / n.denominator k := by
  have den : (0 : ℚ) < n.denominator k := by exact_mod_cast denominator_pos n k
  rw [size_eq_grid n k, mul_le_mul_iff_left₀ (by positivity), le_div_iff₀ den,
    Nat.le_div_iff_mul_le (denominator_pos n k)]
  exact_mod_cast Iff.rfl

/-- The decimal on the grid next below a number, and the one next above. -/
def below (n : Number) (k : Int) : Decimal := ⟨n.numerator k / n.denominator k, k⟩

def above (n : Number) (k : Int) : Decimal := ⟨n.numerator k / n.denominator k + 1, k⟩

theorem below_le (n : Number) (k : Int) : (n.below k).value ≤ n.size :=
  grid_le_size_iff.mpr (Nat.le_refl _)

theorem lt_above (n : Number) (k : Int) : n.size < (n.above k).value := by
  rw [← not_le]
  exact fun le => Nat.not_succ_le_self _ (grid_le_size_iff.mp le)

theorem le_below (le : c * (10 : ℚ) ^ k ≤ n.size) : c * (10 : ℚ) ^ k ≤ (n.below k).value :=
  mul_le_mul_of_nonneg_right (by exact_mod_cast grid_le_size_iff.mp le) (by positivity)

theorem above_le (less : n.size < c * (10 : ℚ) ^ k) : (n.above k).value ≤ c * (10 : ℚ) ^ k := by
  rw [← not_le, grid_le_size_iff, not_le] at less
  exact mul_le_mul_of_nonneg_right (by exact_mod_cast less) (by positivity)

/-- How far the neighbours are. -/
theorem size_sub_below (n : Number) (k : Int) : n.size - (n.below k).value =
    ((n.numerator k % n.denominator k : Nat) : ℚ) / n.denominator k * (10 : ℚ) ^ k := by
  rw [size_eq_floor n k, Decimal.value, below]
  ring

theorem above_sub_below (n : Number) (k : Int) :
    (n.above k).value - (n.below k).value = (10 : ℚ) ^ k := by
  rw [Decimal.value, Decimal.value, above, below]
  push_cast
  ring

theorem neighbour?_eq (n : Number) (tie : Tie) (point : Int) (count : Nat) :
    n.interval.neighbour? tie point count =
      match n.interval.contains (n.below (point - count)),
        n.interval.contains (n.above (point - count)) with
      | true, true =>
        let rest := n.numerator (point - count) % n.denominator (point - count)
        if 2 * rest < n.denominator (point - count) then some (n.below (point - count))
        else if n.denominator (point - count) < 2 * rest then some (n.above (point - count))
        else match tie with
          | .up => some (n.above (point - count))
          | .even => if (n.below (point - count)).digits % 2 = 0 then some (n.below (point - count))
            else some (n.above (point - count))
      | true, false => some (n.below (point - count))
      | false, true => some (n.above (point - count))
      | false, false => none := rfl

/-- The remainder tells which neighbour is nearer. -/
theorem below_nearer (le : 2 * (n.numerator k % n.denominator k) ≤ n.denominator k) :
    n.size - (n.below k).value ≤ (n.above k).value - n.size := by
  have den : (0 : ℚ) < n.denominator k := by exact_mod_cast denominator_pos n k
  have half : ((n.numerator k % n.denominator k : Nat) : ℚ) / n.denominator k ≤ 1 / 2 := by
    rw [div_le_div_iff₀ den two_pos]
    exact_mod_cast (by omega : n.numerator k % n.denominator k * 2 ≤ 1 * n.denominator k)
  have apart := size_sub_below n k
  have width := above_sub_below n k
  have grid : (0 : ℚ) < (10 : ℚ) ^ k := by positivity
  nlinarith

theorem above_nearer (le : n.denominator k ≤ 2 * (n.numerator k % n.denominator k)) :
    (n.above k).value - n.size ≤ n.size - (n.below k).value := by
  have den : (0 : ℚ) < n.denominator k := by exact_mod_cast denominator_pos n k
  have half : 1 / 2 ≤ ((n.numerator k % n.denominator k : Nat) : ℚ) / n.denominator k := by
    rw [div_le_div_iff₀ two_pos den]
    exact_mod_cast (by omega : 1 * n.denominator k ≤ n.numerator k % n.denominator k * 2)
  have apart := size_sub_below n k
  have width := above_sub_below n k
  have grid : (0 : ℚ) < (10 : ℚ) ^ k := by positivity
  nlinarith

/-- The neighbour that is taken reads back, and no neighbour that does is nearer. -/
structure Taken (n : Number) (k : Int) (d : Decimal) : Prop where
  contains : n.interval.contains d = true
  neighbour : d = n.below k ∨ d = n.above k
  nearBelow : n.interval.contains (n.below k) = true →
    |n.size - d.value| ≤ n.size - (n.below k).value
  nearAbove : n.interval.contains (n.above k) = true →
    |n.size - d.value| ≤ (n.above k).value - n.size

theorem taken_below (inside : n.interval.contains (n.below k) = true)
    (nearer : n.interval.contains (n.above k) = true →
      2 * (n.numerator k % n.denominator k) ≤ n.denominator k) : n.Taken k (n.below k) where
  contains := inside
  neighbour := .inl rfl
  nearBelow _ := (abs_of_nonneg (sub_nonneg.mpr (below_le n k))).le
  nearAbove inside' := by
    rw [abs_of_nonneg (sub_nonneg.mpr (below_le n k))]
    exact below_nearer (nearer inside')

theorem taken_above (inside : n.interval.contains (n.above k) = true)
    (nearer : n.interval.contains (n.below k) = true →
      n.denominator k ≤ 2 * (n.numerator k % n.denominator k)) : n.Taken k (n.above k) where
  contains := inside
  neighbour := .inr rfl
  nearBelow inside' := by
    rw [abs_sub_comm, abs_of_nonneg (sub_nonneg.mpr (lt_above n k).le)]
    exact above_nearer (nearer inside')
  nearAbove _ := by
    rw [abs_sub_comm, abs_of_nonneg (sub_nonneg.mpr (lt_above n k).le)]

theorem neighbour?_cases (n : Number) (tie : Tie) (p : Int) (count : Nat) :
    (n.interval.contains (n.below (p - count)) = false ∧
      n.interval.contains (n.above (p - count)) = false ∧
      n.interval.neighbour? tie p count = none) ∨
    ∃ d, n.interval.neighbour? tie p count = some d ∧ n.Taken (p - count) d := by
  rw [neighbour?_eq]
  cases low : n.interval.contains (n.below (p - count)) <;>
    cases high : n.interval.contains (n.above (p - count))
  · exact .inl ⟨rfl, rfl, rfl⟩
  · exact .inr ⟨_, rfl, taken_above high fun inside => by simp [low] at inside⟩
  · exact .inr ⟨_, rfl, taken_below low fun inside => by simp [high] at inside⟩
  · refine .inr ?_
    simp only
    split
    · exact ⟨_, rfl, taken_below low fun _ => by omega⟩
    · split
      · exact ⟨_, rfl, taken_above high fun _ => by omega⟩
      · cases tie with
        | up => exact ⟨_, rfl, taken_above high fun _ => by omega⟩
        | even =>
          simp only
          split
          · exact ⟨_, rfl, taken_below low fun _ => by omega⟩
          · exact ⟨_, rfl, taken_above high fun _ => by omega⟩

/-- If a decimal on the grid reads back, a neighbour is taken that is no farther. -/
theorem exists_neighbour (tie : Tie) (finite : n.isFinite = true)
    (nonzero : n.isZero = false) (rounds : Rounds (c * (10 : ℚ) ^ (p - count : Int)) n.magnitude) :
    ∃ d, n.interval.neighbour? tie p count = some d ∧ n.Taken (p - count) d ∧
      |n.size - d.value| ≤ |n.size - c * (10 : ℚ) ^ (p - count : Int)| := by
  have own : Rounds n.size n.magnitude := rounds_worth _
  have inside {q : ℚ} {d : Decimal} (side : q ≤ d.value ∧ d.value ≤ n.size ∨
      n.size ≤ d.value ∧ d.value ≤ q) (rounds : Rounds q n.magnitude) :
      n.interval.contains d = true := by
    rw [contains_iff_rounds finite nonzero]
    rcases side with ⟨low, high⟩ | ⟨low, high⟩
    · exact rounds.between own (magnitude_pos nonzero) (magnitude_lt finite) low high
    · exact own.between rounds (magnitude_pos nonzero) (magnitude_lt finite) low high
  rcases le_or_gt (c * (10 : ℚ) ^ (p - count : Int)) n.size with le | less
  · have nearer := le_below le
    have low := inside (.inl ⟨nearer, below_le n _⟩) rounds
    rcases neighbour?_cases n tie p count with ⟨none, -, -⟩ | ⟨d, found, taken⟩
    · simp [low] at none
    · refine ⟨d, found, taken, (taken.nearBelow low).trans ?_⟩
      rw [abs_of_nonneg (sub_nonneg.mpr le)]
      linarith
  · have nearer := above_le less
    have high := inside (.inr ⟨(lt_above n _).le, nearer⟩) rounds
    rcases neighbour?_cases n tie p count with ⟨-, none, -⟩ | ⟨d, found, taken⟩
    · simp [high] at none
    · refine ⟨d, found, taken, (taken.nearAbove high).trans ?_⟩
      rw [abs_sub_comm, abs_of_nonneg (sub_nonneg.mpr less.le)]
      linarith

/-- A power of ten on a grid of another one. -/
theorem pow_mul_zpow (j : Nat) (k : Int) :
    ((10 ^ j : Nat) : ℚ) * (10 : ℚ) ^ k = (10 : ℚ) ^ (k + j) := by
  rw [Nat.cast_pow, Nat.cast_ofNat, ← zpow_natCast, ← zpow_add₀ (by norm_num), add_comm]

/-- The place of the decimal point of a decimal. -/
def Decimal.point (d : Decimal) : Int := (digitsOf d.digits).length + d.exponent

theorem Decimal.point_spec (positive : 0 < d.digits) :
    (10 : ℚ) ^ (d.point - 1) ≤ d.value ∧ d.value < (10 : ℚ) ^ d.point := by
  have least := pow_length_le positive
  have most := lt_pow_length d.digits
  have nonempty := length_digitsOf_pos d.digits
  have low : d.point - 1 = d.exponent + ((digitsOf d.digits).length - 1 : Nat) := by
    unfold Decimal.point
    omega
  have high : d.point = d.exponent + (digitsOf d.digits).length := by
    rw [Decimal.point, add_comm]
  rw [low, high, ← pow_mul_zpow, ← pow_mul_zpow, Decimal.value]
  constructor
  · exact mul_le_mul_of_nonneg_right (by exact_mod_cast least) (by positivity)
  · exact mul_lt_mul_of_pos_right (by exact_mod_cast most) (by positivity)

/-- Every decimal that reads back is matched by one on the grid of its length that is no farther:
itself, or the power of ten between it and the number. -/
theorem exists_on_grid (finite : n.isFinite = true) (nonzero : n.isZero = false)
    (positive : 0 < d.digits) (rounds : Rounds d.value n.magnitude) :
    ∃ c : Nat, Rounds (c * (10 : ℚ) ^ (n.point - (digitsOf d.digits).length)) n.magnitude ∧
      |n.size - c * (10 : ℚ) ^ (n.point - (digitsOf d.digits).length)| ≤ |n.size - d.value| := by
  have own : Rounds n.size n.magnitude := rounds_worth _
  have nonempty := length_digitsOf_pos d.digits
  obtain ⟨low, high⟩ := Decimal.point_spec positive
  obtain ⟨low', high'⟩ := point_spec nonzero
  rcases lt_trichotomy d.point n.point with less | same | more
  · refine ⟨10 ^ ((digitsOf d.digits).length - 1), ?_⟩
    rw [pow_mul_zpow, Nat.cast_pred nonempty, sub_add_sub_cancel]
    have above : d.value ≤ (10 : ℚ) ^ (n.point - 1) :=
      high.le.trans (zpow_le_zpow_right₀ (by norm_num) (by omega))
    refine ⟨rounds.between own (magnitude_pos nonzero) (magnitude_lt finite) above low', ?_⟩
    rw [abs_of_nonneg (sub_nonneg.mpr low'), abs_of_nonneg (sub_nonneg.mpr (above.trans low'))]
    linarith
  · refine ⟨d.digits, ?_⟩
    rw [← same, Decimal.point, add_sub_cancel_left]
    exact ⟨rounds, le_refl _⟩
  · refine ⟨10 ^ (digitsOf d.digits).length, ?_⟩
    rw [pow_mul_zpow, sub_add_cancel]
    have below : (10 : ℚ) ^ n.point ≤ d.value :=
      (zpow_le_zpow_right₀ (by norm_num) (by omega)).trans low
    refine ⟨own.between rounds (magnitude_pos nonzero) (magnitude_lt finite) high'.le below, ?_⟩
    rw [abs_sub_comm, abs_of_nonneg (sub_nonneg.mpr high'.le), abs_sub_comm,
      abs_of_nonneg (sub_nonneg.mpr (high'.le.trans below))]
    linarith

/-- A real nearer than half a step on either side is rounded to the magnitude. -/
theorem rounds_of_near (finite : k' + 1 < infinite) (low : worth k' + worth (k' + 1) < 2 * q)
    (high : 2 * q < worth (k' + 1) + worth (k' + 2)) : Rounds q (k' + 1) :=
  (rounds_iff finite).mpr ⟨low.le, high.le, fun ends => by
    rcases ends with same | same <;> linarith⟩

/-- Seventeen digits always suffice: the grid is finer than a step, and finer than half a step at
the powers of two. -/
theorem exists_seventeen (finite : n.isFinite = true) (nonzero : n.isZero = false) :
    ∃ c : Nat, Rounds (c * (10 : ℚ) ^ (n.point - 17)) n.magnitude := by
  have legal := magnitude_lt finite
  have few := mantissa_lt n
  have width := above_sub_below n (n.point - 17)
  have floored := below_le n (n.point - 17)
  have exceeded := lt_above n (n.point - 17)
  have own : n.size = n.mantissa * step n.magnitude := rfl
  have low := (point_spec nonzero).1
  have fine : 10 ^ 16 * (10 : ℚ) ^ (n.point - 17) = (10 : ℚ) ^ (n.point - 1) := by
    have unit := pow_mul_zpow 16 (n.point - 17)
    rw [sub_add_eq_add_sub, add_sub_assoc] at unit
    exact_mod_cast unit
  have power := mantissa_eq_iff n
  obtain ⟨j, found⟩ := Nat.exists_eq_add_one.mpr (magnitude_pos nonzero)
  have size : n.size = worth (j + 1) := congrArg worth found
  have next : worth (j + 2) = worth (j + 1) + step (j + 1) := worth_succ (j + 1)
  have last := worth_succ j
  have steps := step_succ j
  have positive := step_pos (j + 1)
  rw [found] at own power legal ⊢
  by_cases near : 2 * (n.above (n.point - 17)).value < worth (j + 1) + worth (j + 2)
  · refine ⟨_, rounds_of_near (q := (n.above (n.point - 17)).value) legal ?_ near⟩
    linarith [step_pos j]
  · rw [not_lt] at near
    refine ⟨_, rounds_of_near (q := (n.below (n.point - 17)).value) legal ?_ (by linarith)⟩
    rw [← if_congr power rfl rfl] at steps
    split at steps
    · rename_i dense
      have units : (n.mantissa : ℚ) = 2 ^ 52 := by
        rw [dense.1, Nat.one_shiftLeft]
        norm_num
      rw [units] at own
      linarith
    · have units : (n.mantissa : ℚ) < 2 ^ 53 := by exact_mod_cast few
      nlinarith

end Grids

section Search

variable {n : Number} {d : Decimal} {tie : Tie} {count fewer bound : Nat}

/-- A search finds what is at the least index where there is anything. -/
theorem findSome?_range {f : Nat → Option α} (hit : (f i).isSome = true) (inside : i < m) :
    ∃ j < m, (List.range m).findSome? f = f j ∧ (f j).isSome = true ∧ ∀ l < j, f l = none := by
  induction m generalizing i with
  | zero => cases inside
  | succ m ih =>
    rw [List.range_succ, List.findSome?_append]
    by_cases earlier : ∃ l < m, (f l).isSome = true
    · obtain ⟨l, inside, hit⟩ := earlier
      obtain ⟨j, before, same, some, first⟩ := ih hit inside
      refine ⟨j, by omega, ?_, some, first⟩
      rw [same]
      exact Option.or_of_isSome some
    · have none : ∀ l < m, f l = none := fun l inside =>
        Option.not_isSome_iff_eq_none.mp fun some => earlier ⟨l, inside, some⟩
      obtain rfl : i = m := by
        by_contra other
        exact earlier ⟨i, by omega, hit⟩
      refine ⟨i, Nat.lt_succ_self i, ?_, hit, none⟩
      rw [List.findSome?_eq_none_iff.mpr fun l member => none l (List.mem_range.mp member)]
      exact (Option.none_or ..).trans (by simp)

theorem Decimal.value_trim (bound : Nat) (d : Decimal) : (d.trim bound).value = d.value := by
  induction bound generalizing d with
  | zero => rfl
  | succ bound ih =>
    unfold trim
    split
    · rename_i zero
      rw [ih, value, value, zpow_add_one₀ (by norm_num)]
      obtain ⟨c, same⟩ := Nat.dvd_of_mod_eq_zero zero.2
      rw [same, Nat.mul_div_cancel_left c (by decide)]
      push_cast
      ring
    · rfl

theorem Decimal.digits_trim_le (bound : Nat) (d : Decimal) : (d.trim bound).digits ≤ d.digits := by
  induction bound generalizing d with
  | zero => exact Nat.le_refl _
  | succ bound ih =>
    unfold trim
    split
    · exact (ih _).trans (Nat.div_le_self _ _)
    · exact Nat.le_refl _

theorem Decimal.digits_trim (positive : 0 < d.digits) (small : d.digits < 10 ^ bound) :
    (d.trim bound).digits % 10 ≠ 0 := by
  induction bound generalizing d with
  | zero => omega
  | succ bound ih =>
    unfold trim
    split
    · rename_i zero
      have : 0 < d.digits / 10 := by omega
      exact ih this (by simp only; rw [pow_succ] at small; omega)
    · rename_i last
      exact fun zero => last ⟨positive.ne', zero⟩

/-- A shortest decimal that reads back, and none of these is nearer. -/
structure Decimal.Shortest (d : Decimal) (n : Number) : Prop where
  positive : 0 < d.digits
  rounds : Rounds d.value n.magnitude
  least : ∀ other : Decimal, 0 < other.digits → Rounds other.value n.magnitude →
    (digitsOf d.digits).length ≤ (digitsOf other.digits).length
  nearest : ∀ other : Decimal, 0 < other.digits → Rounds other.value n.magnitude →
    (digitsOf other.digits).length = (digitsOf d.digits).length →
    |n.size - d.value| ≤ |n.size - other.value|

/-- A shortest decimal has no zero at its end. -/
theorem Decimal.Shortest.trimmed (shortest : d.Shortest n) : d.digits % 10 ≠ 0 := by
  intro zero
  have positive := shortest.positive
  have value : Decimal.value ⟨d.digits / 10, d.exponent + 1⟩ = d.value := by
    have trimmed := Decimal.value_trim 1 d
    rwa [Decimal.trim, if_pos ⟨positive.ne', zero⟩] at trimmed
  have least := shortest.least ⟨d.digits / 10, d.exponent + 1⟩ (by simp only; omega)
    (by rw [value]; exact shortest.rounds)
  have fewer := pow_length_le (by omega : 0 < d.digits / 10)
  have shorter : 10 ^ (digitsOf d.digits).length ≤ d.digits :=
    calc 10 ^ (digitsOf d.digits).length
        ≤ 10 ^ ((digitsOf (d.digits / 10)).length - 1 + 1) :=
          Nat.pow_le_pow_right (by decide) (by simp only at least; omega)
      _ ≤ d.digits := by rw [pow_succ]; omega
  exact absurd (lt_pow_length d.digits) (not_lt.mpr shorter)

/-- The digits that are tried are those with which a number begins. -/
theorem Taken.digits_le (taken : n.Taken (n.point - count) d) (nonzero : n.isZero = false)
    (some : 0 < count) : 0 < d.digits ∧ d.digits ≤ 10 ^ count := by
  obtain ⟨low, high⟩ := point_spec nonzero
  have least : 10 ^ (count - 1) ≤
      n.numerator (n.point - count) / n.denominator (n.point - count) := by
    rw [← grid_le_size_iff, pow_mul_zpow, Nat.cast_pred some, sub_add_sub_cancel]
    exact low
  have most : n.numerator (n.point - count) / n.denominator (n.point - count) < 10 ^ count := by
    rw [← not_le, ← grid_le_size_iff, not_le, pow_mul_zpow, sub_add_cancel]
    exact high
  have positive : 0 < 10 ^ (count - 1) := Nat.pow_pos (by decide)
  rcases taken.neighbour with rfl | rfl
  · exact ⟨positive.trans_le least, most.le⟩
  · exact ⟨Nat.succ_pos _, most⟩

/-- Without its zeros at the end, a decimal on the grid has no more digits than were tried. -/
theorem length_trim_le (most : d.digits ≤ 10 ^ (fewer + 1)) :
    (digitsOf (d.trim (bound + 1)).digits).length ≤ fewer + 1 := by
  rw [length_digitsOf_le_iff (Nat.succ_pos fewer)]
  rcases most.lt_or_eq with less | power
  · exact (Decimal.digits_trim_le (bound + 1) d).trans_lt less
  · have grows : 10 ^ fewer < 10 ^ (fewer + 1) := Nat.pow_lt_pow_right (by decide) (by omega)
    have zero : d.digits ≠ 0 ∧ d.digits % 10 = 0 := by
      rw [power, pow_succ]
      exact ⟨(by positivity : 0 < 10 ^ fewer * 10).ne', Nat.mul_mod_left _ _⟩
    unfold Decimal.trim
    rw [if_pos zero]
    refine (Decimal.digits_trim_le bound _).trans_lt ?_
    rw [power, pow_succ, Nat.mul_div_cancel _ (by decide)]
    exact grows

/-- What is printed is a shortest decimal that reads back. -/
theorem shortest_spec (tie : Tie) (finite : n.isFinite = true) (nonzero : n.isZero = false) :
    (n.shortest tie).Shortest n := by
  obtain ⟨c, rounds⟩ := exists_seventeen finite nonzero
  obtain ⟨last, hit, -⟩ := exists_neighbour tie finite nonzero rounds
  obtain ⟨fewer, few, search, some, none⟩ := findSome?_range (m := 17) (i := 16)
    (f := fun fewer => n.interval.neighbour? tie n.point (fewer + 1)) (by rw [hit]; rfl) (by decide)
  obtain ⟨d, found⟩ := Option.isSome_iff_exists.mp some
  have result : n.shortest tie = d.trim 20 := by
    change (((List.range 17).findSome? fun fewer =>
      n.interval.neighbour? tie n.point (fewer + 1)).getD ⟨0, 0⟩).trim 20 = _
    rw [search, found]
    rfl
  have taken : n.Taken (n.point - (fewer + 1 : Nat)) d := by
    rcases neighbour?_cases n tie n.point (fewer + 1) with ⟨-, -, nothing⟩ | ⟨d', found', taken⟩
    · cases found.symm.trans nothing
    · cases found.symm.trans found'
      exact taken
  obtain ⟨positive, most⟩ := taken.digits_le nonzero (Nat.succ_pos fewer)
  have small : d.digits < 10 ^ 20 :=
    most.trans_lt (Nat.pow_lt_pow_right (by decide) (by omega))
  have trimmed := Decimal.digits_trim positive small
  have short : (digitsOf (d.trim 20).digits).length ≤ fewer + 1 := length_trim_le most
  -- nothing was found with fewer digits
  have least (other : Decimal) (positive : 0 < other.digits)
      (rounds : Rounds other.value n.magnitude) : fewer + 1 ≤ (digitsOf other.digits).length := by
    by_contra less
    have nonempty := length_digitsOf_pos other.digits
    obtain ⟨c, rounds, -⟩ := exists_on_grid finite nonzero positive rounds
    obtain ⟨d', found', -⟩ := exists_neighbour tie finite nonzero rounds
    have nothing := none ((digitsOf other.digits).length - 1) (by omega)
    simp only [Nat.sub_add_cancel nonempty] at nothing
    cases found'.symm.trans nothing
  rw [result]
  refine ⟨Nat.pos_of_ne_zero fun zero => trimmed (by rw [zero]), ?_, ?_, ?_⟩
  · rw [Decimal.value_trim, ← contains_iff_rounds finite nonzero]
    exact taken.contains
  · exact fun other positive rounds => short.trans (least other positive rounds)
  · intro other positive rounds same
    have long := least other positive rounds
    have count : (digitsOf other.digits).length = fewer + 1 := by omega
    obtain ⟨c, rounds', nearer⟩ := exists_on_grid finite nonzero positive rounds
    rw [count] at rounds' nearer
    obtain ⟨d', found', -, nearest⟩ := exists_neighbour tie finite nonzero rounds'
    cases found.symm.trans found'
    rw [Decimal.value_trim]
    exact nearest.trans nearer

end Search

end DataBinding.Number
