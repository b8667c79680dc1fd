import DataBinding.Proofs.Shortest
import DataBinding.Value

/-! How numbers are displayed, next to string coercion. Coercion writes the shortest decimal that
reads back. So does the display, except that it writes whole numbers with all their digits, of which
large ones can have more than are needed. -/
namespace DataBinding
namespace Number

/-- A decimal as string coercion writes it: in place if the decimal point comes after at most 21
digits, or at most five zeros before them, and otherwise with a signed exponent. -/
def Decimal.coerced (d : Decimal) : List Char :=
  let digits := digitsOf d.digits
  if -6 < d.point ∧ d.point ≤ 21 then
    if 0 ≤ d.exponent then digits ++ List.replicate d.exponent.toNat '0'
    else if 0 < d.point then digits.take d.point.toNat ++ '.' :: digits.drop d.point.toNat
    else '0' :: '.' :: (List.replicate (-d.point).toNat '0' ++ digits)
  else
    digits.take 1 ++ (if digits.length = 1 then [] else '.' :: digits.drop 1) ++
      'e' :: (if 0 ≤ d.point - 1 then '+' else '-') :: digitsOf (d.point - 1).natAbs

/-- The sign of a number other than zero. -/
def sign (n : Number) : List Char := if n.isNegative then ['-'] else []

/-- The text is what string coercion makes of a finite number: `0` for both zeros, and otherwise the
sign with a shortest decimal that reads back, the nearest of these. -/
def Coerces (n : Number) (text : String) : Prop :=
  if n.isZero then text = "0"
  else ∃ d : Decimal, d.Shortest n ∧ text = String.ofList (n.sign ++ d.coerced)

section Layouts

variable {d : Decimal}

theorem positional_eq (inside : -6 < d.point ∧ d.point ≤ 21) : d.positional false = d.coerced := by
  unfold Decimal.positional Decimal.coerced
  simp only [if_pos inside, Bool.false_eq_true, if_false, List.append_nil]
  rfl

theorem scientific_eq (outside : ¬(-6 < d.point ∧ d.point ≤ 21)) :
    d.scientific true = d.coerced := by
  have nonempty := length_digitsOf_pos d.digits
  have single : (digitsOf d.digits).length ≤ 1 ↔ (digitsOf d.digits).length = 1 := by omega
  change List.take 1 (digitsOf d.digits) ++ (if (digitsOf d.digits).length ≤ 1 then [] else _) ++
    'e' :: ((if d.point - 1 < 0 then ['-'] else ['+']) ++ digitsOf (d.point - 1).natAbs) = _
  unfold Decimal.coerced
  simp only [if_neg outside, if_congr single rfl rfl]
  rcases lt_or_ge (d.point - 1) 0 with negative | positive
  · rw [if_pos negative, if_neg (not_le.mpr negative)]
    rfl
  · rw [if_neg (not_lt.mpr positive), if_pos positive]
    rfl

end Layouts

section Window

variable {n : Number} {d : Decimal}

theorem Decimal.pow_le_value_iff (positive : 0 < d.digits) (j : Int) :
    (10 : ℚ) ^ j ≤ d.value ↔ j < d.point := by
  obtain ⟨low, high⟩ := Decimal.point_spec positive
  constructor
  · intro le
    exact (zpow_lt_zpow_iff_right₀ (by norm_num)).mp (le.trans_lt high)
  · intro less
    exact (zpow_le_zpow_right₀ (by norm_num) (by omega)).trans low

/-- The numbers from a power of ten on are those whose shortest decimals reach it: the power is the
only decimal of one digit that can be meant by the number next to it. -/
theorem Decimal.Shortest.threshold {one nine : Number} {j : Int} (shortest : d.Shortest n)
    (finite : n.isFinite = true) (legal : one.isFinite = true) (legal' : nine.isFinite = true)
    (rounds : Rounds (Decimal.value ⟨1, j⟩) one.magnitude)
    (rounds' : Rounds (Decimal.value ⟨9, j - 1⟩) nine.magnitude)
    (less : nine.magnitude < one.magnitude) : one.magnitude ≤ n.magnitude ↔ j < d.point := by
  have power : Decimal.value ⟨1, j⟩ = (10 : ℚ) ^ j := by simp [Decimal.value]
  rw [← Decimal.pow_le_value_iff shortest.positive, ← power]
  constructor
  · intro reaches
    by_contra before
    rw [not_le] at before
    have bounded := magnitude_lt finite
    have same : n.magnitude = one.magnitude :=
      (shortest.rounds.mono rounds bounded.le (magnitude_lt legal).le before.le).antisymm reaches
    have alone : (digitsOf 1).length ≤ 1 := by decide
    have single := (shortest.least ⟨1, j⟩ Nat.one_pos (same ▸ rounds)).trans alone
    have digit : d.digits ≤ 9 :=
      Nat.le_of_lt_succ ((length_digitsOf_le_iff Nat.one_pos).mp single)
    have nonempty := length_digitsOf_pos d.digits
    rw [power, ← not_le, Decimal.pow_le_value_iff shortest.positive, not_lt,
      Decimal.point] at before
    have small : d.value ≤ Decimal.value ⟨9, j - 1⟩ := mul_le_mul (by exact_mod_cast digit)
      (zpow_le_zpow_right₀ (by norm_num) (by simp only; omega)) (by positivity) (by norm_num)
    have least := shortest.rounds.mono rounds' bounded.le (magnitude_lt legal').le small
    omega
  · intro le
    exact rounds.mono shortest.rounds (magnitude_lt legal).le (magnitude_lt finite).le le

theorem rounds_millionth : Rounds (Decimal.value ⟨1, -6⟩) (ofDecimal false 1 (-6)).magnitude :=
  (contains_iff_rounds (by decide +kernel) (by decide +kernel)).mp (by decide +kernel)

/-- A number is written in place exactly where string coercion does so. -/
theorem window_iff (finite : n.isFinite = true) (shortest : d.Shortest n) :
    (shown.least ≤ n.magnitude ∧ n.magnitude < shown.bound) ↔ -6 < d.point ∧ d.point ≤ 21 := by
  have less : Rounds (Decimal.value ⟨9, -6 - 1⟩) (ofDecimal false 9 (-7)).magnitude :=
    (contains_iff_rounds (by decide +kernel) (by decide +kernel)).mp (by decide +kernel)
  have large : Rounds (Decimal.value ⟨1, 21⟩) (ofDecimal false 1 21).magnitude :=
    (contains_iff_rounds (by decide +kernel) (by decide +kernel)).mp (by decide +kernel)
  have smaller : Rounds (Decimal.value ⟨9, 21 - 1⟩) (ofDecimal false 9 20).magnitude :=
    (contains_iff_rounds (by decide +kernel) (by decide +kernel)).mp (by decide +kernel)
  have low := shortest.threshold finite (by decide +kernel) (by decide +kernel) rounds_millionth
    less (by decide +kernel)
  have high := shortest.threshold finite (by decide +kernel) (by decide +kernel) large smaller
    (by decide +kernel)
  change ((ofDecimal false 1 (-6)).magnitude ≤ _ ∧ _ < (ofDecimal false 1 21).magnitude) ↔ _
  exact and_congr low (not_le.symm.trans ((not_congr high).trans not_lt))

end Window

section Whole

variable {n : Number} {d : Decimal} {i : Nat} {q : ℚ}

theorem size_eq_zero_iff : n.size = 0 ↔ n.isZero = true := by
  rw [← worth_zero, size, worth_strictMono.injective.eq_iff]
  exact beq_iff_eq.symm

theorem pos_of_size (nonzero : n.isZero = false) (whole : n.size = i) : 0 < i := by
  rw [Nat.pos_iff_ne_zero]
  rintro rfl
  rw [Nat.cast_zero, size_eq_zero_iff, nonzero] at whole
  cases whole

theorem nonzero_of_size (whole : n.size = i) (positive : 0 < i) : n.isZero = false := by
  rw [Bool.eq_false_iff, ne_eq, ← size_eq_zero_iff, whole, Nat.cast_eq_zero]
  exact positive.ne'

theorem natural?_eq_some_iff : n.natural? = some i ↔ n.size = i := by
  have positive : 0 < 1 <<< (-n.exponent).toNat := by
    rw [Nat.one_shiftLeft]
    positivity
  have size : n.size = ((n.mantissa <<< n.exponent.toNat : Nat) : ℚ) /
      (1 <<< (-n.exponent).toNat : Nat) := by
    rw [size_eq, zpow_eq_div two_ne_zero, Nat.one_shiftLeft, Nat.shiftLeft_eq]
    push_cast
    rw [mul_div_assoc]
  have den : ((1 <<< (-n.exponent).toNat : Nat) : ℚ) ≠ 0 := by exact_mod_cast positive.ne'
  unfold natural?
  simp only
  rw [size, div_eq_iff den, ← Nat.cast_mul, Nat.cast_inj]
  generalize n.mantissa <<< n.exponent.toNat = num
  generalize 1 <<< (-n.exponent).toNat = units at positive
  split
  · rename_i whole
    rw [Option.some.injEq, Nat.div_eq_iff_eq_mul_left positive (Nat.dvd_of_mod_eq_zero whole)]
  · rename_i broken
    exact ⟨nofun, fun same => absurd (same ▸ Nat.mul_mod_left i units) broken⟩

theorem digitsOf_mul_pow (positive : 0 < c) (k : Nat) :
    digitsOf (c * 10 ^ k) = digitsOf c ++ List.replicate k '0' := by
  induction k with
  | zero => simp
  | succ k ih =>
    have shifted := Nat.toDigits_append_toDigits (b := 10) (n := c * 10 ^ k) (d := 0) (by decide)
      (by positivity) (by decide)
    rw [List.replicate_succ', ← List.append_assoc, ← ih, pow_succ, ← mul_assoc, mul_comm]
    exact shifted.symm

theorem digitsOf_injective : Function.Injective digitsOf := fun a b same => by
  have back := congrArg (fun cs => Nat.ofDigitChars 10 cs 0) same
  simpa [digitsOf, Nat.ofDigitChars_ten_toDigits] using back

theorem Decimal.value_of_nonneg (up : 0 ≤ d.exponent) :
    d.value = (d.digits * 10 ^ d.exponent.toNat : Nat) := by
  rw [Decimal.value, zpow_eq_div (by norm_num : (10 : ℚ) ≠ 0),
    Int.toNat_of_nonpos (by omega : -d.exponent ≤ 0)]
  push_cast
  rw [pow_zero, div_one]

/-- A whole decimal without zeros at its end has them all in its exponent. -/
theorem Decimal.whole_eq (trimmed : d.digits % 10 ≠ 0) (whole : d.value = i) :
    0 ≤ d.exponent ∧ i = d.digits * 10 ^ d.exponent.toNat := by
  rcases le_or_gt 0 d.exponent with up | down
  · rw [Decimal.value_of_nonneg up, Nat.cast_inj] at whole
    exact ⟨up, whole.symm⟩
  · rw [Decimal.value, zpow_eq_div (by norm_num : (10 : ℚ) ≠ 0), ← mul_div_assoc,
      div_eq_iff (by positivity)] at whole
    have same : d.digits * 10 ^ d.exponent.toNat = i * 10 ^ (-d.exponent).toNat := by
      exact_mod_cast whole
    obtain ⟨k, below⟩ : ∃ k, (-d.exponent).toNat = k + 1 := ⟨(-d.exponent).toNat - 1, by omega⟩
    rw [below, Int.toNat_of_nonpos down.le, pow_zero, mul_one, pow_succ, ← mul_assoc] at same
    exact absurd (same ▸ Nat.mul_mod_left _ 10) trimmed

/-- A whole decimal without zeros at its end is written as the natural. -/
theorem Decimal.coerced_eq (trimmed : d.digits % 10 ≠ 0) (whole : d.value = i)
    (small : i < 10 ^ 21) : d.coerced = digitsOf i := by
  obtain ⟨up, same⟩ := Decimal.whole_eq trimmed whole
  have positive : 0 < d.digits := Nat.pos_of_ne_zero fun zero => trimmed (by rw [zero])
  have nonempty := length_digitsOf_pos d.digits
  have short : d.point ≤ 21 := by
    rw [← not_lt, ← Decimal.pow_le_value_iff positive, whole, not_le]
    exact_mod_cast small
  have inside : -6 < d.point ∧ d.point ≤ 21 := ⟨by unfold Decimal.point; omega, short⟩
  unfold Decimal.coerced
  simp only [if_pos inside, if_pos up]
  rw [same, digitsOf_mul_pow positive]

/-- Only a whole decimal is written with digits alone. -/
theorem Decimal.value_of_coerced (positive : 0 < d.digits) (plain : d.coerced = digitsOf i) :
    d.value = i := by
  have digits {c : Char} (member : c ∈ digitsOf i) : c.isDigit = true :=
    Nat.isDigit_of_mem_toDigits (by decide) (by decide) member
  unfold Decimal.coerced at plain
  simp only at plain
  split at plain
  · split at plain
    · rename_i up
      rw [← digitsOf_mul_pow positive] at plain
      rw [← digitsOf_injective plain, Decimal.value_of_nonneg up]
    · split at plain
      · have dot : '.' ∈ digitsOf i := plain ▸ List.mem_append_right _ List.mem_cons_self
        exact absurd (digits dot) (by decide)
      · have dot : '.' ∈ digitsOf i := plain ▸ List.mem_cons_of_mem _ List.mem_cons_self
        exact absurd (digits dot) (by decide)
  · have letter : 'e' ∈ digitsOf i := plain ▸ List.mem_append_right _ List.mem_cons_self
    exact absurd (digits letter) (by decide)

/-- Below `2 ^ 53` numbers stand at most 1 apart. -/
theorem step_le_one (small : n.size < 2 ^ 53) : step n.magnitude ≤ 1 := by
  have low : n.exponent ≤ 0 := by
    by_contra high
    rw [not_le] at high
    have normal : n.exponentField ≠ 0 := by
      unfold exponent at high
      omega
    have full : (2 : ℚ) ^ 52 ≤ n.mantissa := by
      have units : 2 ^ 52 ≤ n.mantissa := by
        unfold mantissa
        rw [if_neg normal, Nat.one_shiftLeft]
        omega
      exact_mod_cast units
    have double : (2 : ℚ) ^ (1 : Int) ≤ 2 ^ n.exponent :=
      zpow_le_zpow_right₀ (by norm_num) (by omega)
    rw [size_eq] at small
    rw [zpow_one] at double
    nlinarith
  exact zpow_le_one_of_nonpos₀ (by norm_num) low

/-- What is rounded to a number below `2 ^ 53` is at most a half away. -/
theorem Rounds.near (rounds : Rounds q n.magnitude) (finite : n.isFinite = true)
    (nonzero : n.isZero = false) (small : n.size < 2 ^ 53) : |n.size - q| ≤ 1 / 2 := by
  have legal := magnitude_lt finite
  have apart := step_le_one small
  obtain ⟨k, found⟩ := Nat.exists_eq_add_one.mpr (magnitude_pos nonzero)
  have size : n.size = worth (k + 1) := congrArg worth found
  have last := worth_succ k
  have next : worth (k + 2) = worth (k + 1) + step (k + 1) := worth_succ (k + 1)
  have shorter : step k ≤ step (k + 1) := by
    rw [step_succ]
    split <;> linarith [step_pos k]
  rw [found] at rounds legal apart
  obtain ⟨low, high, -⟩ := (rounds_iff legal).mp rounds
  rw [abs_le]
  constructor <;> linarith

theorem eq_of_near {w : Nat} (near : |(i : ℚ) - w| ≤ 1 / 2) : w = i := by
  rw [abs_le] at near
  have above : w < i + 1 := by
    rw [← @Nat.cast_lt ℚ]
    push_cast
    linarith
  have below : i < w + 1 := by
    rw [← @Nat.cast_lt ℚ]
    push_cast
    linarith
  omega

/-- A decimal with fewer digits than a natural, some of them behind the point, is far below it. -/
theorem Decimal.value_add_one_le (positive : 0 < d.digits) (positive' : 0 < i)
    (down : d.exponent < 0) (long : (digitsOf d.digits).length < (digitsOf i).length) :
    d.value + 1 ≤ i := by
  have nonempty := length_digitsOf_pos d.digits
  have bound : d.value < (10 : ℚ) ^ ((digitsOf d.digits).length - 1) := by
    refine (Decimal.point_spec positive).2.trans_le ?_
    rw [← zpow_natCast]
    exact zpow_le_zpow_right₀ (by norm_num) (by unfold Decimal.point; omega)
  have reach : 10 * 10 ^ ((digitsOf d.digits).length - 1) ≤ i := by
    rw [← pow_succ']
    exact (Nat.pow_le_pow_right (by decide) (by omega)).trans (pow_length_le positive')
  have reach' : 10 * (10 : ℚ) ^ ((digitsOf d.digits).length - 1) ≤ i := by exact_mod_cast reach
  have unit : (1 : ℚ) ≤ 10 ^ ((digitsOf d.digits).length - 1) := one_le_pow₀ (by norm_num)
  linarith

/-- A whole number below `2 ^ 53` is its own shortest decimal. -/
theorem exists_shortest_of_lt (finite : n.isFinite = true) (nonzero : n.isZero = false)
    (whole : n.size = i) (small : i < 2 ^ 53) : ∃ d : Decimal, d.Shortest n ∧ d.value = i := by
  have shortest := shortest_spec .up finite nonzero
  refine ⟨_, shortest, ?_⟩
  generalize n.shortest .up = x at shortest
  have near := shortest.rounds.near finite nonzero (by rw [whole]; exact_mod_cast small)
  have positive := pos_of_size nonzero whole
  -- the number without its zeros at the end competes with the shortest decimal
  have itself : Decimal.value (Decimal.trim 17 ⟨i, 0⟩) = n.size := by
    rw [Decimal.value_trim, Decimal.value, whole]
    simp
  have fits : i < 10 ^ 17 := small.trans (by norm_num)
  have trimmed := Decimal.digits_trim (d := ⟨i, 0⟩) positive fits
  have own : Rounds (Decimal.value (Decimal.trim 17 ⟨i, 0⟩)) n.magnitude := by
    rw [itself]
    exact rounds_worth _
  have some : 0 < (Decimal.trim 17 ⟨i, 0⟩).digits := by omega
  rcases (shortest.least _ some own).eq_or_lt with same | less
  · have nearest := shortest.nearest _ some own same.symm
    rw [itself, sub_self, abs_zero] at nearest
    rw [← whole]
    exact (sub_eq_zero.mp (abs_eq_zero.mp (le_antisymm nearest (abs_nonneg _)))).symm
  · have long := less.trans_le (length_digitsOf_mono (Decimal.digits_trim_le 17 ⟨i, 0⟩))
    rw [whole] at near
    rcases le_or_gt 0 x.exponent with up | down
    · rw [Decimal.value_of_nonneg up] at near ⊢
      rw [eq_of_near near]
    · have far := Decimal.value_add_one_le shortest.positive positive down long
      rw [abs_le] at near
      linarith

end Whole

section Display

variable {n : Number} {d : Decimal} {i : Nat}

theorem size_bound : (ofDecimal false 1 21).size = (10 ^ 21 : Nat) :=
  natural?_eq_some_iff.mp (by decide +kernel)

/-- A number other than zero is displayed as its sign and, in place, with all the digits of a whole
number or the shortest ones of any other. -/
theorem display_eq (finite : n.isFinite = true) (nonzero : n.isZero = false) :
    (Value.number n).display = String.ofList (n.sign ++
      if shown.least ≤ n.magnitude ∧ n.magnitude < shown.bound then
        match n.natural? with
        | some i => digitsOf i
        | none => (n.shortest .up).positional false
      else (n.shortest .up).scientific true) := by
  have legal := magnitude_lt finite
  have number : n.isNaN = false := decide_eq_false (by omega)
  have bounded : n.isInfinite = false := beq_false_of_ne legal.ne
  change shown.write n = _
  unfold Layout.write Layout.unsigned
  rw [number, bounded, nonzero]
  simp only [Bool.false_eq_true, if_false, Bool.not_false, Bool.or_true, Bool.and_true,
    Bool.and_eq_true, decide_eq_true_iff]
  cases n.natural? <;> rfl

/-- A whole number below `10 ^ 21` is displayed with all its digits. -/
theorem display_whole (finite : n.isFinite = true) (nonzero : n.isZero = false) (whole : n.size = i)
    (small : i < 10 ^ 21) : (Value.number n).display = String.ofList (n.sign ++ digitsOf i) := by
  have own : Rounds n.size n.magnitude := rounds_worth _
  have inside : shown.least ≤ n.magnitude ∧ n.magnitude < shown.bound := by
    constructor
    · have positive : 1 ≤ i := pos_of_size nonzero whole
      have reached : Decimal.value ⟨1, -6⟩ ≤ n.size := by
        rw [whole]
        refine le_trans ?_ (Nat.one_le_cast.mpr positive)
        norm_num [Decimal.value]
      exact rounds_millionth.mono own (by decide +kernel) (magnitude_lt finite).le reached
    · by_contra beyond
      have large : (ofDecimal false 1 21).size ≤ n.size :=
        worth_strictMono.monotone (not_lt.mp beyond)
      rw [size_bound, whole, Nat.cast_le] at large
      omega
  rw [display_eq finite nonzero, if_pos inside, natural?_eq_some_iff.mpr whole]

/-- Any other number is displayed as its shortest decimal. -/
theorem display_other (finite : n.isFinite = true) (nonzero : n.isZero = false)
    (other : ∀ i : Nat, n.size = i → 10 ^ 21 ≤ i) :
    (Value.number n).display = String.ofList (n.sign ++ (n.shortest .up).coerced) := by
  have window := window_iff finite (shortest_spec .up finite nonzero)
  rw [display_eq finite nonzero]
  congr 2
  split
  · rename_i inside
    have broken : n.natural? = none := by
      rw [Option.eq_none_iff_forall_ne_some]
      intro i found
      have whole := natural?_eq_some_iff.mp found
      have small : n.size < (ofDecimal false 1 21).size := worth_strictMono inside.2
      rw [size_bound, whole, Nat.cast_lt] at small
      exact absurd (other i whole) (not_le.mpr small)
    rw [broken]
    exact positional_eq (window.mp inside)
  · rename_i outside
    exact scientific_eq (mt window.mpr outside)

theorem display_zero (zero : n.isZero = true) : (Value.number n).display = "0" := by
  have none : n.magnitude = 0 := eq_of_beq zero
  have number : n.isNaN = false := by rw [isNaN, none]; decide
  have bounded : n.isInfinite = false := by rw [isInfinite, none]; decide
  change shown.write n = _
  unfold Layout.write Layout.unsigned
  rw [number, bounded, zero]
  simp [shown]

/-- All the digits of a whole number are what it is coerced to if and only if it is one of its own
shortest decimals. -/
theorem coerces_whole_iff (nonzero : n.isZero = false) (small : i < 10 ^ 21) :
    Coerces n (String.ofList (n.sign ++ digitsOf i)) ↔
      ∃ d : Decimal, d.Shortest n ∧ d.value = i := by
  rw [Coerces, if_neg (by simp [nonzero])]
  constructor
  · rintro ⟨d, shortest, same⟩
    have plain := List.append_cancel_left (String.ofList_inj.mp same)
    exact ⟨d, shortest, Decimal.value_of_coerced shortest.positive plain.symm⟩
  · rintro ⟨d, shortest, whole⟩
    exact ⟨d, shortest, by rw [Decimal.coerced_eq shortest.trimmed whole small]⟩

end Display

/-- How a finite number is displayed. -/
structure Displays (n : Number) : Prop where
  /-- A whole number other than zero, if it is below `10 ^ 21`, with all its digits. -/
  whole : ∀ i : Nat, n.size = i → 0 < i → i < 10 ^ 21 →
    (Value.number n).display = String.ofList (n.sign ++ digitsOf i)
  /-- Any other number, and those below `2 ^ 53` as well, as string coercion writes it. -/
  coerces : (∀ i : Nat, n.size = i → i < 2 ^ 53 ∨ 10 ^ 21 ≤ i) →
    Coerces n (Value.number n).display
  /-- A whole number that has more digits than needed is the only exception. -/
  coerces_iff : Coerces n (Value.number n).display ↔ ∀ i : Nat, n.size = i → 0 < i → i < 10 ^ 21 →
    ∃ d : Decimal, d.Shortest n ∧ d.value = i

/-- Finite numbers are displayed as string coercion writes them, but for whole numbers between
`2 ^ 53` and `10 ^ 21` that are not among their own shortest decimals. -/
theorem display_coerces (n : Number) (finite : n.isFinite = true) : Displays n := by
  have only : Coerces n (Value.number n).display ↔ ∀ i : Nat, n.size = i → 0 < i → i < 10 ^ 21 →
      ∃ d : Decimal, d.Shortest n ∧ d.value = i := by
    cases nonzero : n.isZero with
    | true =>
      refine iff_of_true ?_ fun i whole positive => ?_
      · rw [Coerces, if_pos nonzero, display_zero nonzero]
      · rw [size_eq_zero_iff.mpr nonzero] at whole
        exact absurd (Nat.cast_eq_zero.mp whole.symm) positive.ne'
    | false =>
      by_cases short : ∃ i : Nat, n.size = i ∧ i < 10 ^ 21
      · obtain ⟨i, whole, small⟩ := short
        have positive : 0 < i := pos_of_size nonzero whole
        rw [display_whole finite nonzero whole small, coerces_whole_iff nonzero small]
        constructor
        · intro itself j whole' _ _
          rwa [← Nat.cast_injective (whole.symm.trans whole')]
        · exact fun all => all i whole positive small
      · rw [not_exists] at short
        refine iff_of_true ?_ fun i whole _ small => absurd ⟨whole, small⟩ (short i)
        rw [Coerces, if_neg (by simp [nonzero])]
        exact ⟨_, shortest_spec .up finite nonzero, display_other finite nonzero fun i whole =>
          not_lt.mp fun small => short i ⟨whole, small⟩⟩
  refine ⟨fun i whole positive small => ?_, fun fits => only.mpr fun i whole positive small => ?_,
    only⟩
  · exact display_whole finite (nonzero_of_size whole positive) whole small
  · have within : i < 2 ^ 53 := (fits i whole).resolve_right (by omega)
    exact exists_shortest_of_lt finite (nonzero_of_size whole positive) whole within

/-- The bits of `0.1`, which is only near that decimal. -/
def tenth : Number := ⟨0x3fb999999999999a⟩

theorem tenth_is_displayed_as_coerced :
    tenth.isFinite = true ∧ (∀ i : Nat, tenth.size = i → i < 2 ^ 53 ∨ 10 ^ 21 ≤ i) ∧
    (Value.number tenth).display = "0.1" ∧ Coerces tenth "0.1" := by
  have finite : tenth.isFinite = true := by decide +kernel
  have text : (Value.number tenth).display = "0.1" := by decide +kernel
  have broken : ∀ i : Nat, tenth.size = i → i < 2 ^ 53 ∨ 10 ^ 21 ≤ i := by
    intro i whole
    have none : tenth.natural? = none := by decide +kernel
    cases none.symm.trans (natural?_eq_some_iff.mpr whole)
  exact ⟨finite, broken, text, text ▸ (display_coerces tenth finite).coerces broken⟩

/-- The bits of `2 ^ 60`. -/
def twoToSixty : Number := ⟨0x43b0000000000000⟩

/-- Sixteen digits are enough for `2 ^ 60`, which has nineteen. -/
theorem large_power_is_displayed_with_excess_digits :
    twoToSixty.isFinite = true ∧ (Value.number twoToSixty).display = "1152921504606846976" ∧
    Coerces twoToSixty "1152921504606847000" ∧ ¬Coerces twoToSixty "1152921504606846976" := by
  have finite : twoToSixty.isFinite = true := by decide +kernel
  have nonzero : twoToSixty.isZero = false := by decide +kernel
  have chosen : twoToSixty.shortest .up = ⟨1152921504606847, 3⟩ := by decide +kernel
  have shortest := chosen ▸ shortest_spec .up finite nonzero
  refine ⟨finite, by decide +kernel, ?_, ?_⟩
  · rw [Coerces, if_neg (by simp [nonzero])]
    exact ⟨_, shortest, by decide +kernel⟩
  · have digits : String.ofList (twoToSixty.sign ++ digitsOf (2 ^ 60)) = "1152921504606846976" := by
      decide +kernel
    rw [← digits, coerces_whole_iff nonzero (by norm_num)]
    rintro ⟨d, shortest', whole⟩
    obtain ⟨-, same⟩ := Decimal.whole_eq shortest'.trimmed whole
    have few : (digitsOf d.digits).length ≤ 16 :=
      (shortest'.least _ shortest.positive shortest.rounds).trans (by decide)
    have small : d.digits < 10 ^ 16 := (length_digitsOf_le_iff (by decide)).mp few
    generalize d.exponent.toNat = k at same
    cases k with
    | zero => omega
    | succ k =>
      have even : 10 ∣ 2 ^ 60 := ⟨d.digits * 10 ^ k, by rw [same]; ring⟩
      exact absurd even (by decide)

end Number
end DataBinding
