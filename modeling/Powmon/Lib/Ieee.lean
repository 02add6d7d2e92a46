import Mathlib

/-!
# Binary floating point

The values of an IEEE 754 binary format and its operations under round-to-nearest-even, over exact
rationals: an operation computes the exact result and rounds it once (`Format.round`). A NaN keeps
its sign bit, because `printf` shows it; the NaN of an invalid operation has the bit set, as SSE
produces it.

Three facts about rounding are developed: `round_natCast`, that whole numbers up to the length of the
significand are exact; `round_le`, that it does not pass a power of two; and `round_floor`, that a
quotient `N / d` keeps its integer part when it is rounded on a grid finer than `1 / d`.
-/

namespace Powmon.Lib
open NNRat

/-- A binary format: the bits of the significand, the exponent of the least positive value, and the
exponent of the first power of two that overflows. -/
structure Format where
  prec : Nat
  emin : ℤ
  emax : ℤ

/-- C `float`. -/
def binary32 : Format := ⟨24, -149, 128⟩

/-- C `double`, and the Python `float`. -/
def binary64 : Format := ⟨53, -1074, 1024⟩

/-- A floating-point value: NaN, infinity or a finite number, each with its sign bit. -/
inductive Fl where
  | nan (neg : Bool)
  | inf (neg : Bool)
  | fin (neg : Bool) (mag : ℚ≥0)
deriving DecidableEq

instance : Inhabited Fl := ⟨.fin false 0⟩

/-- Rounding to the nearest integer, ties to even. -/
def halfEven (x : ℚ≥0) : Nat :=
  let n := ⌊x⌋₊
  if 2 * x < 2 * n + 1 ∨ (2 * x = 2 * n + 1 ∧ n % 2 = 0) then n else n + 1

/-- The exponent of the unit in the last place at `x`. -/
def Format.unit (f : Format) (x : ℚ≥0) : ℤ :=
  max (Int.log 2 x - (f.prec - 1)) f.emin

/-- The value nearest to the exact magnitude `x`, with sign `neg`. -/
def Format.round (f : Format) (neg : Bool) (x : ℚ≥0) : Fl :=
  let y := halfEven (x / 2 ^ f.unit x) * (2 : ℚ≥0) ^ f.unit x
  if (2 : ℚ≥0) ^ f.emax ≤ y then .inf neg else .fin neg y

/-- The power of two with exponent `e`. -/
def exp2 (e : ℤ) : ℚ≥0 := 2 ^ e

/-- The exact value of a sign and a magnitude. -/
def signed (neg : Bool) (x : ℚ≥0) : ℚ := if neg then -x else x

/-- Rounding of an exact rational; an exact zero gets the sign `zneg`. -/
def Format.ofRat (f : Format) (zneg : Bool) (q : ℚ) : Fl :=
  if q = 0 then .fin zneg 0 else f.round (q < 0) (Rat.nnabs q)

/-- Conversion of a natural number. -/
def Format.ofNat (f : Format) (n : Nat) : Fl := f.round false n

/-- Conversion of an integer. -/
def Format.ofInt (f : Format) (z : ℤ) : Fl := f.ofRat false z

/-- Conversion between formats. -/
def Format.conv (f : Format) : Fl → Fl
  | .nan neg => .nan neg
  | .inf neg => .inf neg
  | .fin neg x => f.round neg x

/-- Addition. -/
def Format.add (f : Format) : Fl → Fl → Fl
  | .nan a, _ => .nan a
  | _, .nan b => .nan b
  | .inf a, .inf b => if a = b then .inf a else .nan true
  | .inf a, .fin _ _ => .inf a
  | .fin _ _, .inf b => .inf b
  | .fin a x, .fin b y => f.ofRat (a && b) (signed a x + signed b y)

/-- Multiplication. -/
def Format.mul (f : Format) : Fl → Fl → Fl
  | .nan a, _ => .nan a
  | _, .nan b => .nan b
  | .inf a, .inf b => .inf (a != b)
  | .inf a, .fin b y => if y = 0 then .nan true else .inf (a != b)
  | .fin a x, .inf b => if x = 0 then .nan true else .inf (a != b)
  | .fin a x, .fin b y => f.round (a != b) (x * y)

/-- Division. -/
def Format.div (f : Format) : Fl → Fl → Fl
  | .nan a, _ => .nan a
  | _, .nan b => .nan b
  | .inf _, .inf _ => .nan true
  | .inf a, .fin b _ => .inf (a != b)
  | .fin a _, .inf b => .fin (a != b) 0
  | .fin a x, .fin b y =>
    if y = 0 then
      if x = 0 then .nan true else .inf (a != b)
    else f.round (a != b) (x / y)

/-- `x > 0`, which a NaN is not. -/
def Fl.isPos : Fl → Bool
  | .nan _ => false
  | .inf neg => !neg
  | .fin neg x => !neg && decide (0 < x)

/-- Negation. -/
def Fl.neg : Fl → Fl
  | .nan neg => .nan !neg
  | .inf neg => .inf !neg
  | .fin neg x => .fin (!neg) x

/-- Subtraction. -/
def Format.sub (f : Format) (x y : Fl) : Fl := f.add x y.neg

/-- `x < y`. -/
def Fl.lt : Fl → Fl → Bool
  | .nan _, _ => false
  | _, .nan _ => false
  | .inf a, .inf b => a && !b
  | .inf a, .fin _ _ => a
  | .fin _ _, .inf b => !b
  | .fin a x, .fin b y => decide (signed a x < signed b y)

/-- Conversion to an integer type that can hold the value; C leaves the other cases open. -/
def Fl.trunc : Fl → ℤ
  | .nan _ => 0
  | .inf _ => 0
  | .fin neg x => if neg then -(⌊x⌋₊ : ℤ) else ⌊x⌋₊

/-! ## Rounding -/

lemma halfEven_natCast (n : Nat) : halfEven (n : ℚ≥0) = n := by
  have h : (2 : ℚ≥0) * n < 2 * n + 1 := lt_add_one _
  simp [halfEven, h]

/-- Rounding moves a value down by less than one. -/
lemma floor_le_halfEven (x : ℚ≥0) : ⌊x⌋₊ ≤ halfEven x := by
  simp only [halfEven]
  split <;> omega

/-- Rounding moves a value up by at most one half. -/
lemma halfEven_le (x : ℚ≥0) : 2 * (halfEven x : ℚ≥0) ≤ 2 * x + 1 := by
  have hf : (⌊x⌋₊ : ℚ≥0) ≤ x := Nat.floor_le zero_le
  simp only [halfEven]
  split
  · calc 2 * (⌊x⌋₊ : ℚ≥0) ≤ 2 * x := by gcongr
      _ ≤ 2 * x + 1 := by simp
  · rename_i h
    push Not at h
    calc 2 * ((⌊x⌋₊ + 1 : ℕ) : ℚ≥0) = (2 * ⌊x⌋₊ + 1) + 1 := by push_cast; ring
      _ ≤ 2 * x + 1 := by gcongr; exact h.1

/-- Rounding does not pass an integer. -/
lemma halfEven_le_of_le {x : ℚ≥0} {n : Nat} (h : x ≤ n) : halfEven x ≤ n := by
  rcases eq_or_lt_of_le h with rfl | lt
  · exact (halfEven_natCast n).le
  · have hf : ⌊x⌋₊ < n := (Nat.floor_lt zero_le).mpr lt
    simp only [halfEven]
    split <;> omega

/-- Rounding does not pass a power of two that the format represents. -/
lemma round_le {f : Format} {m : Nat} (neg : Bool) {x : ℚ≥0} (hprec : 1 ≤ f.prec)
    (hmin : f.emin ≤ m) (hmax : m < f.emax) (hx : x ≤ 2 ^ m) :
    ∃ y ≤ (2 : ℚ≥0) ^ m, f.round neg x = .fin neg y := by
  have hlog : Int.log 2 x ≤ m := by
    rcases eq_or_ne x 0 with rfl | h0
    · simp
    · have mono := Int.log_mono_right (b := 2) (pos_iff_ne_zero.mpr h0) hx
      have e : Int.log 2 ((2 : ℚ≥0) ^ m) = m := by
        exact_mod_cast Int.log_zpow (R := ℚ≥0) (b := 2) (by norm_num) (m : ℤ)
      omega
  have hu : f.unit x ≤ m := by
    simp only [Format.unit]
    omega
  -- so `2 ^ m` lies on the grid of `x`, and rounding on that grid cannot step over it
  obtain ⟨k, hk⟩ : ∃ k : Nat, (m : ℤ) = f.unit x + k := ⟨(m - f.unit x).toNat, by omega⟩
  have hp : (0 : ℚ≥0) < 2 ^ f.unit x := by positivity
  have hm : (2 : ℚ≥0) ^ m = 2 ^ k * 2 ^ f.unit x := by
    rw [← zpow_natCast, hk, zpow_add₀ (by norm_num), zpow_natCast, mul_comm]
  have hr : (halfEven (x / 2 ^ f.unit x) : ℚ≥0) ≤ 2 ^ k := by
    have : x / 2 ^ f.unit x ≤ ((2 ^ k : ℕ) : ℚ≥0) := by
      rw [div_le_iff₀ hp, Nat.cast_pow, Nat.cast_ofNat, ← hm]
      exact hx
    exact_mod_cast halfEven_le_of_le this
  have hy : (halfEven (x / 2 ^ f.unit x) : ℚ≥0) * 2 ^ f.unit x ≤ 2 ^ m := by
    rw [hm]
    gcongr
  refine ⟨_, hy, ?_⟩
  have lt : (2 : ℚ≥0) ^ m < 2 ^ f.emax := by
    rw [← zpow_natCast]
    exact zpow_lt_zpow_right₀ (by norm_num) hmax
  simp only [Format.round]
  rw [if_neg (not_le.mpr (lt_of_le_of_lt hy lt))]

/-- Below `2 ^ m` the unit is at most the one of the power of two before. -/
lemma unit_le {f : Format} {m : Nat} {x : ℚ≥0} (hm : 1 ≤ m) (hx : x < 2 ^ m)
    (hmin : f.emin ≤ m - f.prec) : f.unit x ≤ m - f.prec := by
  have hlog : Int.log 2 x ≤ m - 1 := by
    rcases eq_or_ne x 0 with rfl | h0
    · rw [Int.log_zero_right]
      omega
    · have := (Int.lt_zpow_iff_log_lt (b := 2) (x := (m : ℤ)) (by norm_num)
        (pos_iff_ne_zero.mpr h0)).mp (by exact_mod_cast hx)
      omega
  simp only [Format.unit]
  omega

/-- A whole number that fits into the significand is exact. -/
lemma round_natCast {f : Format} {n : Nat} (neg : Bool) (hprec : 1 ≤ f.prec) (hmin : f.emin ≤ 0)
    (hmax : f.prec ≤ f.emax) (hn : n < 2 ^ f.prec) : f.round neg n = .fin neg n := by
  have hu : f.unit (n : ℚ≥0) ≤ 0 := by
    have := unit_le (f := f) hprec (x := n) (by exact_mod_cast hn) (by omega)
    omega
  obtain ⟨k, hk⟩ : ∃ k : Nat, f.unit (n : ℚ≥0) = -k := ⟨(-f.unit (n : ℚ≥0)).toNat, by omega⟩
  have grid : halfEven ((n : ℚ≥0) * 2 ^ k) = n * 2 ^ k := by
    exact_mod_cast halfEven_natCast (n * 2 ^ k)
  have back : ((n * 2 ^ k : ℕ) : ℚ≥0) / 2 ^ k = n := by
    push_cast
    field_simp
  have lt : (n : ℚ≥0) < 2 ^ f.emax := by
    calc (n : ℚ≥0) < 2 ^ (f.prec : ℤ) := by exact_mod_cast hn
      _ ≤ 2 ^ f.emax := zpow_le_zpow_right₀ (by norm_num) hmax
  simp only [Format.round, hk, zpow_neg, zpow_natCast, div_inv_eq_mul, ← div_eq_mul_inv, grid, back]
  rw [if_neg (not_le.mpr lt)]

lemma ofInt_natCast {f : Format} {n : Nat} (hprec : 1 ≤ f.prec) (hmin : f.emin ≤ 0)
    (hmax : f.prec ≤ f.emax) (hn : n < 2 ^ f.prec) : f.ofInt n = .fin false n := by
  rw [Format.ofInt, Format.ofRat]
  split
  · next h =>
    have h0 : n = 0 := by exact_mod_cast h
    subst h0
    rfl
  · have pos : ¬ ((((n : ℤ) : ℚ)) < 0) := by
      push_cast
      exact not_lt.mpr (Nat.cast_nonneg n)
    have mag : Rat.nnabs (((n : ℤ) : ℚ)) = n := by
      apply NNRat.coe_injective
      rw [Rat.coe_nnabs]
      push_cast
      exact abs_of_nonneg (Nat.cast_nonneg n)
    rw [decide_eq_false pos, mag]
    exact round_natCast false hprec hmin hmax hn

/-- A whole number stays below a power of two that bounds it. -/
lemma binary64_ofNat_le {n m : Nat} (hn : n ≤ 2 ^ m) (hm : m < 1024) :
    ∃ y ≤ (2 : ℚ≥0) ^ m, binary64.ofNat n = .fin false y := by
  refine round_le false (by decide) ?_ ?_ (by exact_mod_cast hn)
  · exact le_trans (by decide : binary64.emin ≤ 0) (Int.natCast_nonneg m)
  · exact Int.ofNat_lt.mpr hm

/-- A sum of two magnitudes stays below a power of two that their exact sum does not exceed. -/
lemma add_le {f : Format} {m : Nat} {x y : ℚ≥0} (hprec : 1 ≤ f.prec) (hmin : f.emin ≤ m)
    (hmax : m < f.emax) (h : x + y ≤ 2 ^ m) :
    ∃ z ≤ (2 : ℚ≥0) ^ m, f.add (.fin false x) (.fin false y) = .fin false z := by
  have sum : signed false x + signed false y = ((x + y : ℚ≥0) : ℚ) := by simp [signed]
  simp only [Format.add, Format.ofRat, sum]
  split
  · exact ⟨0, by positivity, rfl⟩
  · have pos : ¬ (((x + y : ℚ≥0) : ℚ) < 0) := not_lt.mpr (NNRat.cast_nonneg _)
    have mag : Rat.nnabs ((x + y : ℚ≥0) : ℚ) = x + y := by
      apply NNRat.coe_injective
      rw [Rat.coe_nnabs, abs_of_nonneg (NNRat.cast_nonneg _)]
    rw [decide_eq_false pos, mag]
    exact round_le false hprec hmin hmax h

/-- On a grid of `2 ^ -k`, finer than `1 / d`, a quotient `N / d` keeps its integer part. -/
lemma halfEven_floor {N d k : Nat} (hd : 0 < d) (hk : d < 2 ^ (k + 1)) :
    halfEven ((N : ℚ≥0) / d * 2 ^ k) / 2 ^ k = N / d := by
  set x : ℚ≥0 := (N : ℚ≥0) / d * 2 ^ k with hx
  have hd' : (0 : ℚ≥0) < d := by exact_mod_cast hd
  have hxd : x * d = N * 2 ^ k := by
    rw [hx]
    field_simp
  apply Nat.div_eq_of_lt_le
  · -- the integer part itself lies on the grid
    refine le_trans (Nat.le_floor ?_) (floor_le_halfEven x)
    rw [← mul_le_mul_iff_of_pos_right hd', hxd]
    have := Nat.div_mul_le_self N d
    push_cast
    calc ((N / d : ℕ) : ℚ≥0) * 2 ^ k * d = ((N / d * d : ℕ) : ℚ≥0) * 2 ^ k := by push_cast; ring
      _ ≤ N * 2 ^ k := by gcongr
  · -- and `N / d` stays at least `1 / d`, more than half a step, below the next one
    have up := halfEven_le x
    have key : 2 * (halfEven x * d) ≤ 2 * (N * 2 ^ k) + d := by
      have := mul_le_mul_of_nonneg_right up hd'.le
      have e : (2 * x + 1) * d = 2 * (N * 2 ^ k) + d := by rw [add_mul, mul_assoc, hxd, one_mul]
      rw [e, mul_assoc] at this
      exact_mod_cast this
    have hN : N + 1 ≤ (N / d + 1) * d := by
      have := Nat.lt_div_mul_add hd (a := N)
      nlinarith
    have hp : 2 ^ (k + 1) = 2 * 2 ^ k := pow_succ' 2 k
    have : halfEven x * d < (N / d + 1) * 2 ^ k * d := by nlinarith [Nat.two_pow_pos k]
    exact Nat.lt_of_mul_lt_mul_right this

/-- A quotient `N / d` below the overflow threshold keeps its integer part when it is rounded to a
format whose unit there is finer than `1 / d`. -/
lemma round_floor {f : Format} {N d k : Nat} (neg : Bool) (hd : 0 < d) (hk : d < 2 ^ (k + 1))
    (hu : f.unit ((N : ℚ≥0) / d) = -k) (hmax : ((N / d + 1 : ℕ) : ℚ≥0) ≤ 2 ^ f.emax) :
    ∃ y, f.round neg ((N : ℚ≥0) / d) = .fin neg y ∧ ⌊y⌋₊ = N / d := by
  set h := halfEven ((N : ℚ≥0) / d * 2 ^ k) with hh
  have hfl : h / 2 ^ k = N / d := halfEven_floor hd hk
  have hp : (0 : ℚ≥0) < 2 ^ k := by positivity
  have hy : (⌊(h : ℚ≥0) / 2 ^ k⌋₊ : ℕ) = N / d := by
    have := Nat.floor_div_eq_div (K := ℚ≥0) h (2 ^ k)
    push_cast at this
    rw [this, hfl]
  refine ⟨h / 2 ^ k, ?_, hy⟩
  have lt : (h : ℚ≥0) / 2 ^ k < 2 ^ f.emax := by
    refine lt_of_lt_of_le ?_ hmax
    have := Nat.lt_floor_add_one ((h : ℚ≥0) / 2 ^ k)
    rw [hy] at this
    exact_mod_cast this
  simp only [Format.round, hu, zpow_neg, zpow_natCast, div_inv_eq_mul, ← hh, ← div_eq_mul_inv]
  rw [if_neg (not_le.mpr lt)]

/-- A quotient below `2 ^ a` of whole numbers keeps its integer part as a `double`, if the divisor has
few enough bits for the ones left behind the point. -/
lemma binary64_round_quotient {N d a b : Nat} (neg : Bool) (hd : 0 < d) (ha : 1 ≤ a)
    (hN : N < d * 2 ^ a) (hb : d < 2 ^ (b + 1)) (hab : a + b ≤ 53) :
    ∃ y, binary64.round neg ((N : ℚ≥0) / d) = .fin neg y ∧ ⌊y⌋₊ = N / d := by
  have hd' : (0 : ℚ≥0) < d := by exact_mod_cast hd
  have hx : (N : ℚ≥0) / d < 2 ^ a := by
    rw [div_lt_iff₀ hd']
    exact_mod_cast (by linarith : N < 2 ^ a * d)
  have hu : binary64.unit ((N : ℚ≥0) / d) ≤ a - 53 := unit_le ha hx (by simp [binary64]; omega)
  obtain ⟨k, hk⟩ : ∃ k : ℕ, binary64.unit ((N : ℚ≥0) / d) = -k :=
    ⟨(-binary64.unit ((N : ℚ≥0) / d)).toNat, by omega⟩
  refine round_floor neg hd (k := k) ?_ hk ?_
  · exact hb.trans_le (Nat.pow_le_pow_right (by norm_num) (by omega))
  · have quot : N / d < 2 ^ a := (Nat.div_lt_iff_lt_mul hd).mpr (by linarith)
    calc ((N / d + 1 : ℕ) : ℚ≥0) ≤ ((2 ^ a : ℕ) : ℚ≥0) := by exact_mod_cast quot
      _ = (2 : ℚ≥0) ^ (a : ℤ) := by norm_num
      _ ≤ 2 ^ binary64.emax := zpow_le_zpow_right₀ (by norm_num) (by simp [binary64]; omega)

/-- `N / 1000` below `2 ^ 43` keeps its integer part as a `double`. -/
lemma binary64_round_milli (neg : Bool) {N : Nat} (hN : N < 1000 * 2 ^ 43) :
    ∃ y, binary64.round neg ((N : ℚ≥0) / 1000) = .fin neg y ∧ ⌊y⌋₊ = N / 1000 :=
  binary64_round_quotient (d := 1000) (b := 9) neg (by norm_num) (by norm_num) hN (by norm_num)
    (by norm_num)

end Powmon.Lib
