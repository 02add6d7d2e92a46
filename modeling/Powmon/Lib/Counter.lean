import Mathlib

/-!
# Wrapping hardware counters

A free-running counter of `w` bits shows its true count modulo `2 ^ w`. A reader that keeps two
readings and subtracts them in machine arithmetic recovers the increment only if the arithmetic
wraps where the counter wraps:

* `toInt_zext_sub_ofNat`, `zext_sub_eq_iff`: the difference is taken in `w` bits and zero-extended;
* `toInt_sub_narrow`, `sub_narrow_eq_iff`: the counter has `w` bits and the difference is taken in
  more, so that it is right exactly when no wrap lies between the two readings.

`Metered` says what a sequence of true counts has to satisfy for the increments to be recoverable
at all. A reader may also count the wraps it sees, by comparing each reading with the one before
(`WrapCount`): `WrapCount.foldl_read` says what it counts, and `WrapCount.total` that its wraps and
readings give the increment over up to `2 ^ w` readings.
-/

namespace Powmon.Lib

/-- The true counts `E 0, …, E n` never decrease and grow by less than `2 ^ w` a step. -/
def Metered (w : Nat) (E : Nat → Nat) (n : Nat) : Prop :=
  ∀ k < n, E k ≤ E (k + 1) ∧ E (k + 1) - E k < 2 ^ w

/-- A register whose low `w` bits show the count `E` modulo `2 ^ w`; its upper bits are arbitrary. -/
def Shows (w E : Nat) (r : BitVec 64) : Prop := r.setWidth w = BitVec.ofNat w E

instance (w E : Nat) (r : BitVec 64) : Decidable (Shows w E r) :=
  inferInstanceAs (Decidable (_ = _))

/-- Increments add up to the total. -/
lemma sum_increments {n : Nat} {d : Nat → ℤ} {E : Nat → Nat}
    (h : ∀ k < n, d k = (E (k + 1) : ℤ) - E k) :
    ∑ k ∈ Finset.range n, d k = (E n : ℤ) - E 0 := by
  rw [Finset.sum_congr rfl fun k hk => h k (Finset.mem_range.mp hk)]
  exact Finset.sum_range_sub (fun k => (E k : ℤ)) n

section Wide
variable {w W : Nat}

/-- Zero extension to a wider type leaves a value that is non-negative as a signed one. -/
lemma toInt_zext (h : w < W) (x : BitVec w) : (x.setWidth W).toInt = x.toNat := by
  have hx : x.toNat < 2 ^ w := x.isLt
  have hw : 2 ^ w ≤ 2 ^ (W - 1) := Nat.pow_le_pow_right (by norm_num) (by omega)
  have hW : 2 * 2 ^ (W - 1) = 2 ^ W := by
    rw [← pow_succ']
    congr 1
    omega
  have hn : (x.setWidth W).toNat = x.toNat := by
    rw [BitVec.toNat_setWidth]
    exact Nat.mod_eq_of_lt (by omega)
  rw [BitVec.toInt_eq_toNat_of_lt (by rw [hn]; omega), hn]

/-- A difference of `w`-bit readings, zero-extended, is the difference of the counts mod `2 ^ w`. -/
lemma toInt_zext_sub_ofNat (h : w < W) (a b : Nat) :
    ((BitVec.ofNat w b - BitVec.ofNat w a).setWidth W).toInt = ((b : ℤ) - a) % 2 ^ w := by
  rw [toInt_zext h, BitVec.toNat_sub, BitVec.toNat_ofNat, BitVec.toNat_ofNat]
  have ha : a % 2 ^ w ≤ 2 ^ w := (Nat.mod_lt a (by positivity)).le
  push_cast [ha]
  calc ((2 : ℤ) ^ w - a % 2 ^ w + b % 2 ^ w) % 2 ^ w
      = (b % 2 ^ w - a % 2 ^ w + 2 ^ w) % 2 ^ w := by ring_nf
    _ = (b % 2 ^ w - a % 2 ^ w) % 2 ^ w := Int.add_emod_right ..
    _ = ((b : ℤ) - a) % 2 ^ w := (Int.sub_emod ..).symm

/-- Readings that wrap with the subtraction: the difference is the increment iff that fits. -/
lemma zext_sub_eq_iff (h : w < W) {a b : Nat} (hab : a ≤ b) :
    ((BitVec.ofNat w b - BitVec.ofNat w a).setWidth W).toInt = (b : ℤ) - a ↔ b - a < 2 ^ w := by
  rw [toInt_zext_sub_ofNat h]
  have hm : (0 : ℤ) < 2 ^ w := by positivity
  constructor
  · intro e
    have lt := Int.emod_lt_of_pos ((b : ℤ) - a) hm
    rw [e] at lt
    zify [hab]
    exact lt
  · intro lt
    apply Int.emod_eq_of_lt (by omega)
    zify [hab] at lt
    exact lt

/-- Of any two readings, the difference is the increment iff they differ as the counts do. -/
lemma zext_sub_readings_iff (h : w < W) {a b : Nat} (hab : a ≤ b) (hlt : b - a < 2 ^ w)
    (x y : BitVec w) :
    ((x - y).setWidth W).toInt = (b : ℤ) - a ↔ x - y = BitVec.ofNat w b - BitVec.ofNat w a := by
  rw [← (zext_sub_eq_iff h hab).mpr hlt, toInt_zext h, toInt_zext h]
  constructor
  · intro e
    exact BitVec.eq_of_toNat_eq (by exact_mod_cast e)
  · intro e
    rw [e]

/-- Against a reading that shows `b`, the difference is the increment from `a` iff the other reading
shows `a`. -/
lemma zext_sub_reading_iff (h : w < W) {a b : Nat} (hab : a ≤ b) (hlt : b - a < 2 ^ w)
    (x : BitVec w) :
    ((BitVec.ofNat w b - x).setWidth W).toInt = (b : ℤ) - a ↔ x = BitVec.ofNat w a := by
  rw [zext_sub_readings_iff h hab hlt]
  exact sub_right_inj

/-- Against a reading that shows `a`, the difference is the increment to `b` iff the other reading
shows `b`. -/
lemma zext_reading_sub_iff (h : w < W) {a b : Nat} (hab : a ≤ b) (hlt : b - a < 2 ^ w)
    (x : BitVec w) :
    ((x - BitVec.ofNat w a).setWidth W).toInt = (b : ℤ) - a ↔ x = BitVec.ofNat w b := by
  rw [zext_sub_readings_iff h hab hlt]
  exact sub_left_inj

end Wide

section Narrow
variable {w W : Nat}

/-- A difference of readings of a narrow counter, taken in wider arithmetic, never wraps. -/
lemma toInt_sub_narrow (h : w < W) {x y : BitVec W} (hx : x.toNat < 2 ^ w)
    (hy : y.toNat < 2 ^ w) : (x - y).toInt = (x.toNat : ℤ) - y.toNat := by
  have hw : 2 ^ w ≤ 2 ^ (W - 1) := Nat.pow_le_pow_right (by norm_num) (by omega)
  have hW : 2 * 2 ^ (W - 1) = 2 ^ W := by
    rw [← pow_succ']
    congr 1
    omega
  rw [BitVec.toInt_sub, BitVec.toInt_eq_toNat_of_lt (by omega),
    BitVec.toInt_eq_toNat_of_lt (by omega)]
  apply Int.bmod_eq_of_le <;> omega

/-- The difference of two readings of a `w`-bit counter is the increment iff no wrap lies between
them. -/
lemma sub_narrow_eq_iff (h : w < W) {a b : Nat} {x y : BitVec W}
    (hx : x.toNat = b % 2 ^ w) (hy : y.toNat = a % 2 ^ w) :
    (x - y).toInt = (b : ℤ) - a ↔ a / 2 ^ w = b / 2 ^ w := by
  have hm : 0 < 2 ^ w := by positivity
  rw [toInt_sub_narrow h (hx ▸ Nat.mod_lt b hm) (hy ▸ Nat.mod_lt a hm), hx, hy]
  have ea := Nat.div_add_mod a (2 ^ w)
  have eb := Nat.div_add_mod b (2 ^ w)
  constructor
  · intro e
    have : 2 ^ w * (a / 2 ^ w) = 2 ^ w * (b / 2 ^ w) := by omega
    exact Nat.eq_of_mul_eq_mul_left hm this
  · intro e
    rw [e] at ea
    omega

end Narrow

section Wraps
variable {w n : Nat} {E : Nat → Nat}

/-- What a reader keeps that counts wraps: the last reading, and in as many bits how often a reading
was below the one before. -/
structure WrapCount (w : Nat) where
  reading : BitVec w
  wraps : BitVec w
deriving DecidableEq

/-- One reading. -/
def WrapCount.read (c : WrapCount w) (x : BitVec w) : WrapCount w where
  reading := x
  wraps := if x < c.reading then c.wraps + 1 else c.wraps

lemma Metered.le (h : Metered w E n) : E 0 ≤ E n := by
  induction n with
  | zero => exact le_rfl
  | succ n ih =>
    have before : E 0 ≤ E n := ih fun k hk => h k (Nat.lt_succ_of_lt hk)
    exact before.trans (h n (Nat.lt_succ_self n)).1

/-- Between two readings the counter wraps at most once, and does exactly if the second reading is
the smaller one. -/
lemma div_of_readings {a b : Nat} (hab : a ≤ b) (hlt : b - a < 2 ^ w) :
    b / 2 ^ w = a / 2 ^ w + if BitVec.ofNat w b < BitVec.ofNat w a then 1 else 0 := by
  have hm : 0 < 2 ^ w := by positivity
  have ea := Nat.div_add_mod a (2 ^ w)
  have eb := Nat.div_add_mod b (2 ^ w)
  have la := Nat.mod_lt a hm
  have lb := Nat.mod_lt b hm
  have lower : a / 2 ^ w ≤ b / 2 ^ w := Nat.div_le_div_right hab
  have upper : b / 2 ^ w ≤ a / 2 ^ w + 1 := by
    rw [← Nat.add_div_right a hm]
    exact Nat.div_le_div_right (by omega)
  have smaller : BitVec.ofNat w b < BitVec.ofNat w a ↔ b % 2 ^ w < a % 2 ^ w := by
    rw [BitVec.lt_def, BitVec.toNat_ofNat, BitVec.toNat_ofNat]
  simp only [smaller]
  rcases Nat.lt_or_ge (a / 2 ^ w) (b / 2 ^ w) with hq | hq
  · have e : b / 2 ^ w = a / 2 ^ w + 1 := by omega
    rw [e, Nat.mul_add] at eb
    rw [e, if_pos (by omega)]
  · have e : b / 2 ^ w = a / 2 ^ w := by omega
    rw [e] at eb
    rw [e, if_neg (by omega)]
    rfl

/-- The invariant of the reader: after readings that show the counts one by one, it holds the last of
them, and has counted the wraps of the counter. -/
lemma WrapCount.foldl_read (h : Metered w E n) (c : BitVec w) :
    ((List.range n).map fun k => BitVec.ofNat w (E (k + 1))).foldl WrapCount.read
        ⟨BitVec.ofNat w (E 0), c⟩ =
      ⟨BitVec.ofNat w (E n), c + BitVec.ofNat w (E n / 2 ^ w - E 0 / 2 ^ w)⟩ := by
  induction n with
  | zero => simp
  | succ n ih =>
    have before : Metered w E n := fun k hk => h k (Nat.lt_succ_of_lt hk)
    obtain ⟨hle, hlt⟩ := h n (Nat.lt_succ_self n)
    have step := div_of_readings hle hlt
    have start : E 0 / 2 ^ w ≤ E n / 2 ^ w := Nat.div_le_div_right before.le
    rw [List.range_succ, List.map_append, List.foldl_append, ih before]
    simp only [List.map_cons, List.map_nil, List.foldl_cons, List.foldl_nil, WrapCount.read]
    congr 1
    split at step
    · next hx =>
      have more : E (n + 1) / 2 ^ w - E 0 / 2 ^ w = (E n / 2 ^ w - E 0 / 2 ^ w) + 1 := by omega
      rw [if_pos hx, more, BitVec.ofNat_add, BitVec.add_assoc]
      rfl
    · next hx => rw [if_neg hx, step, Nat.add_zero]

/-- A counter of `w` bits read `2 ^ w` times wraps less than `2 ^ w` times: for a wrap every time, the
readings would have to fall `2 ^ w` times in a row. -/
lemma Metered.wraps_lt (h : Metered w E n) (hn : n ≤ 2 ^ w) :
    E n / 2 ^ w - E 0 / 2 ^ w < 2 ^ w := by
  have hm : 0 < 2 ^ w := by positivity
  have growth : E n ≤ E 0 + n * (2 ^ w - 1) := by
    clear hn
    induction n with
    | zero => simp
    | succ n ih =>
      have before := ih fun k hk => h k (Nat.lt_succ_of_lt hk)
      obtain ⟨hle, hlt⟩ := h n (Nat.lt_succ_self n)
      rw [Nat.succ_mul]
      omega
  have most : n * (2 ^ w - 1) ≤ 2 ^ w * (2 ^ w - 1) := Nat.mul_le_mul_right _ hn
  have square : 2 ^ w * (2 ^ w - 1) + 2 ^ w = 2 ^ w * 2 ^ w := by
    rw [← Nat.mul_succ]
    congr 1
    omega
  have e0 := Nat.div_add_mod (E 0) (2 ^ w)
  have l0 := Nat.mod_lt (E 0) hm
  have below : E n / 2 ^ w < 2 ^ w + E 0 / 2 ^ w := by
    rw [Nat.div_lt_iff_lt_mul hm, Nat.add_mul, Nat.mul_comm (E 0 / 2 ^ w)]
    omega
  omega

/-- With at most `2 ^ w` readings, wraps and readings together give the increment. -/
lemma WrapCount.total (h : Metered w E n) (hn : n ≤ 2 ^ w) :
    (E n : ℤ) - E 0 = ((BitVec.ofNat w (E n / 2 ^ w - E 0 / 2 ^ w)).toNat : ℤ) * 2 ^ w +
      (BitVec.ofNat w (E n)).toNat - (BitVec.ofNat w (E 0)).toNat := by
  have start : E 0 / 2 ^ w ≤ E n / 2 ^ w := Nat.div_le_div_right h.le
  rw [BitVec.toNat_ofNat, BitVec.toNat_ofNat, BitVec.toNat_ofNat, Nat.mod_eq_of_lt (h.wraps_lt hn)]
  push_cast [start]
  have e0 : (2 : ℤ) ^ w * (E 0 / 2 ^ w) + E 0 % 2 ^ w = E 0 := Int.mul_ediv_add_emod ..
  have en : (2 : ℤ) ^ w * (E n / 2 ^ w) + E n % 2 ^ w = E n := Int.mul_ediv_add_emod ..
  linear_combination e0 - en

end Wraps

end Powmon.Lib
