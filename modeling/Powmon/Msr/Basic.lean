import Powmon.Lib.Loop

/-!
# Registers, CPU models and sampling topology

What the four programs of the repository share about the hardware: the model-specific registers they
read (`sensor_read_lib.h`), the Intel model numbers, the values one sampling pass reads, and the
arithmetic by which a pass picks the cores it samples packages on.

C → Lean naming: `MSR_PKG_ENERGY_STATUS` → `Msr.pkgEnergyStatus` and so on (the address is
`Msr.addr`); `HASWELL_EP` → `haswellEp`; the value of `read_msr(open_msr(core), which)` in a pass is
`rd.msr core which`, that of `read_tsc()` on that core `rd.tsc core`. `open_msr` and `read_msr` leave
the process on failure, so a `Readings` is a pass in which every access succeeds; within a pass no
register of a core is read twice (`powmpi`'s final pass excepted, see `Energy/Sample.lean`).
-/

namespace Powmon
open Lib

/-- The registers the programs access. -/
inductive Msr where
  | raplPowerUnit
  | pkgEnergyStatus
  | dramEnergyStatus
  | coreC3Residency
  | coreC6Residency
  | pkgC2Residency
  | pkgC3Residency
  | pkgC6Residency
  | temperatureTarget
  | thermStatus
  | packageThermStatus
  | corePerfFixedCtr0
  | corePerfFixedCtr1
  | corePerfFixedCtr2
  | corePerfFixedCtrCtrl
  | mperf
  | aperf
  | uMsrPmonUclkFixedCtl
  | uMsrPmonUclkFixedCtr
deriving DecidableEq, Repr

/-- Register addresses, as `sensor_read_lib.h` defines them. -/
def Msr.addr : Msr → Nat
  | .raplPowerUnit => 0x606
  | .pkgEnergyStatus => 0x611
  | .dramEnergyStatus => 0x619
  | .coreC3Residency => 0x3FC
  | .coreC6Residency => 0x3FD
  | .pkgC2Residency => 0x60D
  | .pkgC3Residency => 0x3F8
  | .pkgC6Residency => 0x3F9
  | .temperatureTarget => 0x1a2
  | .thermStatus => 0x19c
  | .packageThermStatus => 0x1b1
  | .corePerfFixedCtr0 => 0x309
  | .corePerfFixedCtr1 => 0x30a
  | .corePerfFixedCtr2 => 0x30b
  | .corePerfFixedCtrCtrl => 0x38d
  | .mperf => 0xe7
  | .aperf => 0xe8
  | .uMsrPmonUclkFixedCtl => 0x703
  | .uMsrPmonUclkFixedCtr => 0x704

/-- `write_msr(open_msr(core), reg, value)`. -/
structure MsrWrite where
  core : Nat
  reg : Msr
  value : BitVec 64
deriving DecidableEq

/-- What one sampling pass reads on each core. -/
structure Readings where
  tsc : Nat → BitVec 64
  msr : Nat → Msr → BitVec 64
deriving Inhabited

/-! ## CPU models -/

def sandybridge : ℤ := 42
def sandybridgeEp : ℤ := 45
def ivybridge : ℤ := 58
def ivybridgeEp : ℤ := 62
def haswell : ℤ := 60
def haswellEp : ℤ := 63
def broadwell : ℤ := 61
def broadwellEp : ℤ := 79
def broadwellDe : ℤ := 86
def skylake : ℤ := 78
def skylakeHs : ℤ := 94

/-- The models that `detect_cpu_model` names; its switch maps every other one to `-1`. -/
def knownModels : List ℤ :=
  [sandybridge, sandybridgeEp, ivybridge, ivybridgeEp, haswell, haswellEp, broadwell, broadwellEp,
    broadwellDe, skylake, skylakeHs]

/-! ## Sampling topology -/

/-- `cpuid = trunc(core*NCPU)/NCORE`: the `double` quotient of two `int`s, truncated, is the integer
quotient. -/
def packageOf (ncpu ncore core : Nat) : Nat := core * ncpu / ncore

/-- The per-package branch is entered for `(core == 0) | (core == NCORE/2)`. -/
def SampledOn (ncore core : Nat) : Prop := core = 0 ∨ core = ncore / 2

instance (ncore core : Nat) : Decidable (SampledOn ncore core) :=
  inferInstanceAs (Decidable (_ ∨ _))

/-- A package is sampled if some core of the pass enters the per-package branch for it. -/
def Sampled (ncpu ncore p : Nat) : Prop :=
  ∃ core < ncore, SampledOn ncore core ∧ packageOf ncpu ncore core = p

/-- The core of the last visit a pass pays to package `p`, if it pays one. -/
def lastVisit (ncpu ncore p : Nat) : Nat :=
  if packageOf ncpu ncore (ncore / 2) = p then ncore / 2 else 0

/-- What a pass does to the slot of package `p` when a visit on `core` acts on it by `g core`. -/
def visits {α : Type*} (ncpu ncore p : Nat) (g : Nat → α → α) : α → α :=
  forLoop ncore fun core a =>
    if SampledOn ncore core ∧ packageOf ncpu ncore core = p then g core a else a

/-- The cores of the visits a pass pays to package `p`, in their order. -/
def visitedCores (ncpu ncore p : Nat) : List Nat :=
  (List.range ncore).filter fun core => SampledOn ncore core ∧ packageOf ncpu ncore core = p

@[simp]
lemma packageOf_zero (ncpu ncore : Nat) : packageOf ncpu ncore 0 = 0 := by
  simp [packageOf]

/-- The middle core belongs to package `NCPU / 2`. -/
lemma packageOf_half {ncpu c : Nat} (hcpu : 0 < ncpu) (hc : 0 < c) :
    packageOf ncpu (ncpu * c) (ncpu * c / 2) = ncpu / 2 := by
  rw [packageOf, mul_comm (ncpu * c / 2), Nat.mul_div_mul_left _ _ hcpu, Nat.div_div_eq_div_mul,
    mul_comm 2 c, mul_comm ncpu c]
  exact Nat.mul_div_mul_left _ _ hc

/-- A core's package is one of the host's. -/
lemma packageOf_lt {ncpu ncore core : Nat} (h : core < ncore) (hcpu : 0 < ncpu) :
    packageOf ncpu ncore core < ncpu := by
  rw [packageOf, Nat.div_lt_iff_lt_mul (by omega), mul_comm ncpu]
  exact Nat.mul_lt_mul_of_pos_right h hcpu

/-- On a host with one package every core belongs to it. -/
lemma packageOf_single {ncore core : Nat} (h : core < ncore) : packageOf 1 ncore core = 0 := by
  rw [packageOf, mul_one]
  exact Nat.div_eq_of_lt h

/-- A pass is a fold over the visited cores. -/
lemma visits_foldl {α : Type*} (ncpu ncore p : Nat) (g : Nat → α → α) (a : α) :
    visits ncpu ncore p g a = (visitedCores ncpu ncore p).foldl (fun a core => g core a) a := by
  rw [visitedCores, List.foldl_filter, visits, forLoop]
  simp

/-- There are at most two of them. -/
lemma length_visitedCores_le (ncpu ncore p : Nat) : (visitedCores ncpu ncore p).length ≤ 2 := by
  have nodup : (visitedCores ncpu ncore p).Nodup := List.nodup_range.filter _
  have sub : visitedCores ncpu ncore p ⊆ [0, ncore / 2] := by
    intro core hc
    obtain ⟨-, hon⟩ := List.mem_filter.mp hc
    simpa [SampledOn] using (of_decide_eq_true hon).1
  exact (nodup.subperm sub).length_le

/-- A pass visits a slot on core `0`, then on core `NCORE/2` if that is another core. -/
lemma visits_eq {α : Type*} {ncpu ncore : Nat} (p : Nat) (g : Nat → α → α) (a : α)
    (hn : 0 < ncore) :
    visits ncpu ncore p g a =
      let b := if p = 0 then g 0 a else a
      if ncore / 2 ≠ 0 ∧ packageOf ncpu ncore (ncore / 2) = p then g (ncore / 2) b else b := by
  have at0 : (packageOf ncpu ncore 0 = p) = (p = 0) := by simp [eq_comm]
  rcases Nat.eq_zero_or_pos (ncore / 2) with hz | hpos
  · have h1 : ncore = 1 := by omega
    subst h1
    simp [visits, SampledOn, eq_comm]
  · rw [visits]
    have body : (fun core (a : α) =>
        if SampledOn ncore core ∧ packageOf ncpu ncore core = p then g core a else a) =
        fun core a =>
          if core = 0 then (if p = 0 then g 0 a else a)
          else if core = ncore / 2 then
            (if packageOf ncpu ncore (ncore / 2) = p then g (ncore / 2) a else a)
          else a := by
      funext core a
      by_cases h0 : core = 0
      · subst h0
        simp [SampledOn, eq_comm]
      · by_cases h1 : core = ncore / 2
        · subst h1
          simp [SampledOn, h0]
        · simp [SampledOn, h0, h1]
    rw [body, forLoop_at₂ hpos (by omega)]
    simp [hpos.ne']

/-- With two packages or more, a sampled package is visited once, on the core that samples it. -/
lemma visits_multi {α : Type*} {ncpu c core : Nat} (hcpu : 2 ≤ ncpu) (hc : 0 < c)
    (hs : SampledOn (ncpu * c) core) (g : Nat → α → α) (a : α) :
    visits ncpu (ncpu * c) (packageOf ncpu (ncpu * c) core) g a = g core a := by
  have hn : 2 ≤ ncpu * c := le_trans hcpu (Nat.le_mul_of_pos_right _ hc)
  have hhalf := packageOf_half (by omega : 0 < ncpu) hc
  have hpos : ncpu / 2 ≠ 0 := by omega
  have hcore : ncpu * c / 2 ≠ 0 := by omega
  rw [visits_eq _ _ _ (by omega)]
  rcases hs with rfl | rfl
  · simp [hhalf, hpos]
  · simp [hhalf, hpos, hcore]

/-- With one package, its slot is visited on core `0` and again on core `NCORE/2`. -/
lemma visits_single {α : Type*} {ncore : Nat} (hn : 0 < ncore) (g : Nat → α → α) (a : α) :
    visits 1 ncore 0 g a = if ncore = 1 then g 0 a else g (ncore / 2) (g 0 a) := by
  rw [visits_eq _ _ _ hn]
  have hlt : ncore / 2 < ncore := by omega
  have hone : (ncore / 2 = 0) = (ncore = 1) := by simp; omega
  simp [packageOf_single hlt, hone]

/-- A package that is not sampled is not touched. -/
lemma visits_unsampled {α : Type*} {ncpu ncore p : Nat} (h : ¬ Sampled ncpu ncore p)
    (g : Nat → α → α) (a : α) : visits ncpu ncore p g a = a := by
  rcases Nat.eq_zero_or_pos ncore with rfl | hn
  · rfl
  · have h0 : p ≠ 0 := by
      rintro rfl
      exact h ⟨0, hn, .inl rfl, packageOf_zero _ _⟩
    have h1 : packageOf ncpu ncore (ncore / 2) ≠ p := by
      intro e
      exact h ⟨ncore / 2, by omega, .inr rfl, e⟩
    rw [visits_eq _ _ _ hn]
    simp [h0, h1]

/-- What the last visit leaves: if a visit forgets what was there, the pass leaves what the last
visit wrote. -/
lemma visits_last {α : Type*} {ncpu ncore p : Nat} (hs : Sampled ncpu ncore p)
    (g : Nat → α → α) (hg : ∀ core a b, g core a = g core b) (a : α) :
    visits ncpu ncore p g a = g (lastVisit ncpu ncore p) a := by
  obtain ⟨core, hlt, hon, rfl⟩ := hs
  rw [visits_eq _ _ _ (by omega), lastVisit]
  by_cases hh : packageOf ncpu ncore (ncore / 2) = packageOf ncpu ncore core
  · by_cases hz : ncore / 2 = 0
    · have : core = 0 := by rcases hon with rfl | rfl <;> [rfl; exact hz]
      subst this
      simp [hz]
    · simp only [hh, hz, ne_eq, not_false_eq_true, and_self, if_true]
      exact hg ..
  · rcases hon with rfl | rfl
    · rw [packageOf_zero] at hh
      simp [hh]
    · exact absurd rfl hh

end Powmon
