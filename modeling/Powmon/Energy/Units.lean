import Powmon.Energy.Result

/-!
# The energy unit

The unit in which a package counts energy is `2 ^ -ESU` joules, where `ESU` is the bit field of
`MSR_RAPL_POWER_UNIT` that `sensor_read_lib.h` describes by `ENERGY_UNIT_MASK` and
`ENERGY_UNIT_OFFSET`. `init_msr_data` of `energy-app` and of `powmpi` does not use the two constants: it
shifts by `8` and masks with `0x1E`, which drops the lowest bit of the field (`initVisit_ergU_toInt`).
So the exact energy is reported for even units only, `pkg_joules_iff`.
-/

namespace Powmon.Energy
open Lib

/-- `ENERGY_UNIT_MASK`. -/
def energyUnitMask : BitVec 64 := 0x1F00

/-- `ENERGY_UNIT_OFFSET`. -/
def energyUnitOffset : Nat := 0x08

/-- The energy status unit of a value of `MSR_RAPL_POWER_UNIT`, by the header's bit field. -/
def energyStatusUnit (value : BitVec 64) : Nat :=
  ((value &&& energyUnitMask) >>> energyUnitOffset).toNat

/-- `powPkg_diff * pow(0.5, ergU)` without rounding, in the `show_result` of both programs. -/
def exactPkgerg (s : SysData) (cpuid : Nat) : ℚ :=
  (report s cpuid).powPkgDiff.toInt * 2 ^ (-(s.cpuData cpuid).ergU.toInt)

/-- A run of `powmpi`: a first pass, any number of passes in between, and a last pass. -/
def mpiEnergyRun (init : Readings) (reads : List Readings) (final final' : Readings) (s : SysData) :
    SysData :=
  mpiFinalMsrEnergy final final' (reads.foldl (fun s rd => mpiReadMsrEnergy rd s)
    (mpiInitMsrData init s))

/-! ## The unit a visit reads -/

/-- Shifting first and masking with `0x1E` leaves the field without its lowest bit. -/
lemma shift_mask_eq (value : BitVec 64) :
    value.sshiftRight 8 &&& 0x1E = (value &&& energyUnitMask) >>> energyUnitOffset &&& 0x1E := by
  apply BitVec.eq_of_getLsbD_eq
  intro i hi
  unfold energyUnitMask energyUnitOffset
  interval_cases i <;> simp [BitVec.getElem_sshiftRight]

/-- The unit has five bits. -/
lemma energyStatusUnit_lt (value : BitVec 64) : energyStatusUnit value < 32 := by
  have masked : (value &&& energyUnitMask).toNat ≤ 0x1F00 := Nat.and_le_right
  rw [energyStatusUnit, BitVec.toNat_ushiftRight, energyUnitOffset, Nat.shiftRight_eq_div_pow]
  omega

/-- The unit a visit of the first pass stores is the status unit rounded down to an even number. -/
lemma initVisit_ergU_toInt (dramSupp : ℤ) (rd : Readings) (core : Nat) (d : PerCpuData) :
    (initVisit dramSupp rd core d).ergU.toInt =
      (energyStatusUnit (rd.msr core .raplPowerUnit) / 2 * 2 : ℕ) := by
  have stored : (initVisit dramSupp rd core d).ergU =
      ((rd.msr core .raplPowerUnit).sshiftRight 8 &&& 0x1E).setWidth 32 := by
    unfold initVisit
    dsimp only
    split_ifs <;> rfl
  have even : ∀ n < 32, n &&& 0x1E = n / 2 * 2 := by decide
  have small := energyStatusUnit_lt (rd.msr core .raplPowerUnit)
  have value : (initVisit dramSupp rd core d).ergU.toNat =
      energyStatusUnit (rd.msr core .raplPowerUnit) / 2 * 2 := by
    rw [stored, shift_mask_eq, BitVec.toNat_setWidth, BitVec.toNat_and, ← energyStatusUnit,
      show (0x1E : BitVec 64).toNat = 0x1E from rfl, even _ small]
    exact Nat.mod_eq_of_lt (by omega)
  rw [BitVec.toInt_eq_toNat_of_lt (by rw [value]; omega), value]

/-- A visit of `read_msr_energy` leaves the unit that `init_msr_data` read. -/
lemma readVisit_ergU (dramSupp : ℤ) (rd : Readings) (core : Nat) (d : PerCpuData) :
    (readVisit dramSupp rd core d).ergU = d.ergU := by
  unfold readVisit samplePkg sampleDram
  dsimp only
  split_ifs <;> rfl

/-- So does one of `final_msr_energy`. -/
lemma finalVisit_ergU (dramSupp : ℤ) (rd : Readings) (core : Nat) (d : PerCpuData) :
    (finalVisit dramSupp rd core d).ergU = d.ergU := by
  unfold finalVisit samplePkg sampleDram
  dsimp only
  split_ifs <;> rfl

/-- The same in `powmpi`. -/
lemma mpiFinalVisit_ergU (dramSupp : ℤ) (rd rd' : Readings) (core : Nat) (d : PerCpuData) :
    (mpiFinalVisit dramSupp rd rd' core d).ergU = d.ergU := by
  unfold mpiFinalVisit sampleDram
  dsimp only
  split_ifs <;> rfl

lemma mpiFinalVisit_powPkgInit (dramSupp : ℤ) (rd rd' : Readings) (core : Nat) (d : PerCpuData) :
    (mpiFinalVisit dramSupp rd rd' core d).powPkgInit = d.powPkgInit := by
  unfold mpiFinalVisit sampleDram
  dsimp only
  split_ifs <;> rfl

/-! ## What the runs leave -/

section Run
variable {init final final' : Readings} (reads : List Readings) {s : SysData} {p : Nat}

/-- All reads together leave it. -/
lemma reads_ergU :
    ((reads.foldl (fun s rd => readMsrEnergy rd s) s).cpuData p).ergU = (s.cpuData p).ergU := by
  induction reads generalizing s with
  | nil => rfl
  | cons rd reads ih =>
    refine (@ih (readMsrEnergy rd s)).trans ?_
    exact samplePackages_frame PerCpuData.ergU fun core d => readVisit_ergU _ rd core d

/-- The unit after the first pass is the one its last visit read. -/
lemma initMsrData_ergU_toInt (hp : Sampled s.ncpu s.ncore p) :
    ((initMsrData init s).cpuData p).ergU.toInt =
      (energyStatusUnit (init.msr (lastVisit s.ncpu s.ncore p) .raplPowerUnit) / 2 * 2 : ℕ) :=
  samplePackages_last (fun d : PerCpuData => d.ergU.toInt)
    (fun core => (energyStatusUnit (init.msr core .raplPowerUnit) / 2 * 2 : ℕ))
    (initVisit_ergU_toInt s.dramSupp init) hp

/-- The unit at the end of a run is the one of its start. -/
lemma energyRun_ergU :
    ((energyRun init reads final s).cpuData p).ergU = ((initMsrData init s).cpuData p).ergU := by
  have last : ((energyRun init reads final s).cpuData p).ergU = _ :=
    samplePackages_frame PerCpuData.ergU fun core d => finalVisit_ergU _ final core d
  rw [last, reads_ergU]

/-- The same in `powmpi`. -/
lemma mpiEnergyRun_ergU :
    ((mpiEnergyRun init reads final final' s).cpuData p).ergU =
      ((initMsrData init s).cpuData p).ergU := by
  have last : ((mpiEnergyRun init reads final final' s).cpuData p).ergU = _ :=
    samplePackages_frame PerCpuData.ergU fun core d => mpiFinalVisit_ergU _ final final' core d
  exact last.trans (reads_ergU reads)

/-- The first reading of a run of `powmpi`. -/
lemma mpiEnergyRun_powPkgInit (hp : Sampled s.ncpu s.ncore p) :
    ((mpiEnergyRun init reads final final' s).cpuData p).powPkgInit =
      pkgReading init (lastVisit s.ncpu s.ncore p) := by
  have last : ((mpiEnergyRun init reads final final' s).cpuData p).powPkgInit = _ :=
    samplePackages_frame PerCpuData.powPkgInit
      fun core d => mpiFinalVisit_powPkgInit _ final final' core d
  refine last.trans ((reads_inits reads).1.trans ?_)
  exact samplePackages_last PerCpuData.powPkgInit _ (initVisit_powPkgInit s.dramSupp init) hp

/-- The last reading of it. -/
lemma mpiEnergyRun_powPkgFinal (hp : Sampled s.ncpu s.ncore p) :
    ((mpiEnergyRun init reads final final' s).cpuData p).powPkgFinal =
      pkgReading final (lastVisit s.ncpu s.ncore p) := by
  obtain ⟨hcpu, hcore, -⟩ := @reads_host reads (initMsrData init s)
  have topology : ∀ t : SysData, t.ncpu = s.ncpu → t.ncore = s.ncore →
      ((mpiFinalMsrEnergy final final' t).cpuData p).powPkgFinal =
        pkgReading final (lastVisit s.ncpu s.ncore p) := by
    intro t hn hc
    rw [mpiFinalMsrEnergy, hn, hc]
    exact samplePackages_last PerCpuData.powPkgFinal _
      (mpiFinalVisit_powPkgFinal t.dramSupp final final') hp
  exact topology _ hcpu hcore

/-- A count in units of `2 ^ -u` is the same in units of `2 ^ -(u / 2 * 2)` exactly if it is zero or
`u` is even. -/
lemma scaled_eq_iff (n u : Nat) :
    (n : ℚ) * 2 ^ (-((u / 2 * 2 : ℕ) : ℤ)) = n * 2 ^ (-(u : ℤ)) ↔ Even u ∨ n = 0 := by
  constructor
  · intro e
    rcases mul_eq_mul_left_iff.mp e with e | e
    · have exponents := zpow_right_injective₀ (a := (2 : ℚ)) (by norm_num) (by norm_num) e
      refine .inl (Nat.even_iff.mpr ?_)
      omega
    · exact .inr (by exact_mod_cast e)
  · intro h
    cases h with
    | inl even => rw [Nat.div_mul_cancel even.two_dvd]
    | inr zero => simp [zero]

/-- The exact energy of a package whose slot holds the counts `E` and `E'` and the rounded unit. -/
lemma exactPkgerg_iff {E E' u : Nat} (hE : E ≤ E') (hlt : E' - E < 2 ^ 32)
    (hi : (s.cpuData p).powPkgInit = BitVec.ofNat 32 E)
    (hf : (s.cpuData p).powPkgFinal = BitVec.ofNat 32 E')
    (hu : (s.cpuData p).ergU.toInt = (u / 2 * 2 : ℕ)) :
    exactPkgerg s p = ((E' : ℚ) - E) * 2 ^ (-(u : ℤ)) ↔ Even u ∨ E = E' := by
  have counts : (report s p).powPkgDiff.toInt = ((E' - E : ℕ) : ℤ) := by
    rw [report, hi, hf, (zext_sub_eq_iff (by norm_num) hE).mpr hlt, Nat.cast_sub hE]
  have zero : E' - E = 0 ↔ E = E' := by omega
  rw [exactPkgerg, counts, hu, ← Nat.cast_sub hE, Int.cast_natCast, scaled_eq_iff, zero]

end Run

/-- For every value of `MSR_RAPL_POWER_UNIT` and a sampled package that consumes less than `2 ^ 32`
counts between the readings of the first and the last pass, `energy-app` and `powmpi` derive the exact
energy exactly if the status unit is even or nothing is consumed. -/
theorem pkg_joules_iff (s : SysData) (p : Nat) (init final final' : Readings)
    (reads : List Readings) (value : BitVec 64) (E E' : Nat) (hp : Sampled s.ncpu s.ncore p)
    (hv : init.msr (lastVisit s.ncpu s.ncore p) .raplPowerUnit = value) (hE : E ≤ E')
    (hlt : E' - E < 2 ^ 32)
    (hi : Shows 32 E (init.msr (lastVisit s.ncpu s.ncore p) .pkgEnergyStatus))
    (hf : Shows 32 E' (final.msr (lastVisit s.ncpu s.ncore p) .pkgEnergyStatus)) :
    (exactPkgerg (energyRun init reads final s) p =
      ((E' : ℚ) - E) * 2 ^ (-(energyStatusUnit value : ℤ)) ↔
        Even (energyStatusUnit value) ∨ E = E') ∧
    (exactPkgerg (mpiEnergyRun init reads final final' s) p =
      ((E' : ℚ) - E) * 2 ^ (-(energyStatusUnit value : ℤ)) ↔
        Even (energyStatusUnit value) ∨ E = E') := by
  subst hv
  have first : pkgReading init (lastVisit s.ncpu s.ncore p) = BitVec.ofNat 32 E := hi
  have last : pkgReading final (lastVisit s.ncpu s.ncore p) = BitVec.ofNat 32 E' := hf
  have unit := @initMsrData_ergU_toInt init s p hp
  constructor
  · refine exactPkgerg_iff hE hlt ?_ ?_ ?_
    · rw [energyRun_powPkgInit reads hp, first]
    · rw [energyRun_powPkgFinal reads hp, last]
    · rw [energyRun_ergU, unit]
  · refine exactPkgerg_iff hE hlt ?_ ?_ ?_
    · rw [mpiEnergyRun_powPkgInit reads hp, first]
    · rw [mpiEnergyRun_powPkgFinal reads hp, last]
    · rw [mpiEnergyRun_ergU, unit]

/-- A pass that reads the unit and the count. -/
def unitReadings (value : BitVec 64) (E : Nat) : Readings where
  tsc _ := 0
  msr _
    | .raplPowerUnit => value
    | _ => BitVec.ofNat 64 E

/-- With the usual unit `14`, sixty thousand counts are reported exactly. -/
theorem pkg_joules_unit14 :
    exactPkgerg (energyRun (unitReadings 0xA0E03 0) [] (unitReadings 0xA0E03 60000) twoSockets) 1 =
      ((60000 : ℕ) - (0 : ℕ)) * 2 ^ (-((14 : ℕ) : ℤ)) := by
  have hs : Sampled twoSockets.ncpu twoSockets.ncore 1 := ⟨2, by decide, by decide, by decide⟩
  exact (pkg_joules_iff twoSockets 1 _ (unitReadings 0xA0E03 60000) (unitReadings 0xA0E03 60000) []
    0xA0E03 0 60000 hs rfl (by norm_num) (by norm_num) (by decide) (by decide)).1.mpr
    (.inl (by decide))

/-- With the unit `13`, they are reported as twice as much. -/
theorem pkg_joules_unit13 :
    energyStatusUnit 0xA0D03 = 13 ∧ Sampled twoSockets.ncpu twoSockets.ncore 1 ∧
    exactPkgerg (energyRun (unitReadings 0xA0D03 0) [] (unitReadings 0xA0D03 60000) twoSockets) 1 ≠
      ((60000 : ℕ) - (0 : ℕ)) * 2 ^ (-((13 : ℕ) : ℤ)) := by
  have hs : Sampled twoSockets.ncpu twoSockets.ncore 1 := ⟨2, by decide, by decide, by decide⟩
  refine ⟨by decide, hs, ?_⟩
  intro e
  have unit := @initMsrData_ergU_toInt (unitReadings 0xA0D03 0) twoSockets 1 hs
  have exact := (@exactPkgerg_iff _ _ 0 60000 13 (by norm_num) (by norm_num)
    (energyRun_powPkgInit [] hs) (energyRun_powPkgFinal [] hs)
    ((congrArg BitVec.toInt (energyRun_ergU [])).trans unit)).mp e
  exact absurd exact (by decide)

end Powmon.Energy
