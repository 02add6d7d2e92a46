import Powmon.Energy.Sample

/-!
# The two energy libraries

`init_msr_data` and `final_msr_energy` stand in `energy-app/sensor_read_lib.c` and, edited, in
`powmpi/sensor_read_lib.c`. The first functions are the same; `powmpi`'s `final_msr_energy` leaves the
final package reading out of `powPkg`, where `energy-app` puts it.

So a second visit of a slot compares the final reading with itself in `energy-app` and with the
initial one in `powmpi`. `libraries_agree_iff` says when that shows: on a host with one package and two
cores or more, if the package counter stands lower at the end than at the start.
-/

namespace Powmon.Energy
open Lib

/-- The fields that both libraries leave for a package agree. -/
structure SameMeasures (d d' : PerCpuData) : Prop where
  powPkgInit : d.powPkgInit = d'.powPkgInit
  powPkgFinal : d.powPkgFinal = d'.powPkgFinal
  powDramCInit : d.powDramCInit = d'.powDramCInit
  powDramCFinal : d.powDramCFinal = d'.powDramCFinal
  ergU : d.ergU = d'.ergU
  ergDram : d.ergDram = d'.ergDram
  powPkgOverflow : d.powPkgOverflow = d'.powPkgOverflow
  powDramCOverflow : d.powDramCOverflow = d'.powDramCOverflow

/-- Throughout a pass every register of a package reads the same, whichever of its cores it is read
on. -/
def FixedPerPackage (ncpu ncore : Nat) (rd : Readings) : Prop :=
  ∀ core < ncore, ∀ core' < ncore, packageOf ncpu ncore core = packageOf ncpu ncore core' →
    ∀ r, rd.msr core r = rd.msr core' r

/-! ## One visit -/

/-- The fields of a slot that only the DRAM counter has a part in. -/
def PerCpuData.dram (d : PerCpuData) : BitVec 32 × BitVec 32 × BitVec 32 :=
  (d.powDramC, d.powDramCFinal, d.powDramCOverflow)

/-- The fields of a slot that no final visit writes. -/
def PerCpuData.initial (d : PerCpuData) : BitVec 32 × BitVec 32 × BitVec 32 × BitVec 32 :=
  (d.powPkgInit, d.powDramCInit, d.ergU, d.ergDram)

/-- Slots agree if their parts do. -/
lemma SameMeasures.of_parts {d d' : PerCpuData} (hi : d.initial = d'.initial)
    (hd : d.dram = d'.dram) (hf : d.powPkgFinal = d'.powPkgFinal)
    (ho : d.powPkgOverflow = d'.powPkgOverflow) : SameMeasures d d' := by
  simp only [PerCpuData.initial, PerCpuData.dram, Prod.mk.injEq] at hi hd
  obtain ⟨pkgInit, dramInit, ergU, ergDram⟩ := hi
  obtain ⟨-, dramFinal, dramOverflow⟩ := hd
  exact ⟨pkgInit, hf, dramInit, dramFinal, ergU, ergDram, ho, dramOverflow⟩

section Visit
variable (dramSupp : ℤ) (rd : Readings) (core : Nat)

/-- The DRAM part of a slot after a visit, given the one before. -/
def dramVisit (x : BitVec 32) (m : BitVec 32 × BitVec 32 × BitVec 32) :
    BitVec 32 × BitVec 32 × BitVec 32 :=
  if dramSupp = 2 then (x, x, if m.1 > x then m.2.2 + 1 else m.2.2)
  else if dramSupp = 1 then (0, 0, if m.1 > x then m.2.2 + 1 else m.2.2)
  else (0, 0, m.2.2)

lemma finalVisit_dram (d : PerCpuData) :
    (finalVisit dramSupp rd core d).dram = dramVisit dramSupp (dramReading rd core) d.dram := by
  unfold finalVisit samplePkg sampleDram dramVisit PerCpuData.dram
  dsimp only
  split_ifs <;> first | rfl | omega

lemma mpiFinalVisit_dram (d : PerCpuData) :
    (mpiFinalVisit dramSupp rd rd core d).dram =
      dramVisit dramSupp (dramReading rd core) d.dram := by
  unfold mpiFinalVisit sampleDram dramVisit PerCpuData.dram
  dsimp only
  split_ifs <;> first | rfl | omega

lemma finalVisit_initial (d : PerCpuData) :
    (finalVisit dramSupp rd core d).initial = d.initial := by
  unfold finalVisit samplePkg sampleDram
  dsimp only
  split_ifs <;> rfl

lemma mpiFinalVisit_initial (d : PerCpuData) :
    (mpiFinalVisit dramSupp rd rd core d).initial = d.initial := by
  unfold mpiFinalVisit sampleDram
  dsimp only
  split_ifs <;> rfl

/-- A visit of `energy-app` leaves the final reading in `powPkg`. -/
lemma finalVisit_pkg (d : PerCpuData) :
    (finalVisit dramSupp rd core d).powPkg = pkgReading rd core ∧
    (finalVisit dramSupp rd core d).powPkgOverflow =
      if d.powPkg > pkgReading rd core then d.powPkgOverflow + 1 else d.powPkgOverflow := by
  unfold finalVisit samplePkg sampleDram
  dsimp only
  constructor <;> split_ifs <;> rfl

/-- A visit of `powmpi` leaves in `powPkg` what it found there. -/
lemma mpiFinalVisit_pkg (d : PerCpuData) :
    (mpiFinalVisit dramSupp rd rd core d).powPkg = d.powPkg ∧
    (mpiFinalVisit dramSupp rd rd core d).powPkgOverflow =
      if d.powPkg > pkgReading rd core then d.powPkgOverflow + 1 else d.powPkgOverflow := by
  unfold mpiFinalVisit sampleDram
  dsimp only
  constructor <;> split_ifs <;> rfl

/-- One visit of either kind leaves the same measures. -/
lemma finalVisit_same (d : PerCpuData) :
    SameMeasures (finalVisit dramSupp rd core d) (mpiFinalVisit dramSupp rd rd core d) := by
  apply SameMeasures.of_parts
  · rw [finalVisit_initial, mpiFinalVisit_initial]
  · rw [finalVisit_dram, mpiFinalVisit_dram]
  · rw [finalVisit_powPkgFinal, mpiFinalVisit_powPkgFinal]
  · rw [(finalVisit_pkg ..).2, (mpiFinalVisit_pkg ..).2]

/-- Two visits with equal readings leave the same measures exactly if the first one sees no wrap: only
in `powmpi` does the second visit see it again. -/
lemma finalVisit_twice_iff {core core' : Nat} (d : PerCpuData)
    (hp : pkgReading rd core' = pkgReading rd core) :
    SameMeasures (finalVisit dramSupp rd core' (finalVisit dramSupp rd core d))
      (mpiFinalVisit dramSupp rd rd core' (mpiFinalVisit dramSupp rd rd core d)) ↔
    d.powPkg ≤ pkgReading rd core := by
  obtain ⟨pkg, wrap⟩ := finalVisit_pkg dramSupp rd core d
  obtain ⟨mpiPkg, mpiWrap⟩ := mpiFinalVisit_pkg dramSupp rd core d
  have once : (finalVisit dramSupp rd core' (finalVisit dramSupp rd core d)).powPkgOverflow =
      if d.powPkg > pkgReading rd core then d.powPkgOverflow + 1 else d.powPkgOverflow := by
    rw [(finalVisit_pkg ..).2, pkg, wrap, hp, if_neg (BitVec.lt_irrefl _)]
  have twice : (mpiFinalVisit dramSupp rd rd core'
      (mpiFinalVisit dramSupp rd rd core d)).powPkgOverflow =
      if d.powPkg > pkgReading rd core then d.powPkgOverflow + 1 + 1 else d.powPkgOverflow := by
    rw [(mpiFinalVisit_pkg ..).2, mpiPkg, mpiWrap, hp]
    split_ifs <;> rfl
  constructor
  · intro same
    have e := same.powPkgOverflow
    rw [once, twice] at e
    by_contra hgt
    rw [if_pos (BitVec.not_le.mp hgt), if_pos (BitVec.not_le.mp hgt)] at e
    have one : (1 : BitVec 32) = 0 := left_eq_add.mp e
    exact absurd one (by decide)
  · intro hle
    have hgt : ¬ d.powPkg > pkgReading rd core := BitVec.not_lt.mpr hle
    apply SameMeasures.of_parts
    · simp only [finalVisit_initial, mpiFinalVisit_initial]
    · simp only [finalVisit_dram, mpiFinalVisit_dram]
    · rw [finalVisit_powPkgFinal, mpiFinalVisit_powPkgFinal]
    · rw [once, twice, if_neg hgt, if_neg hgt]

end Visit

/-! ## Whole runs -/

/-- `init_msr_data` and `final_msr_energy` of `energy-app`. -/
def appRun (init final : Readings) (s : SysData) : SysData := finalMsrEnergy final (initMsrData init s)

/-- `init_msr_data` and `final_msr_energy` of `powmpi`. -/
def mpiRun (init final : Readings) (s : SysData) : SysData :=
  mpiFinalMsrEnergy final final (mpiInitMsrData init s)

section Run
variable {init final : Readings} {s : SysData} {p : Nat}

/-- The slots of both runs: the visits of the last pass, from the slot the first pass left. -/
lemma runs_slot (init final : Readings) (s : SysData) (p : Nat) :
    (appRun init final s).cpuData p =
      visits s.ncpu s.ncore p (finalVisit s.dramSupp final) ((initMsrData init s).cpuData p) ∧
    (mpiRun init final s).cpuData p =
      visits s.ncpu s.ncore p (mpiFinalVisit s.dramSupp final final)
        ((initMsrData init s).cpuData p) :=
  ⟨samplePackages_slot, samplePackages_slot⟩

/-- A package visited once, or not at all, has the same measures in both runs. -/
lemma runs_same_of_once {d : PerCpuData}
    (h : (∀ g : Nat → PerCpuData → PerCpuData, visits s.ncpu s.ncore p g d = d) ∨
      ∃ core, ∀ g : Nat → PerCpuData → PerCpuData, visits s.ncpu s.ncore p g d = g core d)
    (hd : (initMsrData init s).cpuData p = d) :
    SameMeasures ((appRun init final s).cpuData p) ((mpiRun init final s).cpuData p) := by
  obtain ⟨app, mpi⟩ := runs_slot init final s p
  rw [app, mpi, hd]
  rcases h with none | ⟨core, one⟩
  · rw [none, none]
    exact .of_parts rfl rfl rfl rfl
  · rw [one, one]
    exact finalVisit_same ..

/-- With one package of two cores or more, the slot is visited twice. -/
lemma runs_same_single_iff (hcpu : s.ncpu = 1) (hn : 2 ≤ s.ncore)
    (hi : FixedPerPackage s.ncpu s.ncore init) (hf : FixedPerPackage s.ncpu s.ncore final) :
    SameMeasures ((appRun init final s).cpuData 0) ((mpiRun init final s).cpuData 0) ↔
      pkgReading init 0 ≤ pkgReading final 0 := by
  have hlt : s.ncore / 2 < s.ncore := by omega
  have same : packageOf s.ncpu s.ncore (s.ncore / 2) = packageOf s.ncpu s.ncore 0 := by
    rw [hcpu, packageOf_single hlt, packageOf_zero]
  have twice : ∀ (g : Nat → PerCpuData → PerCpuData) d,
      visits s.ncpu s.ncore 0 g d = g (s.ncore / 2) (g 0 d) := by
    intro g d
    rw [hcpu, visits_single (by omega), if_neg (by omega)]
  obtain ⟨app, mpi⟩ := runs_slot init final s 0
  have reads : pkgReading final (s.ncore / 2) = pkgReading final 0 := by
    rw [pkgReading, pkgReading, hf _ hlt 0 (by omega) same]
  -- the first pass, too, ends on core `NCORE/2`
  have first : ((initMsrData init s).cpuData 0).powPkg = pkgReading init 0 := by
    have slot : (initMsrData init s).cpuData 0 = _ := samplePackages_slot
    rw [slot, twice, initVisit_powPkg, pkgReading, pkgReading, hi _ hlt 0 (by omega) same]
  rw [app, mpi, twice, twice, finalVisit_twice_iff _ _ _ reads, first]

end Run

/-- For every host with packages of `c` cores and all readings that are fixed per package throughout a
pass: the two libraries leave the same measures in every package exactly if there are two packages or
more, or a single core, or the package counter does not stand lower in the last pass than in the
first. -/
theorem libraries_agree_iff (init final : Readings) (s : SysData) (c : Nat) (hcpu : 1 ≤ s.ncpu)
    (hn : s.ncore = s.ncpu * c) (hi : FixedPerPackage s.ncpu s.ncore init)
    (hf : FixedPerPackage s.ncpu s.ncore final) :
    (∀ p < s.ncpu,
      SameMeasures ((appRun init final s).cpuData p) ((mpiRun init final s).cpuData p)) ↔
    2 ≤ s.ncpu ∨ s.ncore ≤ 1 ∨ pkgReading init 0 ≤ pkgReading final 0 := by
  by_cases hs : s.ncpu = 1 ∧ 2 ≤ s.ncore
  · obtain ⟨h1, h2⟩ := hs
    have single := runs_same_single_iff h1 h2 hi hf
    constructor
    · intro h
      exact .inr (.inr (single.mp (h 0 (by omega))))
    · rintro (h | h | h) p hp
      · omega
      · omega
      · obtain rfl : p = 0 := by omega
        exact single.mpr h
  · refine iff_of_true ?_ (by omega)
    intro p _
    refine runs_same_of_once ?_ rfl
    by_cases hp : Sampled s.ncpu s.ncore p
    · -- no package of such a host is visited twice
      obtain ⟨core, hlt, hon, rfl⟩ := hp
      refine .inr ⟨core, ?_⟩
      intro g
      by_cases h2 : 2 ≤ s.ncpu
      · rw [hn] at hon ⊢
        exact visits_multi h2 (Nat.pos_of_mul_pos_left (by omega : 0 < s.ncpu * c)) hon g _
      · have h1 : s.ncpu = 1 := by omega
        have hc : s.ncore = 1 := by omega
        obtain rfl : core = 0 := by omega
        rw [h1, hc, packageOf_zero, visits_single (by norm_num), if_pos rfl]
    · exact .inl fun g => visits_unsampled hp g _

/-- A host with one package of `ncore` cores. -/
def onePackage (ncore : Nat) : SysData := { initPowMon with ncpu := 1, ncore := ncore }

/-- A pass in which every register reads `E`. -/
def constReadings (E : Nat) : Readings := ⟨fun _ => 0, fun _ _ => BitVec.ofNat 64 E⟩

/-- The counter wraps once on a host with one package of two cores: `powmpi` counts two wraps. -/
theorem libraries_differ_wrapped :
    FixedPerPackage 1 2 (constReadings 10) ∧ FixedPerPackage 1 2 (constReadings 5) ∧
    ((appRun (constReadings 10) (constReadings 5) (onePackage 2)).cpuData 0).powPkgOverflow = 1 ∧
    ((mpiRun (constReadings 10) (constReadings 5) (onePackage 2)).cpuData 0).powPkgOverflow = 2 ∧
    ¬ SameMeasures ((appRun (constReadings 10) (constReadings 5) (onePackage 2)).cpuData 0)
      ((mpiRun (constReadings 10) (constReadings 5) (onePackage 2)).cpuData 0) := by
  have app : ((appRun (constReadings 10) (constReadings 5) (onePackage 2)).cpuData
      0).powPkgOverflow = 1 := by decide +kernel
  have mpi : ((mpiRun (constReadings 10) (constReadings 5) (onePackage 2)).cpuData
      0).powPkgOverflow = 2 := by decide +kernel
  refine ⟨fun _ _ _ _ _ _ => rfl, fun _ _ _ _ _ _ => rfl, app, mpi, ?_⟩
  intro same
  have e := same.powPkgOverflow
  rw [app, mpi] at e
  exact absurd e (by decide)

theorem libraries_agree_rising :
    SameMeasures ((appRun (constReadings 5) (constReadings 10) (onePackage 2)).cpuData 0)
      ((mpiRun (constReadings 5) (constReadings 10) (onePackage 2)).cpuData 0) :=
  (libraries_agree_iff (constReadings 5) (constReadings 10) (onePackage 2) 2 (by decide) rfl
    (fun _ _ _ _ _ _ => rfl) (fun _ _ _ _ _ _ => rfl)).mpr (.inr (.inr (by decide))) 0 (by decide)

end Powmon.Energy
