import Powmon.Energy.Sample
import Powmon.Lib.Counter

/-!
# The energy of a measured program

`main` and `show_result` of `energy-app/pow_mon.c`: a first pass, the program (during which
`read_msr_energy` may be called any number of times), a last pass, and per package the difference of
the last and the first counts, turned into joules and watts.

C → Lean naming: the record `main` holds when the first pass starts is `startUp`; the passes are
`energyRun`; what `show_result` computes for a package is `report`, what it prints is `showResult`.

The two results say when the differences are the energy consumed:

* `pkg_energy_iff`: for the package, as long as it fits in 32 bits; the wraps the passes count do not
  enter the difference;
* `dram_energy_iff`: for DRAM on Haswell-EP, and on the other models with a DRAM counter only if the
  counter happens to stand at zero at the end.
-/

namespace Powmon.Energy
open Lib

/-! ## Runs -/

/-- The record after `init_pow_mon`, `detect_cpu_model`, `detect_topology` and the `malloc` of
`cpu_data`, whose contents are `cpuData`. -/
def startUp (model : ℤ) (ncpu ncore : Nat) (cpuData : Nat → PerCpuData) : SysData :=
  { (detectCpuModel model initPowMon).2 with ncpu := ncpu, ncore := ncore, cpuData := cpuData }

/-- A first pass, any number of passes in between, and a last pass. -/
def energyRun (init : Readings) (reads : List Readings) (final : Readings) (s : SysData) :
    SysData :=
  finalMsrEnergy final (reads.foldl (fun s rd => readMsrEnergy rd s) (initMsrData init s))

/-- `DRAM_SUPP` of the models with a DRAM counter. -/
lemma startUp_dramSupp (model : ℤ) (ncpu ncore : Nat) (cpuData : Nat → PerCpuData) :
    (startUp model ncpu ncore cpuData).dramSupp = 2 ↔ model = haswellEp := by
  unfold startUp detectCpuModel
  dsimp only
  by_cases hm : model = haswellEp
  · subst hm
    exact ⟨fun _ => rfl, fun _ => by decide⟩
  · have hk : (if model ∈ knownModels then model else -1) ≠ haswellEp := by
      split
      · exact hm
      · decide
    simp only [hm, hk, if_false, iff_false]
    split_ifs <;> simp [initPowMon]

/-! ## `show_result` -/

/-- What `show_result` computes for a package. -/
structure Report where
  powPkgDiff : BitVec 64
  powDramCDiff : BitVec 64
  pkgerg : Fl
  pkgpow : Fl
  dramerg : Fl
  drampow : Fl

/-- `diff * pow(0.5, erg)`, stored in a `float`. -/
def joules (diff : BitVec 64) (erg : BitVec 32) : Fl :=
  binary32.conv (binary64.mul (binary64.ofInt diff.toInt)
    (binary64.round false (exp2 (-erg.toInt))))

/-- `erg / us * 1e6`: a `float` quotient, a `double` product, stored in a `float`. -/
def watts (erg : Fl) (us : BitVec 64) : Fl :=
  binary32.conv (binary64.mul (binary32.div erg (binary32.ofInt us.toInt))
    (binary64.ofNat 1000000))

/-- One iteration of `show_result`. -/
def report (s : SysData) (cpuid : Nat) : Report :=
  let d := s.cpuData cpuid
  let us := s.timeUsFinal - s.timeUsInit
  let powPkgDiff := (d.powPkgFinal - d.powPkgInit).setWidth 64
  let powDramCDiff := (d.powDramCFinal - d.powDramCInit).setWidth 64
  let pkgerg := joules powPkgDiff d.ergU
  let dramerg :=
    if s.dramSupp = 1 ∨ s.dramSupp = 2 then joules powDramCDiff d.ergDram else .fin false 0
  { powPkgDiff := powPkgDiff
    powDramCDiff := powDramCDiff
    pkgerg := pkgerg
    pkgpow := watts pkgerg us
    dramerg := dramerg
    drampow := if s.dramSupp = 1 ∨ s.dramSupp = 2 then watts dramerg us else .fin false 0 }

/-- The line printed for a package. -/
def reportLine (cpuid : Nat) (r : Report) : Text :=
  "CPU".toList ++ fmtNat cpuid ++ " DRAM power:".toList ++ fmtFixed 2 r.drampow ++
    "W;CPU power:".toList ++ fmtFixed 2 r.pkgpow ++ "W;DRAM energy:".toList ++
    fmtFixed 2 r.dramerg ++ "J;CPU energy:".toList ++ fmtFixed 2 r.pkgerg ++ "J\n".toList

/-- `show_result`. The elapsed time is printed by `%u`, which takes its low 32 bits. -/
def showResult (s : SysData) : Text :=
  "\nprogram total time ".toList ++
    fmtNat ((s.timeUsFinal - s.timeUsInit).setWidth 32).toNat ++ "us\n".toList ++
    (List.range s.ncpu).flatMap fun cpuid => reportLine cpuid (report s cpuid)

/-! ## What a run leaves -/

section Run
variable {init final : Readings} (reads : List Readings) {s : SysData} {p : Nat}

/-- The passes in between keep the topology and `DRAM_SUPP`. -/
lemma reads_host :
    (reads.foldl (fun s rd => readMsrEnergy rd s) s).ncpu = s.ncpu ∧
    (reads.foldl (fun s rd => readMsrEnergy rd s) s).ncore = s.ncore ∧
    (reads.foldl (fun s rd => readMsrEnergy rd s) s).dramSupp = s.dramSupp := by
  induction reads generalizing s with
  | nil => exact ⟨rfl, rfl, rfl⟩
  | cons rd reads ih => exact @ih (readMsrEnergy rd s)

/-- The passes in between keep the initial counts. -/
lemma reads_inits :
    ((reads.foldl (fun s rd => readMsrEnergy rd s) s).cpuData p).powPkgInit =
      (s.cpuData p).powPkgInit ∧
    ((reads.foldl (fun s rd => readMsrEnergy rd s) s).cpuData p).powDramCInit =
      (s.cpuData p).powDramCInit := by
  induction reads generalizing s with
  | nil => exact ⟨rfl, rfl⟩
  | cons rd reads ih =>
    obtain ⟨pkg, dram⟩ := @ih (readMsrEnergy rd s)
    refine ⟨pkg.trans ?_, dram.trans ?_⟩
    · exact samplePackages_frame PerCpuData.powPkgInit fun core d => (readVisit_inits _ rd core d).1
    · exact samplePackages_frame PerCpuData.powDramCInit
        fun core d => (readVisit_inits _ rd core d).2

/-- The initial package count of a sampled package is the one its last visit of the first pass
read. -/
lemma energyRun_powPkgInit (hp : Sampled s.ncpu s.ncore p) :
    ((energyRun init reads final s).cpuData p).powPkgInit =
      pkgReading init (lastVisit s.ncpu s.ncore p) := by
  -- backwards through the run: the last pass, the ones in between, the first
  have last : ((energyRun init reads final s).cpuData p).powPkgInit = _ :=
    samplePackages_frame PerCpuData.powPkgInit fun core d => (finalVisit_inits _ final core d).1
  rw [last, (reads_inits reads).1]
  exact samplePackages_last PerCpuData.powPkgInit _ (initVisit_powPkgInit s.dramSupp init) hp

lemma energyRun_powDramCInit (hd : s.dramSupp = 1 ∨ s.dramSupp = 2)
    (hp : Sampled s.ncpu s.ncore p) :
    ((energyRun init reads final s).cpuData p).powDramCInit =
      dramReading init (lastVisit s.ncpu s.ncore p) := by
  have last : ((energyRun init reads final s).cpuData p).powDramCInit = _ :=
    samplePackages_frame PerCpuData.powDramCInit fun core d => (finalVisit_inits _ final core d).2
  rw [last, (reads_inits reads).2]
  exact samplePackages_last PerCpuData.powDramCInit _
    (fun core d => initVisit_powDramCInit init core d hd) hp

/-- The final package count is the one the last visit of the last pass read. -/
lemma energyRun_powPkgFinal (hp : Sampled s.ncpu s.ncore p) :
    ((energyRun init reads final s).cpuData p).powPkgFinal =
      pkgReading final (lastVisit s.ncpu s.ncore p) := by
  obtain ⟨hcpu, hcore, hd⟩ := @reads_host reads (initMsrData init s)
  rw [energyRun, finalMsrEnergy, hcpu, hcore]
  exact samplePackages_last PerCpuData.powPkgFinal _ (finalVisit_powPkgFinal _ final) hp

lemma energyRun_powDramCFinal (hp : Sampled s.ncpu s.ncore p) :
    ((energyRun init reads final s).cpuData p).powDramCFinal =
      if s.dramSupp = 2 then dramReading final (lastVisit s.ncpu s.ncore p) else 0 := by
  obtain ⟨hcpu, hcore, hd⟩ := @reads_host reads (initMsrData init s)
  rw [energyRun, finalMsrEnergy, hcpu, hcore, hd]
  exact samplePackages_last PerCpuData.powDramCFinal _
    (finalVisit_powDramCFinal s.dramSupp final) hp

end Run

/-! ## Package energy -/

/-- For a sampled package with counts `E` at the last reading of the first pass and `E'` at the last
reading of the last pass, and whatever is read in between, the difference `show_result` turns into
joules is the energy consumed exactly if that is below `2 ^ 32`. -/
theorem pkg_energy_iff (s : SysData) (p : Nat) (init final : Readings) (reads : List Readings)
    (E E' : Nat) (hp : Sampled s.ncpu s.ncore p) (hE : E ≤ E')
    (hi : Shows 32 E (init.msr (lastVisit s.ncpu s.ncore p) .pkgEnergyStatus))
    (hf : Shows 32 E' (final.msr (lastVisit s.ncpu s.ncore p) .pkgEnergyStatus)) :
    (report (energyRun init reads final s) p).powPkgDiff.toInt = (E' : ℤ) - E ↔
      E' - E < 2 ^ 32 := by
  have first : pkgReading init (lastVisit s.ncpu s.ncore p) = BitVec.ofNat 32 E := hi
  have last : pkgReading final (lastVisit s.ncpu s.ncore p) = BitVec.ofNat 32 E' := hf
  rw [report, energyRun_powPkgFinal reads hp, energyRun_powPkgInit reads hp, first, last]
  exact zext_sub_eq_iff (by norm_num) hE

/-- Two packages of two cores on Haswell-EP. -/
def twoSockets : SysData := startUp haswellEp 2 4 default

/-- A pass in which every register reads `E` modulo `2 ^ 32`. -/
def readingsAt (E : Nat) : Readings := ⟨fun _ => 0, fun _ _ => BitVec.ofNat 64 (E % 2 ^ 32)⟩

/-- Six billion counts, read three times: the passes count one wrap, the report leaves it out. -/
theorem pkg_energy_wrapped :
    Metered 32 (fun k => 3000000000 * k) 2 ∧
    (∀ k ≤ 2, Shows 32 (3000000000 * k) ((readingsAt (3000000000 * k)).msr 0 .pkgEnergyStatus)) ∧
    ((energyRun (readingsAt 0) [readingsAt 3000000000] (readingsAt 6000000000)
      twoSockets).cpuData 0).powPkgOverflow = 1 ∧
    (report (energyRun (readingsAt 0) [readingsAt 3000000000] (readingsAt 6000000000)
      twoSockets) 0).powPkgDiff.toInt ≠ 6000000000 - 0 := by
  refine ⟨?_, ?_, ?_, ?_⟩
  · intro k _
    constructor <;> dsimp only <;> omega
  · intro k hk
    interval_cases k <;> rfl
  · decide +kernel
  · decide +kernel

theorem pkg_energy_below :
    Sampled 2 4 1 ∧ (report (energyRun (readingsAt (2 ^ 32 - 100)) [readingsAt (2 ^ 32 + 50)]
      (readingsAt (2 ^ 32 + 200)) twoSockets) 1).powPkgDiff.toInt = 300 := by
  have hs : Sampled 2 4 1 := ⟨2, by decide, by decide, by decide⟩
  have e := (pkg_energy_iff twoSockets 1 (readingsAt (2 ^ 32 - 100)) (readingsAt (2 ^ 32 + 200))
    [readingsAt (2 ^ 32 + 50)] (2 ^ 32 - 100) (2 ^ 32 + 200) hs (by norm_num) (by decide)
    (by decide)).mpr (by norm_num)
  exact ⟨hs, e.trans (by norm_num)⟩

/-! ## DRAM energy -/

/-- For every model with a DRAM counter and a sampled package with DRAM counts `D` and `D'` at the
last readings of the first and the last pass, the difference `show_result` computes is the energy
consumed exactly if the model is Haswell-EP or the final count is a multiple of `2 ^ 32`. -/
theorem dram_energy_iff (model : ℤ) (ncpu ncore p : Nat) (cpuData : Nat → PerCpuData)
    (init final : Readings) (reads : List Readings) (D D' : Nat)
    (hm : (startUp model ncpu ncore cpuData).dramSupp = 1 ∨
      (startUp model ncpu ncore cpuData).dramSupp = 2)
    (hp : Sampled ncpu ncore p) (hD : D ≤ D') (hlt : D' - D < 2 ^ 32)
    (hi : Shows 32 D (init.msr (lastVisit ncpu ncore p) .dramEnergyStatus))
    (hf : Shows 32 D' (final.msr (lastVisit ncpu ncore p) .dramEnergyStatus)) :
    (report (energyRun init reads final (startUp model ncpu ncore cpuData)) p).powDramCDiff.toInt =
      (D' : ℤ) - D ↔ model = haswellEp ∨ 2 ^ 32 ∣ D' := by
  set s := startUp model ncpu ncore cpuData with hs
  have hps : Sampled s.ncpu s.ncore p := hp
  have first : dramReading init (lastVisit s.ncpu s.ncore p) = BitVec.ofNat 32 D := hi
  have last : dramReading final (lastVisit s.ncpu s.ncore p) = BitVec.ofNat 32 D' := hf
  rw [report, energyRun_powDramCFinal reads hps, energyRun_powDramCInit reads hm hps, first, last,
    zext_reading_sub_iff (by norm_num) hD hlt]
  by_cases h2 : s.dramSupp = 2
  · have hw : model = haswellEp := (startUp_dramSupp model ncpu ncore cpuData).mp h2
    simp [h2, hw]
  · have hw : model ≠ haswellEp := fun e => h2 ((startUp_dramSupp model ncpu ncore cpuData).mpr e)
    simp only [h2, if_false, hw, false_or]
    -- the final count was overwritten by zero
    rw [Nat.dvd_iff_mod_eq_zero, ← BitVec.toNat_inj, BitVec.toNat_ofNat]
    exact eq_comm

/-- Ten counts on a Haswell desktop part: the report shows `2 ^ 32 - 100`. -/
theorem dram_energy_lost :
    (startUp haswell 1 4 default).dramSupp = 1 ∧ Sampled 1 4 0 ∧
    Shows 32 100 ((readingsAt 100).msr (lastVisit 1 4 0) .dramEnergyStatus) ∧
    Shows 32 110 ((readingsAt 110).msr (lastVisit 1 4 0) .dramEnergyStatus) ∧
    (report (energyRun (readingsAt 100) [] (readingsAt 110)
      (startUp haswell 1 4 default)) 0).powDramCDiff.toInt ≠ 110 - 100 := by
  refine ⟨by decide, ⟨0, by decide, by decide, by decide⟩, by decide, by decide, ?_⟩
  decide +kernel

theorem dram_energy_haswellEp :
    (startUp haswellEp 2 4 default).dramSupp = 2 ∧
    (report (energyRun (readingsAt (2 ^ 32 - 4)) [] (readingsAt (2 ^ 32 + 6))
      (startUp haswellEp 2 4 default)) 1).powDramCDiff.toInt = 10 := by
  have hs : Sampled 2 4 1 := ⟨2, by decide, by decide, by decide⟩
  have h2 : (startUp haswellEp 2 4 default).dramSupp = 2 := by decide
  have e := (dram_energy_iff haswellEp 2 4 1 default (readingsAt (2 ^ 32 - 4))
    (readingsAt (2 ^ 32 + 6)) [] (2 ^ 32 - 4) (2 ^ 32 + 6) (.inr h2) hs (by norm_num) (by norm_num)
    (by decide) (by decide)).mpr (.inl rfl)
  exact ⟨h2, e.trans (by norm_num)⟩

end Powmon.Energy
