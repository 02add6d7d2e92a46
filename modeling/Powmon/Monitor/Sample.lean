import Powmon.Lib.Loop
import Powmon.Monitor.State

/-!
# The sampling pass

`read_msr_data` and `read_msr_data_first` of `powmon/bin/sensor_read_lib.c`: a loop over the cores
that samples a package on core `0` and on core `NCORE/2`, and every core. The two functions have the
same body, `readMsrPass`; the pass also says which registers it writes.

The local `cpuid` is carried from one iteration to the next (`PassState.cpuid`), so a core between two
sampled ones uses the `dieTemp` of the package sampled last.

What the rest of the development uses of a pass:

* `readMsrData_host`: the host description does not change;
* `readMsrData_cpuData`: the slot of a package goes through the visits of core `0` and of core
  `NCORE/2` that map to it (`visits`), and nothing else;
* `readMsrData_coreData`: the slot of a core is sampled once, with the die temperature in force there.
-/

namespace Powmon.Monitor
open Lib

/-- `TEMP_MASK`. -/
def tempMask : BitVec 64 := 0x007F0000

/-- The thermal readout of a status register: `(result & TEMP_MASK) >> 16`. -/
def readout (result : BitVec 64) : BitVec 64 := (result &&& tempMask) >>> 16

/-- `dieTemp[cpuid] - ((result & TEMP_MASK) >> 16)`, computed in 64 bits and stored in 32. -/
def temperature (dieTemp : BitVec 32) (result : BitVec 64) : BitVec 32 :=
  (dieTemp.signExtend 64 - readout result).setWidth 32

/-- `(result >> 16) & 0x0ff` of `IA32_TEMPERATURE_TARGET`. -/
def tjMax (result : BitVec 64) : BitVec 32 := ((result >>> 16) &&& 0xff).setWidth 32

/-- The die temperature is read once per package. -/
def readDieTemp (rd : Readings) (core cpuid : Nat) (s : SysData) : SysData :=
  if s.dieTempEn cpuid = 0 then
    { s with
      dieTemp := Function.update s.dieTemp cpuid (tjMax (rd.msr core .temperatureTarget))
      dieTempEn := Function.update s.dieTempEn cpuid 1 }
  else s

/-- The package registers, read on `core` into the package's slot. -/
def sampleCpu (h : Host) (dieTemp : BitVec 32) (rd : Readings) (core : Nat) (d : PerCpuData) :
    PerCpuData :=
  let d := { d with
    tsc := rd.tsc core
    ergU := (rd.msr core .raplPowerUnit).setWidth 32
    powPkgLast := d.powPkg
    powPkg := (rd.msr core .pkgEnergyStatus).setWidth 32
    tempPkg := temperature dieTemp (rd.msr core .packageThermStatus) }
  let d :=
    if h.dramSupp = 1 then
      { d with
        powDramCLast := d.powDramC
        powDramC := (rd.msr core .dramEnergyStatus).setWidth 32 }
    else { d with powDramC := 0 }
  if h.extraCounters = 1 then
    let d := { d with
      c2Last := d.c2
      c2 := rd.msr core .pkgC2Residency
      c3Last := d.c3
      c3 := rd.msr core .pkgC3Residency
      c6Last := d.c6
      c6 := rd.msr core .pkgC6Residency }
    if h.cpuModel = haswellEp then
      { d with
        uclkLast := d.uclk
        uclk := rd.msr core .uMsrPmonUclkFixedCtr }
    else d
  else d

/-- The registers of `core`, read into the core's slot. -/
def sampleCore (dieTemp : BitVec 32) (rd : Readings) (core : Nat) (d : PerCoreData) :
    PerCoreData :=
  { d with
    tscLast := d.tsc
    tsc := rd.tsc core
    temp := temperature dieTemp (rd.msr core .thermStatus)
    instrLast := d.instr
    instr := rd.msr core .corePerfFixedCtr0
    clkCurrLast := d.clkCurr
    clkCurr := rd.msr core .corePerfFixedCtr1
    clkRefLast := d.clkRef
    clkRef := rd.msr core .corePerfFixedCtr2
    c3Last := d.c3
    c3 := rd.msr core .coreC3Residency
    c6Last := d.c6
    c6 := rd.msr core .coreC6Residency
    aperfLast := d.aperf
    mperfLast := d.mperf
    aperf := rd.msr core .aperf
    mperf := rd.msr core .mperf }

/-- The state of the loop: the daemon's record, the local `cpuid`, and the register writes so far. -/
structure PassState where
  sysd : SysData
  cpuid : Nat
  writes : List MsrWrite

/-- The per-package branch. -/
def samplePackage (rd : Readings) (core : Nat) (st : PassState) : PassState :=
  let cpuid := packageOf st.sysd.ncpu st.sysd.ncore core
  let s := readDieTemp rd core cpuid st.sysd
  { st with
    sysd := s.setCpu cpuid (sampleCpu s.host (s.dieTemp cpuid) rd core)
    cpuid := cpuid }

/-- The part of the iteration every core goes through: the fixed counters are enabled
(`result | 0x0333`) before they are read. -/
def sampleEachCore (rd : Readings) (core : Nat) (st : PassState) : PassState :=
  { st with
    sysd := st.sysd.setCore core (sampleCore (st.sysd.dieTemp st.cpuid) rd core)
    writes := st.writes ++
      [⟨core, .corePerfFixedCtrCtrl, rd.msr core .corePerfFixedCtrCtrl ||| 0x0333⟩] }

/-- One iteration of the loop. -/
def passBody (rd : Readings) (core : Nat) (st : PassState) : PassState :=
  sampleEachCore rd core
    (if SampledOn st.sysd.ncore core then samplePackage rd core st else st)

/-- The common body of the two sampling functions. -/
def readMsrPass (rd : Readings) (s : SysData) : PassState :=
  forLoop s.ncore (passBody rd) ⟨s, 0, []⟩

/-- `read_msr_data`. -/
def readMsrData (rd : Readings) (s : SysData) : SysData := (readMsrPass rd s).sysd

/-- `read_msr_data_first`. -/
def readMsrDataFirst (rd : Readings) (s : SysData) : SysData := (readMsrPass rd s).sysd

/-! ## One iteration -/

/-- A visit sets the energy readings, whatever the slot held. -/
lemma sampleCpu_powPkg (h : Host) (dieTemp : BitVec 32) (rd : Readings) (core : Nat)
    (d : PerCpuData) :
    (sampleCpu h dieTemp rd core d).powPkg = (rd.msr core .pkgEnergyStatus).setWidth 32 := by
  unfold sampleCpu
  dsimp only
  split_ifs <;> rfl

/-- The DRAM count of a package. -/
lemma sampleCpu_powDramC {h : Host} (hd : h.dramSupp = 1) (dieTemp : BitVec 32) (rd : Readings)
    (core : Nat) (d : PerCpuData) :
    (sampleCpu h dieTemp rd core d).powDramC = (rd.msr core .dramEnergyStatus).setWidth 32 := by
  unfold sampleCpu
  dsimp only
  rw [if_pos hd]
  split_ifs <;> rfl

/-- Reading the die temperature touches nothing else. -/
@[simp]
lemma readDieTemp_host (rd : Readings) (core cpuid : Nat) (s : SysData) :
    (readDieTemp rd core cpuid s).host = s.host := by
  unfold readDieTemp
  split <;> rfl

@[simp]
lemma readDieTemp_cpuData (rd : Readings) (core cpuid : Nat) (s : SysData) :
    (readDieTemp rd core cpuid s).cpuData = s.cpuData := by
  unfold readDieTemp
  split <;> rfl

@[simp]
lemma readDieTemp_coreData (rd : Readings) (core cpuid : Nat) (s : SysData) :
    (readDieTemp rd core cpuid s).coreData = s.coreData := by
  unfold readDieTemp
  split <;> rfl

/-- An iteration leaves what is known of the host. -/
@[simp]
lemma passBody_host (rd : Readings) (core : Nat) (st : PassState) :
    (passBody rd core st).sysd.host = st.sysd.host := by
  unfold passBody sampleEachCore samplePackage
  split <;> simp

/-- An iteration touches the slot of package `p` only if it samples that package. -/
lemma passBody_cpuData (rd : Readings) (core p : Nat) (st : PassState) :
    ∃ dieTemp, (passBody rd core st).sysd.cpuData p =
      if SampledOn st.sysd.ncore core ∧ packageOf st.sysd.ncpu st.sysd.ncore core = p then
        sampleCpu st.sysd.host dieTemp rd core (st.sysd.cpuData p)
      else st.sysd.cpuData p := by
  unfold passBody sampleEachCore
  by_cases hs : SampledOn st.sysd.ncore core
  · by_cases hp : packageOf st.sysd.ncpu st.sysd.ncore core = p
    · subst hp
      set cpuid := packageOf st.sysd.ncpu st.sysd.ncore core
      refine ⟨(readDieTemp rd core cpuid st.sysd).dieTemp cpuid, ?_⟩
      simp only [hs, samplePackage, if_true, true_and, setCore_cpuData, cpuid, setCpu_cpuData_self,
        readDieTemp_host, readDieTemp_cpuData]
    · refine ⟨0, ?_⟩
      simp only [hs, hp, samplePackage, if_true, and_false, if_false, setCore_cpuData]
      rw [setCpu_cpuData_of_ne _ _ (Ne.symm hp), readDieTemp_cpuData]
  · exact ⟨0, by simp [hs]⟩

/-- It samples its own core and no other. -/
lemma passBody_coreData (rd : Readings) (core i : Nat) (st : PassState) :
    ∃ dieTemp, (passBody rd core st).sysd.coreData i =
      if core = i then sampleCore dieTemp rd core (st.sysd.coreData i)
      else st.sysd.coreData i := by
  unfold passBody sampleEachCore
  generalize hst' : (if SampledOn st.sysd.ncore core then samplePackage rd core st else st) = st'
  have inner : st'.sysd.coreData = st.sysd.coreData := by
    rw [← hst']
    split <;> simp [samplePackage]
  by_cases hi : core = i
  · subst hi
    refine ⟨st'.sysd.dieTemp st'.cpuid, ?_⟩
    simp only [setCore_coreData_self, inner, if_true]
  · refine ⟨0, ?_⟩
    simp only [hi, if_false]
    rw [setCore_coreData_of_ne _ _ (Ne.symm hi), inner]

/-! ## The whole pass -/

/-- So does the whole pass. -/
@[simp]
lemma readMsrData_host (rd : Readings) (s : SysData) : (readMsrData rd s).host = s.host :=
  forLoop_frame (fun st : PassState => st.sysd.host) (passBody_host rd) _

@[simp]
lemma readMsrDataFirst_host (rd : Readings) (s : SysData) :
    (readMsrDataFirst rd s).host = s.host := readMsrData_host rd s

/-- What a pass does to a part `π` of the slot of package `p` on which a visit acts by `g`, whatever
the die temperature is. -/
lemma readMsrData_cpuData {α : Type*} {rd : Readings} {s : SysData} (π : PerCpuData → α)
    (g : Nat → α → α) (hg : ∀ dieTemp core d, π (sampleCpu s.host dieTemp rd core d) = g core (π d))
    (p : Nat) :
    π ((readMsrData rd s).cpuData p) = visits s.ncpu s.ncore p g (π (s.cpuData p)) := by
  refine forLoop_map (fun st : PassState => st.sysd.host = s.host) rfl ?_
    (fun st => π (st.sysd.cpuData p)) _ ?_
  · intro core st hst
    rw [passBody_host, hst]
  · intro core st hst
    obtain ⟨dieTemp, e⟩ := passBody_cpuData rd core p st
    have hcpu : st.sysd.ncpu = s.ncpu := congrArg Host.ncpu hst
    have hcore : st.sysd.ncore = s.ncore := congrArg Host.ncore hst
    rw [e, hst, hcpu, hcore]
    split
    · exact hg ..
    · rfl

/-- What a pass does to a part `π` of the slot of core `i` that does not depend on the die
temperature: one sample. -/
lemma readMsrData_coreData {α : Type*} {rd : Readings} {s : SysData} (π : PerCoreData → α)
    (g : α → α) {i : Nat} (hg : ∀ dieTemp d, π (sampleCore dieTemp rd i d) = g (π d))
    (hi : i < s.ncore) :
    π ((readMsrData rd s).coreData i) = g (π (s.coreData i)) := by
  refine forLoop_slot hi (fun _ => True) trivial (fun _ _ _ => trivial)
    (fun st : PassState => π (st.sysd.coreData i)) g ?_ ?_
  · intro st _
    obtain ⟨dieTemp, e⟩ := passBody_coreData rd i i st
    rw [e, if_pos rfl]
    exact hg ..
  · intro core st hc
    obtain ⟨dieTemp, e⟩ := passBody_coreData rd core i st
    rw [e, if_neg (Ne.symm hc)]

end Powmon.Monitor
