import Powmon.Lib.Text
import Powmon.Msr.Basic

/-!
# State of the monitor daemon

The records of `powmon/bin/sensor_read_lib.h`. `uint64_t` and `long long` fields are `BitVec 64`,
`unsigned int` and `int` fields that machine arithmetic reaches are `BitVec 32`, `float` fields are
`Fl`, and the flags and counts that are only compared are `ℤ` and `Nat`.

C → Lean naming: `per_core_data`, `per_cpu_data`, `sys_data` → `PerCoreData`, `PerCpuData`, `SysData`;
`powPkg_last` → `powPkgLast`, `C3` → `c3`, `NCPU` → `ncpu`, `DRAM_SUPP` → `dramSupp`. The `malloc`ed
arrays `cpu_data` and `core_data` are functions of the index: nothing is assumed about what they hold
before the first pass. Left out are the fields nothing here reads (`HT_EN`, `logfile`, `hostid`).
-/

namespace Powmon.Monitor
open Lib

/-- `per_core_data`. -/
structure PerCoreData where
  tsc : BitVec 64
  tscLast : BitVec 64
  temp : BitVec 32
  instr : BitVec 64
  clkCurr : BitVec 64
  clkRef : BitVec 64
  instrLast : BitVec 64
  clkCurrLast : BitVec 64
  clkRefLast : BitVec 64
  c3Last : BitVec 64
  c3 : BitVec 64
  c6Last : BitVec 64
  c6 : BitVec 64
  aperfLast : BitVec 64
  aperf : BitVec 64
  mperfLast : BitVec 64
  mperf : BitVec 64
  tscDiff : BitVec 64
  instrDiff : BitVec 64
  clkCurrDiff : BitVec 64
  clkRefDiff : BitVec 64
  c3Diff : BitVec 64
  c6Diff : BitVec 64
  aperfDiff : BitVec 64
  mperfDiff : BitVec 64
  mclkMHz : Fl
  rclkMHz : Fl
  cpi : Fl
  ips : Fl
  coreLoad : Fl
deriving Inhabited

/-- `per_cpu_data`. -/
structure PerCpuData where
  tsc : BitVec 64
  ergU : BitVec 32
  powPkgLast : BitVec 32
  powPkg : BitVec 32
  tempPkg : BitVec 32
  powDramCLast : BitVec 32
  powDramC : BitVec 32
  uclkLast : BitVec 64
  uclk : BitVec 64
  c2Last : BitVec 64
  c2 : BitVec 64
  c3Last : BitVec 64
  c3 : BitVec 64
  c6Last : BitVec 64
  c6 : BitVec 64
  powPkgDiff : BitVec 64
  powDramCDiff : BitVec 64
  uclkDiff : BitVec 64
  c3Diff : BitVec 64
  c6Diff : BitVec 64
  c2Diff : BitVec 64
  pkgpow : Fl
  drampow : Fl
  uclkMHz : Fl
deriving Inhabited

/-- `sys_data`. -/
structure SysData where
  ncpu : Nat
  ncore : Nat
  cpuModel : ℤ
  nomFreq : Fl
  dramSupp : ℤ
  dieTemp : Nat → BitVec 32
  dieTempEn : Nat → ℤ
  cpuData : Nat → PerCpuData
  coreData : Nat → PerCoreData
  tmpstr : Text
  topic : Text
  cmdTopic : Text
  brokerHost : Text
  brokerPort : ℤ
  extraCounters : ℤ
  qos : ℤ
  dT : Fl

/-- `init_pow_mon`. Its `memset` of `dieTemp` covers one element, so `dieTemp[0]` gets the byte `100`
four times and the others stay zero. The arrays are allocated later; until then nothing reads them. -/
def initPowMon : SysData where
  ncpu := 0
  ncore := 0
  cpuModel := -1
  nomFreq := .fin false 0
  dramSupp := 0
  dieTemp := Function.update (fun _ => 0) 0 0x64646464
  dieTempEn := fun _ => 0
  cpuData := default
  coreData := default
  tmpstr := []
  topic := []
  cmdTopic := []
  brokerHost := []
  brokerPort := 1883
  extraCounters := 1
  qos := 0
  dT := .fin false 1

/-- Update of one slot of `cpu_data`. -/
def SysData.setCpu (s : SysData) (i : Nat) (f : PerCpuData → PerCpuData) : SysData :=
  { s with cpuData := Function.update s.cpuData i (f (s.cpuData i)) }

/-- Update of one slot of `core_data`. -/
def SysData.setCore (s : SysData) (i : Nat) (f : PerCoreData → PerCoreData) : SysData :=
  { s with coreData := Function.update s.coreData i (f (s.coreData i)) }

/-- The part of the state that start-up fixes and no pass, tick or command writes. -/
structure Host where
  ncpu : Nat
  ncore : Nat
  cpuModel : ℤ
  dramSupp : ℤ
  extraCounters : ℤ
deriving DecidableEq

/-- The host the state describes. -/
def SysData.host (s : SysData) : Host :=
  ⟨s.ncpu, s.ncore, s.cpuModel, s.dramSupp, s.extraCounters⟩

/-- An update of a package leaves what is known of the host. -/
@[simp]
lemma setCpu_host (s : SysData) (i : Nat) (f : PerCpuData → PerCpuData) :
    (s.setCpu i f).host = s.host := rfl

@[simp]
lemma setCore_host (s : SysData) (i : Nat) (f : PerCoreData → PerCoreData) :
    (s.setCore i f).host = s.host := rfl

/-- The package that is updated. -/
@[simp]
lemma setCpu_cpuData_self (s : SysData) (i : Nat) (f : PerCpuData → PerCpuData) :
    (s.setCpu i f).cpuData i = f (s.cpuData i) := Function.update_self ..

/-- Any other one. -/
lemma setCpu_cpuData_of_ne (s : SysData) {i j : Nat} (f : PerCpuData → PerCpuData) (h : j ≠ i) :
    (s.setCpu i f).cpuData j = s.cpuData j := Function.update_of_ne h ..

/-- The cores are not the packages. -/
@[simp]
lemma setCpu_coreData (s : SysData) (i : Nat) (f : PerCpuData → PerCpuData) :
    (s.setCpu i f).coreData = s.coreData := rfl

/-- The core that is updated. -/
@[simp]
lemma setCore_coreData_self (s : SysData) (i : Nat) (f : PerCoreData → PerCoreData) :
    (s.setCore i f).coreData i = f (s.coreData i) := Function.update_self ..

/-- Any other one. -/
lemma setCore_coreData_of_ne (s : SysData) {i j : Nat} (f : PerCoreData → PerCoreData)
    (h : j ≠ i) : (s.setCore i f).coreData j = s.coreData j := Function.update_of_ne h ..

@[simp]
lemma setCore_cpuData (s : SysData) (i : Nat) (f : PerCoreData → PerCoreData) :
    (s.setCore i f).cpuData = s.cpuData := rfl

/-- The die temperatures have an array of their own. -/
@[simp]
lemma setCpu_dieTemp (s : SysData) (i : Nat) (f : PerCpuData → PerCpuData) :
    (s.setCpu i f).dieTemp = s.dieTemp := rfl

@[simp]
lemma setCore_dieTemp (s : SysData) (i : Nat) (f : PerCoreData → PerCoreData) :
    (s.setCore i f).dieTemp = s.dieTemp := rfl

@[simp]
lemma setCpu_dieTempEn (s : SysData) (i : Nat) (f : PerCpuData → PerCpuData) :
    (s.setCpu i f).dieTempEn = s.dieTempEn := rfl

end Powmon.Monitor
