import Powmon.Monitor.Push

/-!
# The stand-alone sampler

`pow_node_smp`: the sampler of the daemon without the broker, which prints the metrics instead. Its
`read_msr_data`, `read_msr_data_first` and `push_to_broker` are edited copies of the daemon's; what
the edits left as it was (the arithmetic of temperatures and metrics) is taken from there.

The records keep fewer fields. The two passes differ from each other: only the first one reads the
energy unit, and only the later ones read `APERF` and `MPERF`, without shifting the readings before
into `aperf_last` and `mperf_last`; the lines that would are commented out. `push_to_broker` still
subtracts these two.

C → Lean naming: as in the daemon's modules. A pass is `readMsrPass first`, where `first` says which
of the two functions it is. The two lines of `/proc/meminfo` that a tick prints are `Tick.mem`.
-/

namespace Powmon.NodeSmp
open Lib
open Monitor (Host tjMax temperature power megaPerSecond ratio clockMHz ergUnits dramUnits oneD
  hundredD device Timeval getTimestamp)

/-! ## Records -/

/-- `per_core_data`. -/
structure PerCoreData where
  tsc : BitVec 64
  tscLast : BitVec 64
  temp : BitVec 32
  instr : BitVec 64
  clkCurr : BitVec 64
  clkRef : BitVec 64
  instrLast : BitVec 64
  clkCurrLast : BitVec 64
  clkRefLast : BitVec 64
  aperfLast : BitVec 64
  aperf : BitVec 64
  mperfLast : BitVec 64
  mperf : BitVec 64
  tscDiff : BitVec 64
  instrDiff : BitVec 64
  clkCurrDiff : BitVec 64
  clkRefDiff : BitVec 64
  aperfDiff : BitVec 64
  mperfDiff : BitVec 64
  rclkMHz : Fl
  cpi : Fl
  ips : Fl
  coreLoad : Fl
deriving Inhabited

/-- `per_cpu_data`. -/
structure PerCpuData where
  tsc : BitVec 64
  ergU : BitVec 32
  powPkgLast : BitVec 32
  powPkg : BitVec 32
  tempPkg : BitVec 32
  powDramCLast : BitVec 32
  powDramC : BitVec 32
  uclkLast : BitVec 64
  uclk : BitVec 64
  powPkgDiff : BitVec 64
  powDramCDiff : BitVec 64
  uclkDiff : BitVec 64
  pkgpow : Fl
  drampow : Fl
  uclkMHz : Fl
deriving Inhabited

/-- `sys_data`. -/
structure SysData where
  ncpu : Nat
  ncore : Nat
  cpuModel : ℤ
  nomFreq : Fl
  dramSupp : ℤ
  dieTemp : Nat → BitVec 32
  dieTempEn : Nat → ℤ
  cpuData : Nat → PerCpuData
  coreData : Nat → PerCoreData
  tmpstr : Text
  extraCounters : ℤ
  dT : Fl

/-- `init_pow_mon`, and the default interval that `main` sets after it. -/
def initPowMon : SysData where
  ncpu := 0
  ncore := 0
  cpuModel := -1
  nomFreq := .fin false 0
  dramSupp := 0
  dieTemp := Function.update (fun _ => 0) 0 0x64646464
  dieTempEn := fun _ => 0
  cpuData := default
  coreData := default
  tmpstr := []
  extraCounters := 1
  dT := .fin false 1

/-- The host the state describes. -/
def SysData.host (s : SysData) : Host :=
  ⟨s.ncpu, s.ncore, s.cpuModel, s.dramSupp, s.extraCounters⟩

/-! ## The sampling pass -/

/-- The die temperature is read once per package. -/
def readDieTemp (rd : Readings) (core cpuid : Nat) (s : SysData) : SysData :=
  if s.dieTempEn cpuid = 0 then
    { s with
      dieTemp := Function.update s.dieTemp cpuid (tjMax (rd.msr core .temperatureTarget))
      dieTempEn := Function.update s.dieTempEn cpuid 1 }
  else s

/-- The package registers, read on `core` into the package's slot. -/
def sampleCpu (first : Bool) (h : Host) (dieTemp : BitVec 32) (rd : Readings) (core : Nat)
    (d : PerCpuData) : PerCpuData :=
  let d := { d with tsc := rd.tsc core }
  let d := if first then { d with ergU := (rd.msr core .raplPowerUnit).setWidth 32 } else d
  let d := { d with
    powPkgLast := d.powPkg
    powPkg := (rd.msr core .pkgEnergyStatus).setWidth 32
    tempPkg := temperature dieTemp (rd.msr core .packageThermStatus) }
  let d :=
    if h.dramSupp = 1 then
      { d with
        powDramCLast := d.powDramC
        powDramC := (rd.msr core .dramEnergyStatus).setWidth 32 }
    else { d with powDramC := 0 }
  if h.extraCounters = 1 then
    if h.cpuModel = haswellEp then
      { d with
        uclkLast := d.uclk
        uclk := rd.msr core .uMsrPmonUclkFixedCtr }
    else d
  else d

/-- The registers of `core`, read into the core's slot. -/
def sampleCore (first : Bool) (dieTemp : BitVec 32) (rd : Readings) (core : Nat)
    (d : PerCoreData) : PerCoreData :=
  let d := { d with
    tscLast := d.tsc
    tsc := rd.tsc core
    temp := temperature dieTemp (rd.msr core .thermStatus)
    instrLast := d.instr
    instr := rd.msr core .corePerfFixedCtr0
    clkCurrLast := d.clkCurr
    clkCurr := rd.msr core .corePerfFixedCtr1
    clkRefLast := d.clkRef
    clkRef := rd.msr core .corePerfFixedCtr2 }
  if first then d
  else { d with
    aperf := rd.msr core .aperf
    mperf := rd.msr core .mperf }

/-- The state of the loop: the record, the local `cpuid`, and the register writes so far. -/
structure PassState where
  sysd : SysData
  cpuid : Nat
  writes : List MsrWrite

/-- The per-package branch. -/
def samplePackage (first : Bool) (rd : Readings) (core : Nat) (st : PassState) : PassState :=
  let cpuid := packageOf st.sysd.ncpu st.sysd.ncore core
  let s := readDieTemp rd core cpuid st.sysd
  { st with
    sysd := { s with
      cpuData := Function.update s.cpuData cpuid
        (sampleCpu first s.host (s.dieTemp cpuid) rd core (s.cpuData cpuid)) }
    cpuid := cpuid }

/-- The part of the iteration every core goes through. -/
def sampleEachCore (first : Bool) (rd : Readings) (core : Nat) (st : PassState) : PassState :=
  let s := st.sysd
  { st with
    sysd := { s with
      coreData := Function.update s.coreData core
        (sampleCore first (s.dieTemp st.cpuid) rd core (s.coreData core)) }
    writes := st.writes ++
      [⟨core, .corePerfFixedCtrCtrl, rd.msr core .corePerfFixedCtrCtrl ||| 0x0333⟩] }

/-- One iteration of the loop. -/
def passBody (first : Bool) (rd : Readings) (core : Nat) (st : PassState) : PassState :=
  sampleEachCore first rd core
    (if SampledOn st.sysd.ncore core then samplePackage first rd core st else st)

/-- The body of the two sampling functions. -/
def readMsrPass (first : Bool) (rd : Readings) (s : SysData) : PassState :=
  forLoop s.ncore (passBody first rd) ⟨s, 0, []⟩

/-- `read_msr_data`. -/
def readMsrData (rd : Readings) (s : SysData) : SysData := (readMsrPass false rd s).sysd

/-- `read_msr_data_first`. -/
def readMsrDataFirst (rd : Readings) (s : SysData) : SysData := (readMsrPass true rd s).sysd

/-! ## `push_to_broker` -/

/-- Locals of `push_to_broker` that are printed although a path may leave them unassigned. -/
structure Locals where
  uclkMHz : Fl
  drampow : Fl
deriving Inhabited

/-- What the package loop stores in a slot. -/
def cpuDiffs (h : Host) (dT : Fl) (d : PerCpuData) : PerCpuData :=
  let powPkgDiff := (d.powPkg - d.powPkgLast).setWidth 64
  let d := { d with powPkgDiff := powPkgDiff, pkgpow := power powPkgDiff ergUnits dT }
  let d :=
    if h.extraCounters = 1 then
      if h.cpuModel = haswellEp then
        let uclkDiff := d.uclk - d.uclkLast
        { d with uclkDiff := uclkDiff, uclkMHz := megaPerSecond uclkDiff dT }
      else d
    else d
  if h.dramSupp = 1 then
    let powDramCDiff := (d.powDramC - d.powDramCLast).setWidth 64
    { d with powDramCDiff := powDramCDiff, drampow := power powDramCDiff dramUnits dT }
  else d

/-- The locals after an iteration of the package loop. -/
def cpuLocals (h : Host) (d : PerCpuData) (l : Locals) : Locals where
  uclkMHz := if h.extraCounters = 1 ∧ h.cpuModel = haswellEp then d.uclkMHz else l.uclkMHz
  drampow := if h.dramSupp = 1 then d.drampow else l.drampow

/-- What the core loop stores in a slot. -/
def coreDiffs (nomFreq dT : Fl) (d : PerCoreData) : PerCoreData :=
  let tscDiff := d.tsc - d.tscLast
  let instrDiff := d.instr - d.instrLast
  let clkCurrDiff := d.clkCurr - d.clkCurrLast
  let clkRefDiff := d.clkRef - d.clkRefLast
  { d with
    aperfDiff := d.aperf - d.aperfLast
    mperfDiff := d.mperf - d.mperfLast
    tscDiff := tscDiff
    instrDiff := instrDiff
    clkCurrDiff := clkCurrDiff
    clkRefDiff := clkRefDiff
    cpi := ratio oneD clkCurrDiff (binary64.ofNat instrDiff.toNat)
    ips := ratio oneD instrDiff dT
    coreLoad := ratio hundredD clkRefDiff (binary64.ofNat tscDiff.toNat)
    rclkMHz := clockMHz clkCurrDiff clkRefDiff nomFreq }

/-- The line printed for a package. -/
def cpuLine (id : Nat) (nomfreqMHz : Fl) (l : Locals) (d : PerCpuData) (tmpstr : Text) : Text :=
  device "cpu".toList id ++ "   cpu_temp:".toList ++ fmtInt d.tempPkg.toInt ++
    ";nomfreq_MHz:".toList ++ fmtFixed 2 nomfreqMHz ++ ";uclk_MHz:".toList ++
    fmtFixed 2 l.uclkMHz ++ ";drampow:".toList ++ fmtFixed 2 l.drampow ++ ";pkgpow:".toList ++
    fmtFixed 2 d.pkgpow ++ ";timestamp:".toList ++ tmpstr ++ "\n".toList

/-- The line printed for a core. What it calls `rclk_MHz` is `mclk_MHz`, from `APERF` and `MPERF`. -/
def coreLine (id : Nat) (mclkMHz : Fl) (d : PerCoreData) (tmpstr : Text) : Text :=
  device "core".toList id ++ "    core_temp:".toList ++ fmtInt d.temp.toInt ++ ";CPI:".toList ++
    fmtFixed 2 d.cpi ++ ";IPS:".toList ++ fmtFixed 2 d.ips ++ ";core_load:".toList ++
    fmtFixed 2 d.coreLoad ++ ";rclk_MHz:".toList ++ fmtFixed 2 mclkMHz ++ ";".toList ++ tmpstr ++
    "\n".toList

/-- The state of the two loops. -/
structure PushState where
  sysd : SysData
  locals : Locals
  out : List Text

/-- One iteration of the package loop. -/
def pushCpu (cpuid : Nat) (st : PushState) : PushState :=
  let s := st.sysd
  let d := cpuDiffs s.host s.dT (s.cpuData cpuid)
  let l := cpuLocals s.host d st.locals
  { sysd := { s with cpuData := Function.update s.cpuData cpuid d }
    locals := l
    out := st.out ++
      [cpuLine cpuid (binary32.div s.nomFreq (binary32.ofNat 1000000)) l d s.tmpstr] }

/-- One iteration of the core loop. -/
def pushCore (coreid : Nat) (st : PushState) : PushState :=
  let s := st.sysd
  let d := coreDiffs s.nomFreq s.dT (s.coreData coreid)
  { st with
    sysd := { s with coreData := Function.update s.coreData coreid d }
    out := st.out ++
      [coreLine coreid (clockMHz d.aperfDiff d.mperfDiff s.nomFreq) d s.tmpstr] }

/-- `push_to_broker`, called with `stk` on the stack and with these first lines of `/proc/meminfo`. -/
def pushToBroker (stk : Locals) (mem : Text × Text) (s : SysData) : PushState :=
  let head := mem.1 ++ ";".toList ++ mem.2 ++ ";Time:".toList ++ s.tmpstr ++ "\n".toList
  let st := forLoop s.ncpu pushCpu ⟨s, stk, [head]⟩
  forLoop s.ncore pushCore st

/-- The inputs of one tick. -/
structure Tick where
  tv : Timeval
  rd : Readings
  stk : Locals
  mem : Text × Text
deriving Inhabited

/-- `samp_handler`. -/
def sampHandler (t : Tick) (s : SysData) : PushState :=
  pushToBroker t.stk t.mem (readMsrData t.rd { s with tmpstr := getTimestamp t.tv })

section Pass
variable {first : Bool} {rd : Readings} {s : SysData}

/-- Reading the die temperature touches nothing else. -/
lemma readDieTemp_keep (rd : Readings) (core cpuid : Nat) (s : SysData) :
    (readDieTemp rd core cpuid s).host = s.host ∧
    (readDieTemp rd core cpuid s).cpuData = s.cpuData ∧
    (readDieTemp rd core cpuid s).coreData = s.coreData := by
  unfold readDieTemp
  split <;> exact ⟨rfl, rfl, rfl⟩

/-- An iteration leaves what is known of the host. -/
lemma passBody_host (first : Bool) (rd : Readings) (core : Nat) (st : PassState) :
    (passBody first rd core st).sysd.host = st.sysd.host := by
  unfold passBody sampleEachCore samplePackage
  split
  · exact (readDieTemp_keep rd core _ st.sysd).1
  · rfl

/-- It samples its own core and no other. -/
lemma passBody_coreData (first : Bool) (rd : Readings) (core : Nat) (st : PassState) :
    ∃ dieTemp, (passBody first rd core st).sysd.coreData =
      Function.update st.sysd.coreData core
        (sampleCore first dieTemp rd core (st.sysd.coreData core)) := by
  unfold passBody sampleEachCore
  split
  · set cpuid := packageOf st.sysd.ncpu st.sysd.ncore core with hcpuid
    have inner := (readDieTemp_keep rd core cpuid st.sysd).2.2
    refine ⟨(readDieTemp rd core cpuid st.sysd).dieTemp cpuid, ?_⟩
    simp only [samplePackage, ← hcpuid, inner]
  · exact ⟨_, rfl⟩

end Pass

section Push
variable {stk : Locals} {mem : Text × Text} {s : SysData}

/-- What `push_to_broker` reads besides the slots. -/
def SysData.settings (s : SysData) : Host × Fl × Fl := (s.host, s.nomFreq, s.dT)

/-- Nothing that `push_to_broker` computes is a setting. -/
lemma pushCpu_settings (i : Nat) (st : PushState) :
    (pushCpu i st).sysd.settings = st.sysd.settings := rfl

lemma pushCore_settings (i : Nat) (st : PushState) :
    (pushCore i st).sysd.settings = st.sysd.settings := rfl

lemma pushCpus_settings (n : Nat) (st : PushState) :
    (forLoop n pushCpu st).sysd.settings = st.sysd.settings :=
  forLoop_frame (fun st : PushState => st.sysd.settings) pushCpu_settings st

lemma pushToBroker_host (stk : Locals) (mem : Text × Text) (s : SysData) :
    (pushToBroker stk mem s).sysd.host = s.host := by
  have cores : ∀ n st, (forLoop n pushCore st).sysd.settings = st.sysd.settings :=
    fun n st => forLoop_frame (fun st : PushState => st.sysd.settings) pushCore_settings st
  exact congrArg Prod.fst ((cores _ _).trans (pushCpus_settings _ _))

/-- The slot of a package after it. -/
lemma pushToBroker_cpuData {p : Nat} (hp : p < s.ncpu) :
    (pushToBroker stk mem s).sysd.cpuData p = cpuDiffs s.host s.dT (s.cpuData p) := by
  have cores : ∀ n st, (forLoop n pushCore st).sysd.cpuData = st.sysd.cpuData := by
    intro n st
    refine forLoop_frame (fun st : PushState => st.sysd.cpuData) ?_ st
    exact fun _ _ => rfl
  rw [pushToBroker, cores]
  refine forLoop_slot hp (fun st : PushState => st.sysd.settings = s.settings) ?_
    (fun i st hst => (pushCpu_settings i st).trans hst) (fun st => st.sysd.cpuData p) _ ?_ ?_
  · rfl
  · intro st hst
    have hh : st.sysd.host = s.host := congrArg Prod.fst hst
    have hd : st.sysd.dT = s.dT := congrArg (fun x => x.2.2) hst
    simp only [pushCpu, Function.update_self, hh, hd]
  · intro i st hi
    exact Function.update_of_ne hi ..

/-- The slot of a core after it. -/
lemma pushToBroker_coreData {i : Nat} (hi : i < s.ncore) :
    (pushToBroker stk mem s).sysd.coreData i = coreDiffs s.nomFreq s.dT (s.coreData i) := by
  have cpus : ∀ st : PushState,
      (forLoop s.ncpu pushCpu st).sysd.coreData = st.sysd.coreData := by
    intro st
    refine forLoop_frame (fun st : PushState => st.sysd.coreData) ?_ st
    exact fun _ _ => rfl
  have cores : ∀ st : PushState, st.sysd.settings = s.settings →
      (forLoop s.ncore pushCore st).sysd.coreData i =
        coreDiffs s.nomFreq s.dT (st.sysd.coreData i) := by
    intro st hst
    refine forLoop_slot hi (fun st : PushState => st.sysd.settings = s.settings) hst
      (fun j st hst => (pushCore_settings j st).trans hst) (fun st => st.sysd.coreData i) _ ?_ ?_
    · intro st hst
      have hn : st.sysd.nomFreq = s.nomFreq := congrArg (fun x => x.2.1) hst
      have hd : st.sysd.dT = s.dT := congrArg (fun x => x.2.2) hst
      simp only [pushCore, Function.update_self, hn, hd]
    · intro j st hj
      exact Function.update_of_ne hj ..
  rw [pushToBroker, cores _ (pushCpus_settings _ _), cpus]

end Push

end Powmon.NodeSmp
