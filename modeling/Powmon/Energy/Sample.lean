import Powmon.Lib.Text
import Powmon.Msr.Basic

/-!
# The energy library

`init_msr_data`, `read_msr_energy` and `final_msr_energy` of `energy-app/sensor_read_lib.c`, and the
copies of them in `powmpi/sensor_read_lib.c`. The three functions share the loop over the cores and
differ in what a visit does to the slot of a package, so a pass is `samplePackages` of a visit.

C → Lean naming: `powPkg_init` → `powPkgInit` and so on; a visit of `init_msr_data` is `initVisit`.
`powmpi`'s `init_msr_data` and `read_msr_energy` have the same visits as the ones of `energy-app`; its
`final_msr_energy` has its own, which reads `MSR_DRAM_ENERGY_STATUS` twice, the second time as `rd'`.
The field `tempPkg`, which nothing uses, is left out, and so is the pinning of the process.

A DRAM counter is sampled if `DRAM_SUPP` is `1` and again if it is `2`; the `else` belongs to the
second `if` only.
-/

namespace Powmon.Energy
open Lib

/-- `per_cpu_data`. -/
structure PerCpuData where
  ergU : BitVec 32
  ergDram : BitVec 32
  powPkgLast : BitVec 32
  powPkg : BitVec 32
  powPkgInit : BitVec 32
  powPkgFinal : BitVec 32
  powPkgOverflow : BitVec 32
  powDramCLast : BitVec 32
  powDramC : BitVec 32
  powDramCInit : BitVec 32
  powDramCFinal : BitVec 32
  powDramCOverflow : BitVec 32
deriving Inhabited, DecidableEq

/-- `sys_data`. -/
structure SysData where
  ncpu : Nat
  ncore : Nat
  cpuModel : ℤ
  dramSupp : ℤ
  cpuData : Nat → PerCpuData
  timeUsInit : BitVec 64
  timeUsFinal : BitVec 64

/-- `init_pow_mon`. -/
def initPowMon : SysData where
  ncpu := 0
  ncore := 0
  cpuModel := -1
  dramSupp := 0
  cpuData := default
  timeUsInit := 0
  timeUsFinal := 0

/-- `detect_cpu_model`, for the number on the last `model` line of `/proc/cpuinfo`: the model it
returns and the record it leaves. -/
def detectCpuModel (model : ℤ) (s : SysData) : ℤ × SysData :=
  let model := if model ∈ knownModels then model else -1
  if 0 < model then
    let s := { s with cpuModel := model }
    let s :=
      if model = sandybridgeEp ∨ model = ivybridgeEp ∨ model = haswell ∨ model = broadwell then
        { s with dramSupp := 1 }
      else s
    let s := if model = haswellEp then { s with dramSupp := 2 } else s
    (model, s)
  else (model, s)

/-! ## Visits -/

/-- `read_msr(fd, MSR_PKG_ENERGY_STATUS)`, stored in an `unsigned int`. -/
def pkgReading (rd : Readings) (core : Nat) : BitVec 32 :=
  (rd.msr core .pkgEnergyStatus).setWidth 32

/-- `read_msr(fd, MSR_DRAM_ENERGY_STATUS)`, stored in an `unsigned int`. -/
def dramReading (rd : Readings) (core : Nat) : BitVec 32 :=
  (rd.msr core .dramEnergyStatus).setWidth 32

/-- Samples the package counter and counts a wrap. -/
def samplePkg (x : BitVec 32) (d : PerCpuData) : PerCpuData :=
  let d := { d with powPkgLast := d.powPkg, powPkg := x }
  if d.powPkgLast > d.powPkg then { d with powPkgOverflow := d.powPkgOverflow + 1 } else d

/-- Samples the DRAM counter and counts a wrap. -/
def sampleDram (x : BitVec 32) (d : PerCpuData) : PerCpuData :=
  let d := { d with powDramCLast := d.powDramC, powDramC := x }
  if d.powDramCLast > d.powDramC then { d with powDramCOverflow := d.powDramCOverflow + 1 } else d

/-- A visit of `init_msr_data`. -/
def initVisit (dramSupp : ℤ) (rd : Readings) (core : Nat) (d : PerCpuData) : PerCpuData :=
  let d := { d with powPkgOverflow := 0, powDramCOverflow := 0, powDramC := 0, powPkg := 0 }
  let d := { d with
    ergU := ((rd.msr core .raplPowerUnit).sshiftRight 8 &&& 0x1E).setWidth 32
    powPkgLast := d.powPkg
    powPkg := pkgReading rd core
    powPkgInit := pkgReading rd core }
  let d :=
    if dramSupp = 1 then
      { d with
        powDramCLast := d.powDramC
        powDramC := dramReading rd core
        powDramCInit := dramReading rd core
        ergDram := d.ergU }
    else d
  if dramSupp = 2 then
    { d with
      powDramCLast := d.powDramC
      powDramC := dramReading rd core
      powDramCInit := dramReading rd core
      ergDram := 16 }
  else { d with powDramC := 0 }

/-- A visit of `read_msr_energy`. -/
def readVisit (dramSupp : ℤ) (rd : Readings) (core : Nat) (d : PerCpuData) : PerCpuData :=
  let d := samplePkg (pkgReading rd core) d
  let d := if dramSupp = 1 then sampleDram (dramReading rd core) d else d
  if dramSupp = 2 then sampleDram (dramReading rd core) d else { d with powDramC := 0 }

/-- A visit of `final_msr_energy`. -/
def finalVisit (dramSupp : ℤ) (rd : Readings) (core : Nat) (d : PerCpuData) : PerCpuData :=
  let d := { samplePkg (pkgReading rd core) d with powPkgFinal := pkgReading rd core }
  let d :=
    if dramSupp = 1 then
      { sampleDram (dramReading rd core) d with powDramCFinal := dramReading rd core }
    else d
  if dramSupp = 2 then
    { sampleDram (dramReading rd core) d with powDramCFinal := dramReading rd core }
  else { d with powDramC := 0, powDramCFinal := 0 }

/-- A visit of `powmpi`'s `final_msr_energy`, which keeps `powPkg` and compares the final reading
with it. -/
def mpiFinalVisit (dramSupp : ℤ) (rd rd' : Readings) (core : Nat) (d : PerCpuData) : PerCpuData :=
  let d := { d with powPkgLast := d.powPkg, powPkgFinal := pkgReading rd core }
  let d :=
    if d.powPkgLast > d.powPkgFinal then { d with powPkgOverflow := d.powPkgOverflow + 1 } else d
  let d :=
    if dramSupp = 1 then
      { sampleDram (dramReading rd core) d with powDramCFinal := dramReading rd' core }
    else d
  if dramSupp = 2 then
    { sampleDram (dramReading rd core) d with powDramCFinal := dramReading rd core }
  else { d with powDramC := 0, powDramCFinal := 0 }

/-! ## Passes -/

/-- The loop over the cores that the passes share. -/
def samplePackages (ncpu ncore : Nat) (visit : Nat → PerCpuData → PerCpuData)
    (slots : Nat → PerCpuData) : Nat → PerCpuData :=
  forLoop ncore (fun core slots =>
    if SampledOn ncore core then
      let cpuid := packageOf ncpu ncore core
      Function.update slots cpuid (visit core (slots cpuid))
    else slots) slots

/-- `init_msr_data`. -/
def initMsrData (rd : Readings) (s : SysData) : SysData :=
  { s with cpuData := samplePackages s.ncpu s.ncore (initVisit s.dramSupp rd) s.cpuData }

/-- `read_msr_energy`. -/
def readMsrEnergy (rd : Readings) (s : SysData) : SysData :=
  { s with cpuData := samplePackages s.ncpu s.ncore (readVisit s.dramSupp rd) s.cpuData }

/-- `final_msr_energy`. -/
def finalMsrEnergy (rd : Readings) (s : SysData) : SysData :=
  { s with cpuData := samplePackages s.ncpu s.ncore (finalVisit s.dramSupp rd) s.cpuData }

/-- `powmpi`'s `init_msr_data`. -/
def mpiInitMsrData (rd : Readings) (s : SysData) : SysData := initMsrData rd s

/-- `powmpi`'s `read_msr_energy`. -/
def mpiReadMsrEnergy (rd : Readings) (s : SysData) : SysData := readMsrEnergy rd s

/-- `powmpi`'s `final_msr_energy`. -/
def mpiFinalMsrEnergy (rd rd' : Readings) (s : SysData) : SysData :=
  { s with cpuData := samplePackages s.ncpu s.ncore (mpiFinalVisit s.dramSupp rd rd') s.cpuData }

/-! ## What a pass does to one slot -/

section Pass
variable {α : Type*} {ncpu ncore p : Nat} {visit : Nat → PerCpuData → PerCpuData}
  {slots : Nat → PerCpuData}

/-- A part `π` of the slot of package `p` on which a visit acts by `g` goes through the visits the
pass pays to `p`. -/
lemma samplePackages_map (π : PerCpuData → α) (g : Nat → α → α)
    (hg : ∀ core d, π (visit core d) = g core (π d)) :
    π (samplePackages ncpu ncore visit slots p) = visits ncpu ncore p g (π (slots p)) := by
  refine forLoop_map (fun _ => True) trivial (fun _ _ _ => trivial)
    (fun slots : Nat → PerCpuData => π (slots p)) _ ?_
  intro core slots _
  by_cases hs : SampledOn ncore core
  · by_cases hp : packageOf ncpu ncore core = p
    · subst hp
      simp [hs, hg]
    · simp [hs, hp, Function.update_of_ne (Ne.symm hp)]
  · simp [hs]

/-- What no visit touches stays. -/
lemma samplePackages_frame (π : PerCpuData → α) (hg : ∀ core d, π (visit core d) = π d) :
    π (samplePackages ncpu ncore visit slots p) = π (slots p) := by
  rw [samplePackages_map π (fun _ a => a) hg, visits]
  refine forLoop_frame (fun a : α => a) ?_ _
  intro core a
  exact ite_self a

/-- A part that a visit sets to `r core` holds, in a sampled package, what its last visit set. -/
lemma samplePackages_last (π : PerCpuData → α) (r : Nat → α)
    (hg : ∀ core d, π (visit core d) = r core) (hp : Sampled ncpu ncore p) :
    π (samplePackages ncpu ncore visit slots p) = r (lastVisit ncpu ncore p) := by
  rw [samplePackages_map π (fun core _ => r core) hg]
  exact visits_last hp _ (fun _ _ _ => rfl) _

/-- The whole slot of package `p` goes through the visits the pass pays to `p`. -/
lemma samplePackages_slot :
    samplePackages ncpu ncore visit slots p = visits ncpu ncore p visit (slots p) :=
  samplePackages_map (fun d => d) visit fun _ _ => rfl

/-- The slot of a package that is not sampled is left alone. -/
lemma samplePackages_unsampled (hp : ¬ Sampled ncpu ncore p) :
    samplePackages ncpu ncore visit slots p = slots p :=
  samplePackages_slot.trans (visits_unsampled hp _ _)

end Pass

/-! ## What a visit sets -/

section Visit
variable (dramSupp : ℤ) (rd rd' : Readings) (core : Nat) (d : PerCpuData)

/-- A sample of the package counter leaves the first readings. -/
@[simp]
lemma samplePkg_powDramCInit (x : BitVec 32) :
    (samplePkg x d).powDramCInit = d.powDramCInit := by
  unfold samplePkg
  dsimp only
  split_ifs <;> rfl

@[simp]
lemma samplePkg_powPkgInit (x : BitVec 32) : (samplePkg x d).powPkgInit = d.powPkgInit := by
  unfold samplePkg
  dsimp only
  split_ifs <;> rfl

/-- So does one of the DRAM counter. -/
@[simp]
lemma sampleDram_powDramCInit (x : BitVec 32) :
    (sampleDram x d).powDramCInit = d.powDramCInit := by
  unfold sampleDram
  dsimp only
  split_ifs <;> rfl

@[simp]
lemma sampleDram_powPkgInit (x : BitVec 32) : (sampleDram x d).powPkgInit = d.powPkgInit := by
  unfold sampleDram
  dsimp only
  split_ifs <;> rfl

@[simp]
lemma sampleDram_powPkgFinal (x : BitVec 32) : (sampleDram x d).powPkgFinal = d.powPkgFinal := by
  unfold sampleDram
  dsimp only
  split_ifs <;> rfl

/-- The initial counts: the package counter always, the DRAM counter where there is one. -/
lemma initVisit_powPkgInit : (initVisit dramSupp rd core d).powPkgInit = pkgReading rd core := by
  unfold initVisit
  dsimp only
  split_ifs <;> rfl

/-- The first visit leaves its reading as the current one. -/
lemma initVisit_powPkg : (initVisit dramSupp rd core d).powPkg = pkgReading rd core := by
  unfold initVisit
  dsimp only
  split_ifs <;> rfl

/-- The first DRAM count, of a host that has one. -/
lemma initVisit_powDramCInit {dramSupp : ℤ} (hd : dramSupp = 1 ∨ dramSupp = 2) :
    (initVisit dramSupp rd core d).powDramCInit = dramReading rd core := by
  rcases hd with rfl | rfl <;> rfl

/-- Later visits leave the first readings. -/
lemma readVisit_inits :
    (readVisit dramSupp rd core d).powPkgInit = d.powPkgInit ∧
    (readVisit dramSupp rd core d).powDramCInit = d.powDramCInit := by
  unfold readVisit
  dsimp only
  constructor <;> split_ifs <;> simp

/-- So does the last one. -/
lemma finalVisit_inits :
    (finalVisit dramSupp rd core d).powPkgInit = d.powPkgInit ∧
    (finalVisit dramSupp rd core d).powDramCInit = d.powDramCInit := by
  unfold finalVisit
  dsimp only
  constructor <;> split_ifs <;> simp

/-- The last reading. -/
lemma finalVisit_powPkgFinal :
    (finalVisit dramSupp rd core d).powPkgFinal = pkgReading rd core := by
  unfold finalVisit
  dsimp only
  split_ifs <;> simp

/-- The final DRAM count is the reading only if `DRAM_SUPP` is `2`: with `1`, the `else` of the second
`if` sets it to zero again. -/
lemma finalVisit_powDramCFinal :
    (finalVisit dramSupp rd core d).powDramCFinal =
      if dramSupp = 2 then dramReading rd core else 0 := by
  unfold finalVisit
  dsimp only
  split_ifs <;> rfl

/-- The same in `powmpi`. -/
lemma mpiFinalVisit_powPkgFinal :
    (mpiFinalVisit dramSupp rd rd' core d).powPkgFinal = pkgReading rd core := by
  unfold mpiFinalVisit
  dsimp only
  split_ifs <;> simp

/-- Its DRAM count: the `else` of the second `if` counts. -/
lemma mpiFinalVisit_powDramCFinal :
    (mpiFinalVisit dramSupp rd rd' core d).powDramCFinal =
      if dramSupp = 2 then dramReading rd core else 0 := by
  unfold mpiFinalVisit
  dsimp only
  split_ifs <;> rfl

end Visit

end Powmon.Energy
