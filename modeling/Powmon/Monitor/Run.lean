import Powmon.Lib.Counter
import Powmon.Monitor.Push

/-!
# Runs of the daemon

A run is the start-up pass `read_msr_data_first` followed by ticks of `samp_handler`
(`monitorRun env s k` is the state after `k` ticks; `env` says what each pass reads).

The daemon keeps every counter in two cells, the value of the previous pass and the current one.
`CpuCounter` and `FixedCtr` say so for one counter: which cells (`latch`), which register (`reading`,
`reg`), that a visit shifts the cells (`sample`) and that publishing leaves them alone (`keep`).
From these two facts about one step follows what the cells, and the difference `push_to_broker` stores
for them, hold in every state of a run:

* `monitorRun_coreLatch`: for a core, the readings of the last two passes;
* `monitorRun_cpuLatch`: the same for a package, with two packages or more;
* `monitorRun_cpuLast_single`: with a single package, two readings of the *same* pass.
-/

namespace Powmon.Monitor
open Lib

/-! ## Runs -/

/-- Step `0` is the start-up pass, step `k + 1` a tick. -/
def monitorStep (env : Nat → Tick) : Nat → SysData → SysData
  | 0, s => readMsrDataFirst (env 0).rd s
  | k + 1, s => (sampHandler (env (k + 1)) s).sysd

/-- The state after the start-up pass and `k` ticks. -/
def monitorRun (env : Nat → Tick) (s : SysData) : Nat → SysData := runs (monitorStep env) s

/-- A tick leaves what is known of the host. -/
@[simp]
lemma sampHandler_host (t : Tick) (s : SysData) : (sampHandler t s).sysd.host = s.host := by
  rw [sampHandler, pushToBroker_host, readMsrData_host]
  rfl

@[simp]
lemma monitorStep_host (env : Nat → Tick) (k : Nat) (s : SysData) :
    (monitorStep env k s).host = s.host := by
  cases k with
  | zero => exact readMsrDataFirst_host ..
  | succ k => exact sampHandler_host ..

/-- So do all of them. -/
lemma monitorRun_host (env : Nat → Tick) (s : SysData) (k : Nat) :
    (monitorRun env s k).host = s.host :=
  runs_inv (fun t => t.host = s.host) rfl (fun k t ht => (monitorStep_host env k t).trans ht) k

/-- A tick passes over the slot of a package, then stores the differences there. -/
lemma sampHandler_cpuData (t : Tick) (s : SysData) {p : Nat} (hp : p < s.ncpu) :
    ∃ dT, (sampHandler t s).sysd.cpuData p =
      cpuDiffs s.host dT ((readMsrData t.rd { s with tmpstr := getTimestamp t.tv }).cpuData p) := by
  set s' := readMsrData t.rd { s with tmpstr := getTimestamp t.tv } with hs'
  have hh : s'.host = s.host := readMsrData_host t.rd _
  have hp' : p < s'.ncpu := lt_of_lt_of_eq hp (congrArg Host.ncpu hh).symm
  refine ⟨s'.dT, ?_⟩
  rw [sampHandler, ← hs', pushToBroker_cpuData _ _ hp', hh]

/-- A part `π` of a core's slot that a pass changes by `g` and publishing does not change. -/
lemma sampHandler_coreData {α : Type*} (t : Tick) (s : SysData) (π : PerCoreData → α) (g : α → α)
    {i : Nat} (hi : i < s.ncore) (hg : ∀ dieTemp d, π (sampleCore dieTemp t.rd i d) = g (π d))
    (hk : ∀ nomFreq dT l d, π (coreDiffs s.host nomFreq dT l d) = π d) :
    π ((sampHandler t s).sysd.coreData i) = g (π (s.coreData i)) := by
  set s' := readMsrData t.rd { s with tmpstr := getTimestamp t.tv } with hs'
  have hh : s'.host = s.host := readMsrData_host t.rd _
  have hi' : i < s'.ncore := lt_of_lt_of_eq hi (congrArg Host.ncore hh).symm
  have keep : π ((sampHandler t s).sysd.coreData i) = π (s'.coreData i) := by
    rw [sampHandler, ← hs']
    refine pushToBroker_coreData t.stk s' π id ?_ hi'
    rw [hh]
    exact fun l d => hk s'.nomFreq s'.dT _ d
  rw [keep]
  exact readMsrData_coreData π g hg hi

/-! ## Counters of a package -/

/-- A counter that a visit samples into two cells of a package's slot. -/
structure CpuCounter (h : Host) (w : Nat) where
  latch : PerCpuData → Latch (BitVec w)
  reading : Readings → Nat → BitVec w
  sample : ∀ dieTemp rd core d,
    latch (sampleCpu h dieTemp rd core d) = (latch d).sample (reading rd core)
  keep : ∀ dT d, latch (cpuDiffs h dT d) = latch d
  diff : PerCpuData → BitVec 64
  diff_eq : ∀ dT d, diff (cpuDiffs h dT d) = ((latch d).cur - (latch d).last).setWidth 64

/-- `powPkg_last` and `powPkg`. -/
def pkgCounter (h : Host) : CpuCounter h 32 where
  latch d := ⟨d.powPkgLast, d.powPkg⟩
  reading rd core := (rd.msr core .pkgEnergyStatus).setWidth 32
  sample dieTemp rd core d := by
    unfold sampleCpu
    dsimp only
    split_ifs <;> rfl
  keep dT d := by
    unfold cpuDiffs
    dsimp only
    split_ifs <;> rfl
  diff := PerCpuData.powPkgDiff
  diff_eq dT d := by
    unfold cpuDiffs
    dsimp only
    split_ifs <;> rfl

/-- `powDramC_last` and `powDramC`, which are a pair only if `DRAM_SUPP` is `1`. -/
def dramCounter {h : Host} (hd : h.dramSupp = 1) : CpuCounter h 32 where
  latch d := ⟨d.powDramCLast, d.powDramC⟩
  reading rd core := (rd.msr core .dramEnergyStatus).setWidth 32
  sample dieTemp rd core d := by
    unfold sampleCpu
    dsimp only
    rw [if_pos hd]
    split_ifs <;> rfl
  keep dT d := by
    unfold cpuDiffs
    dsimp only
    split_ifs <;> rfl
  diff := PerCpuData.powDramCDiff
  diff_eq dT d := by
    unfold cpuDiffs
    dsimp only
    rw [if_pos hd]
    split_ifs <;> rfl

/-- `uclk_last` and `uclk`, read on Haswell-EP. -/
def uclkCounter {h : Host} (hx : h.extraCounters = 1) (hm : h.cpuModel = haswellEp) :
    CpuCounter h 64 where
  latch d := ⟨d.uclkLast, d.uclk⟩
  reading rd core := rd.msr core .uMsrPmonUclkFixedCtr
  sample dieTemp rd core d := by
    unfold sampleCpu
    dsimp only
    rw [if_pos hx, if_pos hm]
    split_ifs <;> rfl
  keep dT d := by
    unfold cpuDiffs
    dsimp only
    split_ifs <;> rfl
  diff := PerCpuData.uclkDiff
  diff_eq dT d := by
    rw [BitVec.setWidth_eq]
    unfold cpuDiffs
    dsimp only
    rw [if_pos hx, if_pos hm]
    split_ifs <;> rfl

section Package
variable {w : Nat} (env : Nat → Tick) {s : SysData} (κ : CpuCounter s.host w)

/-- A step samples the counter of a package at each of its visits. -/
lemma monitorStep_cpuLatch {p : Nat} (hp : p < s.ncpu) (k : Nat) {t : SysData}
    (ht : t.host = s.host) :
    κ.latch ((monitorStep env k t).cpuData p) =
      visits s.ncpu s.ncore p (fun core l => l.sample (κ.reading (env k).rd core))
        (κ.latch (t.cpuData p)) := by
  have hn : t.ncpu = s.ncpu := congrArg Host.ncpu ht
  have hc : t.ncore = s.ncore := congrArg Host.ncore ht
  -- both kinds of step run the same pass; `t'` is the state it starts from
  have pass : ∀ t' : SysData, t'.host = s.host →
      κ.latch ((readMsrData (env k).rd t').cpuData p) =
        visits t'.ncpu t'.ncore p (fun core l => l.sample (κ.reading (env k).rd core))
          (κ.latch (t'.cpuData p)) := by
    intro t' ht'
    refine readMsrData_cpuData κ.latch _ ?_ p
    rw [ht']
    exact fun dieTemp core d => κ.sample dieTemp (env k).rd core d
  rw [← hn, ← hc]
  cases k with
  | zero => exact pass t ht
  | succ k =>
    obtain ⟨dT, e⟩ := sampHandler_cpuData (env (k + 1)) t (hn ▸ hp)
    rw [monitorStep, e, ht, κ.keep]
    exact pass { t with tmpstr := getTimestamp (env (k + 1)).tv } ht

/-- With two packages or more, the cells hold the readings of the last two passes, whatever they
held at the start. -/
lemma monitorRun_cpuLatch {c core : Nat} (hcpu : 2 ≤ s.ncpu) (hc : 1 ≤ c)
    (hn : s.ncore = s.ncpu * c) (hcore : core < s.ncore) (hs : SampledOn s.ncore core) (k : Nat) :
    κ.latch ((monitorRun env s (k + 1)).cpuData (packageOf s.ncpu s.ncore core)) =
      ⟨κ.reading (env k).rd core, κ.reading (env (k + 1)).rd core⟩ := by
  have hp : packageOf s.ncpu s.ncore core < s.ncpu := packageOf_lt hcore (by omega)
  refine runs_latch (fun t => t.host = s.host) rfl (fun k t ht => (monitorStep_host env k t).trans ht)
    (fun t => κ.latch (t.cpuData (packageOf s.ncpu s.ncore core)))
    (fun k => κ.reading (env k).rd core) ?_ k
  intro k t ht
  rw [monitorStep_cpuLatch env κ hp k ht, hn]
  exact visits_multi hcpu hc (hn ▸ hs) _ _

/-- With a single package, a pass shifts the cells on core `0` and, if there is one, again on core
`NCORE/2`. -/
lemma monitorStep_cpuLatch_single (hcpu : s.ncpu = 1) (hn : 1 ≤ s.ncore) (k : Nat) {t : SysData}
    (ht : t.host = s.host) :
    κ.latch ((monitorStep env k t).cpuData 0) =
      ⟨if s.ncore = 1 then (κ.latch (t.cpuData 0)).cur else κ.reading (env k).rd 0,
        κ.reading (env k).rd (s.ncore / 2)⟩ := by
  rw [monitorStep_cpuLatch env κ (by omega) k ht, hcpu, visits_single (by omega)]
  by_cases h1 : s.ncore = 1
  · rw [if_pos h1, if_pos h1, h1]
    rfl
  · rw [if_neg h1, if_neg h1]
    rfl

/-- What a tick publishes from, with a single package, is the reading of core `NCORE/2`. -/
lemma monitorRun_cpuCur_single (hcpu : s.ncpu = 1) (hn : 1 ≤ s.ncore) (k : Nat) :
    (κ.latch ((monitorRun env s k).cpuData 0)).cur = κ.reading (env k).rd (s.ncore / 2) := by
  cases k with
  | zero =>
    have e := monitorStep_cpuLatch_single env κ hcpu hn 0 rfl
    exact congrArg Latch.cur e
  | succ k =>
    have e := monitorStep_cpuLatch_single env κ hcpu hn (k + 1) (monitorRun_host env s k)
    exact congrArg Latch.cur e

/-- What a tick subtracts, with a single package: the reading of core `0` in the *same* pass, unless
there is only one core. -/
lemma monitorRun_cpuLast_single (hcpu : s.ncpu = 1) (hn : 1 ≤ s.ncore) (k : Nat) :
    (κ.latch ((monitorRun env s (k + 1)).cpuData 0)).last =
      if s.ncore = 1 then κ.reading (env k).rd (s.ncore / 2) else κ.reading (env (k + 1)).rd 0 := by
  have e := monitorStep_cpuLatch_single env κ hcpu hn (k + 1) (monitorRun_host env s k)
  rw [monitorRun_cpuCur_single env κ hcpu hn k] at e
  exact congrArg Latch.last e

/-- After a tick, the difference stored for a package is that of its two cells. -/
lemma monitorRun_cpuDiff {p : Nat} (hp : p < s.ncpu) (k : Nat) :
    κ.diff ((monitorRun env s (k + 1)).cpuData p) =
      ((κ.latch ((monitorRun env s (k + 1)).cpuData p)).cur -
        (κ.latch ((monitorRun env s (k + 1)).cpuData p)).last).setWidth 64 := by
  have hh := monitorRun_host env s k
  have hp' : p < (monitorRun env s k).ncpu := lt_of_lt_of_eq hp (congrArg Host.ncpu hh).symm
  obtain ⟨dT, e⟩ := sampHandler_cpuData (env (k + 1)) (monitorRun env s k) hp'
  have e' : (monitorRun env s (k + 1)).cpuData p = _ := e
  rw [e', hh, κ.diff_eq, κ.keep]

end Package

/-! ## Counters of a core -/

/-- The fixed counters of a core. -/
inductive FixedCtr where
  | instr
  | clkCurr
  | clkRef
deriving DecidableEq

/-- The register of a fixed counter. -/
def FixedCtr.reg : FixedCtr → Msr
  | .instr => .corePerfFixedCtr0
  | .clkCurr => .corePerfFixedCtr1
  | .clkRef => .corePerfFixedCtr2

/-- The two cells of a fixed counter. -/
def FixedCtr.latch : FixedCtr → PerCoreData → Latch (BitVec 64)
  | .instr, d => ⟨d.instrLast, d.instr⟩
  | .clkCurr, d => ⟨d.clkCurrLast, d.clkCurr⟩
  | .clkRef, d => ⟨d.clkRefLast, d.clkRef⟩

/-- The difference `push_to_broker` stores for a fixed counter. -/
def FixedCtr.diff : FixedCtr → PerCoreData → BitVec 64
  | .instr, d => d.instrDiff
  | .clkCurr, d => d.clkCurrDiff
  | .clkRef, d => d.clkRefDiff

/-- A sample of a core is a sample of each counter. -/
lemma FixedCtr.sample (κ : FixedCtr) (dieTemp : BitVec 32) (rd : Readings) (core : Nat)
    (d : PerCoreData) :
    κ.latch (sampleCore dieTemp rd core d) = (κ.latch d).sample (rd.msr core κ.reg) := by
  cases κ <;> rfl

/-- Computing the differences leaves the readings. -/
lemma FixedCtr.keep (κ : FixedCtr) (h : Host) (nomFreq dT : Fl) (l : Locals) (d : PerCoreData) :
    κ.latch (coreDiffs h nomFreq dT l d) = κ.latch d := by
  unfold coreDiffs
  dsimp only
  cases κ <;> split_ifs <;> rfl

/-- The difference that is stored is that of the two readings. -/
lemma FixedCtr.diff_coreDiffs (κ : FixedCtr) (h : Host) (nomFreq dT : Fl) (l : Locals)
    (d : PerCoreData) :
    κ.diff (coreDiffs h nomFreq dT l d) = (κ.latch d).cur - (κ.latch d).last := by
  unfold coreDiffs
  dsimp only
  cases κ <;> split_ifs <;> rfl

section Core
variable {env : Nat → Tick} {s : SysData} (κ : FixedCtr) {core : Nat}

/-- A step samples the counter of a core once. -/
lemma monitorStep_coreLatch (hcore : core < s.ncore) (k : Nat) {t : SysData}
    (ht : t.host = s.host) :
    κ.latch ((monitorStep env k t).coreData core) =
      (κ.latch (t.coreData core)).sample ((env k).rd.msr core κ.reg) := by
  have hc : core < t.ncore := lt_of_lt_of_eq hcore (congrArg Host.ncore ht).symm
  have hg : ∀ dieTemp d, κ.latch (sampleCore dieTemp (env k).rd core d) =
      (κ.latch d).sample ((env k).rd.msr core κ.reg) :=
    fun dieTemp d => κ.sample dieTemp (env k).rd core d
  cases k with
  | zero => exact readMsrData_coreData κ.latch (fun l => l.sample _) hg hc
  | succ k => exact sampHandler_coreData _ t κ.latch (fun l => l.sample _) hc hg (κ.keep t.host)

/-- The cells of a core's counter hold the readings of the last two passes. -/
lemma monitorRun_coreLatch (hcore : core < s.ncore) (k : Nat) :
    κ.latch ((monitorRun env s (k + 1)).coreData core) =
      ⟨(env k).rd.msr core κ.reg, (env (k + 1)).rd.msr core κ.reg⟩ := by
  refine runs_latch (fun t => t.host = s.host) rfl (fun k t ht => (monitorStep_host env k t).trans ht)
    (fun t => κ.latch (t.coreData core)) (fun k => (env k).rd.msr core κ.reg) ?_ k
  exact fun k t ht => monitorStep_coreLatch κ hcore k ht

/-- After a tick, the difference stored for a core's counter is that of its two cells. -/
lemma monitorRun_coreDiff (hcore : core < s.ncore) (k : Nat) :
    κ.diff ((monitorRun env s (k + 1)).coreData core) =
      (env (k + 1)).rd.msr core κ.reg - (env k).rd.msr core κ.reg := by
  set t := monitorRun env s k
  set t' := readMsrData (env (k + 1)).rd { t with tmpstr := getTimestamp (env (k + 1)).tv } with ht'
  have hh : t.host = s.host := monitorRun_host env s k
  have hc : core < t'.ncore := by
    have e : t'.host = t.host := readMsrData_host _ _
    exact lt_of_lt_of_eq hcore (congrArg Host.ncore (e.trans hh)).symm
  -- the cells and the difference together, since the difference is read off the cells
  have pair := pushToBroker_coreData (env (k + 1)).stk t' (fun d => (κ.latch d, κ.diff d))
    (fun x => (x.1, x.1.cur - x.1.last))
    (fun _ d => Prod.ext (κ.keep _ _ _ _ d) (κ.diff_coreDiffs _ _ _ _ d)) hc
  have cells := congrArg Prod.fst pair
  have e : κ.latch (t'.coreData core) = _ := cells.symm.trans (monitorRun_coreLatch κ hcore k)
  rw [show κ.diff ((monitorRun env s (k + 1)).coreData core) = _ from congrArg Prod.snd pair]
  simp only [e]

end Core

end Powmon.Monitor
