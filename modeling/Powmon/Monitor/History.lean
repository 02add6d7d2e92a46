import Powmon.Monitor.Run

/-!
# The counters of a slot

Every counter of `per_core_data` and `per_cpu_data` that the daemon differentiates: its two cells
(`latch`), what a pass reads into them (`reading`), and the field for their difference (`diff`).

* `passes_history`: a run of passes leaves, for every counter of a core, the readings of the last two
  passes, whatever `malloc` left in the slot;
* `passes_sum`: so the differences over any stretch of passes add up to the growth of the reading;
* `pushToBroker_diffs_iff`: `push_to_broker` stores the difference of every counter but a core's `C6`.
-/

namespace Powmon.Monitor
open Lib

/-! ## Counters of a core -/

/-- The counters of `per_core_data`. -/
inductive CoreCtr where
  | tsc
  | instr
  | clkCurr
  | clkRef
  | c3
  | c6
  | aperf
  | mperf
deriving DecidableEq

/-- The two cells of a counter. -/
def CoreCtr.latch : CoreCtr → PerCoreData → Latch (BitVec 64)
  | .tsc, d => ⟨d.tscLast, d.tsc⟩
  | .instr, d => ⟨d.instrLast, d.instr⟩
  | .clkCurr, d => ⟨d.clkCurrLast, d.clkCurr⟩
  | .clkRef, d => ⟨d.clkRefLast, d.clkRef⟩
  | .c3, d => ⟨d.c3Last, d.c3⟩
  | .c6, d => ⟨d.c6Last, d.c6⟩
  | .aperf, d => ⟨d.aperfLast, d.aperf⟩
  | .mperf, d => ⟨d.mperfLast, d.mperf⟩

/-- The `_diff` field of a counter. -/
def CoreCtr.diff : CoreCtr → PerCoreData → BitVec 64
  | .tsc, d => d.tscDiff
  | .instr, d => d.instrDiff
  | .clkCurr, d => d.clkCurrDiff
  | .clkRef, d => d.clkRefDiff
  | .c3, d => d.c3Diff
  | .c6, d => d.c6Diff
  | .aperf, d => d.aperfDiff
  | .mperf, d => d.mperfDiff

/-- What a pass reads for a counter on core `i`. -/
def CoreCtr.reading (rd : Readings) (i : Nat) : CoreCtr → BitVec 64
  | .tsc => rd.tsc i
  | .instr => rd.msr i .corePerfFixedCtr0
  | .clkCurr => rd.msr i .corePerfFixedCtr1
  | .clkRef => rd.msr i .corePerfFixedCtr2
  | .c3 => rd.msr i .coreC3Residency
  | .c6 => rd.msr i .coreC6Residency
  | .aperf => rd.msr i .aperf
  | .mperf => rd.msr i .mperf

/-- The difference of the two cells, in the machine's arithmetic. -/
def delta {w : Nat} (l : Latch (BitVec w)) : BitVec w := l.cur - l.last

/-- A sample of a core is a sample of each counter. -/
lemma CoreCtr.sample (κ : CoreCtr) (dieTemp : BitVec 32) (rd : Readings) (i : Nat)
    (d : PerCoreData) :
    κ.latch (sampleCore dieTemp rd i d) = (κ.latch d).sample (κ.reading rd i) := by
  cases κ <;> rfl

/-- Computing the differences leaves the readings of a core. -/
lemma CoreCtr.keep (κ : CoreCtr) (h : Host) (nomFreq dT : Fl) (l : Locals) (d : PerCoreData) :
    κ.latch (coreDiffs h nomFreq dT l d) = κ.latch d := by
  unfold coreDiffs
  dsimp only
  cases κ <;> split_ifs <;> rfl

/-- With the extra counters, every difference but that of `C6` is stored. -/
lemma CoreCtr.diff_coreDiffs {κ : CoreCtr} (hκ : κ ≠ .c6) {h : Host} (hx : h.extraCounters = 1)
    (nomFreq dT : Fl) (l : Locals) (d : PerCoreData) :
    κ.diff (coreDiffs h nomFreq dT (coreLocals h d l) d) = delta (κ.latch d) := by
  unfold coreDiffs coreLocals
  dsimp only
  rw [if_pos hx, if_pos hx]
  cases κ with
  | c6 => exact absurd rfl hκ
  | _ => rfl

/-- The field `C6_diff` of a core is never stored. -/
lemma coreDiffs_c6Diff (h : Host) (nomFreq dT : Fl) (l : Locals) (d : PerCoreData) :
    (coreDiffs h nomFreq dT l d).c6Diff = d.c6Diff := by
  unfold coreDiffs
  dsimp only
  split_ifs <;> rfl

/-! ## Runs of passes -/

/-- Step `0` is `read_msr_data_first`, step `k + 1` a call of `read_msr_data`. -/
def passStep (env : Nat → Readings) : Nat → SysData → SysData
  | 0 => readMsrDataFirst (env 0)
  | k + 1 => readMsrData (env (k + 1))

/-- The state after `read_msr_data_first` and `n` calls of `read_msr_data`. -/
def passes (env : Nat → Readings) (s : SysData) : Nat → SysData := runs (passStep env) s

@[simp]
lemma passStep_host (env : Nat → Readings) (k : Nat) (s : SysData) :
    (passStep env k s).host = s.host := by
  cases k with
  | zero => exact readMsrDataFirst_host (env 0) s
  | succ k => exact readMsrData_host (env (k + 1)) s

/-- A pass samples every counter of a core. -/
lemma passStep_coreLatch (env : Nat → Readings) (k : Nat) {s : SysData} {i : Nat} (hi : i < s.ncore)
    (κ : CoreCtr) :
    κ.latch ((passStep env k s).coreData i) =
      (κ.latch (s.coreData i)).sample (κ.reading (env k) i) := by
  have pass := readMsrData_coreData κ.latch (fun l => l.sample (κ.reading (env k) i))
    (fun dieTemp d => κ.sample dieTemp (env k) i d) hi
  cases k with
  | zero => exact pass
  | succ k => exact pass

/-- After a call of `read_msr_data` a core's counter holds the readings of the last two passes. -/
lemma passes_coreLatch (env : Nat → Readings) (s : SysData) {i : Nat} (hi : i < s.ncore)
    (κ : CoreCtr) (k : Nat) :
    κ.latch ((passes env s (k + 1)).coreData i) =
      ⟨κ.reading (env k) i, κ.reading (env (k + 1)) i⟩ := by
  refine runs_latch (fun t => t.host = s.host) rfl (fun k t ht => (passStep_host env k t).trans ht)
    (fun t => κ.latch (t.coreData i)) (fun k => κ.reading (env k) i) ?_ k
  intro k t ht
  exact passStep_coreLatch env k (lt_of_lt_of_eq hi (congrArg Host.ncore ht).symm) κ

/-- Per-core history: after `read_msr_data_first` and `n` calls of `read_msr_data`, every counter of
every core holds the reading of pass `n` and, in its `_last` cell, that of pass `n - 1`. The
differences over any `n` consecutive passes add up to the last reading minus the first. -/
theorem passes_history (env : Nat → Readings) (s : SysData) {i : Nat} (hi : i < s.ncore)
    (κ : CoreCtr) :
    (∀ n, 1 ≤ n → κ.latch ((passes env s n).coreData i) =
      ⟨κ.reading (env (n - 1)) i, κ.reading (env n) i⟩) ∧
    ∀ a n, ∑ k ∈ Finset.range n, delta (κ.latch ((passes env s (a + k + 1)).coreData i)) =
      κ.reading (env (a + n)) i - κ.reading (env a) i := by
  constructor
  · intro n hn
    obtain ⟨k, rfl⟩ := Nat.exists_eq_add_of_le' hn
    exact passes_coreLatch env s hi κ k
  · intro a n
    have tick : ∀ k, delta (κ.latch ((passes env s (a + k + 1)).coreData i)) =
        κ.reading (env (a + (k + 1))) i - κ.reading (env (a + k)) i := by
      intro k
      rw [passes_coreLatch env s hi κ (a + k)]
      rfl
    calc ∑ k ∈ Finset.range n, delta (κ.latch ((passes env s (a + k + 1)).coreData i))
        = ∑ k ∈ Finset.range n, (κ.reading (env (a + (k + 1))) i - κ.reading (env (a + k)) i) :=
          Finset.sum_congr rfl fun k _ => tick k
      _ = κ.reading (env (a + n)) i - κ.reading (env a) i :=
          Finset.sum_range_sub (fun k => κ.reading (env (a + k)) i) n

/-- Two cores whose time-stamp counters run at different speeds. -/
theorem passes_history_tsc :
    let env := fun k => { msr := fun _ _ => 0, tsc := fun i => BitVec.ofNat 64 (100 * k + i) }
    ∑ k ∈ Finset.range 7, delta (CoreCtr.tsc.latch
      ((passes env { initPowMon with ncpu := 1, ncore := 2 } (3 + k + 1)).coreData 1)) = 700 :=
  ((passes_history _ { initPowMon with ncpu := 1, ncore := 2 } (i := 1) (by decide) .tsc).2 3 7).trans
    (by decide)

/-! ## Counters of a package -/

/-- The counters of `per_cpu_data`. -/
inductive CpuCtr where
  | powPkg
  | powDramC
  | uclk
  | c2
  | c3
  | c6
deriving DecidableEq

/-- The energy counters are kept in an `unsigned int`. -/
def CpuCtr.width : CpuCtr → Nat
  | .powPkg | .powDramC => 32
  | .uclk | .c2 | .c3 | .c6 => 64

/-- The two cells of a counter. -/
def CpuCtr.latch : (κ : CpuCtr) → PerCpuData → Latch (BitVec κ.width)
  | .powPkg, d => ⟨d.powPkgLast, d.powPkg⟩
  | .powDramC, d => ⟨d.powDramCLast, d.powDramC⟩
  | .uclk, d => ⟨d.uclkLast, d.uclk⟩
  | .c2, d => ⟨d.c2Last, d.c2⟩
  | .c3, d => ⟨d.c3Last, d.c3⟩
  | .c6, d => ⟨d.c6Last, d.c6⟩

/-- The `_diff` field of a counter. -/
def CpuCtr.diff : CpuCtr → PerCpuData → BitVec 64
  | .powPkg, d => d.powPkgDiff
  | .powDramC, d => d.powDramCDiff
  | .uclk, d => d.uclkDiff
  | .c2, d => d.c2Diff
  | .c3, d => d.c3Diff
  | .c6, d => d.c6Diff

/-- The hosts on which the daemon reads a counter, `extra_counters` being set. -/
def CpuCtr.Read (h : Host) : CpuCtr → Prop
  | .powDramC => h.dramSupp = 1
  | .uclk => h.cpuModel = haswellEp
  | _ => True

/-- It leaves those of a package, too. -/
lemma CpuCtr.keep (κ : CpuCtr) (h : Host) (dT : Fl) (d : PerCpuData) :
    κ.latch (cpuDiffs h dT d) = κ.latch d := by
  unfold cpuDiffs
  dsimp only
  cases κ <;> split_ifs <;> rfl

/-- With the extra counters, the difference of every counter that is read is stored. -/
lemma CpuCtr.diff_cpuDiffs {κ : CpuCtr} {h : Host} (hx : h.extraCounters = 1) (hκ : κ.Read h)
    (dT : Fl) (d : PerCpuData) :
    κ.diff (cpuDiffs h dT d) = (delta (κ.latch d)).setWidth 64 := by
  unfold cpuDiffs
  dsimp only
  rw [if_pos hx]
  cases κ with
  | powDramC =>
    rw [if_pos (show h.dramSupp = 1 from hκ)]
    split_ifs <;> rfl
  | uclk =>
    rw [if_pos (show h.cpuModel = haswellEp from hκ)]
    split_ifs <;> exact (BitVec.setWidth_eq _).symm
  | powPkg => split_ifs <;> rfl
  | _ => split_ifs <;> exact (BitVec.setWidth_eq _).symm

/-! ## What publishing stores -/

/-- `push_to_broker` leaves the readings of a core. -/
lemma pushToBroker_coreLatch (stk : Locals) (s : SysData) {i : Nat} (hi : i < s.ncore)
    (κ : CoreCtr) :
    κ.latch ((pushToBroker stk s).sysd.coreData i) = κ.latch (s.coreData i) :=
  pushToBroker_coreData stk s κ.latch id (fun _ d => κ.keep _ _ _ _ d) hi

/-- It stores the difference of two readings, but for `C6`. -/
lemma pushToBroker_coreDiff (stk : Locals) {s : SysData} (hx : s.extraCounters = 1) {i : Nat}
    (hi : i < s.ncore) {κ : CoreCtr} (hκ : κ ≠ .c6) :
    κ.diff ((pushToBroker stk s).sysd.coreData i) = delta (κ.latch (s.coreData i)) := by
  -- the cells and the difference together, since the difference is read off the cells
  have pair := pushToBroker_coreData stk s (fun d => (κ.latch d, κ.diff d))
    (fun x => (x.1, delta x.1))
    (fun l d => Prod.ext (κ.keep _ _ _ _ d) (CoreCtr.diff_coreDiffs hκ hx _ _ l d)) hi
  exact congrArg Prod.snd pair

/-- The difference of `C6` is never stored. -/
lemma pushToBroker_c6Diff (stk : Locals) (s : SysData) {i : Nat} (hi : i < s.ncore) :
    ((pushToBroker stk s).sysd.coreData i).c6Diff = (s.coreData i).c6Diff :=
  pushToBroker_coreData stk s PerCoreData.c6Diff id (fun _ d => coreDiffs_c6Diff _ _ _ _ d) hi

/-- Every difference matches its counter, and no counter has been changed. -/
structure DiffsStored (s t : SysData) : Prop where
  core : ∀ i < s.ncore, ∀ κ : CoreCtr, κ.diff (t.coreData i) = delta (κ.latch (s.coreData i))
  cpu : ∀ p < s.ncpu, ∀ κ : CpuCtr, κ.Read s.host →
    κ.diff (t.cpuData p) = (delta (κ.latch (s.cpuData p))).setWidth 64
  coreLatch : ∀ i < s.ncore, ∀ κ : CoreCtr, κ.latch (t.coreData i) = κ.latch (s.coreData i)
  cpuLatch : ∀ p < s.ncpu, ∀ κ : CpuCtr, κ.latch (t.cpuData p) = κ.latch (s.cpuData p)

/-- `push_to_broker` stores the difference of every counter exactly if the `C6_diff` of every core
held it beforehand: the core loop stores `C3_diff` twice. -/
theorem pushToBroker_diffs_iff (stk : Locals) (s : SysData) (hx : s.extraCounters = 1) :
    DiffsStored s (pushToBroker stk s).sysd ↔
      ∀ i < s.ncore, (s.coreData i).c6Diff = (s.coreData i).c6 - (s.coreData i).c6Last := by
  constructor
  · intro stored i hi
    rw [← pushToBroker_c6Diff stk s hi]
    exact stored.core i hi .c6
  · intro held
    refine ⟨?_, ?_, fun i hi κ => pushToBroker_coreLatch stk s hi κ, ?_⟩
    · intro i hi κ
      cases κ with
      | c6 => exact (pushToBroker_c6Diff stk s hi).trans (held i hi)
      | _ => exact pushToBroker_coreDiff stk hx hi (by decide)
    · intro p hp κ hκ
      rw [pushToBroker_cpuData stk s hp]
      exact CpuCtr.diff_cpuDiffs hx hκ s.dT _
    · intro p hp κ
      rw [pushToBroker_cpuData stk s hp]
      exact κ.keep s.host s.dT _

/-- A core whose `C6` went from `2` to `5`. -/
def c6Core : SysData :=
  { initPowMon with
    ncpu := 1
    ncore := 1
    coreData := fun _ => { (default : PerCoreData) with c6Last := 2, c6 := 5 } }

/-- Its `C6_diff` stays at what `malloc` left there. -/
theorem pushToBroker_diffs_c6 : ¬ DiffsStored c6Core (pushToBroker default c6Core).sysd := by
  intro stored
  have e := stored.core 0 (by decide) .c6
  have kept : CoreCtr.c6.diff ((pushToBroker default c6Core).sysd.coreData 0) = 0 :=
    pushToBroker_c6Diff default c6Core (i := 0) (by decide)
  exact absurd (kept.symm.trans e) (by decide)

/-- The condition holds where the field already has the difference. -/
theorem pushToBroker_diffs_held :
    let s := { c6Core with
      coreData := fun _ => { c6Core.coreData 0 with c6Diff := 3 } }
    DiffsStored s (pushToBroker default s).sysd := by
  intro s
  refine (pushToBroker_diffs_iff default s rfl).mpr ?_
  intro i _
  show (3 : BitVec 64) = 5 - 2
  rfl

end Powmon.Monitor
