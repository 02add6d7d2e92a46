import Powmon.Lib.Store
import Powmon.Monitor.Sample

/-!
# What the daemon writes to the machine

`program_msr` of `powmon/bin/sensor_read_lib.c` and the register writes of the sampling passes. The
daemon runs as root on `/dev/cpu/*/msr`, so its footprint on the machine is a result of its own:
`daemonRun_footprint`.

A machine is the contents of every register of every core (`Registers`). The two control registers
hold what was last written to them; the counters are the hardware's, so that a pass reads a control
register from the machine and anything else from the environment (`view`). The pass on a machine is
the pass of `Monitor/Sample.lean` with that reading of the control registers (`machinePass_sysd`).
-/

namespace Powmon.Monitor
open Lib

/-- The contents of the registers. -/
abbrev Registers := Nat × Msr → BitVec 64

/-- The cell a write goes to, and what it stores there. -/
def writeEntry (w : MsrWrite) : (Nat × Msr) × BitVec 64 := ((w.core, w.reg), w.value)

/-- The registers after a log of writes. -/
def registers (m : Registers) (log : List MsrWrite) : Registers := contents m (log.map writeEntry)

/-- What a pass reads: the control registers from the machine, the counters from the hardware. -/
def view (m : Registers) (rd : Readings) : Readings where
  tsc := rd.tsc
  msr core
    | .corePerfFixedCtrCtrl => m (core, .corePerfFixedCtrCtrl)
    | .uMsrPmonUclkFixedCtl => m (core, .uMsrPmonUclkFixedCtl)
    | reg => rd.msr core reg

/-- One iteration of the loop of `program_msr`, on the writes so far. Its `cpuid` is not used. -/
def programMsrBody (m : Registers) (s : SysData) (core : Nat) (log : List MsrWrite) :
    List MsrWrite :=
  if SampledOn s.ncore core then
    if s.cpuModel = haswellEp then
      log ++ [⟨core, .uMsrPmonUclkFixedCtl,
        registers m log (core, .uMsrPmonUclkFixedCtl) ||| 0x400000⟩]
    else log
  else log

/-- `program_msr`. -/
def programMsr (m : Registers) (s : SysData) : List MsrWrite :=
  forLoop s.ncore (programMsrBody m s) []

/-- `read_msr_data` and `read_msr_data_first` on a machine that has seen the writes of `st`. -/
def machinePass (m : Registers) (rd : Readings) (st : PassState) : PassState :=
  forLoop st.sysd.ncore
    (fun core st => passBody (view (registers m st.writes) rd) core st) { st with cpuid := 0 }

/-- `program_msr`, `read_msr_data_first` and `n` calls of `read_msr_data`. -/
def daemonRun (m : Registers) (env : Nat → Readings) (s : SysData) : Nat → PassState :=
  runs (fun k => machinePass m (env k)) ⟨s, 0, programMsr m s⟩

/-! ## The passes -/

/-- What an iteration leaves in the daemon's record does not depend on the control registers. -/
lemma passBody_view (m : Registers) (rd : Readings) (core : Nat) {st st' : PassState}
    (hs : st.sysd = st'.sysd) (hc : st.cpuid = st'.cpuid) :
    (passBody (view m rd) core st).sysd = (passBody rd core st').sysd ∧
      (passBody (view m rd) core st).cpuid = (passBody rd core st').cpuid := by
  obtain ⟨s, c, log⟩ := st
  obtain ⟨s', c', log'⟩ := st'
  cases hs
  cases hc
  unfold passBody sampleEachCore
  dsimp only
  split
  · exact ⟨rfl, rfl⟩
  · exact ⟨rfl, rfl⟩

/-- On a machine, a pass does to the daemon's record what it does without one. -/
lemma machinePass_sysd (m : Registers) (rd : Readings) (st : PassState) :
    (machinePass m rd st).sysd = readMsrData rd st.sysd := by
  have lockstep := forLoop_rel (n := st.sysd.ncore) (s := { st with cpuid := 0 })
    (t := ⟨st.sysd, 0, []⟩) (g := passBody rd)
    (f := fun core st => passBody (view (registers m st.writes) rd) core st)
    (fun _ a b => a.sysd = b.sysd ∧ a.cpuid = b.cpuid) ⟨rfl, rfl⟩
    (fun core _ _ _ h => passBody_view _ rd core h.1 h.2)
  exact lockstep.1

/-- A run leaves what is known of the host. -/
lemma daemonRun_host (m : Registers) (env : Nat → Readings) (s : SysData) (n : Nat) :
    (daemonRun m env s n).sysd.host = s.host := by
  refine runs_inv (fun st : PassState => st.sysd.host = s.host) rfl ?_ n
  intro k st h
  rw [machinePass_sysd, readMsrData_host, h]

/-- An iteration writes to one register: `MSR_CORE_PERF_FIXED_CTR_CTRL` of its core. -/
lemma passBody_writes (rd : Readings) (core : Nat) (st : PassState) :
    (passBody rd core st).writes = st.writes ++
      [⟨core, .corePerfFixedCtrCtrl, rd.msr core .corePerfFixedCtrCtrl ||| 0x0333⟩] := by
  unfold passBody sampleEachCore
  split <;> rfl

/-! ## Only bits are set -/

/-- The bits the daemon sets in a register. -/
def enableBits : Nat × Msr → BitVec 64
  | (_, .corePerfFixedCtrCtrl) => 0x0333
  | (_, .uMsrPmonUclkFixedCtl) => 0x400000
  | _ => 0

/-- A log of writes which set the bits of `enableBits`. -/
def SetsEnableBits (m : Registers) (log : List MsrWrite) : Prop :=
  SetsBits enableBits m (log.map writeEntry)

/-- One more write that sets the enable bits. -/
lemma SetsEnableBits.snoc {m : Registers} {log : List MsrWrite} (h : SetsEnableBits m log)
    (core : Nat) (reg : Msr) {bits : BitVec 64} (e : enableBits (core, reg) = bits) :
    SetsEnableBits m (log ++ [⟨core, reg, registers m log (core, reg) ||| bits⟩]) := by
  rw [SetsEnableBits, List.map_append, ← e]
  exact SetsBits.snoc (core, reg) h

/-- `program_msr` makes only such writes. -/
lemma programMsr_setsBits (m : Registers) (s : SysData) : SetsEnableBits m (programMsr m s) := by
  refine forLoop_inv (fun _ log => SetsEnableBits m log) .nil ?_
  intro core _ log h
  unfold programMsrBody
  split
  · split
    · exact h.snoc core .uMsrPmonUclkFixedCtl rfl
    · exact h
  · exact h

/-- A pass makes only such writes. -/
lemma machinePass_setsBits {m : Registers} (rd : Readings) {st : PassState}
    (h : SetsEnableBits m st.writes) : SetsEnableBits m (machinePass m rd st).writes := by
  refine forLoop_inv (fun _ (st : PassState) => SetsEnableBits m st.writes) h ?_
  intro core _ st h
  rw [passBody_writes]
  exact h.snoc core .corePerfFixedCtrCtrl rfl

/-- So does a whole run. -/
lemma daemonRun_setsBits (m : Registers) (env : Nat → Readings) (s : SysData) (n : Nat) :
    SetsEnableBits m (daemonRun m env s n).writes :=
  runs_inv (fun st : PassState => SetsEnableBits m st.writes) (programMsr_setsBits m s)
    (fun k _ h => machinePass_setsBits (env k) h) n

/-! ## Which registers are written -/

/-- The registers a run of the daemon writes. -/
def InFootprint (s : SysData) (core : Nat) (reg : Msr) : Prop :=
  core < s.ncore ∧ (reg = .corePerfFixedCtrCtrl ∨
    reg = .uMsrPmonUclkFixedCtl ∧ s.cpuModel = haswellEp ∧ SampledOn s.ncore core)

/-- The log writes to that register. -/
def Writes (log : List MsrWrite) (core : Nat) (reg : Msr) : Prop :=
  ∃ w ∈ log, w.core = core ∧ w.reg = reg

@[simp]
lemma writes_nil (core : Nat) (reg : Msr) : ¬ Writes [] core reg := by
  rintro ⟨w, hw, -⟩
  cases hw

/-- What two logs write. -/
@[simp]
lemma writes_append (log log' : List MsrWrite) (core : Nat) (reg : Msr) :
    Writes (log ++ log') core reg ↔ Writes log core reg ∨ Writes log' core reg := by
  simp [Writes, or_and_right, exists_or]

@[simp]
lemma writes_singleton (w : MsrWrite) (core : Nat) (reg : Msr) :
    Writes [w] core reg ↔ w.core = core ∧ w.reg = reg := by
  simp [Writes]

/-- What is written is in the log. -/
lemma writes_iff_mem (log : List MsrWrite) (core : Nat) (reg : Msr) :
    Writes log core reg ↔ (core, reg) ∈ (log.map writeEntry).map Prod.fst := by
  simp [Writes, writeEntry]

/-- `program_msr` writes `U_MSR_PMON_UCLK_FIXED_CTL` on the sampled cores of a Haswell-EP. -/
lemma programMsr_writes (m : Registers) (s : SysData) (core : Nat) (reg : Msr) :
    Writes (programMsr m s) core reg ↔ core < s.ncore ∧
      reg = .uMsrPmonUclkFixedCtl ∧ s.cpuModel = haswellEp ∧ SampledOn s.ncore core := by
  refine forLoop_inv (fun k log => Writes log core reg ↔ core < k ∧
    reg = .uMsrPmonUclkFixedCtl ∧ s.cpuModel = haswellEp ∧ SampledOn s.ncore core) (by simp) ?_
  intro k _ log ih
  unfold programMsrBody
  by_cases hs : SampledOn s.ncore k
  · by_cases hm : s.cpuModel = haswellEp
    · simp only [hs, hm, if_true, writes_append, writes_singleton, ih]
      grind
    · simp only [hs, hm, if_true, if_false, ih]
      simp
  · rw [if_neg hs, ih]
    grind

/-- A pass writes `MSR_CORE_PERF_FIXED_CTR_CTRL` of every core. -/
lemma machinePass_writes (m : Registers) (rd : Readings) (st : PassState) (core : Nat) (reg : Msr) :
    Writes (machinePass m rd st).writes core reg ↔
      Writes st.writes core reg ∨ core < st.sysd.ncore ∧ reg = .corePerfFixedCtrCtrl := by
  refine forLoop_inv (fun k (t : PassState) => Writes t.writes core reg ↔
    Writes st.writes core reg ∨ core < k ∧ reg = .corePerfFixedCtrCtrl) (by simp) ?_
  intro k _ t ih
  simp only [passBody_writes, writes_append, writes_singleton, ih]
  grind

/-- From the first pass on, the registers written are those of the footprint. -/
lemma daemonRun_writes (m : Registers) (env : Nat → Readings) (s : SysData) (n core : Nat)
    (reg : Msr) : Writes (daemonRun m env s n).writes core reg ↔ InFootprint s core reg := by
  induction n with
  | zero =>
    rw [daemonRun, runs, machinePass_writes, programMsr_writes]
    unfold InFootprint
    grind
  | succ n ih =>
    have hc : (daemonRun m env s n).sysd.ncore = s.ncore :=
      congrArg Host.ncore (daemonRun_host m env s n)
    rw [daemonRun, runs, machinePass_writes, ← daemonRun, ih, hc]
    unfold InFootprint
    grind

/-- The footprint of the daemon on the machine: it writes to `MSR_CORE_PERF_FIXED_CTR_CTRL` of every
core and, exactly on a Haswell-EP, to `U_MSR_PMON_UCLK_FIXED_CTL` of cores `0` and `NCORE/2`. At the
end these registers have their enable bits set, at no moment has any register changed in another
way, and after the first pass none changes any more. -/
theorem daemonRun_footprint (m : Registers) (env : Nat → Readings) (s : SysData) (n : Nat) :
    let log := (daemonRun m env s n).writes
    (∀ core reg, Writes log core reg ↔ core < s.ncore ∧ (reg = .corePerfFixedCtrCtrl ∨
      reg = .uMsrPmonUclkFixedCtl ∧ s.cpuModel = haswellEp ∧ SampledOn s.ncore core)) ∧
    (∀ core < s.ncore, registers m log (core, .corePerfFixedCtrCtrl) =
      m (core, .corePerfFixedCtrCtrl) ||| 0x333) ∧
    (s.cpuModel = haswellEp → ∀ core < s.ncore, SampledOn s.ncore core →
      registers m log (core, .uMsrPmonUclkFixedCtl) =
        m (core, .uMsrPmonUclkFixedCtl) ||| 0x400000) ∧
    (∀ pre, pre <+: log → ∀ core reg, registers m pre (core, reg) = m (core, reg) ∨
      InFootprint s core reg ∧
        registers m pre (core, reg) = m (core, reg) ||| enableBits (core, reg)) ∧
    ∀ pre, (daemonRun m env s 0).writes <+: pre → pre <+: log →
      registers m pre = registers m (daemonRun m env s 0).writes := by
  intro log
  have sets : SetsEnableBits m log := daemonRun_setsBits m env s n
  have foot : ∀ core reg, Writes log core reg ↔ InFootprint s core reg :=
    daemonRun_writes m env s n
  have done : ∀ core reg, InFootprint s core reg →
      registers m log (core, reg) = m (core, reg) ||| enableBits (core, reg) := by
    intro core reg h
    rw [registers, sets.contents_eq, if_pos]
    exact (writes_iff_mem log core reg).mp ((foot core reg).mpr h)
  refine ⟨foot, ?_, ?_, ?_, ?_⟩
  · intro core h
    exact done core .corePerfFixedCtrCtrl ⟨h, .inl rfl⟩
  · intro hm core h hs
    exact done core .uMsrPmonUclkFixedCtl ⟨h, .inr ⟨rfl, hm, hs⟩⟩
  · intro pre hp core reg
    have hp' : pre.map writeEntry <+: log.map writeEntry := hp.map writeEntry
    rw [registers, (sets.of_prefix hp').contents_eq]
    split
    · rename_i hk
      refine .inr ⟨(foot core reg).mp ?_, rfl⟩
      exact (writes_iff_mem log core reg).mpr ((hp'.map Prod.fst).subset hk)
    · exact .inl rfl
  · intro pre h0 hp
    have hp' : pre.map writeEntry <+: log.map writeEntry := hp.map writeEntry
    refine (sets.of_prefix hp').settled (h0.map writeEntry) ?_
    intro k hk
    have hw : Writes log k.1 k.2 :=
      (writes_iff_mem log k.1 k.2).mpr ((hp'.map Prod.fst).subset hk)
    exact (writes_iff_mem _ k.1 k.2).mp
      ((daemonRun_writes m env s 0 k.1 k.2).mpr ((foot k.1 k.2).mp hw))

end Powmon.Monitor
