import Powmon.Energy.Sample

/-!
# Where the measured program may run

The pinning that `program_msr` and `init_msr_data` of `energy-app/sensor_read_lib.c` do around their
register accesses, up to the moment `main` calls `system(cmdline)`: the measured program inherits the
affinity mask the process has then.

`set_cpu_affinity` pins the process to one CPU. `canc_cpu_affinity` does not go back to the mask from
before, it allows the CPUs below `NCORE` and whatever the `cpu_set_t` on the stack already held, since
that is never zeroed. The kernel restricts a mask to the CPUs that are online and refuses an empty one.
`keepsMask_iff` says for which initial masks this makes no difference.

C → Lean naming: a `cpu_set_t` is a set of its `1024` bits (`CpuSet`), so `CPU_SET` of a larger number
does nothing. `open_msr` leaves the process if the CPU is not online, which is `none`. The stack
contents that the call of `canc_cpu_affinity` on `core` finds are `stk core`.
-/

namespace Powmon.Energy
open Lib

/-! ## Masks -/

/-- The bits of a `cpu_set_t`. -/
def cpuSetSize : Nat := 1024

/-- `cpu_set_t`. -/
abbrev CpuSet := Finset (Fin cpuSetSize)

/-- `CPU_SET(cpu, &cpuset)`. -/
def cpuSet (cpu : Nat) (set : CpuSet) : CpuSet :=
  if h : cpu < cpuSetSize then insert ⟨cpu, h⟩ set else set

/-- The CPUs of a set that are online. -/
def installed (online : Finset Nat) (set : CpuSet) : Finset Nat :=
  set.image Fin.val ∩ online

/-- `sched_setaffinity(getpid(), …, &cpuset)`, for a process that has `mask`. -/
def schedSetaffinity (online : Finset Nat) (set : CpuSet) (mask : Finset Nat) : Finset Nat :=
  if installed online set = ∅ then mask else installed online set

/-- `set_cpu_affinity`. -/
def setCpuAffinity (online : Finset Nat) (cpu : Nat) (mask : Finset Nat) : Finset Nat :=
  schedSetaffinity online (cpuSet cpu ∅) mask

/-- The set that `canc_cpu_affinity` makes of the one it finds. -/
def cancSet (ncore : Nat) (cpuset : CpuSet) : CpuSet := forLoop ncore cpuSet cpuset

/-- `canc_cpu_affinity`. -/
def cancCpuAffinity (online : Finset Nat) (ncore : Nat) (cpuset : CpuSet) (mask : Finset Nat) :
    Finset Nat := schedSetaffinity online (cancSet ncore cpuset) mask

/-! ## The process -/

/-- The process: its affinity mask, the record of `main`, and the register writes so far. -/
structure Process where
  mask : Finset Nat
  sysd : SysData
  writes : List MsrWrite

/-- `open_msr`. -/
def openMsr (online : Finset Nat) (core : Nat) : Option Unit :=
  if core ∈ online then some () else none

/-- One iteration of `program_msr`. -/
def programBody (online : Finset Nat) (rd : Readings) (core : Nat) (p : Process) :
    Option Process := do
  let p := { p with mask := setCpuAffinity online core p.mask }
  openMsr online core
  if SampledOn p.sysd.ncore core ∧ p.sysd.cpuModel = haswellEp then
    return { p with writes := p.writes ++
      [⟨core, .uMsrPmonUclkFixedCtl, rd.msr core .uMsrPmonUclkFixedCtl ||| 0x400000⟩] }
  else
    return p

/-- `program_msr`. -/
def programMsr (online : Finset Nat) (rd : Readings) (p : Process) : Option Process :=
  forLoopM p.sysd.ncore (programBody online rd) p

/-- One iteration of `init_msr_data`. -/
def initBody (online : Finset Nat) (rd : Readings) (stk : Nat → CpuSet) (core : Nat) (p : Process) :
    Option Process :=
  if SampledOn p.sysd.ncore core then do
    let s := p.sysd
    let mask := setCpuAffinity online core p.mask
    openMsr online core
    let cpuid := packageOf s.ncpu s.ncore core
    return { p with
      mask := cancCpuAffinity online s.ncore (stk core) mask
      sysd := { s with cpuData :=
        Function.update s.cpuData cpuid (initVisit s.dramSupp rd core (s.cpuData cpuid)) } }
  else some p

/-- `init_msr_data`, with the pinning. -/
def initMsr (online : Finset Nat) (rd : Readings) (stk : Nat → CpuSet) (p : Process) :
    Option Process :=
  forLoopM p.sysd.ncore (initBody online rd stk) p

/-- `main` from `program_msr` to `system`. -/
def setUp (online : Finset Nat) (rd rd' : Readings) (stk : Nat → CpuSet) (p : Process) :
    Option Process := do
  let p ← programMsr online rd p
  initMsr online rd' stk p

/-- When the measured program starts, the mask is the initial one, whatever the registers and the
stack hold. -/
def KeepsMask (online : Finset Nat) (s : SysData) (A : Finset Nat) : Prop :=
  ∀ rd rd' stk p, setUp online rd rd' stk ⟨A, s, []⟩ = some p → p.mask = A

/-! ## The mask `canc_cpu_affinity` leaves -/

/-- `CPU_SET` adds the one number. -/
lemma mem_cpuSet {cpu : Nat} {set : CpuSet} {c : Fin cpuSetSize} :
    c ∈ cpuSet cpu set ↔ c.val = cpu ∨ c ∈ set := by
  unfold cpuSet
  split
  · rw [Finset.mem_insert, Fin.ext_iff]
  · have hc : c.val ≠ cpu := by
      rintro rfl
      exact absurd c.isLt ‹_›
    exact (or_iff_right hc).symm

/-- The set of `canc_cpu_affinity` has the cores beside what was there. -/
lemma mem_cancSet {ncore : Nat} {cpuset : CpuSet} {c : Fin cpuSetSize} :
    c ∈ cancSet ncore cpuset ↔ c.val < ncore ∨ c ∈ cpuset := by
  induction ncore with
  | zero => simp [cancSet]
  | succ n ih =>
    rw [cancSet] at ih ⊢
    rw [forLoop_succ, mem_cpuSet, ih, Nat.lt_succ_iff_lt_or_eq]
    tauto

/-- The kernel keeps those that are online. -/
lemma mem_installed {online : Finset Nat} {set : CpuSet} {cpu : Nat} :
    cpu ∈ installed online set ↔ cpu ∈ online ∧ ∃ h : cpu < cpuSetSize, ⟨cpu, h⟩ ∈ set := by
  rw [installed, Finset.mem_inter, Finset.mem_image, and_comm]
  refine and_congr_right fun _ => ?_
  constructor
  · rintro ⟨c, hc, rfl⟩
    exact ⟨c.isLt, hc⟩
  · rintro ⟨h, hc⟩
    exact ⟨⟨cpu, h⟩, hc, rfl⟩

/-- The CPUs that `canc_cpu_affinity` allows. -/
def restored (online : Finset Nat) (ncore : Nat) (cpuset : CpuSet) : Finset Nat :=
  installed online (cancSet ncore cpuset)

/-- The mask after `canc_cpu_affinity`. -/
lemma mem_restored {online : Finset Nat} {ncore : Nat} {cpuset : CpuSet} {cpu : Nat} :
    cpu ∈ restored online ncore cpuset ↔
      cpu ∈ online ∧ ∃ h : cpu < cpuSetSize, cpu < ncore ∨ ⟨cpu, h⟩ ∈ cpuset := by
  simp only [restored, mem_installed, mem_cancSet]

/-- With a core that is online, `canc_cpu_affinity` is not refused. -/
lemma cancCpuAffinity_eq {online : Finset Nat} {ncore : Nat} (h0 : 0 ∈ online) (hn : 0 < ncore)
    (cpuset : CpuSet) (mask : Finset Nat) :
    cancCpuAffinity online ncore cpuset mask = restored online ncore cpuset := by
  have mem : 0 ∈ restored online ncore cpuset :=
    mem_restored.mpr ⟨h0, by decide, .inl hn⟩
  exact if_neg (Finset.ne_empty_of_mem mem)

/-! ## The two loops -/

section Loops
variable {online : Finset Nat} {rd : Readings} {stk : Nat → CpuSet} {core : Nat} {p p' : Process}

/-- The register file of a core opens where the core is online. -/
lemma openMsr_eq_some {u : Unit} : openMsr online core = some u ↔ core ∈ online := by
  simp [openMsr]

/-- An iteration of `program_msr` that gets through. -/
lemma programBody_eq_some (h : programBody online rd core p = some p') :
    core ∈ online ∧ p'.sysd = p.sysd := by
  simp only [programBody, Option.bind_eq_bind, Option.bind_eq_some_iff, openMsr_eq_some] at h
  obtain ⟨-, hcore, h⟩ := h
  refine ⟨hcore, ?_⟩
  split at h <;> cases h <;> rfl

/-- `program_msr` opens every core and leaves the record alone. -/
lemma programMsr_eq_some (h : programMsr online rd p = some p') :
    (∀ core < p.sysd.ncore, core ∈ online) ∧ p'.sysd = p.sysd := by
  refine forLoopM_inv (fun n t => (∀ core < n, core ∈ online) ∧ t.sysd = p.sysd) ?_ ?_ h
  · exact ⟨fun _ hn => absurd hn (Nat.not_lt_zero _), rfl⟩
  · intro i _ t t' inv ht
    obtain ⟨hi, keep⟩ := programBody_eq_some ht
    refine ⟨?_, keep.trans inv.2⟩
    intro core hcore
    obtain hlt | rfl := Nat.lt_succ_iff_lt_or_eq.mp hcore
    · exact inv.1 core hlt
    · exact hi

/-- What an iteration of `init_msr_data` that samples does to the record. -/
def SysData.visit (s : SysData) (rd : Readings) (core : Nat) : SysData :=
  let cpuid := packageOf s.ncpu s.ncore core
  { s with cpuData :=
    Function.update s.cpuData cpuid (initVisit s.dramSupp rd core (s.cpuData cpuid)) }

/-- An iteration that samples opens the core, cancels the pinning and visits the slot. -/
lemma initBody_sampled (hs : SampledOn p.sysd.ncore core)
    (h : initBody online rd stk core p = some p') :
    core ∈ online ∧
    (∃ mask, p'.mask = cancCpuAffinity online p.sysd.ncore (stk core) mask) ∧
    p'.sysd = p.sysd.visit rd core := by
  rw [initBody, if_pos hs] at h
  simp only [Option.bind_eq_bind, Option.bind_eq_some_iff, openMsr_eq_some] at h
  obtain ⟨-, hcore, h⟩ := h
  cases h
  exact ⟨hcore, ⟨_, rfl⟩, rfl⟩

/-- Most cores are not visited. -/
lemma initBody_unsampled (hs : ¬ SampledOn p.sysd.ncore core)
    (h : initBody online rd stk core p = some p') : p' = p := by
  rw [initBody, if_neg hs] at h
  exact (Option.some.inj h).symm

/-- The record after `init_msr_data` is the one of the pass without the pinning. -/
lemma initMsr_sysd (h : initMsr online rd stk p = some p') : p'.sysd = initMsrData rd p.sysd := by
  obtain ⟨s, hs⟩ : ∃ s, s = p.sysd := ⟨_, rfl⟩
  -- the visits of the record are visits of its slots
  have slots : ∀ n, forLoop n (fun core s => if SampledOn s.ncore core then s.visit rd core else s) s =
      { s with cpuData := forLoop n (fun core slots =>
        if SampledOn s.ncore core then
          Function.update slots (packageOf s.ncpu s.ncore core)
            (initVisit s.dramSupp rd core (slots (packageOf s.ncpu s.ncore core)))
        else slots) s.cpuData } := by
    intro n
    induction n with
    | zero => rfl
    | succ n ih =>
      rw [forLoop_succ, forLoop_succ, ih]
      by_cases hon : SampledOn s.ncore n
      · rw [if_pos hon, if_pos hon]
        rfl
      · rw [if_neg hon, if_neg hon]
  have inv := forLoopM_inv (fun n (t : Process) => t.sysd = forLoop n (fun core s =>
    if SampledOn s.ncore core then s.visit rd core else s) s) hs.symm ?_ h
  · rw [inv, slots, ← hs]
    rfl
  · intro i _ t t' inv ht
    rw [forLoop_succ, ← inv]
    by_cases hon : SampledOn t.sysd.ncore i
    · rw [if_pos hon]
      exact (initBody_sampled hon ht).2.2
    · rw [if_neg hon, initBody_unsampled hon ht]

/-- The mask after `init_msr_data` is the one the last sampled core leaves. -/
lemma initMsr_mask (hn : 0 < p.sysd.ncore) (h0 : 0 ∈ online)
    (h : initMsr online rd stk p = some p') :
    p'.mask = restored online p.sysd.ncore (stk (p.sysd.ncore / 2)) := by
  have inv := forLoopM_inv (fun n t => t.sysd.ncore = p.sysd.ncore ∧
    (p.sysd.ncore / 2 < n → t.mask = restored online p.sysd.ncore (stk (p.sysd.ncore / 2)))) ?_ ?_ h
  · exact inv.2 (by omega)
  · exact ⟨rfl, fun hlt => absurd hlt (Nat.not_lt_zero _)⟩
  · intro i _ t t' inv ht
    obtain ⟨hcore, mask⟩ := inv
    by_cases hon : SampledOn t.sysd.ncore i
    · obtain ⟨-, ⟨m, hm⟩, keep⟩ := initBody_sampled hon ht
      refine ⟨by rw [keep]; exact hcore, ?_⟩
      intro hlt
      -- core `0` comes before the middle core unless it is the middle core
      have hi : i = p.sysd.ncore / 2 := by
        rw [hcore] at hon
        cases hon with
        | inl h0 => omega
        | inr hm => exact hm
      rw [hm, cancCpuAffinity_eq h0 (hcore ▸ hn), hcore, hi]
    · rw [initBody_unsampled hon ht]
      refine ⟨hcore, ?_⟩
      intro hlt
      have hi : i ≠ p.sysd.ncore / 2 := fun e => hon (.inr (hcore ▸ e))
      exact mask (by omega)

/-- With all cores online nothing fails. -/
lemma setUp_isSome {rd' : Readings} (hall : ∀ core < p.sysd.ncore, core ∈ online) :
    (setUp online rd rd' stk p).isSome := by
  have first : (programMsr online rd p).isSome := by
    apply forLoopM_isSome
    intro i hi t
    have opened : openMsr online i = some () := openMsr_eq_some.mpr (hall i hi)
    simp only [programBody, opened, Option.bind_eq_bind, Option.bind_some]
    split <;> rfl
  obtain ⟨t, ht⟩ := Option.isSome_iff_exists.mp first
  have keep := (programMsr_eq_some ht).2
  simp only [setUp, ht, Option.bind_eq_bind, Option.bind_some]
  apply forLoopM_isSome
  intro i hi u
  have opened : openMsr online i = some () := openMsr_eq_some.mpr (hall i (keep ▸ hi))
  simp only [initBody, opened, Option.bind_eq_bind, Option.bind_some]
  split <;> rfl

/-- Without cores nothing happens. -/
lemma setUp_noCores {rd' : Readings} (hz : p.sysd.ncore = 0) :
    setUp online rd rd' stk p = some p := by
  simp [setUp, programMsr, initMsr, hz]

/-- The mask the measured program gets: the online CPUs below `NCORE` and those in the stack
contents that the last call of `canc_cpu_affinity` finds. -/
lemma setUp_mask {rd' : Readings} (hn : 0 < p.sysd.ncore)
    (h : setUp online rd rd' stk p = some p') :
    p'.mask = restored online p.sysd.ncore (stk (p.sysd.ncore / 2)) := by
  simp only [setUp, Option.bind_eq_bind, Option.bind_eq_some_iff] at h
  obtain ⟨t, ht, h⟩ := h
  obtain ⟨hall, keep⟩ := programMsr_eq_some ht
  rw [← keep] at hn hall ⊢
  exact initMsr_mask hn (hall 0 hn) h

end Loops

/-! ## The mask of the measured program -/

/-- If the mask is kept and the program starts, then `canc_cpu_affinity` allows the CPUs of the mask,
whatever set the stack holds. -/
lemma KeepsMask.restored_eq {online : Finset Nat} {s : SysData} {A : Finset Nat}
    (keeps : KeepsMask online s A) (hn : 0 < s.ncore) (hall : ∀ core < s.ncore, core ∈ online)
    (cpuset : CpuSet) : restored online s.ncore cpuset = A := by
  have starts : (setUp online default default (fun _ => cpuset) ⟨A, s, []⟩).isSome :=
    setUp_isSome hall
  obtain ⟨p, hp⟩ := Option.isSome_iff_exists.mp starts
  rw [← keeps _ _ _ p hp]
  exact (setUp_mask hn hp).symm

/-- The measured program may run where the process could run before exactly when the process could
run on every online CPU (of those that a `cpu_set_t` can name) and none of them has a number from
`NCORE` on, as it has with hyperthreading. The other cases are those where nothing is pinned or where
the program is never started: no cores, or a core that cannot be opened. -/
theorem keepsMask_iff (online : Finset Nat) (s : SysData) (A : Finset Nat) :
    KeepsMask online s A ↔
      s.ncore = 0 ∨ (∃ core < s.ncore, core ∉ online) ∨
      (A = online.filter (· < cpuSetSize) ∧ ∀ cpu ∈ A, cpu < s.ncore) := by
  constructor
  · intro keeps
    by_cases hz : s.ncore = 0
    · exact .inl hz
    by_cases hall : ∀ core < s.ncore, core ∈ online
    case neg =>
      push Not at hall
      exact .inr (.inl hall)
    case pos =>
      have mask := keeps.restored_eq (Nat.pos_of_ne_zero hz) hall
      refine .inr (.inr ⟨?_, ?_⟩)
      · rw [← mask Finset.univ]
        ext cpu
        simp [mem_restored]
      · intro cpu hcpu
        rw [← mask ∅, mem_restored] at hcpu
        simpa using hcpu.2.2
  · intro cond rd rd' stk p hp
    obtain hz | hn := Nat.eq_zero_or_pos s.ncore
    · rw [setUp_noCores hz] at hp
      rw [← Option.some.inj hp]
    obtain hz | ⟨core, hlt, hoff⟩ | ⟨rfl, low⟩ := cond
    · exact absurd hz hn.ne'
    · simp only [setUp, Option.bind_eq_bind, Option.bind_eq_some_iff] at hp
      obtain ⟨t, ht, -⟩ := hp
      exact absurd ((programMsr_eq_some ht).1 core hlt) hoff
    · rw [setUp_mask hn hp]
      ext cpu
      rw [mem_restored, Finset.mem_filter]
      constructor
      · rintro ⟨hcpu, hlt, -⟩
        exact ⟨hcpu, hlt⟩
      · rintro ⟨hcpu, hlt⟩
        exact ⟨hcpu, hlt, .inl (low cpu (Finset.mem_filter.mpr ⟨hcpu, hlt⟩))⟩

/-! ## A pinned process -/

/-- One package with four cores. -/
def quadCore : SysData := { initPowMon with ncpu := 1, ncore := 4 }

/-- A process that was pinned to CPU `0` starts the measured program, and that may run on all four
CPUs. -/
theorem not_keepsMask_pinned :
    ({0} : Finset Nat) ⊆ Finset.range 4 ∧ ¬ KeepsMask (Finset.range 4) quadCore {0} := by
  refine ⟨by decide, ?_⟩
  intro keeps
  have mask : restored (Finset.range 4) 4 ∅ = {0} :=
    keeps.restored_eq (by decide) (fun core hcore => Finset.mem_range.mpr hcore) ∅
  have one : 1 ∈ restored (Finset.range 4) 4 ∅ :=
    mem_restored.mpr ⟨by decide, by decide, .inl (by decide)⟩
  rw [mask] at one
  exact absurd one (by decide)

end Powmon.Energy
