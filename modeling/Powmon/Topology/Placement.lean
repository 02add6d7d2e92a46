import Powmon.Monitor.Sample
import Powmon.Topology.Detect

/-!
# Which package a reading is credited to

`detect_topology` keeps only counts, so `read_msr_data` works out the package of a core from the
core's number: core `0` is taken to be on package `0`, core `NCORE/2` on package `trunc(core*NCPU)/NCORE`.
The module compares this with the physical id that `/proc/cpuinfo` shows for the logical CPU of that
number (`OnPackage`).

`open_msr(core)` leaves the process on a CPU the kernel does not list, so a pass gets as far as the
numbering of the listed CPUs has no gap (`Reached`). A pass is looked at iteration by iteration
(`passUpTo`), and an iteration credits package `p` if it changes `cpu_data[p]`.
-/

namespace Powmon.Topology
open Lib
open Monitor (SysData PassState PerCpuData passBody passBody_host passBody_cpuData readMsrData
  sampleCpu_powPkg)

/-- What `detect_topology` sets in the daemon's record. -/
def Detected.install (d : Detected) (s : SysData) : SysData :=
  { s with ncore := d.ncore, ncpu := d.ncpu }

/-- The logical CPU is listed. -/
def Listed (rs : List Record) (cpu : Nat) : Prop := ∃ r ∈ rs, r.processor = cpu

/-- The logical CPU is listed with physical id `p`. -/
def OnPackage (rs : List Record) (cpu p : Nat) : Prop :=
  ∃ r ∈ rs, r.processor = cpu ∧ r.physicalId = p

/-- A pass gets to the iteration of `core`. -/
def Reached (rs : List Record) (core : Nat) : Prop := ∀ cpu ≤ core, Listed rs cpu

instance (rs : List Record) (cpu : Nat) : Decidable (Listed rs cpu) :=
  inferInstanceAs (Decidable (∃ r ∈ rs, r.processor = cpu))

instance (rs : List Record) (cpu p : Nat) : Decidable (OnPackage rs cpu p) :=
  inferInstanceAs (Decidable (∃ r ∈ rs, r.processor = cpu ∧ r.physicalId = p))

instance (rs : List Record) (core : Nat) : Decidable (Reached rs core) :=
  inferInstanceAs (Decidable (∀ cpu ≤ core, Listed rs cpu))

/-- The record after the iterations before `core`. -/
def passUpTo (rd : Readings) (s : SysData) (core : Nat) : SysData :=
  (forLoop core (passBody rd) ⟨s, 0, []⟩).sysd

lemma readMsrData_eq (rd : Readings) (s : SysData) :
    readMsrData rd s = passUpTo rd s s.ncore := rfl

/-- Readings are credited to the package they are taken on: in every pass after the detection, an
iteration that is reached and changes the slot of package `p` runs on a CPU of package `p`. -/
def Credited (rs : List Record) : Prop :=
  ∀ d, detectTopology (some (cpuinfo rs)) = some d →
    ∀ (rd : Readings) (s : SysData), ∀ core < d.ncore, Reached rs core → ∀ p,
      (passUpTo rd (d.install s) (core + 1)).cpuData p ≠ (passUpTo rd (d.install s) core).cpuData p →
        OnPackage rs core p

/-! ## What an iteration writes -/

lemma passUpTo_host (rd : Readings) (s : SysData) (core : Nat) :
    (passUpTo rd s core).host = s.host :=
  forLoop_frame (fun st : PassState => st.sysd.host) (passBody_host rd) _

/-- The iteration of `core` changes a slot only if it samples the package the slot is for; then the
slot holds the register of `core`. -/
lemma passUpTo_succ (rd : Readings) (s : SysData) (core p : Nat) :
    if SampledOn s.ncore core ∧ packageOf s.ncpu s.ncore core = p then
      ((passUpTo rd s (core + 1)).cpuData p).powPkg =
        (rd.msr core .pkgEnergyStatus).setWidth 32
    else (passUpTo rd s (core + 1)).cpuData p = (passUpTo rd s core).cpuData p := by
  set st := forLoop core (passBody rd) ⟨s, 0, []⟩ with hst
  have host : st.sysd.host = s.host := passUpTo_host rd s core
  have hcpu : st.sysd.ncpu = s.ncpu := congrArg Monitor.Host.ncpu host
  have hcore : st.sysd.ncore = s.ncore := congrArg Monitor.Host.ncore host
  obtain ⟨dieTemp, e⟩ := passBody_cpuData rd core p st
  have next : (passUpTo rd s (core + 1)).cpuData p = (passBody rd core st).sysd.cpuData p := by
    rw [passUpTo, forLoop_succ]
  rw [next, e, hcpu, hcore]
  split
  · exact sampleCpu_powPkg ..
  · rfl

/-- The slots of the pass below: zero until `core` has been read. -/
lemma passUpTo_zero {rd : Readings} {s : SysData} {core : Nat}
    (hrd : ∀ k < core, rd.msr k .pkgEnergyStatus = 0) (hs : ∀ p, (s.cpuData p).powPkg = 0) (p : Nat) :
    ((passUpTo rd s core).cpuData p).powPkg = 0 := by
  induction core with
  | zero => exact hs p
  | succ k ih =>
    have before := ih fun j hj => hrd j (Nat.lt_succ_of_lt hj)
    have step := passUpTo_succ rd s k p
    split at step
    · rw [step, hrd k (Nat.lt_succ_self k)]
      rfl
    · rw [step, before]

/-- Some pass changes the slot that the iteration of a sampled core is for. -/
lemma exists_change {s : SysData} {core : Nat} (hon : SampledOn s.ncore core)
    (hs : ∀ p, (s.cpuData p).powPkg = 0) :
    ∃ rd : Readings,
      (passUpTo rd s (core + 1)).cpuData (packageOf s.ncpu s.ncore core) ≠
        (passUpTo rd s core).cpuData (packageOf s.ncpu s.ncore core) := by
  obtain ⟨rd, one, zero⟩ : ∃ rd : Readings, rd.msr core .pkgEnergyStatus = 1 ∧
      ∀ k < core, rd.msr k .pkgEnergyStatus = 0 :=
    ⟨⟨fun _ => 0, fun k _ => if k = core then 1 else 0⟩, if_pos rfl, fun k hk => if_neg hk.ne⟩
  refine ⟨rd, ?_⟩
  intro same
  have step := passUpTo_succ rd s core (packageOf s.ncpu s.ncore core)
  rw [if_pos ⟨hon, rfl⟩, same, passUpTo_zero zero hs, one] at step
  exact absurd step (by decide)

/-- A sampled core that a pass gets to has to be on the package its number stands for. -/
lemma Credited.onPackage {rs : List Record} (h : Credited rs) {d : Detected}
    (hd : detectTopology (some (cpuinfo rs)) = some d) {core : Nat} (hlt : core < d.ncore)
    (hon : SampledOn d.ncore core) (hr : Reached rs core) :
    OnPackage rs core (packageOf d.ncpu d.ncore core) := by
  obtain ⟨rd, change⟩ := exists_change (s := d.install Monitor.initPowMon) hon fun _ => rfl
  exact h d hd rd Monitor.initPowMon core hlt hr _ change

/-! ## Numberings -/

lemma coreIds_pos {rs : List Record} (h : 0 < (physicalIds rs).card) : 0 < (coreIds rs).card := by
  obtain ⟨p, hp⟩ := Finset.card_pos.mp h
  obtain ⟨r, hr, -⟩ := List.mem_map.mp (List.mem_toFinset.mp hp)
  exact Finset.card_pos.mpr ⟨r.coreId, List.mem_toFinset.mpr (List.mem_map_of_mem hr)⟩

/-- With two sockets, core `NCORE/2` is the one whose number is the number of core ids. -/
lemma packageOf_middle {c : Nat} (hc : 0 < c) : packageOf 2 (c * 2) c = 1 := by
  have h := packageOf_half Nat.two_pos hc
  rwa [mul_comm 2 c, Nat.mul_div_cancel c (by norm_num), Nat.div_self (by norm_num)] at h

/-- The CPU that stands for the second of two sockets is on it, if a pass gets there. -/
lemma Credited.middle {rs : List Record} (h : Credited rs) (two : (physicalIds rs).card = 2)
    (hr : Reached rs (coreIds rs).card) : OnPackage rs (coreIds rs).card 1 := by
  have hc : 0 < (coreIds rs).card := coreIds_pos (two ▸ Nat.two_pos)
  have on := @Credited.onPackage rs h _ (detectTopology_cpuinfo rs) (coreIds rs).card
  simp only [two, packageOf_middle hc] at on
  exact on (by omega) (.inr (by omega)) hr

/-- The CPU that stands for the first socket is on it, if it is listed. -/
lemma Credited.first {rs : List Record} (h : Credited rs) (two : (physicalIds rs).card = 2)
    (h0 : Listed rs 0) : OnPackage rs 0 0 := by
  have hc : 0 < (coreIds rs).card := coreIds_pos (two ▸ Nat.two_pos)
  have on := @Credited.onPackage rs h _ (detectTopology_cpuinfo rs) 0
  rw [packageOf_zero] at on
  refine on ?_ (.inl rfl) ?_
  · simp only [two]
    omega
  · intro cpu hcpu
    rwa [Nat.le_zero.mp hcpu]

lemma physicalId_lt_of_numbered {rs : List Record}
    (numbered : physicalIds rs = Finset.range (physicalIds rs).card) {r : Record} (hr : r ∈ rs) :
    r.physicalId < (physicalIds rs).card := by
  have mem : r.physicalId ∈ physicalIds rs := List.mem_toFinset.mpr (List.mem_map_of_mem hr)
  rwa [numbered, Finset.mem_range] at mem

/-- With the CPUs `0` and `NCORE/2` on the packages they stand for, every sampled core is on its
own. -/
lemma onPackage_of_sampled {rs : List Record} (most : (physicalIds rs).card ≤ 2)
    (numbered : physicalIds rs = Finset.range (physicalIds rs).card)
    (place : (physicalIds rs).card = 2 → (Listed rs 0 → OnPackage rs 0 0) ∧
      (Reached rs (coreIds rs).card → OnPackage rs (coreIds rs).card 1)) {core : Nat}
    (hlt : core < (coreIds rs).card * (physicalIds rs).card)
    (hon : SampledOn ((coreIds rs).card * (physicalIds rs).card) core) (hr : Reached rs core) :
    OnPackage rs core
      (packageOf (physicalIds rs).card ((coreIds rs).card * (physicalIds rs).card) core) := by
  obtain ⟨r, hmem, hproc⟩ := hr core le_rfl
  have hid := physicalId_lt_of_numbered numbered hmem
  obtain one | two : (physicalIds rs).card = 1 ∨ (physicalIds rs).card = 2 := by omega
  · refine ⟨r, hmem, hproc, ?_⟩
    rw [one] at hlt hid ⊢
    rw [packageOf_single hlt]
    exact Nat.lt_one_iff.mp hid
  · have hc : 0 < (coreIds rs).card := coreIds_pos (two ▸ Nat.two_pos)
    obtain ⟨first, middle⟩ := place two
    rw [two] at hon ⊢
    rw [SampledOn, Nat.mul_div_cancel _ (by norm_num)] at hon
    cases hon with
    | inl h0 =>
      subst h0
      rw [packageOf_zero]
      exact first ⟨r, hmem, hproc⟩
    | inr hm =>
      subst hm
      rw [packageOf_middle hc]
      exact middle hr

/-- On hosts with at most two sockets, numbered from `0`, readings are credited to the package they
are taken on exactly when, with two sockets, CPU `0` is on the first one and the CPU whose number is
the number of cores of a socket is on the second one, as far as these CPUs are there to be read. The
sockets may have different core ids. -/
theorem credited_iff (rs : List Record) (most : (physicalIds rs).card ≤ 2)
    (numbered : physicalIds rs = Finset.range (physicalIds rs).card) :
    Credited rs ↔ ((physicalIds rs).card = 2 →
      (Listed rs 0 → OnPackage rs 0 0) ∧
      (Reached rs (coreIds rs).card → OnPackage rs (coreIds rs).card 1)) := by
  constructor
  · intro h two
    exact ⟨h.first two, h.middle two⟩
  · intro place d hd rd s core hlt hr p change
    -- the change is in the slot that the iteration samples
    have step := passUpTo_succ rd (d.install s) core p
    rw [detectTopology_cpuinfo] at hd
    cases hd
    split at step
    case isFalse => exact absurd step change
    case isTrue sampled =>
      obtain ⟨hon, rfl⟩ := sampled
      exact onPackage_of_sampled most numbered place hlt hon hr

/-! ## Two hosts -/

/-- Two sockets with two cores each, numbered socket by socket. -/
def blockwise : List Record :=
  [record 0 0 0, record 1 0 1, record 2 1 0, record 3 1 1]

theorem credited_blockwise : Credited blockwise :=
  (credited_iff blockwise (by decide) (by decide)).mpr fun _ => ⟨by decide, by decide⟩

/-- The same host with the numbers alternating between the sockets. -/
def alternating : List Record :=
  [record 0 0 0, record 1 1 0, record 2 0 1, record 3 1 1]

/-- What is read on CPU `2` goes to package `1`, although the CPU is on package `0`. -/
theorem not_credited_alternating :
    physicalIds alternating = Finset.range 2 ∧
    (∀ p ∈ physicalIds alternating, ∀ c ∈ coreIds alternating, (p, c) ∈ physicalCores alternating) ∧
    OnPackage alternating 2 0 ∧ ¬ Credited alternating := by
  refine ⟨by decide, by decide, by decide, ?_⟩
  intro h
  exact absurd (h.middle (by decide) (by decide)) (by decide)

end Powmon.Topology
