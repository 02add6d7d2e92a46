import Powmon.Energy.Sample
import Powmon.Monitor.Sample

/-!
# Which packages a pass measures

All passes of the repository (`read_msr_data` of the daemon, `init_msr_data` and `final_msr_energy` of
the two energy libraries) enter their per-package branch on core `0` and on core `NCORE/2`, while the
loops that report run over all `NCPU` packages. `coverage_iff` says for each pass that it measures
every package exactly if there are at most two and, for `final_msr_energy`, `DRAM_SUPP` is not `1`:
there the `else` of the second `if` overwrites the DRAM count that the first one read.

For the daemon's pass this includes the die temperature a core uses: the loop carries `cpuid` from
the core sampled last, which is the core's own package as long as there are at most two. The invariant
of that loop is `DieTempOwn`.
-/

namespace Powmon
open Lib

/-! ## Topology -/

/-- The core of the last visit belongs to the package. -/
lemma packageOf_lastVisit {ncpu ncore p : Nat} (hp : Sampled ncpu ncore p) :
    lastVisit ncpu ncore p < ncore ∧ packageOf ncpu ncore (lastVisit ncpu ncore p) = p := by
  obtain ⟨core, hlt, hon, rfl⟩ := hp
  rw [lastVisit]
  split
  · next h => exact ⟨by omega, h⟩
  · next h =>
    rcases hon with rfl | rfl
    · exact ⟨hlt, rfl⟩
    · exact absurd rfl h

/-- The sampled packages of a host with packages of `c` cores are the first and the middle one. -/
lemma sampled_iff {ncpu c p : Nat} (hcpu : 1 ≤ ncpu) (hc : 1 ≤ c) :
    Sampled ncpu (ncpu * c) p ↔ p = 0 ∨ p = ncpu / 2 := by
  have hn : 0 < ncpu * c := Nat.mul_pos hcpu hc
  have hhalf := packageOf_half hcpu hc
  constructor
  · rintro ⟨core, -, rfl | rfl, rfl⟩
    · exact .inl (packageOf_zero _ _)
    · exact .inr hhalf
  · rintro (rfl | rfl)
    · exact ⟨0, hn, .inl rfl, packageOf_zero _ _⟩
    · exact ⟨ncpu * c / 2, by omega, .inr rfl, hhalf⟩

/-- All packages are sampled exactly if there are at most two: of three or more, the last one is
not. -/
lemma sampled_all_iff {ncpu c : Nat} (hcpu : 1 ≤ ncpu) (hc : 1 ≤ c) :
    (∀ p < ncpu, Sampled ncpu (ncpu * c) p) ↔ ncpu ≤ 2 := by
  simp only [sampled_iff hcpu hc]
  constructor
  · intro h
    have := h (ncpu - 1) (by omega)
    omega
  · intro h p hp
    omega

/-- With at most two packages, a core that no package is sampled on belongs to the package of the core
before it. -/
lemma packageOf_pred {ncpu c core : Nat} (hcpu : 1 ≤ ncpu) (h2 : ncpu ≤ 2)
    (hcore : core + 1 < ncpu * c) (hs : ¬ SampledOn (ncpu * c) (core + 1)) :
    packageOf ncpu (ncpu * c) (core + 1) = packageOf ncpu (ncpu * c) core := by
  have hc : 0 < c := by
    rcases Nat.eq_zero_or_pos c with rfl | hc
    · omega
    · exact hc
  have quot : ∀ i, packageOf ncpu (ncpu * c) i = i / c := by
    intro i
    rw [packageOf, mul_comm i, Nat.mul_div_mul_left _ _ hcpu]
  rw [quot, quot]
  have hne : core + 1 ≠ ncpu * c / 2 := fun e => hs (.inr e)
  interval_cases ncpu
  · rw [Nat.div_eq_of_lt (by omega), Nat.div_eq_of_lt (by omega)]
  · rcases Nat.lt_or_ge (core + 1) c with hlt | hge
    · rw [Nat.div_eq_of_lt hlt, Nat.div_eq_of_lt (by omega)]
    · rw [Nat.div_eq_of_lt_le (k := 1) (by omega) (by omega),
        Nat.div_eq_of_lt_le (k := 1) (by omega) (by omega)]

end Powmon

/-! ## The daemon's pass -/

namespace Powmon.Monitor
open Lib

/-- The die temperature of a package, once read, stays. -/
lemma readDieTemp_keep {rd : Readings} {core cpuid q : Nat} {s : SysData} (h : s.dieTempEn q ≠ 0) :
    (readDieTemp rd core cpuid s).dieTempEn q ≠ 0 ∧
    (readDieTemp rd core cpuid s).dieTemp q = s.dieTemp q := by
  unfold readDieTemp
  split
  · next h0 =>
    have hq : q ≠ cpuid := by
      rintro rfl
      exact h h0
    simp [Function.update_of_ne hq, h]
  · exact ⟨h, rfl⟩

lemma readDieTemp_enabled (rd : Readings) (core cpuid : Nat) (s : SysData) :
    (readDieTemp rd core cpuid s).dieTempEn cpuid ≠ 0 := by
  unfold readDieTemp
  split
  · simp
  · next h => exact h

/-- Before core `j` is visited: the packages of the cores so far have their die temperature, `cpuid`
is the package of the core before, and each core so far used the die temperature of its package. -/
structure DieTempOwn (rd : Readings) (s : SysData) (j : Nat) (st : PassState) : Prop where
  host : st.sysd.host = s.host
  enabled : ∀ i < j, st.sysd.dieTempEn (packageOf s.ncpu s.ncore i) ≠ 0
  cpuid : ∀ i, j = i + 1 → st.cpuid = packageOf s.ncpu s.ncore i
  temps : ∀ i < j, (st.sysd.coreData i).temp =
    temperature (st.sysd.dieTemp (packageOf s.ncpu s.ncore i)) (rd.msr i .thermStatus)

/-- The invariant after the per-package branch: as before, with `cpuid` the package of `j` itself. -/
lemma DieTempOwn.branch {rd : Readings} {s : SysData} {c j : Nat} {st st' : PassState}
    (hcpu : 1 ≤ s.ncpu) (h2 : s.ncpu ≤ 2) (hn : s.ncore = s.ncpu * c) (hj : j < s.ncore)
    (inv : DieTempOwn rd s j st)
    (hst' : st' = if SampledOn st.sysd.ncore j then samplePackage rd j st else st) :
    st'.sysd.host = s.host ∧ st'.cpuid = packageOf s.ncpu s.ncore j ∧
    st'.sysd.coreData = st.sysd.coreData ∧
    (∀ i < j + 1, st'.sysd.dieTempEn (packageOf s.ncpu s.ncore i) ≠ 0) ∧
    ∀ i < j, st'.sysd.dieTemp (packageOf s.ncpu s.ncore i) =
      st.sysd.dieTemp (packageOf s.ncpu s.ncore i) := by
  have hcp : st.sysd.ncpu = s.ncpu := congrArg Host.ncpu inv.host
  have hco : st.sysd.ncore = s.ncore := congrArg Host.ncore inv.host
  by_cases hs : SampledOn s.ncore j
  · rw [hco, if_pos hs, samplePackage, hcp, hco] at hst'
    subst hst'
    refine ⟨by simp [inv.host], rfl, by simp, ?_, ?_⟩
    · intro i hi
      rw [setCpu_dieTempEn]
      rcases Nat.lt_succ_iff_lt_or_eq.mp hi with hlt | rfl
      · exact (readDieTemp_keep (inv.enabled i hlt)).1
      · exact readDieTemp_enabled rd i _ _
    · intro i hi
      rw [setCpu_dieTemp]
      exact (readDieTemp_keep (inv.enabled i hi)).2
  · rw [hco, if_neg hs] at hst'
    subst hst'
    -- core `0` is sampled on, so `j` has a predecessor, which shares its package
    obtain ⟨i, rfl⟩ : ∃ i, j = i + 1 := Nat.exists_eq_succ_of_ne_zero fun e => hs (.inl e)
    have same : packageOf s.ncpu s.ncore (i + 1) = packageOf s.ncpu s.ncore i := by
      rw [hn] at hj hs ⊢
      exact packageOf_pred hcpu h2 hj hs
    refine ⟨inv.host, (inv.cpuid i rfl).trans same.symm, rfl, ?_, fun _ _ => rfl⟩
    intro k hk
    rcases Nat.lt_succ_iff_lt_or_eq.mp hk with hlt | rfl
    · exact inv.enabled k hlt
    · rw [same]
      exact inv.enabled i (Nat.lt_succ_self i)

/-- The invariant is kept by an iteration. -/
lemma DieTempOwn.step {rd : Readings} {s : SysData} {c j : Nat} {st : PassState}
    (hcpu : 1 ≤ s.ncpu) (h2 : s.ncpu ≤ 2) (hn : s.ncore = s.ncpu * c) (hj : j < s.ncore)
    (inv : DieTempOwn rd s j st) : DieTempOwn rd s (j + 1) (passBody rd j st) := by
  obtain ⟨host, cpuid, coreData, enabled, dieTemp⟩ := inv.branch hcpu h2 hn hj rfl
  unfold passBody sampleEachCore
  refine ⟨host, enabled, ?_, ?_⟩
  · rintro i ⟨⟩
    exact cpuid
  · intro i hi
    rw [setCore_dieTemp]
    by_cases hij : i = j
    · subst hij
      rw [setCore_coreData_self, cpuid]
      rfl
    · have hlt : i < j := by omega
      rw [setCore_coreData_of_ne _ _ hij, coreData, dieTemp i hlt]
      exact inv.temps i hlt

/-- With at most two packages, every core's temperature is computed with the die temperature of its
package. -/
lemma readMsrData_temp {s : SysData} {c : Nat} (rd : Readings) (hcpu : 1 ≤ s.ncpu)
    (h2 : s.ncpu ≤ 2) (hn : s.ncore = s.ncpu * c) {i : Nat} (hi : i < s.ncore) :
    ((readMsrData rd s).coreData i).temp =
      temperature ((readMsrData rd s).dieTemp (packageOf s.ncpu s.ncore i))
        (rd.msr i .thermStatus) := by
  have inv : DieTempOwn rd s s.ncore (readMsrPass rd s) := by
    refine forLoop_inv (DieTempOwn rd s) ⟨rfl, nofun, nofun, nofun⟩ ?_
    intro j hj st inv
    exact inv.step hcpu h2 hn hj
  exact inv.temps i hi

/-- A sampled package gets the readings of the core of its last visit. -/
lemma readMsrData_measures {s : SysData} {p : Nat} (rd : Readings)
    (hp : Sampled s.ncpu s.ncore p) :
    ((readMsrData rd s).cpuData p).powPkg =
      (rd.msr (lastVisit s.ncpu s.ncore p) .pkgEnergyStatus).setWidth 32 ∧
    (s.dramSupp = 1 → ((readMsrData rd s).cpuData p).powDramC =
      (rd.msr (lastVisit s.ncpu s.ncore p) .dramEnergyStatus).setWidth 32) := by
  refine ⟨?_, ?_⟩
  · rw [readMsrData_cpuData PerCpuData.powPkg
      (fun core _ => (rd.msr core .pkgEnergyStatus).setWidth 32)
      fun dieTemp core d => sampleCpu_powPkg s.host dieTemp rd core d]
    exact visits_last hp _ (fun _ _ _ => rfl) _
  · intro hd
    have hd' : s.host.dramSupp = 1 := hd
    rw [readMsrData_cpuData PerCpuData.powDramC
      (fun core _ => (rd.msr core .dramEnergyStatus).setWidth 32)
      fun dieTemp core d => sampleCpu_powDramC hd' dieTemp rd core d]
    exact visits_last hp _ (fun _ _ _ => rfl) _

/-- The slot of a package that is not sampled keeps its energy reading. -/
lemma readMsrData_unsampled {s : SysData} {p : Nat} (rd : Readings)
    (hp : ¬ Sampled s.ncpu s.ncore p) :
    ((readMsrData rd s).cpuData p).powPkg = (s.cpuData p).powPkg := by
  rw [readMsrData_cpuData PerCpuData.powPkg
    (fun core _ => (rd.msr core .pkgEnergyStatus).setWidth 32)
    fun dieTemp core d => sampleCpu_powPkg s.host dieTemp rd core d]
  exact visits_unsampled hp _ _

/-- On this topology, whatever a pass of the daemon reads and whatever the record held: every package
gets the energy readings of one of its cores, and every core's temperature is computed with the die
temperature of its package. -/
def Covers (ncpu ncore : Nat) : Prop :=
  ∀ (rd : Readings) (s : SysData), s.ncpu = ncpu → s.ncore = ncore →
    (∀ p < ncpu, ∃ core < ncore, packageOf ncpu ncore core = p ∧
      ((readMsrData rd s).cpuData p).powPkg = (rd.msr core .pkgEnergyStatus).setWidth 32 ∧
      (s.dramSupp = 1 →
        ((readMsrData rd s).cpuData p).powDramC = (rd.msr core .dramEnergyStatus).setWidth 32)) ∧
    (∀ i < ncore, ((readMsrData rd s).coreData i).temp =
      temperature ((readMsrData rd s).dieTemp (packageOf ncpu ncore i)) (rd.msr i .thermStatus))

lemma covers_iff {ncpu c : Nat} (hcpu : 1 ≤ ncpu) (hc : 1 ≤ c) :
    Covers ncpu (ncpu * c) ↔ ncpu ≤ 2 := by
  constructor
  · intro h
    rw [← sampled_all_iff hcpu hc]
    intro p hp
    by_contra hns
    -- a pass that reads zeros leaves the one the slot held
    let s : SysData := { initPowMon with
      ncpu := ncpu, ncore := ncpu * c, cpuData := fun _ => { (default : PerCpuData) with powPkg := 1 } }
    obtain ⟨core, -, -, e, -⟩ := (h ⟨fun _ => 0, fun _ _ => 0⟩ s rfl rfl).1 p hp
    rw [readMsrData_unsampled (s := s) _ hns] at e
    exact absurd e (show (1 : BitVec 32) ≠ BitVec.setWidth 32 (0 : BitVec 64) by decide)
  · rintro h2 rd s rfl hn
    refine ⟨?_, ?_⟩
    · intro p hp
      have hs : Sampled s.ncpu s.ncore p := hn ▸ (sampled_all_iff hcpu hc).mpr h2 p hp
      obtain ⟨hlt, hpk⟩ := packageOf_lastVisit hs
      rw [← hn]
      exact ⟨_, hlt, hpk, readMsrData_measures rd hs⟩
    · rw [← hn]
      exact fun i hi => readMsrData_temp rd hcpu h2 hn hi

end Powmon.Monitor

/-! ## The passes of the energy libraries -/

namespace Powmon.Energy
open Lib

/-- On this topology and with this `DRAM_SUPP`, whatever a pass reads (`rd'` where it reads a register
for the second time) and whatever the slots held, every package is left with what `measured` says for
one of its cores. -/
def Covers (pass : Readings → Readings → SysData → SysData)
    (measured : ℤ → Readings → Readings → Nat → PerCpuData → Prop)
    (dramSupp : ℤ) (ncpu ncore : Nat) : Prop :=
  ∀ (rd rd' : Readings) (s : SysData), s.dramSupp = dramSupp → s.ncpu = ncpu → s.ncore = ncore →
    ∀ p < ncpu, ∃ core < ncore, packageOf ncpu ncore core = p ∧
      measured dramSupp rd rd' core ((pass rd rd' s).cpuData p)

/-- What `init_msr_data` is to record of a package: its count and, with a DRAM counter, that
one's. -/
def InitMeasured (dramSupp : ℤ) (rd _rd' : Readings) (core : Nat) (d : PerCpuData) : Prop :=
  d.powPkgInit = pkgReading rd core ∧
    (dramSupp = 1 ∨ dramSupp = 2 → d.powDramCInit = dramReading rd core)

/-- What `final_msr_energy` is to record of a package: its count and, with a DRAM counter, a reading of
that one. -/
def FinalMeasured (dramSupp : ℤ) (rd rd' : Readings) (core : Nat) (d : PerCpuData) : Prop :=
  d.powPkgFinal = pkgReading rd core ∧
    (dramSupp = 1 ∨ dramSupp = 2 →
      d.powDramCFinal = dramReading rd core ∨ d.powDramCFinal = dramReading rd' core)

section General
variable (visit : ℤ → Readings → Readings → Nat → PerCpuData → PerCpuData)
  {measured : ℤ → Readings → Readings → Nat → PerCpuData → Prop} {dramSupp : ℤ} {ncpu c : Nat}

/-- A pass covers two packages if its visits record what `measured` says. -/
lemma covers_of_le
    (hlast : ∀ (rd rd' : Readings) (s : SysData) (p : Nat), Sampled s.ncpu s.ncore p →
      s.dramSupp = dramSupp →
      measured dramSupp rd rd' (lastVisit s.ncpu s.ncore p)
        (samplePackages s.ncpu s.ncore (visit s.dramSupp rd rd') s.cpuData p))
    (hcpu : 1 ≤ ncpu) (hc : 1 ≤ c) (h2 : ncpu ≤ 2) :
    Covers (fun rd rd' s => { s with
      cpuData := samplePackages s.ncpu s.ncore (visit s.dramSupp rd rd') s.cpuData }) measured
      dramSupp ncpu (ncpu * c) := by
  rintro rd rd' s hd rfl hn p hp
  have hs : Sampled s.ncpu s.ncore p := hn ▸ (sampled_all_iff hcpu hc).mpr h2 p hp
  obtain ⟨hlt, hpk⟩ := packageOf_lastVisit hs
  rw [← hn]
  exact ⟨_, hlt, hpk, hlast rd rd' s p hs hd⟩

/-- A pass leaves out one of three packages or more: its slot stays, and no reading explains it. -/
lemma le_of_covers (stale : PerCpuData)
    (hstale : ∀ core, ¬ measured dramSupp ⟨fun _ => 0, fun _ _ => 0⟩ ⟨fun _ => 0, fun _ _ => 0⟩
      core stale)
    (hcpu : 1 ≤ ncpu) (hc : 1 ≤ c)
    (h : Covers (fun rd rd' s => { s with
      cpuData := samplePackages s.ncpu s.ncore (visit s.dramSupp rd rd') s.cpuData }) measured
      dramSupp ncpu (ncpu * c)) : ncpu ≤ 2 := by
  rw [← sampled_all_iff hcpu hc]
  intro p hp
  by_contra hns
  obtain ⟨core, -, -, e⟩ := h ⟨fun _ => 0, fun _ _ => 0⟩ ⟨fun _ => 0, fun _ _ => 0⟩
    { initPowMon with
      ncpu := ncpu, ncore := ncpu * c, dramSupp := dramSupp, cpuData := fun _ => stale }
    rfl rfl rfl p hp
  have keep : samplePackages ncpu (ncpu * c)
      (visit dramSupp ⟨fun _ => 0, fun _ _ => 0⟩ ⟨fun _ => 0, fun _ _ => 0⟩)
      (fun _ => stale) p = stale := samplePackages_unsampled hns
  exact hstale core (keep ▸ e)

/-- A pass whose visits end with the DRAM count of `final_msr_energy` does not cover a host with
`DRAM_SUPP` `1`: its count is `0`, whatever the counter reads. -/
lemma dramSupp_ne_one_of_covers
    (hvisit : ∀ rd rd' core d, (visit dramSupp rd rd' core d).powDramCFinal =
      if dramSupp = 2 then dramReading rd core else 0)
    (hcpu : 1 ≤ ncpu) (hc : 1 ≤ c)
    (h : Covers (fun rd rd' s => { s with
      cpuData := samplePackages s.ncpu s.ncore (visit s.dramSupp rd rd') s.cpuData }) FinalMeasured
      dramSupp ncpu (ncpu * c)) : dramSupp ≠ 1 := by
  rintro rfl
  let ones : Readings := ⟨fun _ => 0, fun _ _ => 1⟩
  obtain ⟨core, -, -, -, e⟩ := h ones ones
    { initPowMon with ncpu := ncpu, ncore := ncpu * c, dramSupp := 1 } rfl rfl rfl 0 hcpu
  have hs : Sampled ncpu (ncpu * c) 0 := (sampled_iff hcpu hc).mpr (.inl rfl)
  have zero : (samplePackages ncpu (ncpu * c) (visit 1 ones ones) initPowMon.cpuData
      0).powDramCFinal = 0 :=
    samplePackages_last PerCpuData.powDramCFinal (fun _ => 0) (hvisit ones ones) hs
  have one : dramReading ones core = 1 := rfl
  rw [one, or_self] at e
  exact absurd (zero.symm.trans (e (.inl rfl))) (by decide)

end General

section Passes
variable {dramSupp : ℤ} {ncpu c : Nat}

/-- `init_msr_data` covers exactly the hosts with at most two packages. -/
lemma initMsrData_covers_iff (hcpu : 1 ≤ ncpu) (hc : 1 ≤ c) :
    Covers (fun rd _ => initMsrData rd) InitMeasured dramSupp ncpu (ncpu * c) ↔ ncpu ≤ 2 := by
  constructor
  · refine le_of_covers (fun dramSupp rd _ => initVisit dramSupp rd)
      { (default : PerCpuData) with powPkgInit := 1 } ?_ hcpu hc
    rintro core ⟨e, -⟩
    exact absurd e (show (1 : BitVec 32) ≠ BitVec.setWidth 32 (0 : BitVec 64) by decide)
  · refine covers_of_le (fun dramSupp rd _ => initVisit dramSupp rd) ?_ hcpu hc
    rintro rd rd' s p hp rfl
    refine ⟨?_, fun hd => ?_⟩
    · exact samplePackages_last PerCpuData.powPkgInit _ (initVisit_powPkgInit _ rd) hp
    · exact samplePackages_last PerCpuData.powDramCInit _
        (fun core d => initVisit_powDramCInit rd core d hd) hp

/-- Both libraries' `final_msr_energy` covers exactly the hosts with at most two packages and a
`DRAM_SUPP` other than `1`. -/
lemma final_covers_iff (visit : ℤ → Readings → Readings → Nat → PerCpuData → PerCpuData)
    (hpkg : ∀ dramSupp rd rd' core d,
      (visit dramSupp rd rd' core d).powPkgFinal = pkgReading rd core)
    (hdram : ∀ dramSupp rd rd' core d, (visit dramSupp rd rd' core d).powDramCFinal =
      if dramSupp = 2 then dramReading rd core else 0)
    (hcpu : 1 ≤ ncpu) (hc : 1 ≤ c) :
    Covers (fun rd rd' s => { s with
      cpuData := samplePackages s.ncpu s.ncore (visit s.dramSupp rd rd') s.cpuData }) FinalMeasured
      dramSupp ncpu (ncpu * c) ↔ ncpu ≤ 2 ∧ dramSupp ≠ 1 := by
  constructor
  · intro h
    refine ⟨?_, dramSupp_ne_one_of_covers visit (hdram dramSupp) hcpu hc h⟩
    refine le_of_covers visit { (default : PerCpuData) with powPkgFinal := 1 } ?_ hcpu hc h
    rintro core ⟨e, -⟩
    exact absurd e (show (1 : BitVec 32) ≠ BitVec.setWidth 32 (0 : BitVec 64) by decide)
  · rintro ⟨h2, h1⟩
    refine covers_of_le visit ?_ hcpu hc h2
    rintro rd rd' s p hp rfl
    refine ⟨?_, fun hd => .inl ?_⟩
    · exact samplePackages_last PerCpuData.powPkgFinal _ (hpkg _ rd rd') hp
    · have two : s.dramSupp = 2 := hd.resolve_left h1
      refine samplePackages_last PerCpuData.powDramCFinal (dramReading rd) (fun core d => ?_) hp
      rw [hdram, if_pos two]

end Passes

end Powmon.Energy

/-! ## All passes -/

namespace Powmon

/-- On a host with packages of `c` cores, the daemon's pass and `init_msr_data` measure every package
exactly if there are at most two of them, and `final_msr_energy` exactly if moreover `DRAM_SUPP` is not
`1`. -/
theorem coverage_iff (dramSupp : ℤ) (ncpu c : Nat) (hcpu : 1 ≤ ncpu) (hc : 1 ≤ c) :
    (Monitor.Covers ncpu (ncpu * c) ↔ ncpu ≤ 2) ∧
    (Energy.Covers (fun rd _ => Energy.initMsrData rd) Energy.InitMeasured
      dramSupp ncpu (ncpu * c) ↔ ncpu ≤ 2) ∧
    (Energy.Covers (fun rd _ => Energy.finalMsrEnergy rd) Energy.FinalMeasured
      dramSupp ncpu (ncpu * c) ↔ ncpu ≤ 2 ∧ dramSupp ≠ 1) ∧
    (Energy.Covers (fun rd _ => Energy.mpiInitMsrData rd) Energy.InitMeasured
      dramSupp ncpu (ncpu * c) ↔ ncpu ≤ 2) ∧
    (Energy.Covers Energy.mpiFinalMsrEnergy Energy.FinalMeasured
      dramSupp ncpu (ncpu * c) ↔ ncpu ≤ 2 ∧ dramSupp ≠ 1) :=
  ⟨Monitor.covers_iff hcpu hc, Energy.initMsrData_covers_iff hcpu hc,
    Energy.final_covers_iff (fun dramSupp rd _ => Energy.finalVisit dramSupp rd)
      (fun _ _ _ _ _ => Energy.finalVisit_powPkgFinal ..)
      (fun _ _ _ _ _ => Energy.finalVisit_powDramCFinal ..) hcpu hc,
    Energy.initMsrData_covers_iff hcpu hc,
    Energy.final_covers_iff Energy.mpiFinalVisit
      (fun _ _ _ _ _ => Energy.mpiFinalVisit_powPkgFinal ..)
      (fun _ _ _ _ _ => Energy.mpiFinalVisit_powDramCFinal ..) hcpu hc⟩

/-- A host with two packages of four cores and a Haswell server's `DRAM_SUPP` is covered by each
pass. -/
theorem coverage_two_sockets :
    Monitor.Covers 2 8 ∧ Energy.Covers Energy.mpiFinalMsrEnergy Energy.FinalMeasured 2 2 8 :=
  have ⟨daemon, _, _, _, final⟩ := coverage_iff 2 2 4 (by decide) (by decide)
  ⟨daemon.mpr (by decide), final.mpr (by decide)⟩

/-- Three packages of one core, whose slots hold `1` while the registers read `0`; and one package of
one core with `DRAM_SUPP` `1`, whose DRAM counter reads `7`. -/
theorem coverage_three_sockets :
    let s : Energy.SysData := { Energy.initPowMon with
      ncpu := 3, ncore := 3, cpuData := fun _ => { (default : Energy.PerCpuData) with
        powPkgInit := 1, powPkgFinal := 1 } }
    let m : Monitor.SysData := { Monitor.initPowMon with
      ncpu := 3, ncore := 3, cpuData := fun _ => { (default : Monitor.PerCpuData) with
        powPkg := 1 } }
    let rd : Readings := ⟨fun _ => 0, fun _ _ => 0⟩
    let one : Energy.SysData := { Energy.initPowMon with ncpu := 1, ncore := 1, dramSupp := 1 }
    let seven : Readings := ⟨fun _ => 0, fun _ _ => 7⟩
    ((Monitor.readMsrData rd m).cpuData 2).powPkg = 1 ∧
    ((Energy.initMsrData rd s).cpuData 2).powPkgInit = 1 ∧
    ((Energy.finalMsrEnergy rd s).cpuData 2).powPkgFinal = 1 ∧
    ((Energy.mpiFinalMsrEnergy rd rd s).cpuData 2).powPkgFinal = 1 ∧
    ¬ Monitor.Covers 3 3 ∧
    ((Energy.finalMsrEnergy seven one).cpuData 0).powDramCFinal = 0 ∧
    ((Energy.mpiFinalMsrEnergy seven seven one).cpuData 0).powDramCFinal = 0 := by
  refine ⟨by decide +kernel, by decide +kernel, by decide +kernel, by decide +kernel, ?_,
    by decide +kernel, by decide +kernel⟩
  intro h
  exact absurd ((Monitor.covers_iff (c := 1) (by decide) (by decide)).mp h) (by decide)

end Powmon
