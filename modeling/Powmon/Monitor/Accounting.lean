import Powmon.Monitor.Run

/-!
# What the published differences account for

The daemon publishes differences of counters. Three results say what these differences are, over whole
runs, against the *true* counts the registers show:

* `multi_socket_energy`: with two packages or more, the 32-bit energy counters of a sampled package
  are accounted for exactly, however often they wrap;
* `single_socket_energy_iff`: with one package, they are accounted for only if nothing is consumed
  between two passes, since the slot is shifted twice a pass;
* `fixed_counter_iff`: the 48-bit counters are subtracted in 64 bits, so their differences are right
  exactly in the ticks without a wrap.
-/

namespace Powmon.Monitor
open Lib

/-- In passes `0, …, n`, register `r` shows the counts `E` of package `p` in its low `w` bits on the
cores the passes sample `p` on. -/
def ShowsPackage (w : Nat) (env : Nat → Tick) (s : SysData) (p : Nat) (r : Msr) (E : Nat → Nat)
    (n : Nat) : Prop :=
  ∀ k ≤ n, ∀ core < s.ncore, SampledOn s.ncore core → packageOf s.ncpu s.ncore core = p →
    Shows w (E k) ((env k).rd.msr core r)

/-! ## Energy, two packages or more -/

section Multi
variable (env : Nat → Tick) {s : SysData} {c p n : Nat}

/-- The cells of a sampled package hold the readings of the core that samples it. -/
lemma sampled_cpuDiff {w : Nat} (κ : CpuCounter s.host w) (hcpu : 2 ≤ s.ncpu) (hc : 1 ≤ c)
    (hn : s.ncore = s.ncpu * c) (hp : Sampled s.ncpu s.ncore p) :
    ∃ core < s.ncore, SampledOn s.ncore core ∧ packageOf s.ncpu s.ncore core = p ∧
      ∀ k, κ.diff ((monitorRun env s (k + 1)).cpuData p) =
        (κ.reading (env (k + 1)).rd core - κ.reading (env k).rd core).setWidth 64 := by
  obtain ⟨core, hcore, hon, rfl⟩ := hp
  refine ⟨core, hcore, hon, rfl, ?_⟩
  intro k
  rw [monitorRun_cpuDiff env κ (packageOf_lt hcore (by omega)) k,
    monitorRun_cpuLatch env κ hcpu hc hn hcore hon k]

/-- A 32-bit counter of a sampled package is accounted for exactly. -/
lemma sampled_accounting (κ : CpuCounter s.host 32) {r : Msr}
    (hr : ∀ rd core, κ.reading rd core = (rd.msr core r).setWidth 32) (hcpu : 2 ≤ s.ncpu)
    (hc : 1 ≤ c) (hn : s.ncore = s.ncpu * c) (hp : Sampled s.ncpu s.ncore p) {E : Nat → Nat}
    (hE : Metered 32 E n) (hS : ShowsPackage 32 env s p r E n) :
    (∀ k < n, (κ.diff ((monitorRun env s (k + 1)).cpuData p)).toInt = (E (k + 1) : ℤ) - E k) ∧
    ∑ k ∈ Finset.range n, (κ.diff ((monitorRun env s (k + 1)).cpuData p)).toInt =
      (E n : ℤ) - E 0 := by
  obtain ⟨core, hcore, hon, hpk, hdiff⟩ := sampled_cpuDiff env κ hcpu hc hn hp
  have each : ∀ k < n,
      (κ.diff ((monitorRun env s (k + 1)).cpuData p)).toInt = (E (k + 1) : ℤ) - E k := by
    intro k hk
    obtain ⟨hle, hlt⟩ := hE k hk
    have h0 : (((env k).rd.msr core r).setWidth 32) = BitVec.ofNat 32 (E k) :=
      hS k (by omega) core hcore hon hpk
    have h1 : (((env (k + 1)).rd.msr core r).setWidth 32) = BitVec.ofNat 32 (E (k + 1)) :=
      hS (k + 1) (by omega) core hcore hon hpk
    rw [hdiff, hr, hr, h0, h1]
    exact (zext_sub_eq_iff (by norm_num) hle).mpr hlt
  exact ⟨each, sum_increments each⟩

end Multi

/-- Energy accounting with two packages or more. For a sampled package whose true energy counts
`E 0, …, E n` grow by less than `2 ^ 32` a tick, each tick stores its increment, and the increments
add up to the total; for DRAM the same holds where `DRAM_SUPP` is `1`. Nothing is assumed about the
slots the run starts with, nor about the upper halves of the registers. -/
theorem multi_socket_energy (env : Nat → Tick) (s : SysData) (c p n : Nat) (hcpu : 2 ≤ s.ncpu)
    (hc : 1 ≤ c) (hn : s.ncore = s.ncpu * c) (hp : Sampled s.ncpu s.ncore p) :
    (∀ E : Nat → Nat, Metered 32 E n → ShowsPackage 32 env s p .pkgEnergyStatus E n →
      (∀ k < n, ((monitorRun env s (k + 1)).cpuData p).powPkgDiff.toInt = (E (k + 1) : ℤ) - E k) ∧
      ∑ k ∈ Finset.range n, ((monitorRun env s (k + 1)).cpuData p).powPkgDiff.toInt =
        (E n : ℤ) - E 0) ∧
    (s.dramSupp = 1 →
      ∀ D : Nat → Nat, Metered 32 D n → ShowsPackage 32 env s p .dramEnergyStatus D n →
      (∀ k < n, ((monitorRun env s (k + 1)).cpuData p).powDramCDiff.toInt = (D (k + 1) : ℤ) - D k) ∧
      ∑ k ∈ Finset.range n, ((monitorRun env s (k + 1)).cpuData p).powDramCDiff.toInt =
        (D n : ℤ) - D 0) := by
  refine ⟨?_, ?_⟩
  · intro E hE hS
    exact sampled_accounting env (pkgCounter s.host) (fun _ _ => rfl) hcpu hc hn hp hE hS
  · intro hd D hD hS
    exact sampled_accounting env (dramCounter hd) (fun _ _ => rfl) hcpu hc hn hp hD hS

/-- A tick in which the registers show `msr`; its other inputs do not matter here. -/
def tickOf (msr : Nat → Msr → BitVec 64) : Tick :=
  ⟨default, ⟨fun _ => 0, msr⟩, default⟩

/-- Two packages of two cores, with DRAM counters. -/
def twoSockets : SysData := { initPowMon with ncpu := 2, ncore := 4, dramSupp := 1 }

/-- Every register counts up by `10` a pass and wraps at `2 ^ 32` in the second tick; the bit above
the counter is set. -/
def wrappingTicks (k : Nat) : Tick := tickOf fun _ _ => BitVec.ofNat 64 (2 ^ 33 - 15 + 10 * k)

lemma wrappingTicks_shows (s : SysData) (p : Nat) (r : Msr) (n : Nat) :
    ShowsPackage 32 wrappingTicks s p r (fun k => 2 ^ 32 - 15 + 10 * k) n := by
  intro k _ core _ _ _
  have e : 2 ^ 33 - 15 + 10 * k = (2 ^ 32 - 15 + 10 * k) + 2 ^ 32 := by omega
  apply BitVec.eq_of_toNat_eq
  simp only [wrappingTicks, tickOf, e, BitVec.toNat_setWidth, BitVec.toNat_ofNat]
  omega

theorem multi_socket_energy_wrapping :
    Sampled 2 4 1 ∧ Metered 32 (fun k => 2 ^ 32 - 15 + 10 * k) 3 ∧
    ShowsPackage 32 wrappingTicks twoSockets 1 .pkgEnergyStatus (fun k => 2 ^ 32 - 15 + 10 * k) 3 ∧
    ∑ k ∈ Finset.range 3,
      ((monitorRun wrappingTicks twoSockets (k + 1)).cpuData 1).powPkgDiff.toInt = 30 ∧
    ∑ k ∈ Finset.range 3,
      ((monitorRun wrappingTicks twoSockets (k + 1)).cpuData 1).powDramCDiff.toInt = 30 := by
  have hs : Sampled 2 4 1 := ⟨2, by decide, by decide, by decide⟩
  have hE : Metered 32 (fun k => 2 ^ 32 - 15 + 10 * k) 3 := by
    intro k _
    constructor <;> dsimp only <;> omega
  obtain ⟨pkg, dram⟩ :=
    multi_socket_energy wrappingTicks twoSockets 2 1 3 (by decide) (by decide) rfl hs
  have hr := wrappingTicks_shows twoSockets 1 .pkgEnergyStatus 3
  have hr' := wrappingTicks_shows twoSockets 1 .dramEnergyStatus 3
  exact ⟨hs, hE, hr, (pkg _ hE hr).2, (dram rfl _ hE hr').2⟩

/-! ## Energy, one package -/

/-- The package energy `core` reads in pass `k`, as the slot stores it. -/
def pkgReading (env : Nat → Tick) (core k : Nat) : BitVec 32 :=
  ((env k).rd.msr core .pkgEnergyStatus).setWidth 32

/-- In ticks `1, …, n` the counter stands, when core `0` reads it, where core `NCORE/2` found it in
the pass before; with one core there is nothing to ask. -/
def IdleBetweenPasses (env : Nat → Tick) (ncore n : Nat) : Prop :=
  ncore = 1 ∨ ∀ k < n, pkgReading env 0 (k + 1) = pkgReading env (ncore / 2) k

section Single
variable {env : Nat → Tick} {s : SysData} {n : Nat}

/-- The value subtracted is the value published from before, for all ticks, exactly if the counter
does not move between passes. -/
lemma single_last_iff (hcpu : s.ncpu = 1) (hn : 1 ≤ s.ncore) :
    (∀ k < n, ((monitorRun env s (k + 1)).cpuData 0).powPkgLast =
      pkgReading env (s.ncore / 2) k) ↔ IdleBetweenPasses env s.ncore n := by
  have last : ∀ k, ((monitorRun env s (k + 1)).cpuData 0).powPkgLast =
      if s.ncore = 1 then pkgReading env (s.ncore / 2) k else pkgReading env 0 (k + 1) :=
    monitorRun_cpuLast_single env (pkgCounter s.host) hcpu hn
  simp only [last]
  by_cases h1 : s.ncore = 1
  · simp [IdleBetweenPasses, h1]
  · simp [IdleBetweenPasses, h1]

/-- The difference of a tick is the increment of the published counts exactly if the value
subtracted is the one published from before. -/
lemma single_diff_iff (hcpu : s.ncpu = 1) (hn : 1 ≤ s.ncore) {F : Nat → Nat}
    (hF : Metered 32 F n) (hS : ∀ k ≤ n, pkgReading env (s.ncore / 2) k = BitVec.ofNat 32 (F k))
    {k : Nat} (hk : k < n) :
    ((monitorRun env s (k + 1)).cpuData 0).powPkgDiff.toInt = (F (k + 1) : ℤ) - F k ↔
      ((monitorRun env s (k + 1)).cpuData 0).powPkgLast = pkgReading env (s.ncore / 2) k := by
  obtain ⟨hle, hlt⟩ := hF k hk
  have diff := monitorRun_cpuDiff env (pkgCounter s.host) (by omega : 0 < s.ncpu) k
  rw [monitorRun_cpuCur_single env (pkgCounter s.host) hcpu hn (k + 1)] at diff
  -- the current cell shows `F (k + 1)`; only the cell subtracted from it is in question
  have cur : (pkgCounter s.host).reading (env (k + 1)).rd (s.ncore / 2) =
      BitVec.ofNat 32 (F (k + 1)) := hS (k + 1) (by omega)
  rw [cur] at diff
  rw [show ((monitorRun env s (k + 1)).cpuData 0).powPkgDiff = _ from diff, hS k (by omega)]
  exact zext_sub_reading_iff (by norm_num) hle hlt _

end Single

/-- Energy accounting with one package. That each tick subtracts what the tick before published from,
and that the differences are the increments of the counts `F` it publishes from (and add up), both
hold of a run exactly if the counter stands still from the last reading of a pass to the first reading
of the next one. -/
theorem single_socket_energy_iff (env : Nat → Tick) (s : SysData) (n : Nat) (hcpu : s.ncpu = 1)
    (hn : 1 ≤ s.ncore) :
    ((∀ k < n, ((monitorRun env s (k + 1)).cpuData 0).powPkgLast =
        ((monitorRun env s k).cpuData 0).powPkg) ↔ IdleBetweenPasses env s.ncore n) ∧
    ∀ F : Nat → Nat, Metered 32 F n →
      (∀ k ≤ n, Shows 32 (F k) ((env k).rd.msr (s.ncore / 2) .pkgEnergyStatus)) →
      (((∀ k < n, ((monitorRun env s (k + 1)).cpuData 0).powPkgDiff.toInt = (F (k + 1) : ℤ) - F k) ∧
        ∑ k ∈ Finset.range n, ((monitorRun env s (k + 1)).cpuData 0).powPkgDiff.toInt =
          (F n : ℤ) - F 0) ↔ IdleBetweenPasses env s.ncore n) := by
  have cur : ∀ k, ((monitorRun env s k).cpuData 0).powPkg = pkgReading env (s.ncore / 2) k :=
    monitorRun_cpuCur_single env (pkgCounter s.host) hcpu hn
  refine ⟨?_, ?_⟩
  · simp only [cur]
    exact single_last_iff hcpu hn
  · intro F hF hS
    rw [← single_last_iff hcpu hn]
    constructor
    · rintro ⟨each, -⟩ k hk
      exact (single_diff_iff hcpu hn hF hS hk).mp (each k hk)
    · intro last
      have each : ∀ k < n, ((monitorRun env s (k + 1)).cpuData 0).powPkgDiff.toInt =
          (F (k + 1) : ℤ) - F k := by
        intro k hk
        exact (single_diff_iff hcpu hn hF hS hk).mpr (last k hk)
      exact ⟨each, sum_increments each⟩

/-- One package of two cores. -/
def oneSocket : SysData := { initPowMon with ncpu := 1, ncore := 2 }

/-- The energy counter, read on core `0` and then on core `1`: `0` and `10` in the start-up pass, `50`
and `60` in the tick. -/
def busyTicks (k : Nat) : Tick := tickOf fun core _ => BitVec.ofNat 64 (50 * k + 10 * core)

/-- With one package the published energy of a tick is what the package consumed *during* the pass. -/
theorem single_socket_energy_busy :
    Metered 32 (fun k => 50 * k + 10) 1 ∧
    (∀ k ≤ 1, Shows 32 (50 * k + 10) ((busyTicks k).rd.msr 1 .pkgEnergyStatus)) ∧
    ((monitorRun busyTicks oneSocket 1).cpuData 0).powPkgLast ≠
      ((monitorRun busyTicks oneSocket 0).cpuData 0).powPkg ∧
    ((monitorRun busyTicks oneSocket 1).cpuData 0).powPkgDiff.toInt = 10 ∧
    ((monitorRun busyTicks oneSocket 1).cpuData 0).powPkgDiff.toInt ≠ 60 - 10 := by
  refine ⟨?_, ?_, ?_, ?_, ?_⟩
  · intro k _
    constructor <;> dsimp only <;> omega
  · intro k hk
    interval_cases k <;> rfl
  · decide +kernel
  · decide +kernel
  · decide +kernel

/-- Core `0` finds the counter where core `1` left it in the pass before. -/
def idleTicks (k : Nat) : Tick := tickOf fun core _ => BitVec.ofNat 64 (10 * (k + core))

theorem single_socket_energy_idle :
    IdleBetweenPasses idleTicks 2 3 ∧ Metered 32 (fun k => 10 * (k + 1)) 3 ∧
    ∑ k ∈ Finset.range 3,
      ((monitorRun idleTicks oneSocket (k + 1)).cpuData 0).powPkgDiff.toInt = 30 := by
  have idle : IdleBetweenPasses idleTicks 2 3 := .inr fun k _ => rfl
  have hF : Metered 32 (fun k => 10 * (k + 1)) 3 := by
    intro k _
    constructor <;> dsimp only <;> omega
  have hS : ∀ k ≤ 3, Shows 32 (10 * (k + 1))
      ((idleTicks k).rd.msr (oneSocket.ncore / 2) .pkgEnergyStatus) := by
    intro k hk
    interval_cases k <;> rfl
  have run := single_socket_energy_iff idleTicks oneSocket 3 rfl (by decide)
  exact ⟨idle, hF, ((run.2 _ hF hS).mpr idle).2⟩

/-! ## Counters of 48 bits -/

/-- Two true counts between which a `w`-bit counter does not wrap. -/
def NoWrap (w : Nat) (a b : Nat) : Prop := a / 2 ^ w = b / 2 ^ w

/-- A register read as the count `T` modulo `2 ^ 48`. -/
def Reads48 (T : Nat) (r : BitVec 64) : Prop := r = BitVec.ofNat 64 (T % 2 ^ 48)

/-- The difference of two readings of a 48-bit counter, taken in 64 bits. -/
lemma sub_reads48_iff {a b : Nat} {x y : BitVec 64} (hx : Reads48 b x) (hy : Reads48 a y) :
    (x - y).toInt = (b : ℤ) - a ↔ NoWrap 48 a b := by
  have toNat : ∀ T, (BitVec.ofNat 64 (T % 2 ^ 48)).toNat = T % 2 ^ 48 := by
    intro T
    rw [BitVec.toNat_ofNat]
    omega
  refine sub_narrow_eq_iff (by norm_num) ?_ ?_
  · rw [hx, toNat]
  · rw [hy, toNat]

/-- A package whose uncore clock a run reads once a pass: on a Haswell-EP host with two packages or
more. -/
structure UclkSampled (s : SysData) (p : Nat) : Prop where
  multi : 2 ≤ s.ncpu
  cores : ∃ c ≥ 1, s.ncore = s.ncpu * c
  model : s.cpuModel = haswellEp
  extra : s.extraCounters = 1
  sampled : Sampled s.ncpu s.ncore p

/-- The fixed counters and the uncore clock are 48 bits wide and subtracted in 64 bits. Over a run of
`n` ticks the differences of all cores are the true increments exactly if none of these counters wraps
in any of its ticks, and so are those of a package's uncore clock. -/
theorem fixed_counter_iff (env : Nat → Tick) (s : SysData) (n : Nat)
    (T : Nat → FixedCtr → Nat → Nat) (U : Nat → Nat → Nat)
    (hT : ∀ core < s.ncore, ∀ κ, ∀ k ≤ n, Reads48 (T core κ k) ((env k).rd.msr core κ.reg))
    (hU : ∀ core < s.ncore, SampledOn s.ncore core → UclkSampled s (packageOf s.ncpu s.ncore core) →
      ∀ k ≤ n, Reads48 (U (packageOf s.ncpu s.ncore core) k)
        ((env k).rd.msr core .uMsrPmonUclkFixedCtr)) :
    ((∀ core < s.ncore, ∀ κ : FixedCtr, ∀ k < n,
        (κ.diff ((monitorRun env s (k + 1)).coreData core)).toInt =
          (T core κ (k + 1) : ℤ) - T core κ k) ∧
      (∀ p, UclkSampled s p → ∀ k < n,
        ((monitorRun env s (k + 1)).cpuData p).uclkDiff.toInt = (U p (k + 1) : ℤ) - U p k)) ↔
    ((∀ core < s.ncore, ∀ κ, ∀ k < n, NoWrap 48 (T core κ k) (T core κ (k + 1))) ∧
      (∀ p, UclkSampled s p → ∀ k < n, NoWrap 48 (U p k) (U p (k + 1)))) := by
  have core_iff : ∀ core < s.ncore, ∀ κ : FixedCtr, ∀ k < n,
      ((κ.diff ((monitorRun env s (k + 1)).coreData core)).toInt =
        (T core κ (k + 1) : ℤ) - T core κ k ↔ NoWrap 48 (T core κ k) (T core κ (k + 1))) := by
    intro core hcore κ k hk
    rw [monitorRun_coreDiff κ hcore k]
    exact sub_reads48_iff (hT core hcore κ (k + 1) hk) (hT core hcore κ k hk.le)
  have uclk_iff : ∀ p, UclkSampled s p → ∀ k < n,
      (((monitorRun env s (k + 1)).cpuData p).uclkDiff.toInt = (U p (k + 1) : ℤ) - U p k ↔
        NoWrap 48 (U p k) (U p (k + 1))) := by
    intro p hp k hk
    obtain ⟨c, hc, hn⟩ := hp.cores
    obtain ⟨core, hcore, hon, rfl, hdiff⟩ :=
      sampled_cpuDiff env (uclkCounter hp.extra hp.model) hp.multi hc hn hp.sampled
    have e := hdiff k
    rw [BitVec.setWidth_eq] at e
    rw [show ((monitorRun env s (k + 1)).cpuData _).uclkDiff = _ from e]
    exact sub_reads48_iff (hU core hcore hon hp (k + 1) hk) (hU core hcore hon hp k hk.le)
  constructor
  · rintro ⟨hcores, hcpus⟩
    refine ⟨?_, ?_⟩
    · exact fun core hcore κ k hk => (core_iff core hcore κ k hk).mp (hcores core hcore κ k hk)
    · exact fun p hp k hk => (uclk_iff p hp k hk).mp (hcpus p hp k hk)
  · rintro ⟨hcores, hcpus⟩
    refine ⟨?_, ?_⟩
    · exact fun core hcore κ k hk => (core_iff core hcore κ k hk).mpr (hcores core hcore κ k hk)
    · exact fun p hp k hk => (uclk_iff p hp k hk).mpr (hcpus p hp k hk)

/-- Counters that stand at `T` in the start-up pass and `20` counts later in the tick. -/
def ticksFrom (T k : Nat) : Tick := tickOf fun _ _ => BitVec.ofNat 64 ((T + 20 * k) % 2 ^ 48)

/-- A tick in which the counters wrap: the stored difference is `20 - 2 ^ 48`. -/
theorem fixed_counter_wrapped :
    Metered 48 (fun k => 2 ^ 48 - 10 + 20 * k) 1 ∧
    (∀ core < 4, ∀ κ : FixedCtr, ∀ k ≤ 1,
      Reads48 (2 ^ 48 - 10 + 20 * k) ((ticksFrom (2 ^ 48 - 10) k).rd.msr core κ.reg)) ∧
    ((monitorRun (ticksFrom (2 ^ 48 - 10)) twoSockets 1).coreData 3).instrDiff.toInt =
      20 - 2 ^ 48 ∧
    ((monitorRun (ticksFrom (2 ^ 48 - 10)) twoSockets 1).coreData 3).instrDiff.toInt ≠
      ((2 ^ 48 - 10 + 20 : ℕ) : ℤ) - (2 ^ 48 - 10 : ℕ) := by
  refine ⟨?_, ?_, ?_, ?_⟩
  · intro k _
    constructor <;> dsimp only <;> omega
  · intro core _ κ k _
    rfl
  · decide +kernel
  · decide +kernel

/-- The two packages on Haswell-EP. -/
def haswellSockets : SysData := { twoSockets with cpuModel := haswellEp }

theorem fixed_counter_unwrapped :
    UclkSampled haswellSockets 1 ∧
    ((monitorRun (ticksFrom 100) haswellSockets 1).coreData 3).clkRefDiff.toInt = 20 ∧
    ((monitorRun (ticksFrom 100) haswellSockets 1).cpuData 1).uclkDiff.toInt = 20 := by
  have hs : UclkSampled haswellSockets 1 :=
    ⟨by decide, ⟨2, by decide, rfl⟩, rfl, rfl, ⟨2, by decide, by decide, by decide⟩⟩
  have noWrap : ∀ k < 1, NoWrap 48 (100 + 20 * k) (100 + 20 * (k + 1)) := by
    intro k hk
    interval_cases k
    rfl
  obtain ⟨cores, cpus⟩ := (fixed_counter_iff (ticksFrom 100) haswellSockets 1
    (fun _ _ k => 100 + 20 * k) (fun _ k => 100 + 20 * k) (fun _ _ _ _ _ => rfl)
    (fun _ _ _ _ _ _ => rfl)).mpr ⟨fun _ _ _ => noWrap, fun _ _ => noWrap⟩
  have core := cores 3 (by decide) .clkRef 0 (by decide)
  have cpu := cpus 1 hs 0 (by decide)
  norm_num at core cpu
  exact ⟨hs, core, cpu⟩

end Powmon.Monitor
