import Powmon.Energy.Result

/-!
# The wraps the energy library counts

`init_msr_data` of `energy-app/sensor_read_lib.c` sets `powPkg_overflow` to zero, and every visit of
`read_msr_energy` and `final_msr_energy` compares the new reading of the package counter with the one
before. The slot of a package so is a `WrapCount`: every visit is one reading of it, wherever the
visit stands in its pass (`readVisit_wrapCount`, `finalVisit_wrapCount`), so that a run reads it once
for every visit after the first pass (`energyRun_wrapCount`).

`pkg_wraps` is what follows for the final record. `show_result` does not use the count of the wraps,
see `pkg_energy_iff`.
-/

namespace Powmon.Energy
open Lib

/-- What a slot says about the package counter. -/
def wrapCount (d : PerCpuData) : WrapCount 32 := ⟨d.powPkg, d.powPkgOverflow⟩

/-- What the visits to package `p` read in these passes, in the order of the visits. -/
def pkgReads (ncpu ncore p : Nat) (passes : List Readings) : List (BitVec 64) :=
  passes.flatMap fun rd => (visitedCores ncpu ncore p).map fun core => rd.msr core .pkgEnergyStatus

/-! ## Visits -/

section Visit
variable (dramSupp : ℤ) (rd : Readings) (core : Nat) (d : PerCpuData)

/-- A read of the package counter is a read of the count. -/
lemma samplePkg_wrapCount (x : BitVec 32) : wrapCount (samplePkg x d) = (wrapCount d).read x := by
  unfold samplePkg wrapCount WrapCount.read
  dsimp only
  split <;> rfl

/-- One of the DRAM counter is not. -/
lemma sampleDram_wrapCount (x : BitVec 32) : wrapCount (sampleDram x d) = wrapCount d := by
  unfold sampleDram
  dsimp only
  split <;> rfl

/-- `init_msr_data` starts the count. -/
lemma initVisit_wrapCount : wrapCount (initVisit dramSupp rd core d) = ⟨pkgReading rd core, 0⟩ := by
  unfold initVisit
  dsimp only
  split_ifs <;> rfl

/-- Every later visit goes on with it. -/
lemma readVisit_wrapCount :
    wrapCount (readVisit dramSupp rd core d) = (wrapCount d).read (pkgReading rd core) := by
  rw [← samplePkg_wrapCount]
  unfold readVisit
  dsimp only
  split_ifs
  · rw [sampleDram_wrapCount, sampleDram_wrapCount]
  · exact sampleDram_wrapCount ..
  · exact sampleDram_wrapCount ..
  · rfl

/-- So does the last one. -/
lemma finalVisit_wrapCount :
    wrapCount (finalVisit dramSupp rd core d) = (wrapCount d).read (pkgReading rd core) := by
  rw [← samplePkg_wrapCount]
  unfold finalVisit
  dsimp only
  split_ifs
  · exact (sampleDram_wrapCount ..).trans (sampleDram_wrapCount ..)
  · exact sampleDram_wrapCount ..
  · exact sampleDram_wrapCount ..
  · rfl

/-- The reading of the last visit is also the final one. -/
lemma finalVisit_powPkg : (finalVisit dramSupp rd core d).powPkg = pkgReading rd core :=
  congrArg WrapCount.reading (finalVisit_wrapCount dramSupp rd core d)

end Visit

/-! ## Runs -/

section Run
variable {init final : Readings} (reads : List Readings) {s : SysData} {p : Nat}

/-- A pass whose visits read the counter reads it once for each visit. -/
lemma samplePackages_wrapCount {ncpu ncore : Nat} {visit : Nat → PerCpuData → PerCpuData}
    {slots : Nat → PerCpuData} (rd : Readings)
    (hv : ∀ core d, wrapCount (visit core d) = (wrapCount d).read (pkgReading rd core)) :
    wrapCount (samplePackages ncpu ncore visit slots p) =
      ((pkgReads ncpu ncore p [rd]).map (BitVec.setWidth 32)).foldl WrapCount.read
        (wrapCount (slots p)) := by
  rw [samplePackages_map wrapCount (fun core c => c.read (pkgReading rd core)) hv, visits_foldl,
    pkgReads, List.flatMap_singleton, List.map_map, List.foldl_map]
  rfl

/-- All reads of a package between the first and the last. -/
lemma reads_wrapCount :
    wrapCount ((reads.foldl (fun s rd => readMsrEnergy rd s) s).cpuData p) =
      ((pkgReads s.ncpu s.ncore p reads).map (BitVec.setWidth 32)).foldl WrapCount.read
        (wrapCount (s.cpuData p)) := by
  induction reads generalizing s with
  | nil => rfl
  | cons rd reads ih =>
    have pass : wrapCount ((readMsrEnergy rd s).cpuData p) = _ :=
      samplePackages_wrapCount rd (readVisit_wrapCount s.dramSupp rd)
    have reads_cons : pkgReads s.ncpu s.ncore p (rd :: reads) =
        pkgReads s.ncpu s.ncore p [rd] ++ pkgReads s.ncpu s.ncore p reads := by
      simp [pkgReads]
    rw [List.foldl_cons, ih, pass, reads_cons, List.map_append, List.foldl_append]
    rfl

/-- A run reads the counter once for each visit after the first pass. -/
lemma energyRun_wrapCount (hp : Sampled s.ncpu s.ncore p) :
    wrapCount ((energyRun init reads final s).cpuData p) =
      ((pkgReads s.ncpu s.ncore p (reads ++ [final])).map (BitVec.setWidth 32)).foldl WrapCount.read
        ⟨pkgReading init (lastVisit s.ncpu s.ncore p), 0⟩ := by
  obtain ⟨hcpu, hcore, -⟩ := @reads_host reads (initMsrData init s)
  have first : wrapCount ((initMsrData init s).cpuData p) =
      ⟨pkgReading init (lastVisit s.ncpu s.ncore p), 0⟩ :=
    samplePackages_last wrapCount _ (initVisit_wrapCount s.dramSupp init) hp
  have last : wrapCount ((energyRun init reads final s).cpuData p) = _ :=
    samplePackages_wrapCount final (finalVisit_wrapCount _ final)
  have split : pkgReads s.ncpu s.ncore p (reads ++ [final]) =
      pkgReads s.ncpu s.ncore p reads ++ pkgReads s.ncpu s.ncore p [final] := by
    simp [pkgReads]
  rw [last, reads_wrapCount, first, hcpu, hcore, split, List.map_append, List.foldl_append]
  rfl

/-- The final reading is the last one. -/
lemma energyRun_final (hp : Sampled s.ncpu s.ncore p) :
    ((energyRun init reads final s).cpuData p).powPkgFinal =
      (wrapCount ((energyRun init reads final s).cpuData p)).reading := by
  obtain ⟨hcpu, hcore, -⟩ := @reads_host reads (initMsrData init s)
  have last : ((energyRun init reads final s).cpuData p).powPkg =
      pkgReading final (lastVisit s.ncpu s.ncore p) := by
    rw [energyRun, finalMsrEnergy, hcpu, hcore]
    exact samplePackages_last PerCpuData.powPkg _ (finalVisit_powPkg _ final) hp
  rw [energyRun_powPkgFinal reads hp, ← last]
  rfl

/-- A pass visits a package at most twice. -/
lemma length_pkgReads_le (ncpu ncore p : Nat) (passes : List Readings) :
    (pkgReads ncpu ncore p passes).length ≤ 2 * passes.length := by
  rw [pkgReads, List.length_flatMap]
  simp only [List.length_map, List.map_const', List.sum_replicate, smul_eq_mul]
  rw [Nat.mul_comm]
  exact Nat.mul_le_mul_right _ (length_visitedCores_le ncpu ncore p)

end Run

/-- For a sampled package, fewer than `2 ^ 31` passes between the first and the last one, and true
counts `E 0, E 1, …` at the last reading of the first pass and at the readings after it, none of which
grows by `2 ^ 32` or more: the wraps counted, the final and the initial reading make up the energy
consumed. -/
theorem pkg_wraps (s : SysData) (p : Nat) (init final : Readings) (reads : List Readings)
    (E : Nat → Nat) (hp : Sampled s.ncpu s.ncore p) (hm : reads.length < 2 ^ 31)
    (hE : Metered 32 E (pkgReads s.ncpu s.ncore p (reads ++ [final])).length)
    (hi : Shows 32 (E 0) (init.msr (lastVisit s.ncpu s.ncore p) .pkgEnergyStatus))
    (hr : ∀ (k : Nat) (h : k < (pkgReads s.ncpu s.ncore p (reads ++ [final])).length),
      Shows 32 (E (k + 1)) (pkgReads s.ncpu s.ncore p (reads ++ [final]))[k]) :
    let d := (energyRun init reads final s).cpuData p
    (E (pkgReads s.ncpu s.ncore p (reads ++ [final])).length : ℤ) - E 0 =
      d.powPkgOverflow.toNat * 2 ^ 32 + d.powPkgFinal.toNat - d.powPkgInit.toNat := by
  intro d
  set n := (pkgReads s.ncpu s.ncore p (reads ++ [final])).length with hn
  have few : n ≤ 2 ^ 32 := by
    have len := length_pkgReads_le s.ncpu s.ncore p (reads ++ [final])
    rw [List.length_append, List.length_singleton] at len
    omega
  have shown : (pkgReads s.ncpu s.ncore p (reads ++ [final])).map (BitVec.setWidth 32) =
      (List.range n).map fun k => BitVec.ofNat 32 (E (k + 1)) := by
    refine List.ext_getElem (by simp [hn]) ?_
    intro k hk hk'
    rw [List.getElem_map, List.getElem_map, List.getElem_range]
    exact hr k (by simpa using hk)
  have first : pkgReading init (lastVisit s.ncpu s.ncore p) = BitVec.ofNat 32 (E 0) := hi
  -- the slot has gone through the readings one by one
  have run : wrapCount d = _ := energyRun_wrapCount reads hp
  rw [shown, first, WrapCount.foldl_read hE] at run
  have overflow : d.powPkgOverflow = BitVec.ofNat 32 (E n / 2 ^ 32 - E 0 / 2 ^ 32) :=
    (congrArg WrapCount.wraps run).trans (BitVec.zero_add _)
  have last : d.powPkgFinal = BitVec.ofNat 32 (E n) :=
    (energyRun_final reads hp).trans (congrArg WrapCount.reading run)
  have initial : d.powPkgInit = BitVec.ofNat 32 (E 0) := (energyRun_powPkgInit reads hp).trans first
  rw [overflow, last, initial]
  exact WrapCount.total hE few

/-- Three billion counts from one reading to the next. -/
def steady (k : Nat) : Nat := 3000000000 * k

/-- The pass that reads `steady k` and `steady (k + 1)` on the two sampled cores of one package. -/
def steadyPass (k : Nat) : Readings :=
  ⟨fun _ => 0, fun core _ => BitVec.ofNat 64 (steady (if core = 0 then k else k + 1) % 2 ^ 32)⟩

/-- One package of four cores, read four times after the first pass: three wraps. -/
theorem pkg_wraps_twice :
    let d := (energyRun (steadyPass 0) [steadyPass 2] (steadyPass 4)
      (startUp haswell 1 4 default)).cpuData 0
    Sampled 1 4 0 ∧ Metered 32 (fun k => steady (k + 1)) 4 ∧ d.powPkgOverflow = 3 ∧
    (steady 5 : ℤ) - steady 1 =
      d.powPkgOverflow.toNat * 2 ^ 32 + d.powPkgFinal.toNat - d.powPkgInit.toNat := by
  intro d
  have hs : Sampled 1 4 0 := ⟨0, by decide, by decide, by decide⟩
  have metered : Metered 32 (fun k => steady (k + 1)) 4 := by
    intro k _
    constructor <;> dsimp only [steady] <;> omega
  have len : (pkgReads 1 4 0 ([steadyPass 2] ++ [steadyPass 4])).length = 4 := by decide
  have shown : ∀ (k : Nat) (h : k < (pkgReads 1 4 0 ([steadyPass 2] ++ [steadyPass 4])).length),
      Shows 32 (steady (k + 1 + 1)) (pkgReads 1 4 0 ([steadyPass 2] ++ [steadyPass 4]))[k] := by
    decide
  have wraps := pkg_wraps (startUp haswell 1 4 default) 0 (steadyPass 0) (steadyPass 4)
    [steadyPass 2] (fun k => steady (k + 1)) hs (by decide) (len ▸ metered) (by decide) shown
  exact ⟨hs, metered, by decide +kernel, wraps⟩

end Powmon.Energy
