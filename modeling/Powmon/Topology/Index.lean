import Powmon.Topology.Bounds
import Powmon.Topology.Placement

/-!
# The package index of the daemon's loops

`read_msr_data`, `read_msr_data_first` and `program_msr` of `powmon/bin/sensor_read_lib.c` work out a
package index on core `0` and on core `NCORE/2`, as `trunc(core*NCPU)/NCORE` with the counts of
`detect_topology`, and the first two use it on all cores up to the next one that sets it.

* `detected_bounds`: the counts are at most `MAX_PACKAGES` and `MAX_PACKAGES * MAX_CORES`, if the
  detection has stayed within its arrays;
* `cpuidExpr_eq`: for counts like these the expression, in `double`s as C evaluates it, is the quotient
  `packageOf`;
* `cpuid_in_bounds`: the index is that of a package, and every array access of a pass (`passAccesses`)
  stays in its array. The invariant is `IndexInv`.
-/

namespace Powmon.Topology
open Lib
open Monitor (SysData PassState passBody passBody_host samplePackage sampleEachCore readMsrPass
  readMsrData readMsrDataFirst)

/-! ## What the detection counts -/

/-- A table has marked some of its indices, and counted them. -/
def Tally.CountsBelow (t : Tally) (n : Nat) : Prop := ∃ S ⊆ Finset.range n, t.Counts S

lemma Tally.CountsBelow.total_le {t : Tally} {n : Nat} (h : t.CountsBelow n) : t.total ≤ n := by
  obtain ⟨S, sub, counts⟩ := h
  rw [counts.2]
  exact (Finset.card_le_card sub).trans (Finset.card_range n).le

lemma Tally.CountsBelow.mark {t : Tally} {n : Nat} (h : t.CountsBelow n) {i : ℤ} (h0 : 0 ≤ i)
    (hi : i < n) : (t.mark i).CountsBelow n := by
  obtain ⟨S, sub, counts⟩ := h
  obtain ⟨k, rfl⟩ := Int.eq_ofNat_of_zero_le h0
  have hk : k ∈ Finset.range n := Finset.mem_range.mpr (Int.ofNat_lt.mp hi)
  exact ⟨insert k S, Finset.insert_subset hk sub, Tally.mark_counts counts k⟩

/-- The invariant of the loop over the lines: the variables are in range, and so is what is marked. -/
def TablesBelow (st : TopologyState) : Prop :=
  VarsInRange st ∧ ∀ tb : Table, (st.tally tb).CountsBelow tb.size

lemma detectLine_below {st : TopologyState} (h : TablesBelow st) {l : Text} (hl : LineInRange l) :
    TablesBelow (detectLine st l) := by
  obtain ⟨vars, below⟩ := h
  refine ⟨detectLine_inRange vars ((lineAccess_inBounds_iff vars l).mpr hl), ?_⟩
  intro tb
  rw [detectLine_tally, Tally.line]
  split
  · next hkey =>
    cases hn : scanIntAfter tb.words (cString l) with
    | none => exact (below tb).mark (vars tb).1 (vars tb).2
    | some n =>
      obtain ⟨h0, hlt⟩ := hl tb hkey n hn
      exact (below tb).mark h0 hlt
  · exact below tb

lemma foldl_detectLine_below {st : TopologyState} (h : TablesBelow st) {ls : List Text}
    (hls : ∀ l ∈ ls, LineInRange l) : TablesBelow (ls.foldl detectLine st) := by
  induction ls generalizing st with
  | nil => exact h
  | cons l ls ih =>
    obtain ⟨hl, rest⟩ := List.forall_mem_cons.mp hls
    exact ih (detectLine_below h hl) rest

/-- The counts of a file whose numbers are in range. -/
lemma detected_bounds {text : Text} {d : Detected}
    (hids : ∀ l ∈ lines bufsiz text, LineInRange l) (hd : detectTopology (some text) = some d) :
    d.ncpu ≤ maxPackages ∧ ∃ c ≤ maxCores, d.ncore = d.ncpu * c := by
  have start : TablesBelow ⟨.init, .init, .init⟩ := by
    refine ⟨varsInRange_init, ?_⟩
    intro tb
    refine ⟨∅, Finset.empty_subset _, ?_⟩
    cases tb <;> exact Tally.init_counts
  obtain ⟨-, below⟩ := foldl_detectLine_below start hids
  cases hd
  exact ⟨(below .sockets).total_le, _, (below .cores).total_le, Nat.mul_comm ..⟩

/-! ## The expression -/

/-- `trunc(core*NCPU)/NCORE` as C evaluates it, stored in an `int`. -/
def cpuidExpr (ncpu ncore core : Nat) : ℤ :=
  let product := binary64.ofInt (core * ncpu)
  (binary64.div (binary64.ofInt product.trunc) (binary64.ofInt ncore)).trunc

/-- The `double` quotient has the integer part of the exact one. -/
lemma cpuidExpr_eq {ncpu ncore core : Nat} (hcore : core < ncore) (hcpu : ncpu < 2 ^ 20)
    (hn : ncore < 2 ^ 31) : cpuidExpr ncpu ncore core = packageOf ncpu ncore core := by
  have small : core * ncpu < ncore * 2 ^ 20 := by nlinarith
  have exact53 : ∀ n : Nat, n < 2 ^ 53 → binary64.ofInt n = .fin false n := fun n h =>
    ofInt_natCast (by decide) (by decide) (by decide) h
  have product : binary64.ofInt ((core : ℤ) * ncpu) = .fin false (core * ncpu : ℕ) := by
    exact_mod_cast exact53 (core * ncpu) (by omega)
  have whole : (Fl.fin false ((core * ncpu : ℕ) : ℚ≥0)).trunc = (core * ncpu : ℕ) := by
    simp only [Fl.trunc, Bool.false_eq_true, if_false, Nat.floor_natCast]
  have nonzero : ((ncore : ℕ) : ℚ≥0) ≠ 0 := by
    have : ncore ≠ 0 := by omega
    exact_mod_cast this
  obtain ⟨y, rounded, floor⟩ := binary64_round_quotient (N := core * ncpu) (d := ncore) (a := 20)
    (b := 30) false (by omega) (by norm_num) small hn (by norm_num)
  rw [cpuidExpr, product, whole, exact53 _ (by omega), exact53 ncore (by omega)]
  simp only [Format.div, nonzero, if_false, bne_self_eq_false, rounded, Fl.trunc, floor,
    Bool.false_eq_true, packageOf]

/-- The quotient is the exact one, cut off at the point. -/
lemma floor_eq_packageOf (ncpu ncore core : Nat) :
    ⌊((core * ncpu : ℕ) : ℚ) / ncore⌋ = packageOf ncpu ncore core := by
  rw [Rat.floor_natCast_div_natCast, packageOf]
  push_cast
  rfl

/-! ## The accesses of a pass -/

/-- The arrays that a pass indexes. -/
inductive PassArray where
  | cpuData
  | coreData
  | dieTemp
  | dieTempEn
deriving DecidableEq

/-- Their sizes: `main` allocates `cpu_data` and `core_data` for the detected counts. -/
def PassArray.size (s : SysData) : PassArray → Nat
  | .cpuData => s.ncpu
  | .coreData => s.ncore
  | .dieTemp => maxPackages
  | .dieTempEn => maxPackages

/-- An access to `array[index]`. -/
structure PassAccess where
  array : PassArray
  index : Nat
deriving DecidableEq

/-- The access lies within the array. -/
def PassAccess.InBounds (s : SysData) (a : PassAccess) : Prop := a.index < a.array.size s

/-- What the per-package branch accesses, each element once. -/
def branchAccesses (cpuid : Nat) : List PassAccess :=
  [⟨.cpuData, cpuid⟩, ⟨.dieTempEn, cpuid⟩, ⟨.dieTemp, cpuid⟩]

/-- What an iteration accesses: its branch, then the core's slot and `dieTemp` at the index in
force. -/
def bodyAccesses (rd : Readings) (core : Nat) (st : PassState) : List PassAccess :=
  if SampledOn st.sysd.ncore core then
    let st := samplePackage rd core st
    branchAccesses st.cpuid ++ [⟨.coreData, core⟩, ⟨.dieTemp, st.cpuid⟩]
  else [⟨.coreData, core⟩, ⟨.dieTemp, st.cpuid⟩]

/-- The body of `read_msr_data` and `read_msr_data_first`, with its accesses. -/
def accessPass (rd : Readings) (s : SysData) : PassState × List PassAccess :=
  forLoop s.ncore (fun core x => (passBody rd core x.1, x.2 ++ bodyAccesses rd core x.1))
    (⟨s, 0, []⟩, [])

/-- The accesses of a pass. -/
def passAccesses (rd : Readings) (s : SysData) : List PassAccess := (accessPass rd s).2

/-- The accesses are those of the pass. -/
lemma accessPass_sysd (rd : Readings) (s : SysData) :
    (accessPass rd s).1.sysd = readMsrData rd s ∧
      (accessPass rd s).1.sysd = readMsrDataFirst rd s := by
  have pass : (accessPass rd s).1 = readMsrPass rd s :=
    forLoop_map (fun _ => True) trivial (fun _ _ _ => trivial) Prod.fst (passBody rd)
      fun _ _ _ => rfl
  rw [pass]
  exact ⟨rfl, rfl⟩

/-- Between two iterations: `cpuid` is the index of core `0` or of core `NCORE/2`, and all accesses so
far are in bounds. -/
structure IndexInv (s : SysData) (x : PassState × List PassAccess) : Prop where
  host : x.1.sysd.host = s.host
  cpuid : x.1.cpuid = 0 ∨ x.1.cpuid = s.ncpu / 2
  accesses : ∀ a ∈ x.2, a.InBounds s

section Pass
variable {s : SysData} {c : Nat}

/-- The index worked out in the branch. -/
lemma packageOf_sampled (hcpu : 0 < s.ncpu) (hn : s.ncore = s.ncpu * c) (hc : 0 < c) {core : Nat}
    (hon : SampledOn s.ncore core) :
    packageOf s.ncpu s.ncore core = 0 ∨ packageOf s.ncpu s.ncore core = s.ncpu / 2 := by
  cases hon with
  | inl h =>
    rw [h]
    exact .inl (packageOf_zero ..)
  | inr h =>
    rw [h, hn]
    exact .inr (packageOf_half hcpu hc)

lemma passBody_cpuid (rd : Readings) (core : Nat) (st : PassState) :
    (passBody rd core st).cpuid =
      if SampledOn st.sysd.ncore core then packageOf st.sysd.ncpu st.sysd.ncore core
      else st.cpuid := by
  unfold passBody sampleEachCore
  split <;> rfl

/-- An iteration accesses the arrays of packages at the `cpuid` it leaves, and the core's slot. -/
lemma mem_bodyAccesses {rd : Readings} {core : Nat} {st : PassState} {a : PassAccess}
    (ha : a ∈ bodyAccesses rd core st) :
    a.array = .coreData ∧ a.index = core ∨
      a.array ≠ .coreData ∧ a.index = (passBody rd core st).cpuid := by
  rw [passBody_cpuid]
  unfold bodyAccesses branchAccesses samplePackage at ha
  split at ha
  · next hs =>
    rw [if_pos hs]
    simp only [List.cons_append, List.nil_append, List.mem_cons, List.not_mem_nil, or_false] at ha
    rcases ha with rfl | rfl | rfl | rfl | rfl <;> simp
  · next hs =>
    rw [if_neg hs]
    simp only [List.mem_cons, List.not_mem_nil, or_false] at ha
    rcases ha with rfl | rfl <;> simp

lemma IndexInv.step {rd : Readings} {x : PassState × List PassAccess} (hmax : s.ncpu ≤ maxPackages)
    (hn : s.ncore = s.ncpu * c) {core : Nat} (hcore : core < s.ncore) (inv : IndexInv s x) :
    IndexInv s (passBody rd core x.1, x.2 ++ bodyAccesses rd core x.1) := by
  have hcp : x.1.sysd.ncpu = s.ncpu := congrArg Monitor.Host.ncpu inv.host
  have hco : x.1.sysd.ncore = s.ncore := congrArg Monitor.Host.ncore inv.host
  have hcpu : 0 < s.ncpu := Nat.pos_of_mul_pos_right (by omega : 0 < s.ncpu * c)
  have hc : 0 < c := Nat.pos_of_mul_pos_left (by omega : 0 < s.ncpu * c)
  have cpuid : (passBody rd core x.1).cpuid = 0 ∨ (passBody rd core x.1).cpuid = s.ncpu / 2 := by
    rw [passBody_cpuid, hcp, hco]
    split
    · next hon => exact packageOf_sampled hcpu hn hc hon
    · exact inv.cpuid
  refine ⟨(passBody_host ..).trans inv.host, cpuid, ?_⟩
  rw [List.forall_mem_append]
  refine ⟨inv.accesses, ?_⟩
  intro a ha
  rw [PassAccess.InBounds]
  cases mem_bodyAccesses ha with
  | inl own =>
    rw [own.1, own.2]
    exact hcore
  | inr pkg =>
    have hlt : a.index < s.ncpu := by
      rw [pkg.2]
      omega
    cases harr : a.array with
    | cpuData => exact hlt
    | coreData => exact absurd harr pkg.1
    | dieTemp => exact hlt.trans_le hmax
    | dieTempEn => exact hlt.trans_le hmax

/-- All accesses of a pass are in bounds. -/
lemma passAccesses_inBounds (rd : Readings) (hmax : s.ncpu ≤ maxPackages)
    (hn : s.ncore = s.ncpu * c) : ∀ a ∈ passAccesses rd s, a.InBounds s := by
  have inv : IndexInv s (accessPass rd s) := by
    refine forLoop_inv (fun _ x => IndexInv s x) ⟨rfl, .inl rfl, nofun⟩ ?_
    intro core hcore x inv
    exact inv.step hmax hn hcore
  exact inv.accesses

end Pass

/-! ## The index -/

/-- For every file whose numbers are indices of the arrays of the detection, and the counts detected
from it: wherever a loop works out a package index, the `int` product does not overflow, the divisor
is positive, and the quotient, exact or of `double`s, is `0` on core `0` and `NCPU/2` on core
`NCORE/2`, a package of the host; and all array accesses of a pass are in bounds. -/
theorem cpuid_in_bounds (text : Text) (d : Detected)
    (hids : ∀ l ∈ lines bufsiz text, LineInRange l) (hd : detectTopology (some text) = some d) :
    (∀ core < d.ncore, SampledOn d.ncore core →
      core * d.ncpu < 2 ^ 31 ∧ 0 < d.ncore ∧
      ⌊((core * d.ncpu : ℕ) : ℚ) / d.ncore⌋ = packageOf d.ncpu d.ncore core ∧
      cpuidExpr d.ncpu d.ncore core = packageOf d.ncpu d.ncore core ∧
      (core = 0 → packageOf d.ncpu d.ncore core = 0) ∧
      (core = d.ncore / 2 → packageOf d.ncpu d.ncore core = d.ncpu / 2) ∧
      packageOf d.ncpu d.ncore core < d.ncpu ∧ packageOf d.ncpu d.ncore core < maxPackages) ∧
    ∀ (rd : Readings) (s : SysData), ∀ a ∈ passAccesses rd (d.install s),
      a.index < a.array.size (d.install s) := by
  obtain ⟨hmax, c, hcmax, hn⟩ := detected_bounds hids hd
  refine ⟨?_, ?_⟩
  · intro core hcore _
    have hcpu : 0 < d.ncpu := Nat.pos_of_mul_pos_right (by omega : 0 < d.ncpu * c)
    have hc : 0 < c := Nat.pos_of_mul_pos_left (by omega : 0 < d.ncpu * c)
    have most : d.ncore ≤ maxPackages * maxCores := by
      rw [hn]
      exact Nat.mul_le_mul hmax hcmax
    have product : core * d.ncpu ≤ maxPackages * maxCores * maxPackages :=
      Nat.mul_le_mul (hcore.le.trans most) hmax
    have own := packageOf_lt hcore hcpu
    rw [maxPackages] at hmax
    rw [maxPackages, maxCores] at most product
    refine ⟨by omega, by omega, floor_eq_packageOf .., cpuidExpr_eq hcore (by omega) (by omega), ?_,
      ?_, own, ?_⟩
    · intro h
      rw [h, packageOf_zero]
    · intro h
      rw [h, hn]
      exact packageOf_half hcpu hc
    · rw [maxPackages]
      omega
  · intro rd s
    exact passAccesses_inBounds (s := d.install s) rd hmax hn

/-- The number of a line of a record is the one of the record. -/
lemma scanned_of_shown {key x : Text} {words id size : Nat} {line : Nat → Text} {shown : List Text}
    (hk : '\n' ∉ key) (hl : ∀ n, scanIntAfter words (line n ++ ['\n']) = some (storeInt n))
    (h : shown.filter (key.isPrefixOf ·) = [line id]) (hid : id < size) (hsize : size ≤ 2 ^ 31)
    (hx : x ∈ shown) (h0 : '\x00' ∉ x) (hkey : key.isPrefixOf (cString (x ++ ['\n']))) :
    ∀ n ∈ scanIntAfter words (cString (x ++ ['\n'])), 0 ≤ n ∧ n < size := by
  rw [cString_line h0] at hkey ⊢
  rw [isPrefixOf_newline hk] at hkey
  have mem : x ∈ shown.filter (key.isPrefixOf ·) := List.mem_filter.mpr ⟨hx, hkey⟩
  rw [h] at mem
  obtain rfl := List.mem_singleton.mp mem
  rw [hl, storeInt_natCast (hid.trans_le hsize)]
  rintro n ⟨⟩
  omega

/-- A well-formed file is in range. -/
lemma lineInRange_cpuinfo (rs : List Record) : ∀ l ∈ lines bufsiz (cpuinfo rs), LineInRange l := by
  intro l hl
  rw [lines_cpuinfo] at hl
  obtain ⟨x, hx, rfl⟩ := List.mem_map.mp hl
  obtain ⟨r, -, hx⟩ := List.mem_flatMap.mp hx
  have h0 := (r.plain x hx).2
  intro tb hkey
  cases tb with
  | logicalCpus =>
    exact scanned_of_shown (by decide) scan_processorLine r.processor_line r.processor_lt (by decide)
      hx h0 hkey
  | sockets =>
    exact scanned_of_shown (by decide) scan_physicalIdLine r.physicalId_line r.physicalId_lt
      (by decide) hx h0 hkey
  | cores =>
    exact scanned_of_shown (by decide) scan_coreIdLine r.coreId_line r.coreId_lt (by decide) hx h0
      hkey

/-- Two sockets of two cores: the middle core, `2`, stands for package `1`. -/
theorem cpuid_in_bounds_blockwise :
    ∃ d, detectTopology (some (cpuinfo blockwise)) = some d ∧ d.ncpu = 2 ∧ d.ncore = 4 ∧
      packageOf d.ncpu d.ncore 2 = 1 ∧
      ∀ (rd : Readings) (s : SysData), ∀ a ∈ passAccesses rd (d.install s),
        a.index < a.array.size (d.install s) := by
  have hd := detectTopology_cpuinfo blockwise
  obtain ⟨index, accesses⟩ := cpuid_in_bounds _ _ (lineInRange_cpuinfo blockwise) hd
  obtain ⟨-, -, -, -, -, middle, -⟩ := index 2 (by decide) (by decide)
  exact ⟨_, hd, by decide, by decide, middle (by decide), accesses⟩

end Powmon.Topology
