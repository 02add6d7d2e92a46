import Powmon.Monitor.Detect
import Powmon.Monitor.History

/-!
# What the package messages depend on

Two runs of the daemon that measure the same may start from different `malloc`ed arrays and, at every
tick, from a different stack. `Aligned` states agree in everything that neither of the two can reach:
the settings and the die temperatures. A pass keeps them aligned and gives the sampled packages the
same temperature (`readMsrData_aligned`), and by `monitorRun_cpuLatch` the counters of a sampled
package are readings. So the messages differ at most in the locals `push_to_broker` prints without
assigning them, and `payload_determined_iff` says on which CPU models there are any.
-/

namespace Powmon.Monitor
open Lib

/-! ## Two runs -/

/-- What a pass measures, and when. -/
structure Measured where
  tv : Timeval
  rd : Readings

/-- The contents of the `malloc`ed arrays. -/
structure Heap where
  cpuData : Nat → PerCpuData
  coreData : Nat → PerCoreData
deriving Inhabited

/-- A state with these arrays. -/
def SysData.withHeap (s : SysData) (heap : Heap) : SysData :=
  { s with cpuData := heap.cpuData, coreData := heap.coreData }

/-- The passes of a run, given the stack each tick starts with. -/
def ticks (m : Nat → Measured) (stk : Nat → Locals) (k : Nat) : Tick := ⟨(m k).tv, (m k).rd, stk k⟩

/-- The payload tick `k + 1` of a run publishes for package `p`. -/
def payload (env : Nat → Tick) (s : SysData) (k p : Nat) : Option Text :=
  (sampHandler (env (k + 1)) (monitorRun env s k)).out[p]?.map Message.payload

/-! ## What a message prints -/

/-- The package power that is published. -/
lemma cpuDiffs_pkgpow (h : Host) (dT : Fl) (d : PerCpuData) :
    (cpuDiffs h dT d).pkgpow = power ((d.powPkg - d.powPkgLast).setWidth 64) ergUnits dT := by
  unfold cpuDiffs
  dsimp only
  split_ifs <;> rfl

/-- The temperature is as it was read. -/
lemma cpuDiffs_tempPkg (h : Host) (dT : Fl) (d : PerCpuData) :
    (cpuDiffs h dT d).tempPkg = d.tempPkg := by
  unfold cpuDiffs
  dsimp only
  split_ifs <;> rfl

/-- The uncore frequency that is published, on a model that has one. -/
lemma cpuDiffs_uclkMHz {h : Host} (hx : h.extraCounters = 1) (hm : h.cpuModel = haswellEp) (dT : Fl)
    (d : PerCpuData) :
    (cpuDiffs h dT d).uclkMHz = megaPerSecond (d.uclk - d.uclkLast) dT := by
  unfold cpuDiffs
  dsimp only
  rw [if_pos hx, if_pos hm]
  split_ifs <;> rfl

/-- The DRAM power that is published, where it is supported. -/
lemma cpuDiffs_drampow {h : Host} (hd : h.dramSupp = 1) (dT : Fl) (d : PerCpuData) :
    (cpuDiffs h dT d).drampow =
      power ((d.powDramC - d.powDramCLast).setWidth 64) dramUnits dT := by
  unfold cpuDiffs
  dsimp only
  rw [if_pos hd]
  split_ifs <;> rfl

/-- The payload of package `p` prints the values of its slot, and two locals. -/
lemma pushToBroker_payload (stk : Locals) (s : SysData) {p : Nat} (hp : p < s.ncpu) :
    let d := cpuDiffs s.host s.dT (s.cpuData p)
    let l := cpuLocals s.host d (forLoop p pushCpu ⟨s, stk, []⟩).locals
    (pushToBroker stk s).out[p]?.map Message.payload =
      some (cpuPayload ⟨d.tempPkg, binary32.div s.nomFreq (binary32.ofNat 1000000), l.uclkMHz,
        l.drampow, d.pkgpow⟩ s.tmpstr) := by
  intro d l
  have slot : (forLoop p pushCpu ⟨s, stk, []⟩).sysd.cpuData p = s.cpuData p := by
    refine forLoop_inv (fun _ (st : PushState) => st.sysd.cpuData p = s.cpuData p) rfl ?_
    intro i hi st h
    exact (setCpu_cpuData_of_ne _ _ (Nat.ne_of_gt hi)).trans h
  have keep := pushCpus_settings p ⟨s, stk, []⟩
  simp only [SysData.settings, Prod.mk.injEq] at keep
  obtain ⟨host, nomFreq, dT, -⟩ := keep
  have metrics : cpuMetrics p (forLoop p pushCpu ⟨s, stk, []⟩) =
      ⟨d.tempPkg, binary32.div s.nomFreq (binary32.ofNat 1000000), l.uclkMHz, l.drampow,
        d.pkgpow⟩ := by
    simp only [cpuMetrics, slot, host, nomFreq, dT]
    rfl
  have len : p < (((List.range s.ncpu).map fun id => cpuMessage s.topic s.qos id
      (cpuMetrics id (forLoop id pushCpu ⟨s, stk, []⟩)) s.tmpstr)).length := by simpa using hp
  rw [pushToBroker_messages, List.getElem?_append_left len, List.getElem?_map,
    List.getElem?_range hp, Option.map_some, Option.map_some, ← metrics]
  rfl

/-! ## Alignment -/

/-- States that agree in the settings and the die temperatures. -/
structure Aligned (s t : SysData) : Prop where
  settings : s.settings = t.settings
  dieTemp : s.dieTemp = t.dieTemp
  dieTempEn : s.dieTempEn = t.dieTempEn

/-- Aligned states are of the same host. -/
lemma Aligned.host {s t : SysData} (h : Aligned s t) : s.host = t.host :=
  congrArg Prod.fst h.settings

/-- `push_to_broker` leaves the die temperatures. -/
lemma pushToBroker_dieTemp (stk : Locals) (s : SysData) :
    (pushToBroker stk s).sysd.dieTemp = s.dieTemp ∧
      (pushToBroker stk s).sysd.dieTempEn = s.dieTempEn := by
  let die (st : PushState) := (st.sysd.dieTemp, st.sysd.dieTempEn)
  have cpu : ∀ i st, die (pushCpu i st) = die st := fun _ _ => rfl
  have core : ∀ i st, die (pushCore i st) = die st := fun _ _ => rfl
  have cpus : die (forLoop s.ncpu pushCpu ⟨s, stk, []⟩) = (s.dieTemp, s.dieTempEn) :=
    forLoop_frame die cpu _
  have cores : die (pushToBroker stk s) = die (forLoop s.ncpu pushCpu ⟨s, stk, []⟩) :=
    forLoop_frame die core _
  have both := cores.trans cpus
  exact ⟨congrArg Prod.fst both, congrArg Prod.snd both⟩

/-- The temperature of a package. -/
lemma sampleCpu_tempPkg (h : Host) (dieTemp : BitVec 32) (rd : Readings) (core : Nat)
    (d : PerCpuData) : (sampleCpu h dieTemp rd core d).tempPkg =
      temperature dieTemp (rd.msr core .packageThermStatus) := by
  unfold sampleCpu
  dsimp only
  split_ifs <;> rfl

/-- The states of two passes in lockstep: besides `Aligned`, the packages visited so far have the same
temperature. -/
structure PassAligned (core : Nat) (a b : PassState) : Prop extends Aligned a.sysd b.sysd where
  cpuid : a.cpuid = b.cpuid
  tempPkg : ∀ p, (∃ i < core, SampledOn a.sysd.ncore i ∧
    packageOf a.sysd.ncpu a.sysd.ncore i = p) → (a.sysd.cpuData p).tempPkg = (b.sysd.cpuData p).tempPkg

/-- The die temperature is read into both states. -/
lemma readDieTemp_aligned {s t : SysData} (h : Aligned s t) (rd : Readings) (core cpuid : Nat) :
    Aligned (readDieTemp rd core cpuid s) (readDieTemp rd core cpuid t) := by
  unfold readDieTemp
  rw [h.dieTempEn, h.dieTemp]
  split
  · exact ⟨h.settings, rfl, rfl⟩
  · exact h

/-- The per-package branch gives the visited package the same temperature. -/
lemma samplePackage_aligned {core : Nat} {a b : PassState} (h : PassAligned core a b)
    (rd : Readings) :
    PassAligned (core + 1) (samplePackage rd core a) (samplePackage rd core b) := by
  obtain ⟨cpuid, hq⟩ : ∃ q, q = packageOf a.sysd.ncpu a.sysd.ncore core := ⟨_, rfl⟩
  have hq' : cpuid = packageOf b.sysd.ncpu b.sysd.ncore core := by
    have hn : a.sysd.ncpu = b.sysd.ncpu := congrArg Host.ncpu h.host
    have hc : a.sysd.ncore = b.sysd.ncore := congrArg Host.ncore h.host
    rw [hq, hn, hc]
  have die := readDieTemp_aligned h.toAligned rd core cpuid
  have keep := readDieTemp_host rd core cpuid a.sysd
  have keepn : (readDieTemp rd core cpuid a.sysd).ncpu = a.sysd.ncpu := congrArg Host.ncpu keep
  have keepc : (readDieTemp rd core cpuid a.sysd).ncore = a.sysd.ncore := congrArg Host.ncore keep
  unfold samplePackage
  dsimp only
  rw [← hq, ← hq']
  refine ⟨⟨die.settings, die.dieTemp, die.dieTempEn⟩, rfl, ?_⟩
  intro p hp
  by_cases hpc : p = cpuid
  · subst hpc
    simp only [setCpu_cpuData_self, sampleCpu_tempPkg, die.dieTemp]
  · obtain ⟨i, hi, hon, e⟩ := hp
    have hon' : SampledOn a.sysd.ncore i := keepc ▸ hon
    have e' : packageOf a.sysd.ncpu a.sysd.ncore i = p := by
      rw [← keepn, ← keepc]
      exact e
    have hlt : i < core := by
      refine lt_of_le_of_ne (Nat.le_of_lt_succ hi) ?_
      intro hic
      exact hpc (by rw [← e', hq, hic])
    show (((readDieTemp rd core cpuid a.sysd).setCpu cpuid _).cpuData p).tempPkg =
      (((readDieTemp rd core cpuid b.sysd).setCpu cpuid _).cpuData p).tempPkg
    rw [setCpu_cpuData_of_ne _ _ hpc, setCpu_cpuData_of_ne _ _ hpc, readDieTemp_cpuData,
      readDieTemp_cpuData]
    exact h.tempPkg p ⟨i, hlt, hon', e'⟩

/-- After an iteration its core is aligned too. -/
lemma passBody_aligned {core : Nat} {a b : PassState} (h : PassAligned core a b) (rd : Readings) :
    PassAligned (core + 1) (passBody rd core a) (passBody rd core b) := by
  have hc : a.sysd.ncore = b.sysd.ncore := congrArg Host.ncore h.host
  unfold passBody
  rw [← hc]
  by_cases hs : SampledOn a.sysd.ncore core
  · rw [if_pos hs, if_pos hs]
    have visit := samplePackage_aligned h rd
    exact ⟨⟨visit.settings, visit.dieTemp, visit.dieTempEn⟩, visit.cpuid, visit.tempPkg⟩
  · rw [if_neg hs, if_neg hs]
    refine ⟨⟨h.settings, h.dieTemp, h.dieTempEn⟩, h.cpuid, ?_⟩
    intro p hp
    obtain ⟨i, hi, hon, e⟩ := hp
    refine h.tempPkg p ⟨i, ?_, hon, e⟩
    refine lt_of_le_of_ne (Nat.le_of_lt_succ hi) ?_
    intro hic
    exact hs (hic ▸ hon)

/-- A pass keeps two states aligned, and gives the sampled packages the same temperature. -/
lemma readMsrData_aligned {s t : SysData} (h : Aligned s t) (rd : Readings) :
    Aligned (readMsrData rd s) (readMsrData rd t) ∧ ∀ p, Sampled s.ncpu s.ncore p →
      ((readMsrData rd s).cpuData p).tempPkg = ((readMsrData rd t).cpuData p).tempPkg := by
  have hc : s.ncore = t.ncore := congrArg Host.ncore h.host
  have lockstep := forLoop_rel (n := s.ncore) (f := passBody rd) (g := passBody rd)
    (s := ⟨s, 0, []⟩) (t := ⟨t, 0, []⟩) PassAligned
    ⟨h, rfl, fun p hp => by obtain ⟨i, hi, -⟩ := hp; cases hi⟩
    (fun _ _ _ _ hab => passBody_aligned hab rd)
  have keep : (readMsrData rd s).host = s.host := readMsrData_host rd s
  have keepn : (readMsrData rd s).ncpu = s.ncpu := congrArg Host.ncpu keep
  have keepc : (readMsrData rd s).ncore = s.ncore := congrArg Host.ncore keep
  have e : readMsrData rd t = (forLoop s.ncore (passBody rd) ⟨t, 0, []⟩).sysd := by rw [hc]; rfl
  rw [e]
  refine ⟨lockstep.toAligned, ?_⟩
  intro p hp
  obtain ⟨core, hlt, hon, hpc⟩ := hp
  refine lockstep.tempPkg p ⟨core, hlt, ?_, ?_⟩
  · show SampledOn (readMsrData rd s).ncore core
    rw [keepc]
    exact hon
  · show packageOf (readMsrData rd s).ncpu (readMsrData rd s).ncore core = p
    rw [keepn, keepc, hpc]

/-- The state a tick publishes from. -/
def sampled (t : Tick) (s : SysData) : SysData :=
  readMsrData t.rd { s with tmpstr := getTimestamp t.tv }

lemma sampled_host (t : Tick) (s : SysData) : (sampled t s).host = s.host := readMsrData_host ..

/-- Ticks that measure the same publish from aligned states, in which the sampled packages have the
same temperature. -/
lemma sampled_aligned {s t : SysData} (h : Aligned s t) (m : Measured) (stk stk' : Locals) :
    Aligned (sampled ⟨m.tv, m.rd, stk⟩ s) (sampled ⟨m.tv, m.rd, stk'⟩ t) ∧
    ∀ p, Sampled s.ncpu s.ncore p →
      ((sampled ⟨m.tv, m.rd, stk⟩ s).cpuData p).tempPkg =
        ((sampled ⟨m.tv, m.rd, stk'⟩ t).cpuData p).tempPkg := by
  have stamp : Aligned { s with tmpstr := getTimestamp m.tv } { t with tmpstr := getTimestamp m.tv } := by
    have e := h.settings
    simp only [SysData.settings, Prod.mk.injEq] at e
    obtain ⟨host, nomFreq, dT, -, topic, qos⟩ := e
    refine ⟨?_, h.dieTemp, h.dieTempEn⟩
    show (s.host, s.nomFreq, s.dT, getTimestamp m.tv, s.topic, s.qos) =
      (t.host, t.nomFreq, t.dT, getTimestamp m.tv, t.topic, t.qos)
    rw [host, nomFreq, dT, topic, qos]
  exact readMsrData_aligned stamp m.rd

/-- `push_to_broker` keeps states aligned, whatever is on its stack. -/
lemma pushToBroker_aligned {s t : SysData} (h : Aligned s t) (stk stk' : Locals) :
    Aligned (pushToBroker stk s).sysd (pushToBroker stk' t).sysd := by
  obtain ⟨die, en⟩ := pushToBroker_dieTemp stk s
  obtain ⟨die', en'⟩ := pushToBroker_dieTemp stk' t
  refine ⟨?_, ?_, ?_⟩
  · rw [pushToBroker_settings, pushToBroker_settings, h.settings]
  · rw [die, die', h.dieTemp]
  · rw [en, en', h.dieTempEn]

lemma monitorRun_ncpu (env : Nat → Tick) (s : SysData) (k : Nat) :
    (monitorRun env s k).ncpu = s.ncpu := congrArg Host.ncpu (monitorRun_host env s k)

lemma monitorRun_ncore (env : Nat → Tick) (s : SysData) (k : Nat) :
    (monitorRun env s k).ncore = s.ncore := congrArg Host.ncore (monitorRun_host env s k)

section Runs
variable (m : Nat → Measured) (stk stk' : Nat → Locals) (s : SysData) (heap heap' : Heap)

/-- Two runs that measure the same stay aligned. -/
lemma monitorRun_aligned (k : Nat) :
    Aligned (monitorRun (ticks m stk) (s.withHeap heap) k)
      (monitorRun (ticks m stk') (s.withHeap heap') k) := by
  induction k with
  | zero =>
    have start : Aligned (s.withHeap heap) (s.withHeap heap') := ⟨rfl, rfl, rfl⟩
    exact (readMsrData_aligned start (m 0).rd).1
  | succ k ih =>
    have pass := (sampled_aligned ih (m (k + 1)) (stk (k + 1)) (stk' (k + 1))).1
    exact pushToBroker_aligned pass (stk (k + 1)) (stk' (k + 1))

variable {s}

/-- The cells of a sampled package's counter hold readings when its message is printed. -/
lemma sampled_latch {w : Nat} (κ : CpuCounter s.host w) {c core : Nat} (hcpu : 2 ≤ s.ncpu)
    (hc : 1 ≤ c) (hn : s.ncore = s.ncpu * c) (hcore : core < s.ncore) (hs : SampledOn s.ncore core)
    (k : Nat) :
    κ.latch ((sampled (ticks m stk (k + 1)) (monitorRun (ticks m stk) (s.withHeap heap) k)).cpuData
      (packageOf s.ncpu s.ncore core)) =
      ⟨κ.reading (m k).rd core, κ.reading (m (k + 1)).rd core⟩ := by
  have run := monitorRun_cpuLatch (ticks m stk) (s := s.withHeap heap) κ hcpu hc hn hcore hs k
  have hp : packageOf s.ncpu s.ncore core < s.ncpu := packageOf_lt hcore (by omega)
  have hh := monitorRun_host (ticks m stk) (s.withHeap heap) k
  have hp' : packageOf s.ncpu s.ncore core <
      (monitorRun (ticks m stk) (s.withHeap heap) k).ncpu :=
    lt_of_lt_of_eq hp (congrArg Host.ncpu hh).symm
  obtain ⟨dT, e⟩ := sampHandler_cpuData (ticks m stk (k + 1)) _ hp'
  -- publishing leaves the cells as the pass has set them
  have kept := κ.keep dT ((sampled (ticks m stk (k + 1))
    (monitorRun (ticks m stk) (s.withHeap heap) k)).cpuData (packageOf s.ncpu s.ncore core))
  rw [hh] at e
  rw [← kept]
  exact (congrArg κ.latch e).symm.trans run

end Runs

/-! ## Which messages are determined -/

/-- On Haswell-EP every value a package message prints comes from the slot. -/
lemma pushToBroker_payload_haswellEp (stk : Locals) {s : SysData} {p : Nat} (hp : p < s.ncpu)
    (hx : s.host.extraCounters = 1) (hm : s.host.cpuModel = haswellEp) (hd : s.host.dramSupp = 1) :
    let d := s.cpuData p
    (pushToBroker stk s).out[p]?.map Message.payload =
      some (cpuPayload ⟨d.tempPkg, binary32.div s.nomFreq (binary32.ofNat 1000000),
        megaPerSecond (delta ⟨d.uclkLast, d.uclk⟩) s.dT,
        power ((delta ⟨d.powDramCLast, d.powDramC⟩).setWidth 64) dramUnits s.dT,
        power ((delta ⟨d.powPkgLast, d.powPkg⟩).setWidth 64) ergUnits s.dT⟩ s.tmpstr) := by
  intro d
  rw [pushToBroker_payload stk s hp]
  simp only [cpuLocals, if_pos (And.intro hx hm), if_pos hd, cpuDiffs_tempPkg, cpuDiffs_pkgpow,
    cpuDiffs_uclkMHz hx hm, cpuDiffs_drampow hd]
  rfl

/-- There, two runs that measure the same publish the same for a sampled package. -/
lemma payload_haswellEp {s : SysData} {c : Nat} (hcpu : 2 ≤ s.ncpu) (hc : 1 ≤ c)
    (hn : s.ncore = s.ncpu * c) (hx : s.host.extraCounters = 1) (hm : s.host.cpuModel = haswellEp)
    (hd : s.host.dramSupp = 1) (m : Nat → Measured) (stk stk' : Nat → Locals) (heap heap' : Heap)
    (k : Nat) {p : Nat} (hp : Sampled s.ncpu s.ncore p) :
    payload (ticks m stk) (s.withHeap heap) k p =
      payload (ticks m stk') (s.withHeap heap') k p := by
  obtain ⟨same, temps⟩ := sampled_aligned (monitorRun_aligned m stk stk' s heap heap' k) (m (k + 1))
    (stk (k + 1)) (stk' (k + 1))
  have sameTemp := temps p (by rw [monitorRun_ncpu, monitorRun_ncore]; exact hp)
  obtain ⟨core, hcore, hs, rfl⟩ := hp
  have hlt : packageOf s.ncpu s.ncore core < s.ncpu := packageOf_lt hcore (by omega)
  -- the message in terms of the readings and of the state the tick publishes from
  have message : ∀ (stk : Nat → Locals) (heap : Heap),
      let a := sampled (ticks m stk (k + 1)) (monitorRun (ticks m stk) (s.withHeap heap) k)
      payload (ticks m stk) (s.withHeap heap) k (packageOf s.ncpu s.ncore core) = some (cpuPayload
        ⟨(a.cpuData (packageOf s.ncpu s.ncore core)).tempPkg,
          binary32.div a.nomFreq (binary32.ofNat 1000000),
          megaPerSecond (delta ⟨(uclkCounter hx hm).reading (m k).rd core,
            (uclkCounter hx hm).reading (m (k + 1)).rd core⟩) a.dT,
          power ((delta ⟨(dramCounter hd).reading (m k).rd core,
            (dramCounter hd).reading (m (k + 1)).rd core⟩).setWidth 64) dramUnits a.dT,
          power ((delta ⟨(pkgCounter s.host).reading (m k).rd core,
            (pkgCounter s.host).reading (m (k + 1)).rd core⟩).setWidth 64) ergUnits a.dT⟩
        a.tmpstr) := by
    intro stk heap a
    have ha : a.host = s.host :=
      (sampled_host _ _).trans (monitorRun_host (ticks m stk) (s.withHeap heap) k)
    have latch := fun w (κ : CpuCounter s.host w) =>
      sampled_latch m stk heap κ hcpu hc hn hcore hs k
    have msg := pushToBroker_payload_haswellEp (stk (k + 1)) (s := a)
      (lt_of_lt_of_eq hlt (congrArg Host.ncpu ha).symm) (by rw [ha, hx]) (by rw [ha, hm])
      (by rw [ha, hd])
    rw [← latch _ (uclkCounter hx hm), ← latch _ (dramCounter hd), ← latch _ (pkgCounter s.host)]
    exact msg
  have settings := same.settings
  simp only [SysData.settings, Prod.mk.injEq] at settings
  obtain ⟨-, nomFreq, dT, tmpstr, -⟩ := settings
  rw [message stk heap, message stk' heap']
  simp only [ticks]
  rw [sameTemp, nomFreq, dT, tmpstr]

/-- The text of a message up to `uclk_MHz` is the same whatever that is. -/
lemma cpuPayload_uclk_ne (temp : BitVec 32) (nomfreq dram pkg : Fl) (tmpstr : Text) :
    cpuPayload ⟨temp, nomfreq, .nan false, dram, pkg⟩ tmpstr ≠
      cpuPayload ⟨temp, nomfreq, .inf false, dram, pkg⟩ tmpstr := by
  have nan : fmtFixed 2 (.nan false) = ['n', 'a', 'n'] := by decide
  have inf : fmtFixed 2 (.inf false) = ['i', 'n', 'f'] := by decide
  intro e
  simp [cpuPayload, nan, inf, List.intercalate] at e

/-- A stack on which `uclk_MHz` has this value. -/
def stack (uclkMHz : Fl) : Nat → Locals := fun _ => { (default : Locals) with uclkMHz := uclkMHz }

/-- Package `0` prints whatever is on the stack for `uclk_MHz`, unless the model is Haswell-EP. -/
lemma payload_uclk {s : SysData} (hn : 0 < s.ncpu) (hm : s.cpuModel ≠ haswellEp)
    (m : Nat → Measured) :
    payload (ticks m (stack (.nan false))) s 0 0 ≠ payload (ticks m (stack (.inf false))) s 0 0 := by
  -- the state the first tick publishes from does not depend on the stack
  obtain ⟨a, ha⟩ : ∃ a, a = sampled (ticks m (stack default) 1) (readMsrDataFirst (m 0).rd s) :=
    ⟨_, rfl⟩
  have host : a.host = s.host := by
    rw [ha, sampled_host, readMsrDataFirst_host]
  have hp : 0 < a.ncpu := lt_of_lt_of_eq hn (congrArg Host.ncpu host).symm
  have unassigned : ¬ (a.host.extraCounters = 1 ∧ a.host.cpuModel = haswellEp) := by
    rw [host]
    exact fun h => hm h.2
  have message : ∀ x, payload (ticks m (stack x)) s 0 0 =
      (pushToBroker (stack x 1) a).out[0]?.map Message.payload := by
    intro x
    rw [ha]
    rfl
  rw [message, message, pushToBroker_payload _ _ hp, pushToBroker_payload _ _ hp]
  simp only [forLoop_zero, cpuLocals, if_neg unassigned]
  intro e
  exact cpuPayload_uclk_ne _ _ _ _ _ (Option.some.inj e)

/-- The messages of the sampled packages depend on the measurements alone exactly on Haswell-EP. On
every other model that is accepted, `uclk_MHz` is printed without having been assigned. -/
theorem payload_determined_iff (model : ℤ) (s₀ : SysData) (m : Nat → Measured) (c : Nat)
    (hmodel : 0 ≤ (selectModel model s₀).1) (hx : s₀.extraCounters = 1) (hcpu : 2 ≤ s₀.ncpu)
    (hc : 1 ≤ c) (hn : s₀.ncore = s₀.ncpu * c) :
    let s := (selectModel model s₀).2
    (∀ (stk stk' : Nat → Locals) (heap heap' : Heap) (k p : Nat), Sampled s.ncpu s.ncore p →
      payload (ticks m stk) (s.withHeap heap) k p =
        payload (ticks m stk') (s.withHeap heap') k p) ↔ model = haswellEp := by
  intro s
  have known := (selectModel_accepts_iff model s₀).mp hmodel
  obtain ⟨ncpu, ncore, extra⟩ := selectModel_topology model s₀
  have hs : (selectModel model s₀).2 = _ := congrArg Prod.snd (selectModel_known known s₀)
  have hm : s.cpuModel = model := by
    show (selectModel model s₀).2.cpuModel = model
    rw [hs]
    split <;> rfl
  constructor
  · intro determined
    by_contra hne
    have visited : Sampled s.ncpu s.ncore 0 := by
      refine ⟨0, ?_, .inl rfl, packageOf_zero _ _⟩
      rw [show s.ncore = s₀.ncore from ncore, hn]
      exact Nat.mul_pos (by omega) hc
    have hpos : 0 < (s.withHeap default).ncpu := lt_of_lt_of_eq (by omega) ncpu.symm
    exact payload_uclk hpos (by rw [← hm] at hne; exact hne) m
      (determined (stack (.nan false)) (stack (.inf false)) default default 0 0 visited)
  · intro hep stk stk' heap heap' k p hp
    have hd : s.dramSupp = 1 := by
      show (selectModel model s₀).2.dramSupp = 1
      rw [hs, hep]
      rfl
    refine payload_haswellEp ?_ hc ?_ ?_ ?_ hd m stk stk' heap heap' k hp
    · rw [show s.ncpu = s₀.ncpu from ncpu]
      exact hcpu
    · rw [show s.ncpu = s₀.ncpu from ncpu, show s.ncore = s₀.ncore from ncore, hn]
    · exact extra.trans hx
    · exact hm.trans hep

/-- A host with two packages of two cores, before its model is detected. -/
def twoPackages : SysData := { initPowMon with ncpu := 2, ncore := 4 }

/-- A Haswell-EP with two packages meets the conditions. -/
theorem payload_determined_haswellEp :
    payload (ticks (fun _ => ⟨default, default⟩) (stack (.nan false)))
        ((selectModel 63 twoPackages).2.withHeap default) 5 1 =
      payload (ticks (fun _ => ⟨default, default⟩) (stack (.inf false)))
        ((selectModel 63 twoPackages).2.withHeap default) 5 1 := by
  have iff := payload_determined_iff 63 twoPackages (fun _ => ⟨default, default⟩) 2 (by decide) rfl
    (by decide) (by decide) rfl
  refine iff.mpr rfl _ _ _ _ 5 1 ⟨2, ?_, .inr rfl, rfl⟩
  exact (by decide : 2 < 4)

/-- On a Sandy Bridge-EP, two stacks lead to different messages of package `0` on the first tick. -/
theorem payload_leak_sandybridgeEp :
    let s := (selectModel sandybridgeEp twoPackages).2
    0 ≤ (selectModel sandybridgeEp twoPackages).1 ∧ Sampled s.ncpu s.ncore 0 ∧
    payload (ticks (fun _ => ⟨default, default⟩) (stack (.nan false))) (s.withHeap default) 0 0 ≠
      payload (ticks (fun _ => ⟨default, default⟩) (stack (.inf false))) (s.withHeap default) 0 0 := by
  intro s
  refine ⟨by decide, ⟨0, by decide, .inl rfl, packageOf_zero _ _⟩, ?_⟩
  exact payload_uclk (s := s.withHeap default) (by decide) (by decide) _

end Powmon.Monitor
