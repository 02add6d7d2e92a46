import Powmon.Monitor.Sample

/-!
# Publishing a sample

`push_to_broker`, `get_timestamp` and `samp_handler` of `powmon/bin/pow_mon.c`: from the readings of a
pass the daemon computes the differences to the previous pass and the metrics, stores them in the
slots, and publishes one message per package and one per core.

C → Lean naming: the two halves of `push_to_broker`'s loop bodies are `cpuDiffs`/`coreDiffs` (what is
stored in the slot) and `cpuMessage`/`coreMessage` (what is published); a loop body is
`pushCpu`/`pushCore`. The C locals that are read although a path leaves them unassigned are `Locals`;
a call starts with whatever the stack holds. `sprintf` into a `float` metric rounds to two decimals
(`fmtFixed 2`); arithmetic follows C's conversions, so a `double` constant or factor makes it
`binary64` and the assignment to a `float` rounds once more.
-/

namespace Powmon.Monitor
open Lib

/-! ## Messages -/

/-- A message handed to `mosquitto_publish`. -/
structure Message where
  topic : Text
  payload : Text
  qos : ℤ
deriving DecidableEq

/-- The values a package message prints. -/
structure CpuMetrics where
  cpuTemp : BitVec 32
  nomfreqMHz : Fl
  uclkMHz : Fl
  drampow : Fl
  pkgpow : Fl

/-- The values a core message prints. -/
structure CoreMetrics where
  coreTemp : BitVec 32
  cpi : Fl
  ips : Fl
  coreLoad : Fl
  mclkMHz : Fl
  rclkMHz : Fl

/-- The device part of a topic, `"%s%d"`. -/
def device (type : Text) (id : Nat) : Text := type ++ fmtNat id

/-- `sprintf(topic_tmp, "%s/%s%d", sysd->topic, type, id)`. -/
def topicTmp (topic type : Text) (id : Nat) : Text := topic ++ '/' :: device type id

/-- `sprintf(send_data, "%u;%.2f;%.2f;%.2f;%.2f;%s", …)`. -/
def cpuPayload (m : CpuMetrics) (tmpstr : Text) : Text :=
  [';'].intercalate
    [fmtNat m.cpuTemp.toNat, fmtFixed 2 m.nomfreqMHz, fmtFixed 2 m.uclkMHz, fmtFixed 2 m.drampow,
      fmtFixed 2 m.pkgpow, tmpstr]

/-- `sprintf(send_data, "%d;%.2f;%.2f;%.2f;%.2f;%.2f;%s", …)`. -/
def corePayload (m : CoreMetrics) (tmpstr : Text) : Text :=
  [';'].intercalate
    [fmtInt m.coreTemp.toInt, fmtFixed 2 m.cpi, fmtFixed 2 m.ips, fmtFixed 2 m.coreLoad,
      fmtFixed 2 m.mclkMHz, fmtFixed 2 m.rclkMHz, tmpstr]

/-- The message of package `id`. -/
def cpuMessage (topic : Text) (qos : ℤ) (id : Nat) (m : CpuMetrics) (tmpstr : Text) : Message :=
  ⟨topicTmp topic "cpu".toList id, cpuPayload m tmpstr, qos⟩

/-- The message of core `id`. -/
def coreMessage (topic : Text) (qos : ℤ) (id : Nat) (m : CoreMetrics) (tmpstr : Text) : Message :=
  ⟨topicTmp topic "core".toList id, corePayload m tmpstr, qos⟩

/-! ## Metrics -/

/-- The `double` literals of `push_to_broker`. -/
def ergUnits : Fl := binary64.round false (61 / 1000000)
def dramUnits : Fl := binary64.round false (153 / 10000000)
def oneD : Fl := binary64.ofNat 1
def hundredD : Fl := binary64.ofNat 100

/-- `diff * unit / sysd->dT` in `double`, stored in a `float`. -/
def power (diff : BitVec 64) (unit dT : Fl) : Fl :=
  binary32.conv (binary64.div (binary64.mul (binary64.ofNat diff.toNat) unit) dT)

/-- `(diff / sysd->dT) / 1000000` in `float`. -/
def megaPerSecond (diff : BitVec 64) (dT : Fl) : Fl :=
  binary32.div (binary32.div (binary32.ofNat diff.toNat) dT) (binary32.ofNat 1000000)

/-- `(k * num) / den` in `double`, stored in a `float`. -/
def ratio (k : Fl) (num : BitVec 64) (den : Fl) : Fl :=
  binary32.conv (binary64.div (binary64.mul k (binary64.ofNat num.toNat)) den)

/-- `(1.0 * num / den) * sysd->nom_freq / 1000000` in `double`, stored in a `float`. -/
def clockMHz (num den : BitVec 64) (nomFreq : Fl) : Fl :=
  binary32.conv (binary64.div (binary64.mul (binary64.div
    (binary64.mul oneD (binary64.ofNat num.toNat)) (binary64.ofNat den.toNat)) nomFreq)
    (binary64.ofNat 1000000))

/-- Locals of `push_to_broker` that are printed or used although a path may leave them unassigned. -/
structure Locals where
  uclkMHz : Fl
  drampow : Fl
  aperfDiff : BitVec 64
  mperfDiff : BitVec 64
deriving Inhabited

/-- What the package loop stores in a slot. -/
def cpuDiffs (h : Host) (dT : Fl) (d : PerCpuData) : PerCpuData :=
  let powPkgDiff := (d.powPkg - d.powPkgLast).setWidth 64
  let d := { d with powPkgDiff := powPkgDiff, pkgpow := power powPkgDiff ergUnits dT }
  let d :=
    if h.extraCounters = 1 then
      let d := { d with
        c2Diff := d.c2 - d.c2Last
        c3Diff := d.c3 - d.c3Last
        c6Diff := d.c6 - d.c6Last }
      if h.cpuModel = haswellEp then
        let uclkDiff := d.uclk - d.uclkLast
        { d with uclkDiff := uclkDiff, uclkMHz := megaPerSecond uclkDiff dT }
      else d
    else d
  if h.dramSupp = 1 then
    let powDramCDiff := (d.powDramC - d.powDramCLast).setWidth 64
    { d with powDramCDiff := powDramCDiff, drampow := power powDramCDiff dramUnits dT }
  else d

/-- The locals after an iteration of the package loop: `uclk_MHz` and `drampow` are assigned on the
paths that store them. -/
def cpuLocals (h : Host) (d : PerCpuData) (l : Locals) : Locals :=
  { l with
    uclkMHz := if h.extraCounters = 1 ∧ h.cpuModel = haswellEp then d.uclkMHz else l.uclkMHz
    drampow := if h.dramSupp = 1 then d.drampow else l.drampow }

/-- The locals after the differences of an iteration of the core loop. -/
def coreLocals (h : Host) (d : PerCoreData) (l : Locals) : Locals :=
  if h.extraCounters = 1 then
    { l with aperfDiff := d.aperf - d.aperfLast, mperfDiff := d.mperf - d.mperfLast }
  else l

/-- What the core loop stores in a slot. The source stores `C3_diff` twice and `C6_diff` never. -/
def coreDiffs (h : Host) (nomFreq dT : Fl) (l : Locals) (d : PerCoreData) : PerCoreData :=
  let tscDiff := d.tsc - d.tscLast
  let d := { d with tscDiff := tscDiff }
  let d :=
    if h.extraCounters = 1 then
      { d with c3Diff := d.c3 - d.c3Last, aperfDiff := l.aperfDiff, mperfDiff := l.mperfDiff }
    else d
  let instrDiff := d.instr - d.instrLast
  let clkCurrDiff := d.clkCurr - d.clkCurrLast
  let clkRefDiff := d.clkRef - d.clkRefLast
  { d with
    instrDiff := instrDiff
    clkCurrDiff := clkCurrDiff
    clkRefDiff := clkRefDiff
    cpi := ratio oneD clkCurrDiff (binary64.ofNat instrDiff.toNat)
    ips := ratio oneD instrDiff dT
    coreLoad := ratio hundredD clkRefDiff (binary64.ofNat tscDiff.toNat)
    mclkMHz := clockMHz l.aperfDiff l.mperfDiff nomFreq
    rclkMHz := clockMHz clkCurrDiff clkRefDiff nomFreq }

/-! ## `push_to_broker` -/

/-- The state of the two loops. -/
structure PushState where
  sysd : SysData
  locals : Locals
  out : List Message

/-- One iteration of the package loop. -/
def pushCpu (cpuid : Nat) (st : PushState) : PushState :=
  let s := st.sysd
  let d := cpuDiffs s.host s.dT (s.cpuData cpuid)
  let l := cpuLocals s.host d st.locals
  { sysd := s.setCpu cpuid (cpuDiffs s.host s.dT)
    locals := l
    out := st.out ++ [cpuMessage s.topic s.qos cpuid
      ⟨d.tempPkg, binary32.div s.nomFreq (binary32.ofNat 1000000), l.uclkMHz, l.drampow, d.pkgpow⟩
      s.tmpstr] }

/-- One iteration of the core loop. -/
def pushCore (coreid : Nat) (st : PushState) : PushState :=
  let s := st.sysd
  let l := coreLocals s.host (s.coreData coreid) st.locals
  let d := coreDiffs s.host s.nomFreq s.dT l (s.coreData coreid)
  { sysd := s.setCore coreid (coreDiffs s.host s.nomFreq s.dT l)
    locals := l
    out := st.out ++ [coreMessage s.topic s.qos coreid
      ⟨d.temp, d.cpi, d.ips, d.coreLoad, d.mclkMHz, d.rclkMHz⟩ s.tmpstr] }

/-- `push_to_broker`, called with `stk` on the stack. -/
def pushToBroker (stk : Locals) (s : SysData) : PushState :=
  let st := forLoop s.ncpu pushCpu ⟨s, stk, []⟩
  forLoop s.ncore pushCore st

/-! ## `samp_handler` -/

/-- The result of `gettimeofday`. The kernel keeps the time of day as nanoseconds in a signed 64-bit
integer, so the seconds stay below `2 ^ 34`. -/
structure Timeval where
  sec : Nat
  usec : Nat
  sec_lt : sec < 2 ^ 34
  usec_lt : usec < 1000000

instance : Inhabited Timeval := ⟨⟨0, 0, by norm_num, by norm_num⟩⟩

/-- `sprintf(buf, "%.3f", tv.tv_sec + (tv.tv_usec / 1000000.0))`. -/
def getTimestamp (tv : Timeval) : Text :=
  fmtFixed 3 (binary64.add (binary64.ofNat tv.sec)
    (binary64.div (binary64.ofNat tv.usec) (binary64.ofNat 1000000)))

/-- The inputs of one tick: the time of day, the readings, and the stack contents that
`push_to_broker` starts with. -/
structure Tick where
  tv : Timeval
  rd : Readings
  stk : Locals
deriving Inhabited

/-- `samp_handler`. -/
def sampHandler (t : Tick) (s : SysData) : PushState :=
  pushToBroker t.stk (readMsrData t.rd { s with tmpstr := getTimestamp t.tv })

/-! ## What publishing changes -/

/-- What `push_to_broker` reads besides the slots. -/
def SysData.settings (s : SysData) : Host × Fl × Fl × Text × Text × ℤ :=
  (s.host, s.nomFreq, s.dT, s.tmpstr, s.topic, s.qos)

/-- Nothing that `push_to_broker` computes is a setting. -/
@[simp]
lemma pushCpu_settings (cpuid : Nat) (st : PushState) :
    (pushCpu cpuid st).sysd.settings = st.sysd.settings := rfl

@[simp]
lemma pushCore_settings (coreid : Nat) (st : PushState) :
    (pushCore coreid st).sysd.settings = st.sysd.settings := rfl

/-- The loop over the packages leaves the settings. -/
lemma pushCpus_settings (n : Nat) (st : PushState) :
    (forLoop n pushCpu st).sysd.settings = st.sysd.settings :=
  forLoop_frame (fun st : PushState => st.sysd.settings) pushCpu_settings st

/-- The loop over the cores leaves them. -/
lemma pushCores_settings (n : Nat) (st : PushState) :
    (forLoop n pushCore st).sysd.settings = st.sysd.settings :=
  forLoop_frame (fun st : PushState => st.sysd.settings) pushCore_settings st

/-- The whole function leaves them. -/
@[simp]
lemma pushToBroker_settings (stk : Locals) (s : SysData) :
    (pushToBroker stk s).sysd.settings = s.settings :=
  (pushCores_settings _ _).trans (pushCpus_settings _ _)

@[simp]
lemma pushToBroker_host (stk : Locals) (s : SysData) : (pushToBroker stk s).sysd.host = s.host :=
  congrArg Prod.fst (pushToBroker_settings stk s)

/-- The slot of a package after it. -/
lemma pushToBroker_cpuData (stk : Locals) (s : SysData) {p : Nat} (hp : p < s.ncpu) :
    (pushToBroker stk s).sysd.cpuData p = cpuDiffs s.host s.dT (s.cpuData p) := by
  have cores : (pushToBroker stk s).sysd.cpuData =
      (forLoop s.ncpu pushCpu ⟨s, stk, []⟩).sysd.cpuData := by
    refine forLoop_frame (fun st : PushState => st.sysd.cpuData) ?_ _
    exact fun _ _ => rfl
  rw [cores]
  refine forLoop_slot hp (fun st : PushState => st.sysd.settings = s.settings) rfl
    (fun i st hst => (pushCpu_settings i st).trans hst) (fun st => st.sysd.cpuData p) _ ?_ ?_
  · intro st hst
    have hh : st.sysd.host = s.host := congrArg Prod.fst hst
    have hd : st.sysd.dT = s.dT := congrArg (fun x => x.2.2.1) hst
    simp [pushCpu, hh, hd]
  · intro i st hi
    exact setCpu_cpuData_of_ne _ _ hi

/-- What the differences make of a part of the slot of a core. -/
lemma pushToBroker_coreData {α : Type*} (stk : Locals) (s : SysData) (π : PerCoreData → α)
    (g : α → α)
    (hg : ∀ l d, π (coreDiffs s.host s.nomFreq s.dT (coreLocals s.host d l) d) = g (π d)) {i : Nat}
    (hi : i < s.ncore) : π ((pushToBroker stk s).sysd.coreData i) = g (π (s.coreData i)) := by
  have cpus : (forLoop s.ncpu pushCpu ⟨s, stk, []⟩).sysd.coreData = s.coreData := by
    refine forLoop_frame (fun st : PushState => st.sysd.coreData) ?_ _
    exact fun _ _ => rfl
  rw [← cpus]
  refine forLoop_slot hi (fun st : PushState => st.sysd.settings = s.settings)
    (pushCpus_settings _ _) (fun j st hst => (pushCore_settings j st).trans hst)
    (fun st => π (st.sysd.coreData i)) g ?_ ?_
  · intro st hst
    have hh : st.sysd.host = s.host := congrArg Prod.fst hst
    have hn : st.sysd.nomFreq = s.nomFreq := congrArg (fun x => x.2.1) hst
    have hd : st.sysd.dT = s.dT := congrArg (fun x => x.2.2.1) hst
    simp only [pushCore, setCore_coreData_self, hh, hn, hd]
    exact hg ..
  · intro j st hj
    exact congrArg π (setCore_coreData_of_ne _ _ hj)

/-- The metrics an iteration of the package loop prints. -/
def cpuMetrics (cpuid : Nat) (st : PushState) : CpuMetrics :=
  let s := st.sysd
  let d := cpuDiffs s.host s.dT (s.cpuData cpuid)
  let l := cpuLocals s.host d st.locals
  ⟨d.tempPkg, binary32.div s.nomFreq (binary32.ofNat 1000000), l.uclkMHz, l.drampow, d.pkgpow⟩

/-- The metrics an iteration of the core loop prints. -/
def coreMetrics (coreid : Nat) (st : PushState) : CoreMetrics :=
  let s := st.sysd
  let l := coreLocals s.host (s.coreData coreid) st.locals
  let d := coreDiffs s.host s.nomFreq s.dT l (s.coreData coreid)
  ⟨d.temp, d.cpi, d.ips, d.coreLoad, d.mclkMHz, d.rclkMHz⟩

/-- The messages of a call, one per package and one per core, in order: each iteration prints from the
state the earlier ones left. -/
lemma pushToBroker_messages (stk : Locals) (s : SysData) :
    let cpus := fun id => forLoop id pushCpu ⟨s, stk, []⟩
    (pushToBroker stk s).out =
      ((List.range s.ncpu).map fun id =>
        cpuMessage s.topic s.qos id (cpuMetrics id (cpus id)) s.tmpstr) ++
      ((List.range s.ncore).map fun id =>
        coreMessage s.topic s.qos id (coreMetrics id (forLoop id pushCore (cpus s.ncpu))) s.tmpstr) := by
  intro cpus
  have first : (cpus s.ncpu).out = (List.range s.ncpu).map fun id =>
      cpuMessage (cpus id).sysd.topic (cpus id).sysd.qos id (cpuMetrics id (cpus id))
        (cpus id).sysd.tmpstr :=
    forLoop_out PushState.out
      (fun id t => cpuMessage t.sysd.topic t.sysd.qos id (cpuMetrics id t) t.sysd.tmpstr)
      (fun _ _ => rfl) _
  have second : (pushToBroker stk s).out = (cpus s.ncpu).out ++ (List.range s.ncore).map fun id =>
      let t := forLoop id pushCore (cpus s.ncpu)
      coreMessage t.sysd.topic t.sysd.qos id (coreMetrics id t) t.sysd.tmpstr :=
    forLoop_out PushState.out
      (fun id t => coreMessage t.sysd.topic t.sysd.qos id (coreMetrics id t) t.sysd.tmpstr)
      (fun _ _ => rfl) _
  have hcpu : ∀ id, (cpus id).sysd.settings = s.settings := fun id => pushCpus_settings id _
  have hcore : ∀ id, (forLoop id pushCore (cpus s.ncpu)).sysd.settings = s.settings :=
    fun id => (pushCores_settings id _).trans (hcpu _)
  simp only [SysData.settings, Prod.mk.injEq] at hcpu hcore
  rw [second, first]
  simp [hcpu, hcore]

/-- All messages of a call go out under the topic in force and with the timestamp of the tick. -/
lemma pushToBroker_out (stk : Locals) (s : SysData) :
    ∃ (mc : Nat → CpuMetrics) (mk : Nat → CoreMetrics), (pushToBroker stk s).out =
      ((List.range s.ncpu).map fun id => cpuMessage s.topic s.qos id (mc id) s.tmpstr) ++
      ((List.range s.ncore).map fun id => coreMessage s.topic s.qos id (mk id) s.tmpstr) :=
  ⟨_, _, pushToBroker_messages stk s⟩

/-! ## A tick -/

/-- A pass leaves the settings too. -/
@[simp]
lemma passBody_settings (rd : Readings) (core : Nat) (st : PassState) :
    (passBody rd core st).sysd.settings = st.sysd.settings := by
  have die : ∀ cpuid, (readDieTemp rd core cpuid st.sysd).settings = st.sysd.settings := by
    intro cpuid
    unfold readDieTemp
    split <;> rfl
  unfold passBody sampleEachCore samplePackage
  split
  · exact die _
  · rfl

@[simp]
lemma readMsrData_settings (rd : Readings) (s : SysData) :
    (readMsrData rd s).settings = s.settings :=
  forLoop_frame (fun st : PassState => st.sysd.settings) (passBody_settings rd) _

/-- A tick keeps the settings, the timestamp apart. -/
lemma sampHandler_settings (t : Tick) (s : SysData) :
    (sampHandler t s).sysd.settings = { s with tmpstr := getTimestamp t.tv : SysData }.settings := by
  rw [sampHandler, pushToBroker_settings, readMsrData_settings]

/-- A tick publishes one message per package and one per core under the topic in force, with the time
of the tick. -/
lemma sampHandler_out (t : Tick) (s : SysData) :
    ∃ (mc : Nat → CpuMetrics) (mk : Nat → CoreMetrics), (sampHandler t s).out =
      ((List.range s.ncpu).map fun id =>
        cpuMessage s.topic s.qos id (mc id) (getTimestamp t.tv)) ++
      ((List.range s.ncore).map fun id =>
        coreMessage s.topic s.qos id (mk id) (getTimestamp t.tv)) := by
  set s' := readMsrData t.rd { s with tmpstr := getTimestamp t.tv } with hs'
  have keep : s'.settings = { s with tmpstr := getTimestamp t.tv : SysData }.settings :=
    readMsrData_settings _ _
  simp only [SysData.settings, Prod.mk.injEq] at keep
  obtain ⟨host, -, -, tmpstr, topic, qos⟩ := keep
  have ncpu : s'.ncpu = s.ncpu := congrArg Host.ncpu host
  have ncore : s'.ncore = s.ncore := congrArg Host.ncore host
  obtain ⟨mc, mk, e⟩ := pushToBroker_out t.stk s'
  refine ⟨mc, mk, ?_⟩
  rw [sampHandler, ← hs', e, ncpu, ncore, tmpstr, topic, qos]

/-- The time of day prints as a decimal with three places, far below where a `double` gets too coarse
for milliseconds. -/
lemma getTimestamp_eq (tv : Timeval) :
    ∃ N < 1000 * 2 ^ 43, getTimestamp tv = fixedDigits 3 N := by
  obtain ⟨a, ha, ea⟩ := binary64_ofNat_le (m := 34) tv.sec_lt.le (by norm_num)
  obtain ⟨b, hb, eb⟩ : ∃ y ≤ (2 : ℚ≥0) ^ 20, binary64.ofNat tv.usec = .fin false y := by
    refine binary64_ofNat_le ?_ (by norm_num)
    have := tv.usec_lt
    omega
  have em : binary64.ofNat 1000000 = .fin false 1000000 := by decide +kernel
  obtain ⟨c, hc, ec⟩ : ∃ y ≤ (2 : ℚ≥0) ^ 1, binary64.round false (b / 1000000) = .fin false y := by
    refine round_le false (by decide) (by decide) (by decide) ?_
    rw [div_le_iff₀ (by norm_num)]
    exact hb.trans (by norm_num)
  have ed : binary64.div (binary64.ofNat tv.usec) (binary64.ofNat 1000000) = .fin false c := by
    rw [eb, em, ← ec, Format.div, if_neg (by norm_num)]
    rfl
  obtain ⟨y, hy, ey⟩ : ∃ y ≤ (2 : ℚ≥0) ^ 35,
      binary64.add (.fin false a) (.fin false c) = .fin false y := by
    refine add_le (by decide) (by decide) (by decide) ?_
    calc a + c ≤ 2 ^ 34 + 2 ^ 1 := add_le_add ha hc
      _ ≤ 2 ^ 35 := by norm_num
  refine ⟨toFixed 3 y, ?_, ?_⟩
  · have : toFixed 3 y ≤ 2 ^ 35 * 1000 := by
      apply halfEven_le_of_le
      calc y * 10 ^ 3 ≤ 2 ^ 35 * 10 ^ 3 := by gcongr
        _ = ((2 ^ 35 * 1000 : ℕ) : ℚ≥0) := by norm_num
    omega
  · rw [getTimestamp, ea, ed, ey]
    rfl

end Powmon.Monitor
