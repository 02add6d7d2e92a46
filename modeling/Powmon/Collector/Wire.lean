import Powmon.Collector.Process
import Powmon.Monitor.Buffer

/-!
# From the daemon to the collector

The messages `push_to_broker` publishes, as `sendToDB` reads them. A message is `Metrics` (those of a
package or those of a core) under a topic and with a timestamp; `Metrics.fields` says what the
collector is meant to store of it, and `tickMetrics` which metrics the messages of a tick print.

* `sendToDB_message`: on a message of the daemon, `sendToDB` is the choice of node and device from the
  topic levels, followed by `jsonBody` on the printed items;
* `wire_roundtrip_iff`: under a topic `root/host`, every message of every tick is decoded into its point
  exactly if the topic leaves room for the devices in `topic_tmp`;
* `distinct_keys_iff`: the points of a device have distinct keys exactly if their timestamps differ
  before the decimal point.
-/

namespace Powmon.Collector
open Lib Monitor

/-! ## Messages -/

/-- What a message reports. -/
inductive Metrics where
  | cpu (m : CpuMetrics)
  | core (m : CoreMetrics)

/-- The device prefix of a message, and the measurement it is stored under. -/
def Metrics.type : Metrics → Text
  | .cpu _ => "cpu".toList
  | .core _ => "core".toList

/-- The payload items of a message. -/
def Metrics.items (tmpstr : Text) : Metrics → List Text
  | .cpu m =>
    [fmtNat m.cpuTemp.toNat, fmtFixed 2 m.nomfreqMHz, fmtFixed 2 m.uclkMHz, fmtFixed 2 m.drampow,
      fmtFixed 2 m.pkgpow, tmpstr]
  | .core m =>
    [fmtInt m.coreTemp.toInt, fmtFixed 2 m.cpi, fmtFixed 2 m.ips, fmtFixed 2 m.coreLoad,
      fmtFixed 2 m.mclkMHz, fmtFixed 2 m.rclkMHz, tmpstr]

/-- The message `push_to_broker` publishes. -/
def Metrics.message (topic : Text) (qos : ℤ) (id : Nat) (tmpstr : Text) : Metrics → Message
  | .cpu m => cpuMessage topic qos id m tmpstr
  | .core m => coreMessage topic qos id m tmpstr

/-- The fields to be stored: under each name, the value the publisher printed for that metric. -/
def Metrics.fields : Metrics → List (Text × Value)
  | .cpu m =>
    [("cpu_temp".toList, .int m.cpuTemp.toNat),
      ("nomfreq_MHz".toList, .float (printed 2 m.nomfreqMHz)),
      ("uclk_MHz".toList, .float (printed 2 m.uclkMHz)),
      ("pow_dram".toList, .float (printed 2 m.drampow)),
      ("pow_pkg".toList, .float (printed 2 m.pkgpow))]
  | .core m =>
    [("core_temp".toList, .int m.coreTemp.toInt),
      ("CPI".toList, .float (printed 2 m.cpi)),
      ("IPS".toList, .float (printed 2 m.ips)),
      ("Load".toList, .float (printed 2 m.coreLoad)),
      ("mclk_MHz".toList, .float (printed 2 m.mclkMHz)),
      ("rclk_MHz".toList, .float (printed 2 m.rclkMHz))]

/-- The text of a timestamp before the decimal point. -/
def wholeSeconds (tmpstr : Text) : Text := tmpstr.takeWhile (· ≠ '.')

/-- The topic of a message. -/
lemma message_topic (topic : Text) (qos : ℤ) (id : Nat) (tmpstr : Text) (m : Metrics) :
    (m.message topic qos id tmpstr).topic = topicTmp topic m.type id := by
  cases m <;> rfl

/-- Its payload. -/
lemma message_payload (topic : Text) (qos : ℤ) (id : Nat) (tmpstr : Text) (m : Metrics) :
    (m.message topic qos id tmpstr).payload = [';'].intercalate (m.items tmpstr) := by
  cases m <;> rfl

/-- The metrics that a tick prints, with the ids of their devices, in the order of the messages. -/
def tickMetrics (t : Tick) (s : SysData) : List (Nat × Metrics) :=
  let s := readMsrData t.rd { s with tmpstr := getTimestamp t.tv }
  let cpus := fun id => forLoop id pushCpu ⟨s, t.stk, []⟩
  ((List.range s.ncpu).map fun id => (id, Metrics.cpu (cpuMetrics id (cpus id)))) ++
    (List.range s.ncore).map fun id =>
      (id, Metrics.core (coreMetrics id (forLoop id pushCore (cpus s.ncpu))))

/-- What a tick publishes are messages with its metrics. -/
lemma sampHandler_out_eq (t : Tick) (s : SysData) :
    (sampHandler t s).out =
      (tickMetrics t s).map fun x => x.2.message s.topic s.qos x.1 (getTimestamp t.tv) := by
  set s' := readMsrData t.rd { s with tmpstr := getTimestamp t.tv } with hs'
  have keep : s'.settings = { s with tmpstr := getTimestamp t.tv : SysData }.settings :=
    readMsrData_settings _ _
  simp only [SysData.settings, Prod.mk.injEq] at keep
  obtain ⟨-, -, -, tmpstr, topic, qos⟩ := keep
  have out := pushToBroker_messages t.stk s'
  rw [topic, qos, tmpstr] at out
  rw [sampHandler, ← hs', tickMetrics, ← hs', List.map_append, List.map_map, List.map_map]
  exact out

/-- A tick publishes samples. -/
lemma sampHandler_messages {t : Tick} {s : SysData} {msg : Message}
    (h : msg ∈ (sampHandler t s).out) :
    ∃ m id, msg = Metrics.message s.topic s.qos id (getTimestamp t.tv) m := by
  rw [sampHandler_out_eq, List.mem_map] at h
  obtain ⟨x, -, rfl⟩ := h
  exact ⟨x.2, x.1, rfl⟩

/-! ## Splitting undoes joining -/

/-- What is no part of a number is not in one. -/
lemma not_mem_of_isNumChar {s : Text} {c : Char} (h : ∀ c ∈ s, isNumChar c)
    (hc : isNumChar c = false) : c ∉ s := by
  intro hm
  rw [h c hm] at hc
  cases hc

/-- No item has a separator in it. -/
lemma items_no_sep {tmpstr : Text} (h : ∀ c ∈ tmpstr, isNumChar c) (m : Metrics) :
    ∀ s ∈ m.items tmpstr, ';' ∉ s := by
  intro s hs
  refine not_mem_of_isNumChar ?_ (by decide)
  cases m with
  | cpu m =>
    simp only [Metrics.items, List.mem_cons, List.not_mem_nil, or_false] at hs
    rcases hs with rfl | rfl | rfl | rfl | rfl | rfl
    · exact fun c hc => isNumChar_of_isDigit (isDigit_fmtNat hc)
    all_goals first | exact fun c hc => isNumChar_fmtFixed hc | exact h
  | core m =>
    simp only [Metrics.items, List.mem_cons, List.not_mem_nil, or_false] at hs
    rcases hs with rfl | rfl | rfl | rfl | rfl | rfl | rfl
    · exact fun c hc => isNumChar_fmtInt hc
    all_goals first | exact fun c hc => isNumChar_fmtFixed hc | exact h

/-- The payload comes apart into its items. -/
lemma splitOn_payload {tmpstr : Text} (h : ∀ c ∈ tmpstr, isNumChar c) (topic : Text) (qos : ℤ)
    (id : Nat) (m : Metrics) :
    (m.message topic qos id tmpstr).payload.splitOn ';' = m.items tmpstr := by
  rw [message_payload]
  exact List.splitOn_intercalate ';' (items_no_sep h m) (by cases m <;> exact List.cons_ne_nil _ _)

/-- The name of a device is one level. -/
lemma slash_not_mem_device (m : Metrics) (id : Nat) : '/' ∉ device m.type id := by
  rw [device, List.mem_append, not_or]
  refine ⟨by cases m <;> simp [Metrics.type], ?_⟩
  exact not_mem_of_isNumChar (fun c hc => isNumChar_of_isDigit (isDigit_fmtNat hc)) (by decide)

/-- The levels of a message's topic are those of the topic in force, and the device. -/
lemma splitOn_topic (topic : Text) (qos : ℤ) (id : Nat) (tmpstr : Text) (m : Metrics) :
    (m.message topic qos id tmpstr).topic.splitOn '/' =
      topic.splitOn '/' ++ [device m.type id] := by
  rw [message_topic, topicTmp, List.splitOn_append_cons_self,
    List.splitOn_eq_singleton (slash_not_mem_device m id)]

/-- The start-up topic has two. -/
lemma splitOn_dataTopic {root host : Text} (hroot : '/' ∉ root) (hhost : '/' ∉ host) :
    (dataTopicOf root host).splitOn '/' = [root, host] := by
  rw [dataTopicOf, List.splitOn_append_cons_self, List.splitOn_eq_singleton hroot,
    List.splitOn_eq_singleton hhost]
  rfl

/-! ## Timestamps -/

/-- The whole seconds of a time stamp. -/
lemma wholeSeconds_fixedDigits (d N : Nat) :
    wholeSeconds (fixedDigits d N) = fmtNat (N / 10 ^ d) := by
  have digits : ∀ c ∈ fmtNat (N / 10 ^ d), decide (c ≠ '.') := by
    intro c hc
    rw [decide_eq_true_eq]
    rintro rfl
    exact absurd (isDigit_fmtNat hc) (by decide)
  rw [wholeSeconds, fixedDigits, List.takeWhile_append_of_pos digits]
  simp

/-- `int(float(ts))` of a timestamp of the daemon is the number before its decimal point. -/
lemma truncInt_getTimestamp (tv : Timeval) :
    (pyFloat (getTimestamp tv) >>= truncInt) =
      .ok (digitsVal (wholeSeconds (getTimestamp tv)) : ℤ) := by
  obtain ⟨N, hN, e⟩ := getTimestamp_eq tv
  obtain ⟨y, hy, hfl⟩ := binary64_round_milli false hN
  have hf : pyFloat (fixedDigits 3 N) = .ok (.fin false y) := by
    have := @pyFloat_signed false 3 N (by norm_num)
    rw [decimal, show (10 : ℚ≥0) ^ 3 = 1000 by norm_num, hy] at this
    exact this
  rw [e, hf, wholeSeconds_fixedDigits, digitsVal_fmtNat]
  show truncInt (.fin false y) = _
  rw [truncInt, hfl]
  rfl

/-- A time stamp is a number. -/
lemma getTimestamp_isNumChar (tv : Timeval) : ∀ c ∈ getTimestamp tv, isNumChar c := by
  obtain ⟨N, -, e⟩ := getTimestamp_eq tv
  rw [e]
  exact fun c hc => isNumChar_fixedDigits hc

/-! ## Decoding -/

/-- It is the last item. -/
lemma lastItem_items (tmpstr : Text) (m : Metrics) : lastItem (m.items tmpstr) = .ok tmpstr := by
  cases m <;> rfl

/-- On a message of the daemon, `sendToDB` picks node and device from the topic levels and builds the
point from the printed items. -/
lemma sendToDB_message (topic : Text) (qos : ℤ) (id : Nat) (tv : Timeval) (m : Metrics) :
    let msg := m.message topic qos id (getTimestamp tv)
    sendToDB msg.topic msg.payload = (do
      let node ← item (topic.splitOn '/' ++ [device m.type id]) 1
      let dev ← item (topic.splitOn '/' ++ [device m.type id]) 2
      jsonBody (digitsVal (wholeSeconds (getTimestamp tv))) node dev
        (m.items (getTimestamp tv))) := by
  intro msg
  have stamp : ∀ node dev y, (do
      let ts ← lastItem (m.items (getTimestamp tv))
      let ts ← truncInt (← pyFloat ts)
      jsonBody ts node dev y) =
        jsonBody (digitsVal (wholeSeconds (getTimestamp tv))) node dev y := by
    intro node dev y
    rw [lastItem_items]
    show (pyFloat (getTimestamp tv) >>= fun x => truncInt x >>= fun ts => jsonBody ts node dev y) = _
    rw [← bind_assoc, truncInt_getTimestamp]
    rfl
  rw [sendToDB, splitOn_topic, splitOn_payload (getTimestamp_isNumChar tv)]
  simp only [stamp]

/-- The two conversions of a field table, on the items they are meant for. -/
lemma apply_int (z : ℤ) : Conv.apply .int (fmtInt z) = .ok (.int z) := by
  rw [Conv.apply, pyInt_fmtInt]
  rfl

/-- `float` reads what `%.2f` writes. -/
lemma apply_float (x : Fl) : Conv.apply .float (fmtFixed 2 x) = .ok (.float (printed 2 x)) := by
  rw [Conv.apply, pyFloat_fmtFixed (by norm_num)]
  rfl

/-- Under the device it names, a message becomes its point. -/
lemma jsonBody_own (z : ℤ) (node : Text) (id : Nat) (tmpstr : Text) (m : Metrics) :
    jsonBody z node (device m.type id) (m.items tmpstr) =
      .ok [⟨m.type, z * 1000000000, node, device m.type id, m.fields⟩] := by
  cases m with
  | cpu m =>
    have fields : readFields (Metrics.items tmpstr (.cpu m)) cpuFields =
        .ok (Metrics.fields (.cpu m)) := by
      refine readFields_cons rfl (apply_int m.cpuTemp.toNat) ?_
      refine readFields_cons rfl (apply_float m.nomfreqMHz) ?_
      refine readFields_cons rfl (apply_float m.uclkMHz) ?_
      refine readFields_cons rfl (apply_float m.drampow) ?_
      exact readFields_cons rfl (apply_float m.pkgpow) rfl
    rw [jsonBody_eq]
    exact onePoint_ok fields
  | core m =>
    have fields : readFields (Metrics.items tmpstr (.core m)) coreFields =
        .ok (Metrics.fields (.core m)) := by
      refine readFields_cons rfl (apply_int m.coreTemp.toInt) ?_
      refine readFields_cons rfl (apply_float m.cpi) ?_
      refine readFields_cons rfl (apply_float m.ips) ?_
      refine readFields_cons rfl (apply_float m.coreLoad) ?_
      refine readFields_cons rfl (apply_float m.mclkMHz) ?_
      exact readFields_cons rfl (apply_float m.rclkMHz) rfl
    rw [jsonBody_eq]
    exact onePoint_ok fields

/-- Under a topic of two levels or more, the second one is the node and the third one, or else the
device the daemon appended, the device. -/
lemma sendToDB_levels {topic a b : Text} {r : List Text} (h : topic.splitOn '/' = a :: b :: r)
    (qos : ℤ) (id : Nat) (tv : Timeval) (m : Metrics) :
    let msg := m.message topic qos id (getTimestamp tv)
    sendToDB msg.topic msg.payload =
      jsonBody (digitsVal (wholeSeconds (getTimestamp tv))) b (r.headD (device m.type id))
        (m.items (getTimestamp tv)) := by
  intro msg
  rw [sendToDB_message, h]
  cases r <;> rfl

/-- Under a topic of one level there is no third one. -/
lemma sendToDB_one_level {topic a : Text} (h : topic.splitOn '/' = [a]) (qos : ℤ) (id : Nat)
    (tv : Timeval) (m : Metrics) :
    let msg := m.message topic qos id (getTimestamp tv)
    sendToDB msg.topic msg.payload = .error .indexError := by
  intro msg
  rw [sendToDB_message, h]
  rfl

/-- Under a topic of two levels, a message is decoded into its point on the node of the second
level. -/
lemma sendToDB_two_levels {topic a host : Text} (h : topic.splitOn '/' = [a, host]) (qos : ℤ)
    (id : Nat) (tv : Timeval) (m : Metrics) :
    let msg := m.message topic qos id (getTimestamp tv)
    sendToDB msg.topic msg.payload =
      .ok [⟨m.type, digitsVal (wholeSeconds (getTimestamp tv)) * 1000000000, host,
        device m.type id, m.fields⟩] := by
  intro msg
  rw [sendToDB_levels h]
  exact jsonBody_own ..

/-- The measurement and the tags of a point determine what kind of device it is about and which. -/
lemma device_inj {m m' : Metrics} {id id' : Nat} (ht : m.type = m'.type)
    (hd : device m.type id = device m'.type id') : id = id' := by
  rw [device, device, ht] at hd
  exact fmtNat_inj (List.append_cancel_left hd)

/-! ## The wire format -/

/-- A tick stays within `topic_tmp`, and each message is decoded, without raising, into the one point of
the metrics it prints, on the node `host`. -/
def TickDecoded (host : Text) (t : Tick) (s : SysData) : Prop :=
  (∀ msg ∈ (sampHandler t s).out, msg.Fits) ∧
  ∃ time, List.Forall₂ (fun msg (x : Nat × Metrics) =>
    sendToDB msg.topic msg.payload =
      .ok [⟨x.2.type, time, host, device x.2.type x.1, x.2.fields⟩])
    (sampHandler t s).out (tickMetrics t s)

section Wire
variable {root host root' host' : Text}

/-- Under a topic `root/host` the messages are decoded, whatever its length. -/
lemma tick_decoded (hroot : '/' ∉ root) (hhost : '/' ∉ host) {s : SysData}
    (topic : s.topic = dataTopicOf root host) (t : Tick) :
    ∃ time, List.Forall₂ (fun msg (x : Nat × Metrics) =>
      sendToDB msg.topic msg.payload =
        .ok [⟨x.2.type, time, host, device x.2.type x.1, x.2.fields⟩])
      (sampHandler t s).out (tickMetrics t s) := by
  refine ⟨digitsVal (wholeSeconds (getTimestamp t.tv)) * 1000000000, ?_⟩
  rw [sampHandler_out_eq, topic, List.forall₂_map_left_iff, List.forall₂_same]
  exact fun x _ => sendToDB_two_levels (splitOn_dataTopic hroot hhost) s.qos x.1 t.tv x.2

/-- Points with the same measurement and tags are about the same device of the same host. -/
lemma same_device (hroot : '/' ∉ root) (hhost : '/' ∉ host) (hroot' : '/' ∉ root')
    (hhost' : '/' ∉ host') {qos qos' : ℤ} {id id' : Nat} {m m' : Metrics} {tv tv' : Timeval}
    {pt pt' : Point} :
    let msg := m.message (dataTopicOf root host) qos id (getTimestamp tv)
    let msg' := m'.message (dataTopicOf root' host') qos' id' (getTimestamp tv')
    sendToDB msg.topic msg.payload = .ok [pt] → sendToDB msg'.topic msg'.payload = .ok [pt'] →
    pt.measurement = pt'.measurement → pt.node = pt'.node → pt.device = pt'.device →
    host = host' ∧ m.type = m'.type ∧ id = id' := by
  intro msg msg' hpt hpt' hm hn hd
  have e : sendToDB msg.topic msg.payload = _ :=
    sendToDB_two_levels (splitOn_dataTopic hroot hhost) qos id tv m
  have e' : sendToDB msg'.topic msg'.payload = _ :=
    sendToDB_two_levels (splitOn_dataTopic hroot' hhost') qos' id' tv' m'
  -- both points are known, so their tags can be compared
  rw [e, Except.ok.injEq, List.cons.injEq] at hpt
  rw [e', Except.ok.injEq, List.cons.injEq] at hpt'
  obtain ⟨⟨⟩, -⟩ := hpt
  obtain ⟨⟨⟩, -⟩ := hpt'
  exact ⟨hn, hm, device_inj hm hd⟩

end Wire

/-- Under a topic `root/host`, all ticks stay within `topic_tmp` and all their messages are decoded into
the points of the metrics they print exactly if the topic leaves room for the names of the devices.
Messages of different hosts, kinds or ids never share measurement and tags. -/
theorem wire_roundtrip_iff (root host : Text) (hroot : '/' ∉ root) (hhost : '/' ∉ host) (s : SysData)
    (topic : s.topic = dataTopicOf root host) :
    ((∀ t, TickDecoded host t s) ↔ ShortTopic s.ncpu s.ncore (dataTopicOf root host)) ∧
    ∀ (root' host' : Text) (s' : SysData), '/' ∉ root' → '/' ∉ host' →
      s'.topic = dataTopicOf root' host' → ∀ (t t' : Tick), ∀ msg ∈ (sampHandler t s).out,
      ∀ msg' ∈ (sampHandler t' s').out, ∀ pt pt' : Point,
      sendToDB msg.topic msg.payload = .ok [pt] → sendToDB msg'.topic msg'.payload = .ok [pt'] →
      pt.measurement = pt'.measurement → pt.node = pt'.node → pt.device = pt'.device →
      host = host' ∧ ∃ type id,
        msg.topic = topicTmp s.topic type id ∧ msg'.topic = topicTmp s'.topic type id := by
  refine ⟨?_, ?_⟩
  · rw [← topic]
    constructor
    · intro h
      exact (messages_fit_iff default s).mp (h default).1
    · intro short t
      exact ⟨(messages_fit_iff t s).mpr short, tick_decoded hroot hhost topic t⟩
  · intro root' host' s' hroot' hhost' topic' t t' msg hmsg msg' hmsg' pt pt' hpt hpt' hm hn hd
    obtain ⟨m, id, rfl⟩ := sampHandler_messages hmsg
    obtain ⟨m', id', rfl⟩ := sampHandler_messages hmsg'
    rw [topic] at hpt
    rw [topic'] at hpt'
    obtain ⟨same, type, rfl⟩ := same_device hroot hhost hroot' hhost' hpt hpt' hm hn hd
    exact ⟨same, m.type, id, message_topic .., type ▸ message_topic ..⟩

/-- A host of one core under `xd`, and a tick at a quarter past the second. -/
theorem wire_roundtrip_tick :
    TickDecoded "node7".toList
      ⟨⟨1, 250000, by norm_num, by norm_num⟩, ⟨fun _ => 5, fun _ _ => 7⟩, default⟩
      oneCoreDaemon.sysd :=
  have ⟨round, _⟩ := wire_roundtrip_iff "xd".toList "node7".toList (by decide) (by decide)
    oneCoreDaemon.sysd rfl
  round.mpr ⟨by decide +kernel, by decide +kernel⟩ _

/-- A daemon of one core whose root has 300 bytes. -/
def longRoot : SysData :=
  setTopics (List.replicate 300 'x') "node7".toList { initPowMon with ncpu := 1, ncore := 1 }

/-- Its topics are written beside `topic_tmp`. -/
theorem wire_overrun :
    '/' ∉ List.replicate 300 'x' ∧ '/' ∉ "node7".toList ∧
    longRoot.topic = dataTopicOf (List.replicate 300 'x') "node7".toList ∧
    ∀ t, ¬ TickDecoded "node7".toList t longRoot := by
  refine ⟨fun h => absurd (List.eq_of_mem_replicate h) (by decide), by decide, rfl, ?_⟩
  rintro t ⟨fit, -⟩
  have core := ((messages_fit_iff t longRoot).mp fit).core (by decide)
  exact absurd core (by decide +kernel)

/-! ## Keys in the database -/

/-- What a point is identified by. -/
def Point.key (pt : Point) : Text × Text × Text × ℤ :=
  (pt.measurement, pt.node, pt.device, pt.time)

/-- The point a sample of a device is stored as. -/
def storedPoint (host : Text) (id : Nat) (sample : Metrics × Timeval) : Point :=
  ⟨sample.1.type, digitsVal (wholeSeconds (getTimestamp sample.2)) * 1000000000, host,
    device sample.1.type id, sample.1.fields⟩

/-- Equal numbers of seconds are written alike. -/
lemma wholeSeconds_inj {tv tv' : Timeval}
    (h : digitsVal (wholeSeconds (getTimestamp tv)) =
      digitsVal (wholeSeconds (getTimestamp tv'))) :
    wholeSeconds (getTimestamp tv) = wholeSeconds (getTimestamp tv') := by
  obtain ⟨N, -, e⟩ := getTimestamp_eq tv
  obtain ⟨N', -, e'⟩ := getTimestamp_eq tv'
  rw [e, e', wholeSeconds_fixedDigits, wholeSeconds_fixedDigits, digitsVal_fmtNat,
    digitsVal_fmtNat] at h
  rw [e, e', wholeSeconds_fixedDigits, wholeSeconds_fixedDigits, h]

/-- The samples of one device, published at any times, are all decoded; the points have pairwise
distinct keys exactly if the timestamps differ pairwise before the decimal point. -/
theorem distinct_keys_iff (root host : Text) (hroot : '/' ∉ root) (hhost : '/' ∉ host) (qos : ℤ)
    (id : Nat) (type : Text) (samples : List (Metrics × Timeval))
    (hty : ∀ s ∈ samples, s.1.type = type) :
    ∃ points : List Point,
      List.Forall₂ (fun (s : Metrics × Timeval) pt =>
        let msg := s.1.message (dataTopicOf root host) qos id (getTimestamp s.2)
        sendToDB msg.topic msg.payload = .ok [pt]) samples points ∧
      ((points.map Point.key).Nodup ↔
        (samples.map fun s => wholeSeconds (getTimestamp s.2)).Nodup) := by
  refine ⟨samples.map (storedPoint host id), ?_, ?_⟩
  · rw [List.forall₂_map_right_iff, List.forall₂_same]
    intro s _
    exact sendToDB_two_levels (splitOn_dataTopic hroot hhost) qos id s.2 s.1
  · rw [List.map_map, List.Nodup, List.Nodup, List.pairwise_map, List.pairwise_map]
    refine List.Pairwise.iff_of_mem ?_
    intro s s' hs hs'
    rw [not_iff_not]
    constructor
    -- of the key, only the time depends on the sample
    · intro h
      have time : (storedPoint host id s).time = (storedPoint host id s').time :=
        congrArg (fun k => k.2.2.2) h
      have secs := mul_right_cancel₀ (by norm_num) time
      exact wholeSeconds_inj (by exact_mod_cast secs)
    · intro h
      show (storedPoint host id s).key = (storedPoint host id s').key
      simp only [Point.key, storedPoint, hty s hs, hty s' hs', h]

/-- The metrics of an idle package. -/
def idlePackage : Metrics :=
  .cpu ⟨40, .fin false (decimal 0 2400), .fin false 0, .fin false 0, .fin false (decimal 0 20)⟩

/-- Its message `usec` microseconds after second `1`. -/
def packageAt (usec : Nat) (h : usec < 1000000) : Message :=
  idlePackage.message (dataTopicOf "xd".toList "node7".toList) 1 0
    (getTimestamp ⟨1, usec, by norm_num, h⟩)

/-- With `dT = 0.5` the timestamps `1.000` and `1.500` become one key. -/
theorem distinct_keys_half_second :
    (packageAt 0 (by norm_num)).payload = "40;2400.00;0.00;0.00;20.00;1.000".toList ∧
    (packageAt 500000 (by norm_num)).payload = "40;2400.00;0.00;0.00;20.00;1.500".toList ∧
    ∃ pt pt', sendToDB (packageAt 0 (by norm_num)).topic (packageAt 0 (by norm_num)).payload =
        .ok [pt] ∧
      sendToDB (packageAt 500000 (by norm_num)).topic (packageAt 500000 (by norm_num)).payload =
        .ok [pt'] ∧ pt.key = pt'.key := by
  have two := @splitOn_dataTopic "xd".toList "node7".toList (by decide) (by decide)
  refine ⟨by decide +kernel, by decide +kernel, _, _,
    sendToDB_two_levels two 1 0 _ idlePackage, sendToDB_two_levels two 1 0 _ idlePackage, ?_⟩
  decide +kernel

/-- Two samples in different seconds. -/
def twoSeconds : List (Metrics × Timeval) :=
  [(idlePackage, ⟨1, 500000, by norm_num, by norm_num⟩),
    (idlePackage, ⟨2, 250000, by norm_num, by norm_num⟩)]

/-- Two samples, one second apart. -/
theorem distinct_keys_two_seconds :
    ∃ points : List Point,
      List.Forall₂ (fun (s : Metrics × Timeval) pt =>
        let msg := s.1.message (dataTopicOf "xd".toList "node7".toList) 1 0 (getTimestamp s.2)
        sendToDB msg.topic msg.payload = .ok [pt]) twoSeconds points ∧
      (points.map Point.key).Nodup := by
  obtain ⟨points, h, iff⟩ := distinct_keys_iff "xd".toList "node7".toList (by decide) (by decide) 1 0
    "cpu".toList twoSeconds (by simp [twoSeconds, idlePackage, Metrics.type])
  exact ⟨points, h, iff.mpr (by decide +kernel)⟩

end Powmon.Collector
