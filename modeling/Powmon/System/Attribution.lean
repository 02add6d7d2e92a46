import Powmon.Collector.Wire
import Powmon.Mqtt.Queue

/-!
# Which host a message is credited to

The collector takes the node from the second level of a topic and the device from the third, while the
daemon publishes under whatever topic is in force: the configured root with the hostname appended, or
the argument of the last `-t` command as it stands. `attribution_iff` says when the two agree, over
runs of any commands and ticks: the strings have to fit the arrays they are written into, and the topic
in force has to be one that `mosquitto_publish` refuses, or to have exactly two levels, the second one
being the hostname.

A text is a C string, byte by byte.
-/

namespace Powmon.System
open Lib Monitor Collector

/-- The devices a tick reports, in the order it publishes them. -/
def devices (s : SysData) : List Text :=
  (List.range s.ncpu).map (device "cpu".toList) ++ (List.range s.ncore).map (device "core".toList)

/-- A text as it is sent. -/
def bytes (s : Text) : Mqtt.Bytes := s.map fun c => UInt8.ofNat c.toNat

/-- `mosquitto_publish` returns an error for this quality of service or this topic. -/
def TopicRefused (qos : ℤ) (topic : Text) : Prop :=
  (qos < 0 ∨ qos > 2) ∨ Mqtt.topicWildcardLenCheck (bytes topic) ≠ .success

instance (qos : ℤ) (topic : Text) : Decidable (TopicRefused qos topic) :=
  inferInstanceAs (Decidable (_ ∨ _))

/-- A message is decoded into a point of `host` and of the device `dev`. -/
def Credited (host : Text) (msg : Message) (dev : Text) : Prop :=
  ∃ pt, sendToDB msg.topic msg.payload = .ok [pt] ∧ pt.node = host ∧ pt.device = dev

/-- The daemon on `host`, started with the topic root `root`. -/
def started (root host : Text) (s : SysData) (broker : Option (Text × ℤ)) : Daemon :=
  ⟨setTopics root host s, broker⟩

/-- A topic under which two devices are credited right has two levels, the second one the hostname: a
third level would have to be both devices at once. -/
lemma levels_of_credited {host topic dev dev' : Text} {qos : ℤ} {tv : Timeval} {m m' : Metrics}
    {id id' : Nat} (hdev : Credited host (m.message topic qos id (getTimestamp tv)) dev)
    (hdev' : Credited host (m'.message topic qos id' (getTimestamp tv)) dev') (ne : dev ≠ dev') :
    ∃ a, topic.splitOn '/' = [a, host] := by
  obtain ⟨pt, h, hn, hd⟩ := hdev
  obtain ⟨pt', h', -, hd'⟩ := hdev'
  match e : topic.splitOn '/' with
  | [] => exact absurd e (List.splitOn_ne_nil '/' topic)
  | [a] =>
    -- `x[2]` raises
    rw [sendToDB_one_level e] at h
    cases h
  | [a, b] =>
    rw [sendToDB_levels e] at h
    obtain ⟨hb, -⟩ := jsonBody_tags h
    exact ⟨a, by rw [← hn, hb]⟩
  | a :: b :: c :: r =>
    -- the topic's own third level is taken for the device of both messages
    rw [sendToDB_levels e] at h h'
    obtain ⟨-, hc⟩ := jsonBody_tags h
    obtain ⟨-, hc'⟩ := jsonBody_tags h'
    have two : dev = dev' := by
      rw [← hd, ← hd', hc, hc']
      rfl
    exact absurd two ne

/-- And conversely. -/
lemma credited_of_levels {host topic a : Text} (h : topic.splitOn '/' = [a, host]) (qos : ℤ)
    (id : Nat) (tv : Timeval) (m : Metrics) :
    Credited host (m.message topic qos id (getTimestamp tv)) (device m.type id) :=
  ⟨_, sendToDB_two_levels h qos id tv m, rfl, rfl⟩

/-- What is refused leaves the library as it was. -/
lemma mosquittoPublish_refused {msg : Message} (h : TopicRefused msg.qos msg.topic) (now : Nat)
    (m : Mqtt.Mosq) :
    ∃ err, err ≠ .success ∧
      Mqtt.mosquittoPublish now (bytes msg.topic) (bytes msg.payload) msg.qos false m = (err, m) := by
  rw [Mqtt.mosquittoPublish]
  by_cases qos : msg.qos < 0 ∨ msg.qos > 2
  · exact ⟨.inval, nofun, if_pos qos⟩
  have wild := h.resolve_left qos
  rw [if_neg qos, if_pos wild]
  split
  · exact ⟨.inval, nofun, rfl⟩
  · split
    · exact ⟨.payloadSize, nofun, rfl⟩
    · exact ⟨.inval, nofun, rfl⟩

/-- What the library looks for in a topic. -/
def wildByte (b : UInt8) : Bool := b = 0x2B ∨ b = 0x23

lemma wildcardCheck_iff (topic : Text) (short : topic.length ≤ 65535) :
    Mqtt.topicWildcardLenCheck (bytes topic) ≠ .success ↔ (bytes topic).any wildByte := by
  have len : ¬ (bytes topic).length > 65535 := by
    rw [bytes, List.length_map]
    omega
  rw [Mqtt.topicWildcardLenCheck, if_neg len]
  change (if (bytes topic).any wildByte = true then Mqtt.Err.inval else .success) ≠ .success ↔ _
  split <;> simp_all

/-- The name of a device has nothing that the library refuses. -/
lemma device_plain (m : Metrics) (id : Nat) : (bytes (device m.type id)).any wildByte = false := by
  have range : ∀ c ∈ device m.type id, 48 ≤ c.toNat ∧ c.toNat < 128 := by
    refine List.forall_mem_append.mpr ⟨?_, ?_⟩
    · cases m <;> simp [Metrics.type]
    · intro c hc
      obtain ⟨low, high⟩ := Char.isDigit_iff_toNat.mp (isDigit_fmtNat hc)
      exact ⟨low, high.trans_lt (by decide)⟩
  rw [List.any_eq_false, bytes, List.forall_mem_map]
  intro c hc
  obtain ⟨low, high⟩ := range c hc
  have same : (UInt8.ofNat c.toNat).toNat = c.toNat := by
    rw [UInt8.toNat_ofNat']
    exact Nat.mod_eq_of_lt (by omega)
  rw [wildByte, decide_eq_true_eq, not_or]
  refine ⟨?_, ?_⟩ <;> intro e
  · rw [e] at same
    exact absurd same (by simp; omega)
  · rw [e] at same
    exact absurd same (by simp; omega)

/-- A message that fits is refused exactly if the topic in force is. -/
lemma message_refused_iff {topic : Text} {qos : ℤ} {id : Nat} {tmpstr : Text} {m : Metrics}
    (fits : (m.message topic qos id tmpstr).Fits) :
    TopicRefused (m.message topic qos id tmpstr).qos (m.message topic qos id tmpstr).topic ↔
      TopicRefused qos topic := by
  have len : (topicTmp topic m.type id).length + 1 ≤ topicTmpSize := message_topic .. ▸ fits
  have short : (topicTmp topic m.type id).length ≤ 65535 := by
    unfold topicTmpSize at len
    omega
  have root : topic.length ≤ 65535 := by
    rw [length_topicTmp] at short
    omega
  have same_qos : (m.message topic qos id tmpstr).qos = qos := by cases m <;> rfl
  have split : bytes (topicTmp topic m.type id) = bytes topic ++ 0x2F :: bytes (device m.type id) :=
    List.map_append
  rw [TopicRefused, TopicRefused, same_qos, message_topic, wildcardCheck_iff _ short,
    wildcardCheck_iff _ root, split, List.any_append, List.any_cons, device_plain]
  simp [wildByte]

/-- The devices of a tick are those of its metrics. -/
lemma devices_eq (t : Tick) (s : SysData) :
    devices s = (tickMetrics t s).map fun x => device x.2.type x.1 := by
  have host := congrArg Prod.fst (readMsrData_settings t.rd { s with tmpstr := getTimestamp t.tv })
  have ncpu : (readMsrData t.rd { s with tmpstr := getTimestamp t.tv }).ncpu = s.ncpu :=
    congrArg Host.ncpu host
  have ncore : (readMsrData t.rd { s with tmpstr := getTimestamp t.tv }).ncore = s.ncore :=
    congrArg Host.ncore host
  simp only [tickMetrics, List.map_append, List.map_map, ncpu, ncore]
  rfl

/-- A device that is there is reported. -/
lemma exists_metrics (t : Tick) {s : SysData} {dev : Text} (h : dev ∈ devices s) :
    ∃ x ∈ tickMetrics t s, device x.2.type x.1 = dev := by
  rw [devices_eq t s] at h
  exact List.mem_map.mp h

/-- A tick stays within `topic_tmp`, and every message that the library does not refuse is credited to
`host` and to its device. -/
def TickCredited (host : Text) (t : Tick) (s : SysData) : Prop :=
  (∀ msg ∈ (sampHandler t s).out, msg.Fits) ∧
  List.Forall₂ (fun msg dev => ¬ TopicRefused msg.qos msg.topic → Credited host msg dev)
    (sampHandler t s).out (devices s)

/-- One state: all messages of every next tick are credited right exactly if the topic leaves room for
the devices and is refused or has two levels, the second one the hostname. -/
lemma tick_credited_iff {s : SysData} {host : Text} (hcpu : 1 ≤ s.ncpu) (hcore : 1 ≤ s.ncore) :
    (∀ t, TickCredited host t s) ↔ ShortTopic s.ncpu s.ncore s.topic ∧
      (TopicRefused s.qos s.topic ∨ ∃ a, s.topic.splitOn '/' = [a, host]) := by
  have parts : ∀ t, List.Forall₂ (fun msg dev => ¬ TopicRefused msg.qos msg.topic →
        Credited host msg dev) (sampHandler t s).out (devices s) ↔
      ∀ x ∈ tickMetrics t s,
        let msg := x.2.message s.topic s.qos x.1 (getTimestamp t.tv)
        ¬ TopicRefused msg.qos msg.topic → Credited host msg (device x.2.type x.1) := by
    intro t
    rw [devices_eq t s, sampHandler_out_eq, List.forall₂_map_left_iff, List.forall₂_map_right_iff,
      List.forall₂_same]
  constructor
  · intro h
    obtain ⟨fit, credited⟩ := h default
    refine ⟨(messages_fit_iff default s).mp fit, ?_⟩
    by_contra neither
    rw [not_or] at neither
    rw [sampHandler_out_eq, List.forall_mem_map] at fit
    have each : ∀ x ∈ tickMetrics default s, Credited host
        (x.2.message s.topic s.qos x.1 (getTimestamp default)) (device x.2.type x.1) :=
      fun x hx => (parts default).mp credited x hx
        (mt (message_refused_iff (fit x hx)).mp neither.1)
    have first : ∀ {type : String} {n : Nat}, 1 ≤ n → device type.toList 0 ∈
        (List.range n).map (device type.toList) :=
      fun hn => List.mem_map_of_mem (List.mem_range.mpr hn)
    obtain ⟨cpu, hcpu, is_cpu⟩ := exists_metrics default (List.mem_append_left _ (first hcpu))
    obtain ⟨core, hcore, is_core⟩ := exists_metrics default (List.mem_append_right _ (first hcore))
    refine neither.2 (levels_of_credited (each cpu hcpu) (each core hcore) ?_)
    rw [is_cpu, is_core]
    decide
  · rintro ⟨short, right⟩ t
    have fit := (messages_fit_iff t s).mpr short
    refine ⟨fit, (parts t).mpr ?_⟩
    rw [sampHandler_out_eq, List.forall_mem_map] at fit
    intro x hx msg taken
    rcases right with refused | ⟨a, ha⟩
    · exact absurd ((message_refused_iff (fit x hx)).mpr refused) taken
    · exact credited_of_levels ha s.qos x.1 t.tv x.2

/-- For a daemon started with any topic root, and after any commands and ticks: the daemon has stayed
within its arrays and every message published in a next tick is credited to its host and device exactly
if every string of the run and the topic in force are short enough, and the topic in force is refused or
has two levels, the second one the hostname. -/
theorem attribution_iff (root host : Text) (s : SysData) (broker : Option (Text × ℤ))
    (evs : List Event) (hcpu : 1 ≤ s.ncpu) (hcore : 1 ≤ s.ncore) :
    ((started root host s broker).InBounds evs ∧
      ∀ t, TickCredited host t ((started root host s broker).run evs).sysd) ↔
    ShortRun s.ncpu s.ncore (dataTopicOf root host) evs ∧
      ShortTopic s.ncpu s.ncore (topicInForce (dataTopicOf root host) evs) ∧
      (TopicRefused s.qos (topicInForce (dataTopicOf root host) evs) ∨
        ∃ a, (topicInForce (dataTopicOf root host) evs).splitOn '/' = [a, host]) := by
  have bounds := inBounds_iff (started root host s broker) evs
  obtain ⟨d, hd⟩ : ∃ d, d = (started root host s broker).run evs := ⟨_, rfl⟩
  have topic : d.sysd.topic = topicInForce (dataTopicOf root host) evs := hd ▸ run_topic evs _
  have qos : d.sysd.qos = s.qos := hd ▸ run_qos evs _
  have hh : d.sysd.host = s.host := hd ▸ run_host evs _
  have ncpu : d.sysd.ncpu = s.ncpu := congrArg Host.ncpu hh
  have ncore : d.sysd.ncore = s.ncore := congrArg Host.ncore hh
  have ticks := @tick_credited_iff d.sysd host (by omega) (by omega)
  rw [topic, qos, ncpu, ncore] at ticks
  rw [← hd]
  exact and_congr bounds ticks

/-- A host of one core. -/
def oneCore : SysData := { initPowMon with ncpu := 1, ncore := 1 }

/-- A command as it arrives, with an empty stack and a broker that accepts. -/
def received (payload : String) : Event := .command default (fun _ _ => true) payload.toList

/-- A command that fits is short. -/
lemma short_received {ncpu ncore : Nat} {topic : Text} {payload : String}
    (h : ∀ w ∈ commandWrites (cString payload.toList), w.Fits) :
    (received payload).Short ncpu ncore topic :=
  (commandWrites_fit_iff _).mp h

/-- A root of one level, and a `-t` command that keeps hostname and depth. -/
theorem attribution_two_levels :
    (topicInForce (dataTopicOf "xd".toList "node7".toList)
      [received "-s 0.5", .tick default, received "-t lab/node7"]).splitOn '/' =
        ["lab".toList, "node7".toList] ∧
    ∀ t, TickCredited "node7".toList t ((started "xd".toList "node7".toList oneCore none).run
        [received "-s 0.5", .tick default, received "-t lab/node7"]).sysd := by
  have levels : (topicInForce (dataTopicOf "xd".toList "node7".toList)
      [received "-s 0.5", .tick default, received "-t lab/node7"]).splitOn '/' =
        ["lab".toList, "node7".toList] := by decide +kernel
  refine ⟨levels, ((attribution_iff _ _ oneCore none _ (by decide) (by decide)).mpr
    ⟨?_, ⟨by decide +kernel, by decide +kernel⟩, .inr ⟨_, levels⟩⟩).2⟩
  rw [shortRun_cons, shortRun_cons, shortRun_cons]
  exact ⟨short_received (by decide +kernel), ⟨by decide +kernel, by decide +kernel⟩,
    short_received (by decide +kernel), shortRun_nil⟩

/-- The topic root of the README, a `-t` command with a root alone, and a root of 300 bytes. -/
theorem attribution_readme_root :
    ¬ (∀ t, TickCredited "node7".toList t ((started "org/myorg/cluster/testcluster".toList
      "node7".toList oneCore none).run []).sysd) ∧
    ¬ (∀ t, TickCredited "node7".toList t ((started "xd".toList "node7".toList oneCore none).run
        [received "-t lab"]).sysd) ∧
    ¬ (∀ t, TickCredited "node7".toList t ((started (List.replicate 300 'x') "node7".toList oneCore
        none).run []).sysd) := by
  have many : "org/myorg/cluster/testcluster/node7".toList.splitOn '/' =
      ["org".toList, "myorg".toList, "cluster".toList, "testcluster".toList, "node7".toList] := by
    decide +kernel
  have one : "lab".toList.splitOn '/' = ["lab".toList] := by decide +kernel
  refine ⟨fun h => ?_, fun h => ?_, fun h => ?_⟩
  · obtain ⟨-, refused | ⟨a, e⟩⟩ := (tick_credited_iff (by decide) (by decide)).mp h
    · exact absurd refused (by decide +kernel)
    · have levels := congrArg List.length (many.symm.trans e)
      exact absurd levels (by simp)
  · obtain ⟨-, refused | ⟨a, e⟩⟩ := (tick_credited_iff (by decide) (by decide)).mp h
    · exact absurd refused (by decide +kernel)
    · have levels := congrArg List.length (one.symm.trans e)
      exact absurd levels (by simp)
  · have core := ((tick_credited_iff (by decide) (by decide)).mp h).1.core (by decide)
    exact absurd core (by decide +kernel)

end Powmon.System
