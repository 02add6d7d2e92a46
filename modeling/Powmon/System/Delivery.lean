import Powmon.System.Traffic
import Powmon.Mqtt.ExactlyOnce
import Powmon.Mqtt.Routing

/-!
# From a sample to the database

The daemon, the library that publishes for it, the broker and the collector in one run: `samp_handler`
hands its messages to `mosquitto_publish` one by one, while the threads of the library, the connections and
the broker go on in any order, and the broker finds the collector by its subscription `root/#`.

* `samples_arrive`: with quality of service 1 every message of every tick still has to be published, is
  refused by `mosquitto_publish`, is kept by the library or has been handed to the subscribers;
* `samples_stored`: so what the database is given are points of samples, and of each message that is not
  refused it has the point, or the library still keeps the message;
* `samples_arrive_once`: with quality of service 2, on the first connection, a message is handed to the
  subscribers once.

A message that arrives is the point of its sample on the node of the daemon (`Arrives`): for whoever has
subscribed to `root/#`, whatever else the broker has been asked, it is handed to `mqtt3_db_message_insert`,
and `mqttOnMessage` makes the point of it. What that function then keeps, queues or drops is not part of
this.

The root and the hostname are C strings of one level each, in ASCII, where the collector reads the same
characters, and leave room in `topic_tmp` for the names of the devices.
-/

namespace Powmon.System
open Lib Monitor Collector

/-! ## Texts on the connection -/

/-- A text as it is read from the connection. -/
def text (b : Mqtt.Bytes) : Text := b.map fun x => Char.ofNat x.toNat

/-- A C string in ASCII. -/
def Ascii (s : Text) : Prop := ∀ c ∈ s, 0 < c.toNat ∧ c.toNat < 128

instance (s : Text) : Decidable (Ascii s) := inferInstanceAs (Decidable (∀ _ ∈ _, _))

/-- A name that is one level of a topic. -/
structure Level (name : Text) : Prop where
  slash : '/' ∉ name
  ascii : Ascii name

section Text
variable {s s' : Text} {c : Char}

/-- Joined texts are in ASCII. -/
lemma Ascii.append (h : Ascii s) (h' : Ascii s') : Ascii (s ++ s') :=
  fun c hc => (List.mem_append.mp hc).elim (h c) (h' c)

/-- So is one with a character in front. -/
lemma Ascii.cons (hc : 0 < c.toNat ∧ c.toNat < 128) (h : Ascii s) : Ascii (c :: s) :=
  List.forall_mem_cons.mpr ⟨hc, h⟩

lemma ascii_nil : Ascii [] := List.forall_mem_nil _

/-- The byte of a character in ASCII. -/
lemma toNat_byte (h : c.toNat < 128) : (UInt8.ofNat c.toNat).toNat = c.toNat := by
  rw [UInt8.toNat_ofNat']
  exact Nat.mod_eq_of_lt (by omega)

/-- What is sent is read. -/
lemma text_bytes (h : Ascii s) : text (bytes s) = s := by
  induction s with
  | nil => rfl
  | cons c s ih =>
    obtain ⟨hc, hs⟩ := List.forall_mem_cons.mp h
    rw [bytes, List.map_cons, text, List.map_cons, toNat_byte hc.2, Char.ofNat_toNat]
    exact congrArg _ (ih hs)

/-- And nothing of it is cut off. -/
lemma cBytes_bytes (h : Ascii s) : Mqtt.cBytes (bytes s) = bytes s := by
  apply Mqtt.cBytes_eq_self
  rw [bytes, List.mem_map]
  rintro ⟨c, hc, e⟩
  obtain ⟨some_char, small⟩ := h c hc
  have zero := toNat_byte small
  rw [e] at zero
  exact some_char.ne zero

/-- Texts that are joined. -/
lemma bytes_append (s s' : Text) : bytes (s ++ s') = bytes s ++ bytes s' := List.map_append

/-- A byte parts levels exactly if its character does. -/
lemma byte_eq_slash (h : c.toNat < 128) : UInt8.ofNat c.toNat = Mqtt.slash ↔ c = '/' := by
  constructor
  · intro e
    have n : c.toNat = 0x2F := by rw [← toNat_byte h, e]; rfl
    rw [← Char.ofNat_toNat c, n]
  · rintro rfl
    rfl

/-- The levels of a topic are the same on both sides. -/
lemma levels_bytes (h : Ascii s) : Mqtt.levels (bytes s) = (s.splitOn '/').map bytes := by
  induction s with
  | nil => rfl
  | cons c s ih =>
    obtain ⟨hc, hs⟩ := List.forall_mem_cons.mp h
    have rest : (bytes s).splitOn Mqtt.slash = (s.splitOn '/').map bytes := ih hs
    rw [Mqtt.levels, bytes, List.map_cons, List.splitOn_cons_eq_if_modifyHead,
      List.splitOn_cons_eq_if_modifyHead, ← bytes, rest]
    by_cases sep : c = '/'
    · rw [if_pos (beq_iff_eq.mpr ((byte_eq_slash hc.2).mpr sep)), if_pos (beq_iff_eq.mpr sep)]
      rfl
    · rw [if_neg (mt beq_iff_eq.mp (mt (byte_eq_slash hc.2).mp sep)), if_neg (mt beq_iff_eq.mp sep)]
      cases s.splitOn '/' <;> rfl

/-- What numbers are written with is ASCII. -/
lemma toNat_isNumChar (h : isNumChar c) : 0 < c.toNat ∧ c.toNat < 128 := by
  rw [isNumChar, Bool.or_eq_true, decide_eq_true_eq] at h
  rcases h with digit | other
  · obtain ⟨low, high⟩ := Char.isDigit_iff_toNat.mp digit
    exact ⟨low.trans_lt' (by decide), high.trans_lt (by decide)⟩
  · have all : ∀ c ∈ ['-', '.', 'n', 'a', 'i', 'f'], 0 < c.toNat ∧ c.toNat < 128 := by simp
    exact all c other

/-- So are numbers that are joined. -/
lemma ascii_intercalate {items : List Text} (h : ∀ s ∈ items, ∀ c ∈ s, isNumChar c) :
    Ascii ([';'].intercalate items) := by
  induction items with
  | nil => exact ascii_nil
  | cons s items ih =>
    obtain ⟨hs, rest⟩ := List.forall_mem_cons.mp h
    have first : Ascii s := fun c hc => toNat_isNumChar (hs c hc)
    by_cases last : items = []
    · rw [last, List.intercalate_singleton]
      exact first
    · rw [List.intercalate_cons_of_ne_nil last]
      exact (first.append (ascii_nil.cons (by decide))).append (ih rest)

/-- The payload of a sample. -/
lemma ascii_payload (topic : Text) (qos : ℤ) (id : Nat) (tv : Timeval) (m : Metrics) :
    Ascii (m.message topic qos id (getTimestamp tv)).payload := by
  rw [message_payload]
  apply ascii_intercalate
  have int : ∀ z : ℤ, ∀ c ∈ fmtInt z, isNumChar c := fun _ _ => isNumChar_fmtInt
  have fixed : ∀ x : Fl, ∀ c ∈ fmtFixed 2 x, isNumChar c := fun _ _ => isNumChar_fmtFixed
  have stamp := getTimestamp_isNumChar tv
  cases m with
  | cpu m =>
    simp only [Metrics.items, List.forall_mem_cons]
    exact ⟨int m.cpuTemp.toNat, fixed _, fixed _, fixed _, fixed _, stamp, List.forall_mem_nil _⟩
  | core m =>
    simp only [Metrics.items, List.forall_mem_cons]
    exact ⟨int m.coreTemp.toInt, fixed _, fixed _, fixed _, fixed _, fixed _, stamp, List.forall_mem_nil _⟩

/-- The name of a device. -/
lemma ascii_device (m : Metrics) (id : Nat) : Ascii (device m.type id) := by
  have type : Ascii m.type := by cases m <;> simp [Ascii, Metrics.type]
  exact type.append fun c hc => toNat_isNumChar (isNumChar_of_isDigit (isDigit_fmtNat hc))

end Text

/-! ## The system -/

/-- A daemon with the messages that `samp_handler` has made and `mosquitto_publish` has not got yet, the
library and the broker. -/
structure Node where
  daemon : Daemon
  pending : List Message
  link : Mqtt.System

/-- What happens: to the daemon, between it and the library, or on the connections. -/
inductive NodeEvent where
  | daemon (e : Event)
  | publish (now : Nat)
  | network (e : Mqtt.Event)

/-- `mosquitto_publish(mosq, NULL, topic_tmp, strlen(send_data), send_data, sysd->qos, false)`. -/
def publishCall (now : Nat) (msg : Message) : Mqtt.Event :=
  .publish now (bytes msg.topic) (bytes msg.payload) msg.qos false

namespace Node

/-- The messages of a tick. -/
def sampled (n : Node) : NodeEvent → List Message
  | .daemon (.tick t) => (sampHandler t n.daemon.sysd).out
  | _ => []

/-- What an event is for the library and the broker. -/
def events (n : Node) : NodeEvent → List Mqtt.Event
  | .daemon _ => []
  | .publish now => (n.pending.take 1).map (publishCall now)
  | .network e => [e]

/-- One event: a tick leaves its messages to be published. -/
def step (n : Node) (e : NodeEvent) : Node :=
  { daemon := match e with
      | .daemon e => n.daemon.step e
      | _ => n.daemon
    pending := match e with
      | .publish _ => n.pending.drop 1
      | _ => n.pending ++ n.sampled e
    link := n.link.run (n.events e) }

/-- A run. -/
def run (n : Node) (es : List NodeEvent) : Node := es.foldl step n

/-- All messages of a run. -/
def allSampled : Node → List NodeEvent → List Message
  | _, [] => []
  | n, e :: es => n.sampled e ++ allSampled (n.step e) es

/-- All that happens to the library and the broker. -/
def allEvents : Node → List NodeEvent → List Mqtt.Event
  | _, [] => []
  | n, e :: es => n.events e ++ allEvents (n.step e) es

/-- The daemon, with a library that has not connected yet. -/
def start (root host : Text) (s : SysData) (broker : Option (Text × ℤ)) : Node :=
  ⟨started root host s broker, [], .start⟩

end Node

/-- No command `-t` or `-b`, and nothing else publishes. -/
def NodeEvent.Own : NodeEvent → Prop
  | .daemon e => ∀ payload ∈ e.payload, ¬ isOption "-t" (cString payload) ∧ ¬ isOption "-b" (cString payload)
  | .publish _ => True
  | .network e => ∀ now topic payload qos retain, e ≠ .publish now topic payload qos retain

/-- `mosquitto_publish` returns an error before it keeps the message. -/
def Refused (msg : Message) : Prop := msg.payload.length > 268435455 ∨ TopicRefused msg.qos msg.topic

instance (msg : Message) : Decidable (Refused msg) := inferInstanceAs (Decidable (_ ∨ _))

/-- A publication with the topic and the payload of a message. -/
structure Carries (p : Mqtt.Publish) (msg : Message) : Prop where
  topic : p.topic = bytes msg.topic
  payload : p.payload = bytes msg.payload
  qos : p.qos = msg.qos.toNat
  plain : Mqtt.topicWildcardLenCheck p.topic = .success

/-- A message that `push_to_broker` publishes. -/
def Sample (topic : Text) (qos : ℤ) (msg : Message) : Prop :=
  ∃ id, ∃ sample : Metrics × Timeval, msg = sample.1.message topic qos id (getTimestamp sample.2)

/-! ## The messages of a run -/

section Run
variable {n : Node} {topic : Text} {qos : ℤ} {msg : Message} {e : NodeEvent} {es : List NodeEvent}

/-- The quality of service is that of the daemon. -/
lemma Sample.qos_eq (h : Sample topic qos msg) : msg.qos = qos := by
  obtain ⟨id, ⟨m, tv⟩, rfl⟩ := h
  cases m <;> rfl

/-- There is a topic. -/
lemma Sample.topic_ne_nil (h : Sample topic qos msg) : (bytes msg.topic).length ≠ 0 := by
  obtain ⟨id, sample, rfl⟩ := h
  rw [message_topic, topicTmp, bytes, List.length_map, List.length_append, List.length_cons]
  omega

/-- The library and the broker go through the events of the run. -/
lemma Node.run_link (n : Node) (es : List NodeEvent) :
    (n.run es).link = n.link.run (n.allEvents es) := by
  induction es generalizing n with
  | nil => rfl
  | cons e es ih =>
    have rest := ih (n.step e)
    rw [Node.run, List.foldl_cons, ← Node.run, rest, Node.allEvents, Mqtt.System.run, Mqtt.System.run,
      List.foldl_append]
    rfl

/-- The daemon goes on with its own events. -/
lemma Node.step_daemon (n : Node) (e : NodeEvent) :
    (n.step e).daemon.sysd.host = n.daemon.sysd.host ∧ (n.step e).daemon.sysd.qos = n.daemon.sysd.qos := by
  cases e with
  | daemon e => exact ⟨step_host e n.daemon, step_qos e n.daemon⟩
  | publish now => exact ⟨rfl, rfl⟩
  | network e => exact ⟨rfl, rfl⟩

/-- Without `-t` commands the topic stays. -/
lemma own_topic (own : e.Own) (n : Node) : (n.step e).daemon.sysd.topic = n.daemon.sysd.topic := by
  cases e with
  | publish now => rfl
  | network e => rfl
  | daemon e =>
    have arg : topicArg e = none := by
      cases e with
      | tick t => rfl
      | command stk connect payload => exact if_neg (own payload rfl).1
    have keep := step_topic e n.daemon
    rw [arg] at keep
    exact keep

/-- The messages of a run are those of samples. -/
lemma allSampled_sample (own : ∀ e ∈ es, e.Own) (ht : n.daemon.sysd.topic = topic)
    (hq : n.daemon.sysd.qos = qos) : ∀ msg ∈ n.allSampled es, Sample topic qos msg := by
  induction es generalizing n with
  | nil => exact List.forall_mem_nil _
  | cons e es ih =>
    obtain ⟨here, later⟩ := List.forall_mem_cons.mp own
    have topic := (own_topic here n).trans ht
    have qos := (n.step_daemon e).2.trans hq
    refine List.forall_mem_append.mpr ⟨?_, ih later topic qos⟩
    cases e with
    | publish now => exact List.forall_mem_nil _
    | network e => exact List.forall_mem_nil _
    | daemon e =>
      cases e with
      | command stk connect payload => exact List.forall_mem_nil _
      | tick t =>
        intro msg hmsg
        obtain ⟨m, id, rfl⟩ := sampHandler_messages hmsg
        exact ⟨id, (m, t.tv), by rw [ht, hq]⟩

/-- With room for the devices they all fit `topic_tmp`. -/
lemma allSampled_fit (own : ∀ e ∈ es, e.Own)
    (room : ShortTopic n.daemon.sysd.ncpu n.daemon.sysd.ncore n.daemon.sysd.topic) :
    ∀ msg ∈ n.allSampled es, msg.Fits := by
  induction es generalizing n with
  | nil => exact List.forall_mem_nil _
  | cons e es ih =>
    obtain ⟨here, later⟩ := List.forall_mem_cons.mp own
    have topic := own_topic here n
    have ncpu : (n.step e).daemon.sysd.ncpu = n.daemon.sysd.ncpu := congrArg Host.ncpu (n.step_daemon e).1
    have ncore : (n.step e).daemon.sysd.ncore = n.daemon.sysd.ncore :=
      congrArg Host.ncore (n.step_daemon e).1
    refine List.forall_mem_append.mpr ⟨?_, ih later (by rwa [ncpu, ncore, topic])⟩
    cases e with
    | publish now => exact List.forall_mem_nil _
    | network e => exact List.forall_mem_nil _
    | daemon e =>
      cases e with
      | command stk connect payload => exact List.forall_mem_nil _
      | tick t => exact (messages_fit_iff t n.daemon.sysd).mpr room

/-- What becomes of a call. -/
lemma accepted_publishCall (h : Sample topic qos msg) (range : 0 < qos ∧ qos ≤ 2) (now : Nat)
    (s : Mqtt.System) : List.Forall₂ Carries ((publishCall now msg).accepted s) ([msg].filter (¬ Refused ·)) := by
  have taken : Refused msg ↔
      msg.payload.length > 268435455 ∨ Mqtt.topicWildcardLenCheck (bytes msg.topic) ≠ .success := by
    rw [Refused, TopicRefused, h.qos_eq]
    exact or_congr_right (or_iff_right (by omega))
  rw [publishCall, Mqtt.Event.accepted, Mqtt.queued]
  by_cases refused : Refused msg
  · rw [List.filter_cons_of_neg (by simpa using refused), if_neg]
    · exact .nil
    · rintro ⟨-, -, short, plain⟩
      rw [bytes, List.length_map] at short
      exact (taken.mp refused).elim (by omega) (absurd plain)
  · rw [List.filter_cons_of_pos (by simpa using refused), if_pos]
    · rw [taken, not_or, not_not] at refused
      exact .cons ⟨rfl, rfl, rfl, refused.2⟩ .nil
    · rw [taken, not_or, not_not] at refused
      refine ⟨h.qos_eq ▸ range, h.topic_ne_nil, ?_, refused.2⟩
      rw [bytes, List.length_map]
      omega

/-- One event: some of the messages that wait are published, in their order, and the library accepts those
that it does not refuse. -/
lemma step_published (samples : ∀ msg ∈ n.pending, Sample topic qos msg) (range : 0 < qos ∧ qos ≤ 2)
    (own : e.Own) : ∃ published, n.pending ++ n.sampled e = published ++ (n.step e).pending ∧
      List.Forall₂ Carries (Mqtt.accepted n.link (n.events e)) (published.filter (¬ Refused ·)) := by
  cases e with
  | daemon e => exact ⟨[], rfl, .nil⟩
  | network e =>
    refine ⟨[], rfl, ?_⟩
    cases e with
    | publish now topic payload qos retain => exact absurd rfl (own now topic payload qos retain)
    | _ => exact .nil
  | publish now =>
    have nothing : n.sampled (.publish now) = [] := rfl
    rw [nothing, List.append_nil, Node.step, Node.events]
    dsimp only
    cases waiting : n.pending with
    | nil => exact ⟨[], rfl, .nil⟩
    | cons msg rest =>
      have first : Sample topic qos msg := samples msg (waiting ▸ List.mem_cons_self)
      have call := accepted_publishCall first range now n.link
      refine ⟨[msg], rfl, ?_⟩
      rwa [← List.append_nil (Mqtt.Event.accepted _ _)] at call

/-- What waits after an event has waited before or is of the event. -/
lemma mem_step_pending (h : msg ∈ (n.step e).pending) : msg ∈ n.pending ++ n.sampled e := by
  cases e with
  | publish now => exact List.mem_append_left _ (List.mem_of_mem_drop h)
  | daemon e => exact h
  | network e => exact h

/-- What holds of all messages of a run holds of those that come after its first event. -/
lemma forall_step {P : Message → Prop} (h : ∀ msg ∈ n.pending ++ n.allSampled (e :: es), P msg) :
    (∀ msg ∈ n.pending, P msg) ∧ ∀ msg ∈ (n.step e).pending ++ (n.step e).allSampled es, P msg := by
  rw [Node.allSampled, ← List.append_assoc, List.forall_mem_append] at h
  refine ⟨fun msg waits => h.1 msg (List.mem_append_left _ waits), List.forall_mem_append.mpr ⟨?_, h.2⟩⟩
  exact fun msg waits => h.1 msg (mem_step_pending waits)

/-- A run: the messages of the ticks are published in their order, and the library accepts those that it
does not refuse, and nothing else. -/
lemma run_published (samples : ∀ msg ∈ n.pending ++ n.allSampled es, Sample topic qos msg)
    (range : 0 < qos ∧ qos ≤ 2) (own : ∀ e ∈ es, e.Own) :
    ∃ published, n.pending ++ n.allSampled es = published ++ (n.run es).pending ∧
      List.Forall₂ Carries (Mqtt.accepted n.link (n.allEvents es)) (published.filter (¬ Refused ·)) := by
  induction es generalizing n with
  | nil => exact ⟨[], List.append_nil _, .nil⟩
  | cons e es ih =>
    obtain ⟨before, after⟩ := forall_step samples
    obtain ⟨here, later⟩ := List.forall_mem_cons.mp own
    obtain ⟨published, split, carried⟩ := step_published before range here
    obtain ⟨published', split', carried'⟩ := ih after later
    refine ⟨published ++ published', ?_, ?_⟩
    · calc n.pending ++ n.allSampled (e :: es)
        _ = n.pending ++ n.sampled e ++ (n.step e).allSampled es := (List.append_assoc _ _ _).symm
        _ = published ++ ((n.step e).pending ++ (n.step e).allSampled es) := by rw [split, List.append_assoc]
        _ = published ++ published' ++ (n.run (e :: es)).pending := by rw [split', List.append_assoc]; rfl
    · rw [Node.allEvents, Mqtt.accepted_append, List.filter_append]
      exact List.rel_append carried carried'

/-- What happens to the library is what the run says, or the call for a message. -/
lemma event_cases (samples : ∀ msg ∈ n.pending ++ n.allSampled es, Sample topic qos msg) :
    ∀ e ∈ n.allEvents es, (∃ e' ∈ es, e' = .network e) ∨
      ∃ now msg, Sample topic qos msg ∧ e = publishCall now msg := by
  induction es generalizing n with
  | nil => exact List.forall_mem_nil _
  | cons e es ih =>
    obtain ⟨before, after⟩ := forall_step samples
    refine List.forall_mem_append.mpr ⟨?_, ?_⟩
    · cases e with
      | daemon e => exact List.forall_mem_nil _
      | network e => exact List.forall_mem_singleton.mpr (.inl ⟨_, List.mem_cons_self, rfl⟩)
      | publish now =>
        refine List.forall_mem_map.mpr fun msg hmsg => ?_
        exact .inr ⟨now, msg, before msg (List.mem_of_mem_take hmsg), rfl⟩
    · intro e' he'
      refine (ih after e' he').imp_left ?_
      rintro ⟨e'', he'', rfl⟩
      exact ⟨_, List.mem_cons_of_mem _ he'', rfl⟩

end Run

/-! ## At the collector -/

/-- A publication as the collector gets it. -/
def delivered (p : Mqtt.Publish) : Message := ⟨text p.topic, text p.payload, p.qos⟩

/-- For whoever has subscribed to `root/#`, whatever else the broker has been asked, the message is handed
to `mqtt3_db_message_insert`, and the collector makes it `pt`. -/
def Reaches (root : Text) (p : Mqtt.Publish) (pt : Point) : Prop :=
  ∀ (κ : Type) [DecidableEq κ] (upgrade : Bool) (requests : List (Mqtt.Request κ)) (c : κ) (q : Nat),
    (requests.foldl Mqtt.Table.serve .opened).subs (bytes (root ++ "/#".toList)) c = some q →
    ∃ sent ∈ (Mqtt.serve upgrade (Mqtt.serveAll upgrade Mqtt.dbOpen requests) (.publish p)).2,
      sent.context = c ∧ ∀ accepts store,
        mqttOnMessage (some accepts) (delivered sent.stored).topic (delivered sent.stored).payload store =
          .ok (if accepts [pt] then store ++ [pt] else store)

section Reaches
variable {root host : Text} {msg : Message} {p : Mqtt.Publish}

/-- The subscription is for the topics below the root. -/
lemma matches_below (hroot : Level root) {rest : Text} (h : Ascii rest) :
    Mqtt.Matches (bytes (root ++ "/#".toList)) (bytes (root ++ '/' :: rest)) := by
  have first : ∀ r, Ascii r →
      Mqtt.levels (bytes (root ++ '/' :: r)) = bytes root :: (r.splitOn '/').map bytes := by
    intro r hr
    rw [levels_bytes (hroot.ascii.append (hr.cons (by decide))), List.splitOn_append_cons_self,
      List.splitOn_eq_singleton hroot.slash]
    rfl
  constructor
  · rw [Mqtt.Hidden, Mqtt.Hidden, bytes_append, bytes_append, List.head?_append, List.head?_append]
    exact Iff.rfl
  · rw [first rest h]
    have filter : Mqtt.levels (bytes (root ++ "/#".toList)) = [bytes root, Mqtt.hash] :=
      first "#".toList (by simp [Ascii])
    rw [filter]
    exact .inr ⟨.inl rfl, Mqtt.covers_hash _⟩

/-- The topic of a sample. -/
lemma topic_of_sample (root host : Text) (m : Metrics) (qos : ℤ) (id : Nat) (tmpstr : Text) :
    (m.message (dataTopicOf root host) qos id tmpstr).topic =
      root ++ '/' :: (host ++ '/' :: device m.type id) := by
  rw [message_topic, topicTmp, dataTopicOf, List.append_assoc]
  rfl

/-- What follows the root in it. -/
lemma ascii_below (hhost : Level host) (m : Metrics) (id : Nat) : Ascii (host ++ '/' :: device m.type id) :=
  hhost.ascii.append ((ascii_device m id).cons (by decide))

/-- The collector makes the point of a sample of the publication that carries its message. -/
lemma sendToDB_delivered (hroot : Level root) (hhost : Level host) {qos : ℤ} {id : Nat}
    {sample : Metrics × Timeval}
    (carries : Carries p (sample.1.message (dataTopicOf root host) qos id (getTimestamp sample.2))) :
    sendToDB (delivered p).topic (delivered p).payload = .ok [storedPoint host id sample] := by
  have ascii := hroot.ascii.append ((ascii_below hhost sample.1 id).cons (c := '/') (by decide))
  have topic := topic_of_sample root host sample.1 qos id (getTimestamp sample.2)
  rw [delivered, carries.topic, carries.payload, topic, text_bytes ascii, text_bytes (ascii_payload _ _ _ _ _),
    ← topic]
  exact sendToDB_two_levels (splitOn_dataTopic hroot.slash hhost.slash) qos id sample.2 sample.1

/-- And that is what the broker has for it. -/
lemma reaches (hroot : Level root) (hhost : Level host) {qos : ℤ} {id : Nat} {sample : Metrics × Timeval}
    (carries : Carries p (sample.1.message (dataTopicOf root host) qos id (getTimestamp sample.2))) :
    Reaches root p (storedPoint host id sample) := by
  intro κ _ upgrade requests c q subscribed
  have topic : p.topic = bytes (root ++ '/' :: (host ++ '/' :: device sample.1.type id)) := by
    rw [carries.topic, topic_of_sample]
  have some_topic : p.topic ≠ [] := by
    rw [topic, bytes_append]
    exact List.append_ne_nil_of_right_ne_nil _ (List.cons_ne_nil _ _)
  have whole : Mqtt.cBytes p.topic = p.topic := by
    rw [topic]
    exact cBytes_bytes (hroot.ascii.append ((ascii_below hhost sample.1 id).cons (by decide)))
  have read : p.read = p := by rw [Mqtt.Publish.read, whole]
  obtain ⟨found, -, who, sent⟩ := (Mqtt.shows_serveAll upgrade requests).routed upgrade carries.plain
  have is_found : (bytes (root ++ "/#".toList), c, q) ∈ found := by
    apply (who _ c q).mpr
    refine ⟨subscribed, ?_⟩
    rw [topic]
    exact matches_below hroot (ascii_below hhost sample.1 id)
  have plain := Mqtt.serve_plain upgrade (Mqtt.serveAll upgrade Mqtt.dbOpen requests)
    (whole.symm ▸ some_topic) (whole.symm ▸ carries.plain)
  rw [plain, read, sent]
  refine ⟨_, List.mem_map_of_mem is_found, rfl, fun accepts store => ?_⟩
  dsimp only
  rw [mqttOnMessage, sendToDB_delivered hroot hhost carries]
  rfl

/-- The collector over publications of which it makes one point each. -/
lemma collect_delivered {ps : List Mqtt.Publish} {pts : List Point}
    (h : List.Forall₂ (fun p pt => sendToDB (delivered p).topic (delivered p).payload = .ok [pt]) ps pts)
    (accepts : List Point → Bool) (store : List Point) :
    collect accepts (ps.map delivered) store = .ok (store ++ pts.filter fun pt => accepts [pt]) := by
  induction h generalizing store with
  | nil =>
    rw [List.filter_nil, List.append_nil]
    rfl
  | @cons p pt ps pts decoded _ ih =>
    have one : mqttOnMessage (some accepts) (delivered p).topic (delivered p).payload store =
        .ok (if accepts [pt] then store ++ [pt] else store) := by
      rw [mqttOnMessage, decoded]
      rfl
    rw [List.map_cons, collect, List.foldlM_cons, one]
    refine (ih _).trans ?_
    by_cases taken : accepts [pt] = true
    · rw [if_pos taken, List.filter_cons, if_pos taken, List.append_assoc]
      rfl
    · rw [if_neg taken, List.filter_cons, if_neg taken]

end Reaches

/-! ## Whole runs -/

/-- `pt` is the point of the sample that `msg` reports. -/
def PointOf (root host : Text) (qos : ℤ) (msg : Message) (pt : Point) : Prop :=
  ∃ id, ∃ sample : Metrics × Timeval,
    msg = sample.1.message (dataTopicOf root host) qos id (getTimestamp sample.2) ∧
      pt = storedPoint host id sample

/-- The publication carries the message, and reaches the collector as the point of its sample. -/
def Arrives (root host : Text) (qos : ℤ) (p : Mqtt.Publish) (msg : Message) : Prop :=
  Carries p msg ∧ ∃ pt, PointOf root host qos msg pt ∧ Reaches root p pt

section Whole
variable {root host topic : Text} {es : List NodeEvent} {qos : ℤ}

/-- Publications that carry messages of samples arrive. -/
lemma arrives_of_carries (hroot : Level root) (hhost : Level host) {accepted : List Mqtt.Publish}
    {msgs : List Message} (samples : ∀ msg ∈ msgs, Sample (dataTopicOf root host) qos msg)
    (h : List.Forall₂ Carries accepted msgs) : List.Forall₂ (Arrives root host qos) accepted msgs := by
  induction h with
  | nil => exact .nil
  | cons carries _ ih =>
    obtain ⟨first, rest⟩ := List.forall_mem_cons.mp samples
    obtain ⟨id, sample, rfl⟩ := first
    exact .cons ⟨carries, _, ⟨id, sample, rfl, rfl⟩, reaches hroot hhost carries⟩ (ih rest)

/-- The points of publications that carry messages of samples. -/
lemma exists_points (hroot : Level root) (hhost : Level host) {ps : List Mqtt.Publish} {msgs : List Message}
    (h : ∀ p ∈ ps, ∃ msg ∈ msgs, Sample (dataTopicOf root host) qos msg ∧ Carries p msg) :
    ∃ pts, List.Forall₂ (fun p pt => sendToDB (delivered p).topic (delivered p).payload = .ok [pt]) ps pts ∧
      ∀ pt ∈ pts, ∃ msg ∈ msgs, PointOf root host qos msg pt := by
  induction ps with
  | nil => exact ⟨[], .nil, List.forall_mem_nil _⟩
  | cons p ps ih =>
    obtain ⟨first, rest⟩ := List.forall_mem_cons.mp h
    obtain ⟨pts, decoded, points⟩ := ih rest
    obtain ⟨msg, hmsg, ⟨id, sample, rfl⟩, carries⟩ := first
    refine ⟨storedPoint host id sample :: pts, .cons (sendToDB_delivered hroot hhost carries) decoded, ?_⟩
    exact List.forall_mem_cons.mpr ⟨⟨_, hmsg, id, sample, rfl, rfl⟩, points⟩

/-- What the daemon publishes in a run, and what the library accepts of it. -/
lemma run_arrives (n : Node) (hroot : Level root) (hhost : Level host)
    (ht : n.daemon.sysd.topic = dataTopicOf root host) (hq : n.daemon.sysd.qos = qos)
    (range : 0 < qos ∧ qos ≤ 2) (hp : n.pending = []) (own : ∀ e ∈ es, e.Own) :
    ∃ published, n.allSampled es = published ++ (n.run es).pending ∧
      List.Forall₂ (Arrives root host qos) (Mqtt.accepted n.link (n.allEvents es))
        (published.filter (¬ Refused ·)) := by
  have samples : ∀ msg ∈ n.pending ++ n.allSampled es, Sample (dataTopicOf root host) qos msg := by
    rw [hp]
    exact allSampled_sample own ht hq
  obtain ⟨published, split, carried⟩ := run_published samples range own
  rw [hp, List.nil_append] at samples split
  refine ⟨published, split, arrives_of_carries hroot hhost (fun msg hmsg => samples msg ?_) carried⟩
  rw [split]
  exact List.mem_append_left _ (List.mem_of_mem_filter hmsg)

/-- What the library accepts with quality of service 1 is kept or handed to the subscribers, and nothing else
is handed to them. -/
lemma run_delivers (n : Node) (samples : ∀ msg ∈ n.pending ++ n.allSampled es, Sample topic 1 msg)
    (link : n.link = .start) (own : ∀ e ∈ es, e.Own) (fresh : Mqtt.Fresh .start (n.allEvents es)) :
    (∀ p ∈ Mqtt.accepted n.link (n.allEvents es), (∃ x ∈ (n.run es).link.client.outMessages, x.core = p) ∨
      p ∈ (n.run es).link.context.handed) ∧
    ∀ p ∈ (n.run es).link.context.handed, p ∈ Mqtt.accepted n.link (n.allEvents es) := by
  have once : ∀ e ∈ n.allEvents es, e.Simple ∧ e.Asks := by
    intro e he
    rcases event_cases samples e he with ⟨_, he, rfl⟩ | ⟨now, msg, sample, rfl⟩
    · have quiet := own _ he
      cases e with
      | publish now topic payload qos retain => exact absurd rfl (quiet now topic payload qos retain)
      | _ => exact ⟨trivial, trivial⟩
    · have one : msg.qos = 1 := sample.qos_eq
      exact ⟨one.le, by rw [publishCall, Mqtt.Event.Asks, one]; exact one_ne_zero⟩
  have simple : ∀ e ∈ n.allEvents es, e.Simple := fun e he => (once e he).1
  have sound := (Mqtt.sound_run Mqtt.sound_start simple fresh).1
  have asks := Mqtt.asks_run Mqtt.asks_start Mqtt.sound_start simple (fun e he => (once e he).2) fresh
  rw [List.nil_append] at sound
  rw [Node.run_link, link]
  exact ⟨sound.safe, fun p hp => (sound.handed p hp).resolve_left (asks.handed p hp).ne'⟩

/-- With quality of service 1: the messages of the ticks fit `topic_tmp` and are published in their order;
each one that is not refused becomes a publication that the library keeps or the broker has handed to the
subscribers, where it is the point of its sample for the collector; and nothing else is handed to them. -/
theorem samples_arrive (root host : Text) (hroot : Level root) (hhost : Level host) (s : SysData)
    (room : ShortTopic s.ncpu s.ncore (dataTopicOf root host)) (broker : Option (Text × ℤ)) (qos : s.qos = 1)
    (es : List NodeEvent) (own : ∀ e ∈ es, e.Own)
    (fresh : Mqtt.Fresh .start ((Node.start root host s broker).allEvents es)) :
    let start := Node.start root host s broker
    let n := start.run es
    (∀ msg ∈ start.allSampled es, msg.Fits) ∧
    ∃ published accepted, start.allSampled es = published ++ n.pending ∧
      List.Forall₂ (Arrives root host 1) accepted (published.filter (¬ Refused ·)) ∧
      (∀ p ∈ accepted, (∃ x ∈ n.link.client.outMessages, x.core = p) ∨ p ∈ n.link.context.handed) ∧
      ∀ p ∈ n.link.context.handed, p ∈ accepted := by
  intro start n
  have samples : ∀ msg ∈ start.pending ++ start.allSampled es, Sample (dataTopicOf root host) 1 msg :=
    allSampled_sample own rfl qos
  obtain ⟨published, split, arrive⟩ := run_arrives start hroot hhost rfl qos (by decide) rfl own
  obtain ⟨kept, handed⟩ := run_delivers start samples rfl own fresh
  exact ⟨allSampled_fit own room, published, _, split, arrive, kept, handed⟩

/-- A tick of two messages: the broker has handed on the first, the second waits for it. -/
def firstTick : List NodeEvent :=
  [.daemon (.tick default), .network (.reconnect true), .network .connect, .publish 0, .network (.take 0),
    .publish 1]

/-- There are no commands in it. -/
lemma firstTick_own : ∀ e ∈ firstTick, e.Own := by
  simp [firstTick, NodeEvent.Own, Event.payload]

theorem samples_arrive_first :
    let start := Node.start "xd".toList "node7".toList { oneCore with qos := 1 } none
    (∀ msg ∈ start.allSampled firstTick, msg.Fits) ∧
    ∃ published accepted, start.allSampled firstTick = published ++ (start.run firstTick).pending ∧
      List.Forall₂ (Arrives "xd".toList "node7".toList 1) accepted (published.filter (¬ Refused ·)) ∧
      (∀ p ∈ accepted, (∃ x ∈ (start.run firstTick).link.client.outMessages, x.core = p) ∨
        p ∈ (start.run firstTick).link.context.handed) ∧
      ∀ p ∈ (start.run firstTick).link.context.handed, p ∈ accepted := by
  intro start
  exact samples_arrive _ _ ⟨by decide, by simp [Ascii]⟩ ⟨by decide, by simp [Ascii]⟩ _
    ⟨by decide +kernel, by decide +kernel⟩ none rfl firstTick firstTick_own (by decide +kernel)

/-- With quality of service 1, a collector that is sent what is handed to the subscribers gets through all of
it. What its database then has been given are points of samples, and of each message that has been published
and not refused it has the point, or the library still keeps the message. -/
theorem samples_stored (root host : Text) (hroot : Level root) (hhost : Level host) (s : SysData)
    (room : ShortTopic s.ncpu s.ncore (dataTopicOf root host)) (broker : Option (Text × ℤ)) (qos : s.qos = 1)
    (es : List NodeEvent) (own : ∀ e ∈ es, e.Own)
    (fresh : Mqtt.Fresh .start ((Node.start root host s broker).allEvents es))
    (accepts : List Point → Bool) (store : List Point) :
    let start := Node.start root host s broker
    let n := start.run es
    (∀ msg ∈ start.allSampled es, msg.Fits) ∧
    ∃ (published : List Message) (pts : List Point), start.allSampled es = published ++ n.pending ∧
      collect accepts (n.link.context.handed.map delivered) store =
        .ok (store ++ pts.filter fun pt => accepts [pt]) ∧
      (∀ pt ∈ pts, ∃ msg ∈ published, PointOf root host 1 msg pt) ∧
      ∀ msg ∈ published, ¬ Refused msg →
        (∃ x ∈ n.link.client.outMessages, Carries x.core msg) ∨ ∃ pt ∈ pts, PointOf root host 1 msg pt := by
  intro start n
  have samples : ∀ msg ∈ start.pending ++ start.allSampled es, Sample (dataTopicOf root host) 1 msg :=
    allSampled_sample own rfl qos
  obtain ⟨published, split, carried⟩ := run_published samples (by decide) own
  obtain ⟨kept, handed⟩ := run_delivers start samples rfl own fresh
  obtain ⟨of_accepted, of_published⟩ := (Mqtt.mem_of_forall₂ carried).symm
  have sample : ∀ msg ∈ published, Sample (dataTopicOf root host) 1 msg := by
    intro msg hmsg
    refine samples msg ?_
    rw [split]
    exact List.mem_append_left _ hmsg
  have origin : ∀ p ∈ n.link.context.handed,
      ∃ msg ∈ published, Sample (dataTopicOf root host) 1 msg ∧ Carries p msg := by
    intro p hp
    obtain ⟨msg, hmsg, carries⟩ := of_accepted p (handed p hp)
    have inside := List.mem_of_mem_filter hmsg
    exact ⟨msg, inside, sample msg inside, carries⟩
  obtain ⟨pts, decoded, points⟩ := exists_points hroot hhost origin
  refine ⟨allSampled_fit own room, published, pts, split, collect_delivered decoded accepts store, points,
    fun msg hmsg taken => ?_⟩
  obtain ⟨p, hp, carries⟩ := of_published msg (List.mem_filter.mpr ⟨hmsg, decide_eq_true taken⟩)
  rcases kept p hp with ⟨x, hx, rfl⟩ | there
  · exact .inl ⟨x, hx, carries⟩
  · obtain ⟨pt, hpt, e⟩ := (Mqtt.mem_of_forall₂ decoded).2 p there
    obtain ⟨id, sample, rfl⟩ := sample msg hmsg
    have own_point := sendToDB_delivered hroot hhost carries
    rw [e] at own_point
    obtain rfl : pt = storedPoint host id sample := by simpa using own_point
    exact .inr ⟨_, hpt, id, sample, rfl, rfl⟩

/-- The same tick, and a database that takes every point. -/
theorem samples_stored_first :
    let start := Node.start "xd".toList "node7".toList { oneCore with qos := 1 } none
    (∀ msg ∈ start.allSampled firstTick, msg.Fits) ∧
    ∃ (published : List Message) (pts : List Point),
      start.allSampled firstTick = published ++ (start.run firstTick).pending ∧
      collect (fun _ => true) ((start.run firstTick).link.context.handed.map delivered) [] =
        .ok ([] ++ pts.filter fun _ => true) ∧
      (∀ pt ∈ pts, ∃ msg ∈ published, PointOf "xd".toList "node7".toList 1 msg pt) ∧
      ∀ msg ∈ published, ¬ Refused msg →
        (∃ x ∈ (start.run firstTick).link.client.outMessages, Carries x.core msg) ∨
        ∃ pt ∈ pts, PointOf "xd".toList "node7".toList 1 msg pt := by
  intro start
  exact samples_stored _ _ ⟨by decide, by simp [Ascii]⟩ ⟨by decide, by simp [Ascii]⟩ _
    ⟨by decide +kernel, by decide +kernel⟩ none rfl firstTick firstTick_own (by decide +kernel) _ _

/-- With quality of service 2, on the first connection: each message that is published and not refused has
been handed to the subscribers once, or not yet, and then it is kept. -/
theorem samples_arrive_once (root host : Text) (hroot : Level root) (hhost : Level host) (s : SysData)
    (room : ShortTopic s.ncpu s.ncore (dataTopicOf root host)) (broker : Option (Text × ℤ)) (qos : s.qos = 2)
    (es : List NodeEvent) (own : ∀ e ∈ es, e.Own)
    (single : ∀ succeeds, .network (.reconnect succeeds) ∉ es)
    (fresh : Mqtt.Fresh .connected
      (((Node.start root host s broker).step (.network (.reconnect true))).allEvents es)) :
    let start := (Node.start root host s broker).step (.network (.reconnect true))
    let n := start.run es
    (∀ msg ∈ start.allSampled es, msg.Fits) ∧
    ∃ published accepted waiting, start.allSampled es = published ++ n.pending ∧
      List.Forall₂ (Arrives root host 2) accepted (published.filter (¬ Refused ·)) ∧
      waiting.Sublist (n.link.client.outMessages.map Mqtt.OutMessage.core) ∧
      (n.link.context.handed ++ waiting).Perm accepted := by
  intro start n
  have samples : ∀ msg ∈ start.pending ++ start.allSampled es, Sample (dataTopicOf root host) 2 msg :=
    allSampled_sample own rfl qos
  have twice : ∀ e ∈ start.allEvents es, e.Twice := by
    intro e he
    rcases event_cases samples e he with ⟨_, he, rfl⟩ | ⟨now, msg, sample, rfl⟩
    · have quiet := own _ he
      cases e with
      | publish now topic payload qos retain => exact absurd rfl (quiet now topic payload qos retain)
      | reconnect succeeds => exact absurd he (single succeeds)
      | _ => trivial
    · exact sample.qos_eq
  obtain ⟨published, split, arrive⟩ := run_arrives start hroot hhost rfl qos (by decide) rfl own
  have link : n.link = Mqtt.System.connected.run (start.allEvents es) := Node.run_link start es
  have exactly := (Mqtt.exact_run Mqtt.exact_connected twice fresh).all
  rw [List.nil_append, ← link] at exactly
  exact ⟨allSampled_fit own room, published, _, _, split, arrive, List.Sublist.map _ List.filter_sublist,
    exactly⟩

/-- The first of two messages is sent twice and released. -/
theorem samples_arrive_once_retry :
    let es : List NodeEvent := [.network .connect, .daemon (.tick default), .publish 0, .network (.retry 30),
      .network (.take 30), .network (.take 30), .network (.answer 31), .network (.take 31), .publish 33]
    let start := (Node.start "xd".toList "node7".toList { oneCore with qos := 2 } none).step
      (.network (.reconnect true))
    (∀ msg ∈ start.allSampled es, msg.Fits) ∧
    ∃ published accepted waiting, start.allSampled es = published ++ (start.run es).pending ∧
      List.Forall₂ (Arrives "xd".toList "node7".toList 2) accepted (published.filter (¬ Refused ·)) ∧
      waiting.Sublist ((start.run es).link.client.outMessages.map Mqtt.OutMessage.core) ∧
      ((start.run es).link.context.handed ++ waiting).Perm accepted := by
  intro es start
  have own : ∀ e ∈ es, e.Own := by
    simp [es, NodeEvent.Own, Event.payload]
  have single : ∀ succeeds, .network (.reconnect succeeds) ∉ es := by
    simp [es]
  exact samples_arrive_once _ _ ⟨by decide, by simp [Ascii]⟩ ⟨by decide, by simp [Ascii]⟩ _
    ⟨by decide +kernel, by decide +kernel⟩ none rfl es own single (by decide +kernel)

end Whole

end Powmon.System
