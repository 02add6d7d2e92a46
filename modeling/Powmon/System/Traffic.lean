import Powmon.System.Attribution

/-!
# Traffic at the collector

The collector subscribes to `root/#`, which delivers the data of the daemons and also the commands
sent to their command topics `root/hostname/`. `sendToDB` reads the last payload item as a timestamp
before it looks at the device, and outside its `try`.

* `Traffic`: what the system sends, each message with where it comes from;
* `collect`: the collector over a sequence of messages, until an exception is not caught;
* `collector_survives_iff`: a sequence is processed to its end, no point written for a command, and no
  daemon has written beside an array, exactly if each message is harmless: a command whose last item is a
  finite number, data of a daemon whose strings are short, under a topic of two levels or more.
-/

namespace Powmon.System
open Lib Monitor Collector

/-! ## Messages of the system -/

/-- A message and its origin. -/
inductive Traffic where
  /-- `msg`, published in tick `t` by the daemon on `host`, started in state `s` and after `evs`. -/
  | data (host : Text) (s : SysData) (broker : Option (Text × ℤ)) (evs : List Event) (t : Tick)
    (msg : Message)
  /-- A command to the daemon on `host`. -/
  | command (host payload : Text) (qos : ℤ)

/-- The message itself, in a system with the topic root `root`. -/
def Traffic.message (root : Text) : Traffic → Message
  | .data _ _ _ _ _ msg => msg
  | .command host payload qos => ⟨cmdTopicOf root host, payload, qos⟩

/-- The subscription `root/#` of a single-level root: the topics whose first level is the root. -/
def Subscribed (root topic : Text) : Prop := (topic.splitOn '/').head? = some root

/-- What the system sends to the collector: data messages that daemons publish, that the library does not
refuse and that the subscription delivers, and the commands `-s`, `-b` and `-t`, with any arguments, to a
hostname. -/
def Traffic.Sent (root : Text) : Traffic → Prop
  | .data host s broker evs t msg =>
    msg ∈ (sampHandler t ((started root host s broker).run evs).sysd).out ∧
      ¬ TopicRefused msg.qos msg.topic ∧ Subscribed root msg.topic
  | .command host payload _ =>
    '/' ∉ host ∧ (isOption "-s" payload ∨ isOption "-b" payload ∨ isOption "-t" payload)

def Traffic.IsCommand : Traffic → Prop
  | .data .. => False
  | .command .. => True

/-- The text after the last `;` is, for Python, the literal of a finite number. -/
def EndsInNumber (payload : Text) : Prop :=
  ∃ s neg x, (payload.splitOn ';').getLast? = some s ∧ pyFloat s = .ok (.fin neg x)

/-- The daemon that has published the message has stayed within its arrays, the last tick included. -/
def Traffic.InBounds (root : Text) : Traffic → Prop
  | .data host s broker evs t _ => (started root host s broker).InBounds (evs ++ [.tick t])
  | .command .. => True

/-- The condition on a message: a command ends in a number; the strings of the daemon are short, and it
publishes under a topic of two levels or more. -/
def Traffic.Harmless (root : Text) : Traffic → Prop
  | .data host s _ evs t _ =>
    ShortRun s.ncpu s.ncore (dataTopicOf root host) (evs ++ [.tick t]) ∧
      2 ≤ ((topicInForce (dataTopicOf root host) evs).splitOn '/').length
  | .command _ payload _ => EndsInNumber payload

/-! ## The collector -/

/-- `mqttOnMessage`, with a database connection, on one message after the other. An exception that is
not caught ends the collector. -/
def collect (accepts : List Point → Bool) (msgs : List Message) (store : List Point) :
    Except PyExc (List Point) :=
  msgs.foldlM (fun store msg => mqttOnMessage (some accepts) msg.topic msg.payload store) store

/-- The collector gets through a sequence exactly if `sendToDB` gets through each message. -/
lemma collect_ok_iff (accepts : List Point → Bool) (msgs : List Message) (store : List Point) :
    (∃ store', collect accepts msgs store = .ok store') ↔
      ∀ msg ∈ msgs, ∃ body, sendToDB msg.topic msg.payload = .ok body := by
  induction msgs generalizing store with
  | nil => exact ⟨fun _ => nofun, fun _ => ⟨store, rfl⟩⟩
  | cons msg msgs ih =>
    rw [List.forall_mem_cons, collect, List.foldlM_cons]
    -- what the database holds has no part in what `sendToDB` does
    cases h : sendToDB msg.topic msg.payload with
    | error e =>
      have hm : mqttOnMessage (some accepts) msg.topic msg.payload store = .error e := by
        rw [mqttOnMessage, h]
        rfl
      rw [hm]
      constructor
      · rintro ⟨store', ⟨⟩⟩
      · rintro ⟨⟨body, ⟨⟩⟩, -⟩
    | ok body =>
      have hm : mqttOnMessage (some accepts) msg.topic msg.payload store =
          .ok (if accepts body then store ++ body else store) := by
        rw [mqttOnMessage, h]
        rfl
      rw [hm]
      have rest := ih (if accepts body then store ++ body else store)
      exact ⟨fun h => ⟨⟨body, rfl⟩, rest.mp h⟩, fun h => rest.mpr h.2⟩

/-! ## One message -/

lemma splitOn_cmdTopic {root host : Text} (hroot : '/' ∉ root) (hhost : '/' ∉ host) :
    (cmdTopicOf root host).splitOn '/' = [root, host, []] := by
  rw [cmdTopicOf, List.splitOn_append_cons_self, List.splitOn_append_cons_self,
    List.splitOn_eq_singleton hroot, List.splitOn_eq_singleton hhost]
  rfl

/-- A command is taken for a message of the device with the empty name: nothing is stored, and the
only thing that can go wrong is its last item. -/
lemma sendToDB_command {root host : Text} (hroot : '/' ∉ root) (hhost : '/' ∉ host)
    (payload : Text) :
    (EndsInNumber payload ∧ sendToDB (cmdTopicOf root host) payload = .ok []) ∨
    (¬ EndsInNumber payload ∧ ∃ e, sendToDB (cmdTopicOf root host) payload = .error e) := by
  obtain ⟨s, hs⟩ : ∃ s, (payload.splitOn ';').getLast? = some s :=
    ⟨_, List.getLast?_eq_some_getLast (List.splitOn_ne_nil ';' payload)⟩
  have last : lastItem (payload.splitOn ';') = .ok s := by rw [lastItem, hs]
  have e : sendToDB (cmdTopicOf root host) payload =
      (pyFloat s >>= fun x => truncInt x >>= fun _ => .ok []) := by
    rw [sendToDB, splitOn_cmdTopic hroot hhost, last]
    rfl
  have ends : ∀ x, pyFloat s = .ok x → (EndsInNumber payload ↔ ∃ neg y, x = .fin neg y) := by
    intro x hx
    constructor
    · rintro ⟨s', neg, y, hs', hy⟩
      obtain rfl : s' = s := Option.some.inj (hs'.symm.trans hs)
      exact ⟨neg, y, Except.ok.inj (hx.symm.trans hy)⟩
    · rintro ⟨neg, y, rfl⟩
      exact ⟨s, neg, y, hs, hx⟩
  cases hx : pyFloat s with
  | error ex =>
    refine .inr ⟨?_, ex, by rw [e, hx]; rfl⟩
    rintro ⟨s', neg, y, hs', hy⟩
    obtain rfl : s' = s := Option.some.inj (hs'.symm.trans hs)
    cases hx.symm.trans hy
  | ok x =>
    rw [ends x hx, e, hx]
    cases x with
    | nan neg =>
      refine .inr ⟨?_, .valueError, rfl⟩
      rintro ⟨_, _, ⟨⟩⟩
    | inf neg =>
      refine .inr ⟨?_, .overflowError, rfl⟩
      rintro ⟨_, _, ⟨⟩⟩
    | fin neg y => exact .inl ⟨⟨neg, y, rfl⟩, rfl⟩

/-- A field table whose items are there and convert is readable. -/
lemma readFields_total {y : List Text} {table : List (Text × Nat × Conv)}
    (h : ∀ f ∈ table, ∃ s v, y[f.2.1]? = some s ∧ f.2.2.apply s = .ok v) :
    ∃ vs, readFields y table = .ok vs := by
  induction table with
  | nil => exact ⟨[], rfl⟩
  | cons f table ih =>
    obtain ⟨s, v, hi, hv⟩ := h f List.mem_cons_self
    obtain ⟨vs, hr⟩ := ih fun f hf => h f (List.mem_cons_of_mem _ hf)
    exact ⟨_, readFields_cons hi hv hr⟩

/-- Every item of a message is a float literal. -/
lemma item_float (tv : Timeval) (m : Metrics) :
    ∀ s ∈ m.items (getTimestamp tv), ∃ v, Conv.apply .float s = .ok v := by
  have int : ∀ z : ℤ, ∃ v, Conv.apply .float (fmtInt z) = .ok v := by
    intro z
    obtain ⟨x, hx⟩ := pyFloat_fmtInt z
    exact ⟨.float x, by rw [Conv.apply, hx]; rfl⟩
  have fixed : ∀ x : Fl, ∃ v, Conv.apply .float (fmtFixed 2 x) = .ok v :=
    fun x => ⟨_, apply_float x⟩
  have stamp : ∃ v, Conv.apply .float (getTimestamp tv) = .ok v := by
    obtain ⟨N, -, e⟩ := getTimestamp_eq tv
    have hf : pyFloat (fixedDigits 3 N) = _ := @pyFloat_signed false 3 N (by norm_num)
    exact ⟨_, by rw [e, Conv.apply, hf]; rfl⟩
  intro s hs
  cases m with
  | cpu m =>
    simp only [Metrics.items, List.mem_cons, List.not_mem_nil, or_false] at hs
    rcases hs with rfl | rfl | rfl | rfl | rfl | rfl
    · exact int m.cpuTemp.toNat
    · exact fixed m.nomfreqMHz
    · exact fixed m.uclkMHz
    · exact fixed m.drampow
    · exact fixed m.pkgpow
    · exact stamp
  | core m =>
    simp only [Metrics.items, List.mem_cons, List.not_mem_nil, or_false] at hs
    rcases hs with rfl | rfl | rfl | rfl | rfl | rfl | rfl
    · exact int m.coreTemp.toInt
    · exact fixed m.cpi
    · exact fixed m.ips
    · exact fixed m.coreLoad
    · exact fixed m.mclkMHz
    · exact fixed m.rclkMHz
    · exact stamp

/-- Every table reads the first six items only, and an integer only from the first one. -/
lemma table_index : ∀ table ∈ [cpuFields, gpuFields, coreFields], ∀ f ∈ table,
    f.2.1 < 6 ∧ (f.2.2 = .int → f.2.1 = 0) := by
  decide

/-- So the printed items satisfy every table. -/
lemma items_readable (tv : Timeval) (m : Metrics) :
    ∀ table ∈ [cpuFields, gpuFields, coreFields],
      ∃ vs, readFields (m.items (getTimestamp tv)) table = .ok vs := by
  have first : ∃ z, (m.items (getTimestamp tv))[0]? = some (fmtInt z) := by
    cases m with
    | cpu m => exact ⟨m.cpuTemp.toNat, rfl⟩
    | core m => exact ⟨m.coreTemp.toInt, rfl⟩
  have len : 6 ≤ (m.items (getTimestamp tv)).length := by cases m <;> simp [Metrics.items]
  intro table ht
  apply readFields_total
  intro f hf
  obtain ⟨hi, h0⟩ := table_index table ht f hf
  cases hc : f.2.2 with
  | int =>
    obtain ⟨z, hz⟩ := first
    rw [h0 hc]
    exact ⟨_, _, hz, apply_int z⟩
  | float =>
    have hlt : f.2.1 < (m.items (getTimestamp tv)).length := lt_of_lt_of_le hi len
    obtain ⟨v, hv⟩ := item_float tv m _ (List.getElem_mem hlt)
    exact ⟨_, v, List.getElem?_eq_getElem hlt, hv⟩

/-- A data message is decoded under any topic of two levels or more, if maybe as something else. -/
lemma sendToDB_data_iff (topic : Text) (qos : ℤ) (id : Nat) (tv : Timeval) (m : Metrics) :
    let msg := m.message topic qos id (getTimestamp tv)
    (∃ body, sendToDB msg.topic msg.payload = .ok body) ↔ 2 ≤ (topic.splitOn '/').length := by
  intro msg
  match e : topic.splitOn '/' with
  | [] => exact absurd e (List.splitOn_ne_nil '/' topic)
  | [a] =>
    rw [sendToDB_one_level e]
    simp
  | a :: b :: r =>
    rw [sendToDB_levels e]
    have total := jsonBody_total (items_readable tv m)
    exact ⟨fun _ => by simp, fun _ => total _ _ _⟩

/-- One message of the system: `sendToDB` gets through it, and the daemon through its run, exactly if it
is harmless. -/
lemma sent_ok_iff {root : Text} (hroot : '/' ∉ root) {tr : Traffic} (h : tr.Sent root) :
    (tr.InBounds root ∧
      ∃ body, sendToDB (tr.message root).topic (tr.message root).payload = .ok body) ↔
      tr.Harmless root := by
  cases tr with
  | data host s broker evs t msg =>
    obtain ⟨m, id, e⟩ := sampHandler_messages h.1
    have topic : ((started root host s broker).run evs).sysd.topic =
        topicInForce (dataTopicOf root host) evs := run_topic evs _
    have decoded := sendToDB_data_iff ((started root host s broker).run evs).sysd.topic
      ((started root host s broker).run evs).sysd.qos id t.tv m
    rw [← e, topic] at decoded
    exact and_congr (inBounds_iff (started root host s broker) _) decoded
  | command host payload qos =>
    refine (and_iff_right trivial).trans ?_
    rcases sendToDB_command hroot h.1 payload with ⟨hf, e⟩ | ⟨hf, ex, e⟩
    · exact ⟨fun _ => hf, fun _ => ⟨[], e⟩⟩
    · refine ⟨?_, fun hf' => absurd hf' hf⟩
      rintro ⟨body, e'⟩
      cases e.symm.trans e'

/-- For every sequence of messages the system sends to the collector's subscription: no daemon has
written beside an array, and the collector processes all messages without an uncaught exception and
writes no point for a command, exactly if each command ends in a number and all data are published by
daemons with short strings under a topic of two levels or more. -/
theorem collector_survives_iff (root : Text) (hroot : '/' ∉ root) (accepts : List Point → Bool)
    (store : List Point) (trs : List Traffic) (hsent : ∀ tr ∈ trs, tr.Sent root) :
    ((∀ tr ∈ trs, tr.InBounds root) ∧
      (∃ store', collect accepts (trs.map (Traffic.message root)) store = .ok store') ∧
      ∀ tr ∈ trs, tr.IsCommand →
        sendToDB (tr.message root).topic (tr.message root).payload = .ok []) ↔
    ∀ tr ∈ trs, tr.Harmless root := by
  rw [collect_ok_iff, List.forall_mem_map]
  constructor
  · rintro ⟨bounds, ok, -⟩ tr htr
    exact (sent_ok_iff hroot (hsent tr htr)).mp ⟨bounds tr htr, ok tr htr⟩
  · intro harmless
    have each : ∀ tr ∈ trs, _ := fun tr htr => (sent_ok_iff hroot (hsent tr htr)).mpr (harmless tr htr)
    refine ⟨fun tr htr => (each tr htr).1, fun tr htr => (each tr htr).2, ?_⟩
    intro tr htr hc
    have hs := hsent tr htr
    have hh := harmless tr htr
    cases tr with
    | data => cases hc
    | command host payload qos =>
      rcases sendToDB_command hroot hs.1 payload with ⟨-, e⟩ | ⟨hf, -⟩
      · exact e
      · exact absurd hh hf

/-- A message on which `sendToDB` raises ends the collector. -/
lemma collect_error {msg : Message} {e : PyExc} (h : sendToDB msg.topic msg.payload = .error e)
    (accepts : List Point → Bool) (msgs : List Message) (store : List Point) :
    collect accepts (msg :: msgs) store = .error e := by
  rw [collect, List.foldlM_cons, mqttOnMessage, h]
  rfl

/-- A new sampling interval for one node. -/
def setInterval : Traffic := .command "node7".toList "-s 0.5".toList 0

/-- A daemon that was told to publish under the bare root. -/
def rootTopic : Daemon :=
  (started "xd".toList "node7".toList oneCore none).run [received "-t xd"]

lemma rootTopic_levels : rootTopic.sysd.topic.splitOn '/' = ["xd".toList] := by decide +kernel

/-- Both ways a message of the system ends the collector: `float("-s 0.5")` of a command, and `x[2]`
of a topic without a third level. -/
theorem collector_killed :
    (setInterval.Sent "xd".toList ∧
      Subscribed "xd".toList (setInterval.message "xd".toList).topic ∧
      ∀ accepts store,
        collect accepts [setInterval.message "xd".toList] store = .error .valueError) ∧
    ∀ t, ∀ msg ∈ (sampHandler t rootTopic.sysd).out,
      (¬ TopicRefused msg.qos msg.topic ∧ Subscribed "xd".toList msg.topic) ∧
      ∀ accepts store, collect accepts [msg] store = .error .indexError := by
  refine ⟨⟨⟨by decide, .inl (by decide)⟩, ?_, ?_⟩, ?_⟩
  · show ((cmdTopicOf "xd".toList "node7".toList).splitOn '/').head? = _
    rw [splitOn_cmdTopic (by decide) (by decide)]
    rfl
  · have e : sendToDB "xd/node7/".toList "-s 0.5".toList = .error .valueError := by decide +kernel
    exact fun accepts store => collect_error e accepts [] store
  · intro t msg hmsg
    have fits := (messages_fit_iff t rootTopic.sysd).mpr ⟨by decide +kernel, by decide +kernel⟩ msg hmsg
    obtain ⟨m, id, rfl⟩ := sampHandler_messages hmsg
    refine ⟨⟨?_, ?_⟩, ?_⟩
    · rw [message_refused_iff fits]
      decide +kernel
    · rw [Subscribed, splitOn_topic, rootTopic_levels]
      rfl
    · exact fun accepts store =>
        collect_error (sendToDB_one_level rootTopic_levels _ id t.tv m) accepts [] store

/-- A command that ends in a number, followed by a tick's worth of data. -/
def numberedTraffic : List Traffic :=
  .command "node7".toList "-s 0.5;1".toList 0 ::
    (sampHandler default (started "xd".toList "node7".toList oneCore none).sysd).out.map
      (Traffic.data "node7".toList oneCore none [] default)

lemma numberedTraffic_cases {P : Traffic → Prop}
    (hc : P (.command "node7".toList "-s 0.5;1".toList 0))
    (hd : ∀ msg ∈ (sampHandler default (started "xd".toList "node7".toList oneCore none).sysd).out,
      P (.data "node7".toList oneCore none [] default msg)) : ∀ tr ∈ numberedTraffic, P tr := by
  intro tr htr
  rcases List.mem_cons.mp htr with rfl | hm
  · exact hc
  · obtain ⟨msg, hmsg, rfl⟩ := List.mem_map.mp hm
    exact hd msg hmsg

/-- The collector gets through it. -/
theorem collector_survives_numbered :
    ∃ store', collect (fun _ => true) (numberedTraffic.map (Traffic.message "xd".toList)) [] =
      .ok store' := by
  have levels : (dataTopicOf "xd".toList "node7".toList).splitOn '/' =
      ["xd".toList, "node7".toList] := splitOn_dataTopic (by decide) (by decide)
  have short : ShortTopic 1 1 (dataTopicOf "xd".toList "node7".toList) :=
    ⟨by decide +kernel, by decide +kernel⟩
  refine ((collector_survives_iff "xd".toList (by decide) (fun _ => true) [] numberedTraffic
    (numberedTraffic_cases ⟨by decide, .inl (by decide)⟩ ?_)).mpr
    (numberedTraffic_cases ⟨"1".toList, false, 1, by decide +kernel, by decide +kernel⟩ ?_)).2.1
  · intro msg hmsg
    have fits := (messages_fit_iff default _).mpr short msg hmsg
    refine ⟨hmsg, ?_⟩
    obtain ⟨m, id, rfl⟩ := sampHandler_messages hmsg
    refine ⟨?_, ?_⟩
    · rw [message_refused_iff fits]
      decide +kernel
    · rw [Subscribed, splitOn_topic]
      show ((dataTopicOf "xd".toList "node7".toList).splitOn '/' ++ _).head? = _
      rw [levels]
      rfl
  · intro msg _
    refine ⟨shortRun_concat.mpr ⟨shortRun_nil, short⟩, ?_⟩
    show 2 ≤ ((dataTopicOf "xd".toList "node7".toList).splitOn '/').length
    rw [levels]
    decide

end Powmon.System
