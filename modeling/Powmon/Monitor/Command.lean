import Powmon.Lib.Scan
import Powmon.Monitor.Push

/-!
# Topics and remote commands

How `powmon/bin/pow_mon.c` comes by its topics: `main` appends the hostname to the configured root,
and `on_message_callback` handles the commands that arrive at the command topic. `-s` sets the
sampling interval, `-b` connects to another broker and `-t` replaces the topic that data are published
under.

C → Lean naming: `on_message_callback` → `onMessageCallback`; its locals `brokerHost`, `brokerPort`
and `buffer`, which `sscanf` leaves alone if their conversion fails, are `CmdLocals`, holding whatever
the stack held. `message->payload` is read as a C string. Whether `mosquitto_connect` succeeds is the
argument `connect`. The timer that `-s` restarts is not part of the state: its interval is `dT`. The
texts of the state are what the memory holds as long as nothing is written beside an array
(`BufWrite.Fits`).

A run is a list of events, commands and ticks in any order (`Daemon.run`). Its topic is a function of
the commands alone (`run_topic`): the argument of the last `-t`, or the start-up topic.
-/

namespace Powmon.Monitor
open Lib

/-! ## Topics at start-up -/

/-- `cmd_topic_string`. -/
def cmdTopicString : Text := []

/-- `sprintf(buffer, "%s/%s/%s", sysd_.topic, hostname, cmd_topic_string)`. -/
def cmdTopicOf (root hostname : Text) : Text :=
  root ++ '/' :: (hostname ++ '/' :: cmdTopicString)

/-- `sprintf(buffer, "%s/%s", sysd_.topic, hostname)`. -/
def dataTopicOf (root hostname : Text) : Text := root ++ '/' :: hostname

/-- The topics `main` sets, from the root the configuration or the command line gave. -/
def setTopics (root hostname : Text) (s : SysData) : SysData :=
  { s with cmdTopic := cmdTopicOf root hostname, topic := dataTopicOf root hostname }

/-! ## Commands -/

/-- The daemon's record and the broker it is connected to. -/
structure Daemon where
  sysd : SysData
  broker : Option (Text × ℤ)

/-- Locals of `on_message_callback` that `sscanf` may leave unassigned. -/
structure CmdLocals where
  brokerHost : Text
  brokerPort : ℤ
  buffer : Text
deriving Inhabited

/-- `!strncmp(data, opt, 2)` for an option of two characters. -/
def isOption (opt : String) (data : Text) : Bool := opt.toList.isPrefixOf data

/-- `sscanf(data, "%*s%f", &sysd->dT)`. -/
def scanInterval (data : Text) : Option Fl := do
  let (_, r) ← scanStr data
  let (x, _) ← scanFloat binary32 r
  return x

/-- `sscanf(data, "%*s%s%d", brokerHost, &brokerPort)`. -/
def scanBroker (data : Text) (stk : CmdLocals) : Text × ℤ :=
  match scanStr data with
  | none => (stk.brokerHost, stk.brokerPort)
  | some (_, r) =>
    match scanStr r with
    | none => (stk.brokerHost, stk.brokerPort)
    | some (host, r) => (host, ((scanInt r).map fun x => storeInt x.1).getD stk.brokerPort)

/-- `sscanf(data, "%*s%s", buffer)`. -/
def scanTopic (data : Text) (stk : CmdLocals) : Text :=
  match scanStr data with
  | none => stk.buffer
  | some (_, r) => ((scanStr r).map Prod.fst).getD stk.buffer

/-- What `%*s%s` stores: the second word. -/
def wordArg (data : Text) : Option Text := do
  let (_, r) ← scanStr data
  let (w, _) ← scanStr r
  return w

/-- What `%*s%s%d` stores, if all of it can be read. -/
def brokerArgs (data : Text) : Option (Text × ℤ) := do
  let (_, r) ← scanStr data
  let (host, r) ← scanStr r
  let (port, _) ← scanInt r
  return (host, storeInt port)

/-- The topic of a `-t` command without an argument is what the stack held. -/
lemma scanTopic_eq (data : Text) (stk : CmdLocals) :
    scanTopic data stk = (wordArg data).getD stk.buffer := by
  unfold scanTopic wordArg
  cases scanStr data with
  | none => rfl
  | some x =>
    obtain ⟨w, r⟩ := x
    cases h : scanStr r <;> simp [h]

/-- The endpoint of a `-b` command with an argument missing can be any other one. -/
lemma scanBroker_ne {data : Text} (h : brokerArgs data = none) (x : Option (Text × ℤ)) :
    ∃ stk, some (scanBroker data stk) ≠ x := by
  -- a port that `x` does not have
  obtain ⟨port, hport⟩ : ∃ port : ℤ, ∀ y ∈ x, y.2 ≠ port := by
    cases x with
    | none => exact ⟨0, nofun⟩
    | some y =>
      by_cases zero : y.2 = 0
      · exact ⟨1, by simp [zero]⟩
      · exact ⟨0, by simpa using zero⟩
  refine ⟨⟨[], port, []⟩, ?_⟩
  intro e
  have snd : (scanBroker data ⟨[], port, []⟩).2 = port := by
    unfold scanBroker
    cases h1 : scanStr data with
    | none => rfl
    | some a =>
      cases h2 : scanStr a.2 with
      | none => simp only [h2]
      | some b =>
        cases h3 : scanInt b.2 with
        | none => simp only [h2, h3, Option.map_none, Option.getD_none]
        | some c => simp [brokerArgs, h1, h2, h3] at h
  exact hport _ e.symm snd

/-! ## Arrays -/

/-- A string written into an array of `capacity` bytes. -/
structure BufWrite where
  capacity : Nat
  text : Text

/-- The string and its terminator fit. -/
def BufWrite.Fits (w : BufWrite) : Prop := w.text.length + 1 ≤ w.capacity

instance (w : BufWrite) : Decidable w.Fits := inferInstanceAs (Decidable (_ ≤ _))

/-- `char brokerHost[256]`. -/
def brokerHostSize : Nat := 256

/-- `char topic_tmp[255]`. -/
def topicTmpSize : Nat := 255

/-- What a command event writes: the second word of a `-b` command into `brokerHost`, that of a `-t`
command into `buffer`. -/
def commandWrites (data : Text) : List BufWrite :=
  (if isOption "-b" data then (wordArg data).toList.map (BufWrite.mk brokerHostSize) else []) ++
    (if isOption "-t" data then (wordArg data).toList.map (BufWrite.mk bufsiz) else [])

/-- The condition on a command: the second word is shorter than the array it goes into. -/
structure ShortArgs (data : Text) : Prop where
  broker : isOption "-b" data → ∀ w, wordArg data = some w → w.length < brokerHostSize
  topic : isOption "-t" data → ∀ w, wordArg data = some w → w.length < bufsiz

lemma commandWrites_fit_iff (data : Text) :
    (∀ w ∈ commandWrites data, w.Fits) ↔ ShortArgs data := by
  have part : ∀ (opt : String) (size : Nat),
      (∀ w ∈ (if isOption opt data then (wordArg data).toList.map (BufWrite.mk size) else [] :
        List BufWrite), w.Fits) ↔ (isOption opt data → ∀ w, wordArg data = some w → w.length < size) := by
    intro opt size
    by_cases ho : isOption opt data
    · rw [if_pos ho]
      cases wordArg data with
      | none => exact iff_of_true nofun fun _ => nofun
      | some w => simp [ho, BufWrite.Fits]
    · simp [ho]
  rw [commandWrites, List.forall_mem_append, part, part]
  exact ⟨fun h => ⟨h.1, h.2⟩, fun h => ⟨h.broker, h.topic⟩⟩

/-! ## The callback -/

/-- `on_message_callback`. -/
def onMessageCallback (stk : CmdLocals) (connect : Text → ℤ → Bool) (payload : Text) (d : Daemon) :
    Daemon :=
  if payload.length ≠ 0 then
    let data := cString payload
    let d :=
      if isOption "-s" data then
        { d with sysd := { d.sysd with dT := (scanInterval data).getD d.sysd.dT } }
      else d
    let d :=
      if isOption "-b" data then
        let (host, port) := scanBroker data stk
        { d with broker :=
            if connect host port then some (host, port)
            else if connect d.sysd.brokerHost d.sysd.brokerPort then
              some (d.sysd.brokerHost, d.sysd.brokerPort)
            else none }
      else d
    if isOption "-t" data then { d with sysd := { d.sysd with topic := scanTopic data stk } }
    else d
  else d

/-! ## Runs -/

/-- What can happen to a running daemon. -/
inductive Event where
  | command (stk : CmdLocals) (connect : Text → ℤ → Bool) (payload : Text)
  | tick (t : Tick)

/-- One event. -/
def Daemon.step : Event → Daemon → Daemon
  | .command stk connect payload, d => onMessageCallback stk connect payload d
  | .tick t, d => { d with sysd := (sampHandler t d.sysd).sysd }

/-- A run. -/
def Daemon.run (evs : List Event) (d : Daemon) : Daemon := evs.foldl (fun d e => d.step e) d

/-- What a command event received. -/
def Event.payload : Event → Option Text
  | .command _ _ payload => some payload
  | .tick _ => none

/-- What an event writes: a tick writes the topic of every message into `topic_tmp`. -/
def Event.writes (d : Daemon) : Event → List BufWrite
  | .command _ _ payload => commandWrites (cString payload)
  | .tick t => (sampHandler t d.sysd).out.map fun msg => ⟨topicTmpSize, msg.topic⟩

/-- The topic an event sets: a `-t` command sets its argument. -/
def topicArg : Event → Option Text
  | .command stk _ payload =>
    if isOption "-t" (cString payload) then some (scanTopic (cString payload) stk) else none
  | .tick _ => none

/-- The topic after a list of events: the argument of the last `-t` command, or `topic`. -/
def topicInForce (topic : Text) (evs : List Event) : Text :=
  evs.foldl (fun topic e => (topicArg e).getD topic) topic

lemma step_host (e : Event) (d : Daemon) : (d.step e).sysd.host = d.sysd.host := by
  cases e with
  | tick t =>
    have keep := sampHandler_settings t d.sysd
    exact congrArg Prod.fst keep
  | command stk connect payload =>
    simp only [Daemon.step, onMessageCallback]
    split_ifs <;> rfl

lemma run_host (evs : List Event) (d : Daemon) : (d.run evs).sysd.host = d.sysd.host := by
  induction evs generalizing d with
  | nil => rfl
  | cons e evs ih => exact (ih _).trans (step_host e d)

/-- No event changes the quality of service. -/
lemma step_qos (e : Event) (d : Daemon) : (d.step e).sysd.qos = d.sysd.qos := by
  cases e with
  | tick t =>
    have keep := sampHandler_settings t d.sysd
    exact congrArg (fun x => x.2.2.2.2.2) keep
  | command stk connect payload =>
    simp only [Daemon.step, onMessageCallback]
    split_ifs <;> rfl

lemma run_qos (evs : List Event) (d : Daemon) : (d.run evs).sysd.qos = d.sysd.qos := by
  induction evs generalizing d with
  | nil => rfl
  | cons e evs ih => exact (ih _).trans (step_qos e d)

/-- An event changes the topic as `topicArg` says. -/
lemma step_topic (e : Event) (d : Daemon) :
    (d.step e).sysd.topic = (topicArg e).getD d.sysd.topic := by
  cases e with
  | tick t =>
    have keep := sampHandler_settings t d.sysd
    exact congrArg (fun x => x.2.2.2.2.1) keep
  | command stk connect payload =>
    simp only [Daemon.step, onMessageCallback, topicArg]
    by_cases hp : payload.length = 0
    · -- an empty payload is no option either
      obtain rfl := List.eq_nil_of_length_eq_zero hp
      rfl
    · by_cases ht : isOption "-t" (cString payload)
      · simp [hp, ht]
      · simp only [hp, ht, ne_eq, not_false_eq_true, if_true]
        split_ifs <;> rfl

/-- The topic of a run is the one its commands set last. -/
lemma run_topic (evs : List Event) (d : Daemon) :
    (d.run evs).sysd.topic = topicInForce d.sysd.topic evs := by
  induction evs generalizing d with
  | nil => rfl
  | cons e evs ih =>
    have := ih (d.step e)
    rw [step_topic] at this
    exact this

end Powmon.Monitor
