import Powmon.Monitor.Command

/-!
# The configuration under commands

The commands write into the running configuration: the sampling interval, the topic and the broker the
daemon is connected to. `sscanf` is not asked how many conversions succeeded, so a command with an
argument missing goes on with whatever the locals held, and an interval is taken as it comes.

`config_valid_iff` says which sequences of payloads keep the configuration valid whatever the stack
holds and whichever connections succeed: those whose `-s` commands carry no interval that is not
positive, and whose `-t` and `-b` commands carry all their arguments, short enough for the arrays they
are scanned into.
-/

namespace Powmon.Monitor
open Lib

/-! ## One event -/

/-- What the commands write. -/
def Daemon.config (d : Daemon) : Fl × Text × Option (Text × ℤ) :=
  (d.sysd.dT, d.sysd.topic, d.broker)

/-- Two options of one length are told apart. -/
lemma isOption_inj {opt opt' : String} {data : Text} (h : isOption opt data)
    (h' : isOption opt' data) (hlen : opt.toList.length = opt'.toList.length) :
    opt.toList = opt'.toList := by
  have p : opt.toList <+: data := List.isPrefixOf_iff_prefix.mp h
  have p' : opt'.toList <+: data := List.isPrefixOf_iff_prefix.mp h'
  exact (List.prefix_of_prefix_length_le p p' hlen.le).eq_of_length hlen

/-- The interval an event sets: a `-s` command sets its argument, if it has one. -/
def intervalArg : Event → Option Fl
  | .command _ _ payload =>
    if isOption "-s" (cString payload) then scanInterval (cString payload) else none
  | .tick _ => none

/-- An event changes the interval as `intervalArg` says. -/
lemma step_dT (e : Event) (d : Daemon) : (d.step e).sysd.dT = (intervalArg e).getD d.sysd.dT := by
  cases e with
  | tick t =>
    have keep := sampHandler_settings t d.sysd
    exact congrArg (fun x => x.2.2.1) keep
  | command stk connect payload =>
    simp only [Daemon.step, onMessageCallback, intervalArg]
    by_cases hp : payload.length = 0
    · -- an empty payload is no option either
      obtain rfl := List.eq_nil_of_length_eq_zero hp
      rfl
    · by_cases hs : isOption "-s" (cString payload)
      · simp only [hp, hs, ne_eq, not_false_eq_true, if_true]
        split_ifs <;> rfl
      · simp only [hp, hs, ne_eq, not_false_eq_true, if_true, if_false, Bool.false_eq_true]
        split_ifs <;> rfl

/-- A `-b` command whose connection succeeds moves the daemon to the endpoint it read. -/
lemma step_broker (stk : CmdLocals) {payload : Text} (h : isOption "-b" (cString payload))
    (d : Daemon) :
    (d.step (.command stk (fun _ _ => true) payload)).broker =
      some (scanBroker (cString payload) stk) := by
  have hp : payload.length ≠ 0 := by
    intro hp
    obtain rfl := List.eq_nil_of_length_eq_zero hp
    cases h
  simp only [Daemon.step, onMessageCallback, hp, h, ne_eq, not_false_eq_true, if_true]
  split_ifs <;> rfl

/-- No other event does. -/
lemma step_broker_keep {e : Event} (h : ∀ p ∈ e.payload, ¬ isOption "-b" (cString p)) (d : Daemon) :
    (d.step e).broker = d.broker := by
  cases e with
  | tick t => rfl
  | command stk connect payload =>
    have hb : ¬ isOption "-b" (cString payload) := h payload rfl
    simp only [Daemon.step, onMessageCallback, hb, if_false, Bool.false_eq_true]
    split_ifs <;> rfl

/-! ## Runs -/

lemma run_append (evs evs' : List Event) (d : Daemon) :
    d.run (evs ++ evs') = (d.run evs).run evs' := List.foldl_append

lemma run_concat (evs : List Event) (e : Event) (d : Daemon) :
    d.run (evs ++ [e]) = (d.run evs).step e := run_append evs [e] d

/-- The arguments that the command requires can be read. -/
structure Parsable (data : Text) : Prop where
  interval : isOption "-s" data → (scanInterval data).isSome
  broker : isOption "-b" data → (brokerArgs data).isSome
  topic : isOption "-t" data → (wordArg data).isSome

/-- What is to hold of a run from `d`: no command writes beside an array, the interval stays positive,
the topic is the one at the start or the argument of a `-t` command received, and a command whose
arguments cannot be read changes nothing. -/
structure KeepsConfig (d : Daemon) (evs : List Event) : Prop where
  room : ∀ p ∈ evs.filterMap Event.payload, ∀ w ∈ commandWrites (cString p), w.Fits
  interval : ∀ pre post, evs = pre ++ post → (d.run pre).sysd.dT.isPos
  topic : ∀ pre post, evs = pre ++ post → (d.run pre).sysd.topic = d.sysd.topic ∨
    ∃ p ∈ pre.filterMap Event.payload, isOption "-t" (cString p) ∧
      wordArg (cString p) = some (d.run pre).sysd.topic
  rejected : ∀ pre e post, evs = pre ++ e :: post → ∀ p ∈ e.payload, ¬ Parsable (cString p) →
    (d.run (pre ++ [e])).config = (d.run pre).config

/-- The ticks of a run stay within `topic_tmp`. -/
def TicksFit (d : Daemon) (evs : List Event) : Prop :=
  ∀ pre t post, evs = pre ++ .tick t :: post → ∀ w ∈ (Event.tick t).writes (d.run pre), w.Fits

/-- The condition on a payload. -/
structure Harmless (data : Text) : Prop where
  room : ShortArgs data
  interval : isOption "-s" data → ∀ x, scanInterval data = some x → x.isPos
  broker : isOption "-b" data → (brokerArgs data).isSome
  topic : isOption "-t" data → (wordArg data).isSome

section Harmless
variable {d : Daemon} {pre : List Event}

/-- Harmless payloads keep the interval positive. -/
lemma run_dT_isPos (hpos : d.sysd.dT.isPos)
    (h : ∀ p ∈ pre.filterMap Event.payload, Harmless (cString p)) :
    (d.run pre).sysd.dT.isPos := by
  induction pre using List.reverseRecOn with
  | nil => exact hpos
  | append_singleton pre e ih =>
    rw [List.filterMap_append, List.forall_mem_append] at h
    obtain ⟨hpre, he⟩ := h
    rw [run_concat, step_dT]
    cases hx : intervalArg e with
    | none => exact ih hpre
    | some x =>
      cases e with
      | tick t => cases hx
      | command stk connect payload =>
        simp only [intervalArg] at hx
        split at hx
        · next hs =>
          have harmless := he payload (by simp [Event.payload])
          exact harmless.interval hs x hx
        · cases hx

/-- Harmless payloads keep the topic one that was given. -/
lemma run_topic_given (h : ∀ p ∈ pre.filterMap Event.payload, Harmless (cString p)) :
    (d.run pre).sysd.topic = d.sysd.topic ∨
      ∃ p ∈ pre.filterMap Event.payload, isOption "-t" (cString p) ∧
        wordArg (cString p) = some (d.run pre).sysd.topic := by
  induction pre using List.reverseRecOn with
  | nil => exact .inl rfl
  | append_singleton pre e ih =>
    rw [List.filterMap_append, List.forall_mem_append] at h
    obtain ⟨hpre, he⟩ := h
    rw [run_concat, step_topic, List.filterMap_append]
    cases ht : topicArg e with
    | none =>
      -- the topic is the one before
      rcases ih hpre with same | ⟨p, hp, hopt, harg⟩
      · exact .inl same
      · exact .inr ⟨p, List.mem_append_left _ hp, hopt, harg⟩
    | some topic =>
      cases e with
      | tick t => cases ht
      | command stk connect payload =>
        simp only [topicArg] at ht
        split at ht
        · next hopt =>
          have harmless := he payload (by simp [Event.payload])
          obtain ⟨w, hw⟩ := Option.isSome_iff_exists.mp (harmless.topic hopt)
          rw [scanTopic_eq, hw] at ht
          obtain rfl := Option.some.inj ht
          exact .inr ⟨payload, List.mem_append_right _ (by simp [Event.payload]), hopt, hw⟩
        · cases ht

/-- A harmless payload whose arguments cannot be read is a `-s` command, and changes nothing. -/
lemma step_config_of_not_parsable {e : Event} {p : Text} (hp : p ∈ e.payload)
    (h : Harmless (cString p)) (hn : ¬ Parsable (cString p)) (d : Daemon) :
    (d.step e).config = d.config := by
  cases e with
  | tick t => cases hp
  | command stk connect payload =>
    obtain rfl : payload = p := Option.some.inj hp
    have hs : isOption "-s" (cString payload) ∧ scanInterval (cString payload) = none := by
      by_contra hc
      refine hn ⟨?_, h.broker, h.topic⟩
      intro hs
      exact Option.isSome_iff_ne_none.mpr fun e => hc ⟨hs, e⟩
    obtain ⟨hs, hnone⟩ := hs
    have ht : ¬ isOption "-t" (cString payload) := fun ht => by cases isOption_inj hs ht (by simp)
    have hb : ¬ isOption "-b" (cString payload) := fun hb => by cases isOption_inj hs hb (by simp)
    have dT : (d.step (.command stk connect payload)).sysd.dT = d.sysd.dT := by
      rw [step_dT, intervalArg, if_pos hs, hnone]
      rfl
    have topic : (d.step (.command stk connect payload)).sysd.topic = d.sysd.topic := by
      rw [step_topic, topicArg, if_neg ht]
      rfl
    have broker : (d.step (.command stk connect payload)).broker = d.broker := by
      apply step_broker_keep
      rintro _ ⟨⟩
      exact hb
    rw [Daemon.config, Daemon.config, dT, topic, broker]

/-- Harmless payloads keep the configuration valid. -/
lemma keepsConfig_of_harmless {evs : List Event} (hpos : d.sysd.dT.isPos)
    (harmless : ∀ p ∈ evs.filterMap Event.payload, Harmless (cString p)) : KeepsConfig d evs := by
  refine ⟨?_, ?_, ?_, ?_⟩
  · intro p hp
    exact (commandWrites_fit_iff _).mpr (harmless p hp).room
  · rintro pre post rfl
    rw [List.filterMap_append, List.forall_mem_append] at harmless
    exact run_dT_isPos hpos harmless.1
  · rintro pre post rfl
    rw [List.filterMap_append, List.forall_mem_append] at harmless
    exact run_topic_given harmless.1
  · rintro pre e post rfl p hp hn
    rw [run_concat]
    refine step_config_of_not_parsable hp (harmless p ?_) hn _
    exact List.mem_filterMap.mpr ⟨e, by simp, hp⟩

/-- A payload that keeps the configuration valid whatever the locals hold is harmless. -/
lemma harmless_of_keepsConfig {p : Text} {post : List Event}
    (keeps : ∀ stk, KeepsConfig d (pre ++ .command stk (fun _ _ => true) p :: post)) :
    Harmless (cString p) := by
  refine ⟨?_, ?_, ?_, ?_⟩
  · exact (commandWrites_fit_iff _).mp ((keeps default).room p (by simp [Event.payload]))
  · intro hs x hx
    have pos := (keeps default).interval (pre ++ [.command default (fun _ _ => true) p]) post
      (by simp)
    rw [run_concat, step_dT, intervalArg, if_pos hs, hx] at pos
    exact pos
  · intro hb
    by_contra hn
    have none : brokerArgs (cString p) = none := Option.not_isSome_iff_eq_none.mp hn
    obtain ⟨stk, hne⟩ := scanBroker_ne none (d.run pre).broker
    have keep := (keeps stk).rejected pre _ _ rfl p rfl fun ok => hn (ok.broker hb)
    have broker := congrArg (fun c => c.2.2) keep
    dsimp only [Daemon.config] at broker
    rw [run_concat, step_broker stk hb] at broker
    exact hne broker
  · intro ht
    by_contra hn
    have none : wordArg (cString p) = none := Option.not_isSome_iff_eq_none.mp hn
    -- a buffer that does not hold the topic in force
    let stk : CmdLocals := ⟨[], 0, 'x' :: (d.run pre).sysd.topic⟩
    have keep := (keeps stk).rejected pre _ _ rfl p rfl fun ok => hn (ok.topic ht)
    have topic := congrArg (fun c => c.2.1) keep
    dsimp only [Daemon.config] at topic
    rw [run_concat, step_topic, topicArg, if_pos ht, scanTopic_eq, none] at topic
    exact List.cons_ne_self _ _ topic

end Harmless

/-- A command event with nothing in the locals and a broker that accepts. -/
def plainCommand (payload : Text) : Event := .command default (fun _ _ => true) payload

lemma filterMap_plainCommand (ps : List Text) :
    (ps.map plainCommand).filterMap Event.payload = ps := by
  induction ps with
  | nil => rfl
  | cons p ps ih => exact congrArg (p :: ·) ih

lemma tick_notMem_plainCommand (ps : List Text) (t : Tick) : .tick t ∉ ps.map plainCommand := by
  rw [List.mem_map]
  rintro ⟨p, -, e⟩
  cases e

/-- Without ticks, none of them writes anything. -/
lemma ticksFit_of_notMem {d : Daemon} {evs : List Event} (h : ∀ t, .tick t ∉ evs) :
    TicksFit d evs := by
  rintro pre t post rfl
  exact absurd (List.mem_append_right pre List.mem_cons_self) (h t)

/-- For every start with a positive interval and every sequence of payloads, received between any
ticks that stay within `topic_tmp`: the configuration is kept valid, whatever the locals hold and
whichever connections succeed, exactly if every payload is harmless. -/
theorem config_valid_iff (d : Daemon) (hpos : d.sysd.dT.isPos) (payloads : List Text) :
    (∀ evs : List Event, evs.filterMap Event.payload = payloads → TicksFit d evs →
      KeepsConfig d evs) ↔ ∀ p ∈ payloads, Harmless (cString p) := by
  constructor
  · intro keeps p hp
    obtain ⟨a, b, rfl⟩ := List.append_of_mem hp
    -- runs in which `p` is received with chosen locals, all else is plain, and nothing ticks
    refine @harmless_of_keepsConfig d (a.map plainCommand) p (b.map plainCommand) fun stk => ?_
    apply keeps
    · have here : (Event.command stk (fun _ _ => true) p).payload = some p := rfl
      rw [List.filterMap_append, List.filterMap_cons_some here, filterMap_plainCommand,
        filterMap_plainCommand]
    · refine ticksFit_of_notMem fun t ht => ?_
      simp [tick_notMem_plainCommand] at ht
  · rintro harmless evs rfl -
    exact keepsConfig_of_harmless hpos harmless

/-- A daemon that samples once a second under `xd/node7`, connected to its broker. -/
def defaultDaemon : Daemon :=
  ⟨setTopics "xd".toList "node7".toList initPowMon, some ("broker".toList, 1883)⟩

/-- An interval of zero, also as `0x.`, and commands without arguments after which the topic and the
broker are what the locals held. -/
theorem config_invalid :
    defaultDaemon.sysd.dT.isPos ∧
    ¬ (defaultDaemon.run [plainCommand "-s 0".toList]).sysd.dT.isPos ∧
    ¬ (defaultDaemon.run [plainCommand "-s 0x.".toList]).sysd.dT.isPos ∧
    (defaultDaemon.run [.command ⟨[], 0, "old".toList⟩ (fun _ _ => true) "-t".toList]).sysd.topic =
      "old".toList ∧
    (defaultDaemon.run [.command ⟨"old".toList, 7, []⟩ (fun _ _ => true) "-b".toList]).broker =
      some ("old".toList, 7) ∧
    ¬ KeepsConfig defaultDaemon [plainCommand "-s 0".toList] := by
  have zero : ¬ (defaultDaemon.run [plainCommand "-s 0".toList]).sysd.dT.isPos := by decide +kernel
  refine ⟨by decide, zero, by decide +kernel, by decide +kernel, by decide +kernel, ?_⟩
  intro keeps
  exact zero (keeps.interval _ [] rfl)

/-- Two commands with their arguments, and one without that changes nothing. -/
theorem config_valid_commands :
    KeepsConfig defaultDaemon
      (["-s 0.5".toList, "-t lab/node7".toList, "-s".toList].map plainCommand) := by
  refine (config_valid_iff defaultDaemon (by decide)
    ["-s 0.5".toList, "-t lab/node7".toList, "-s".toList]).mpr ?_ _ (filterMap_plainCommand _)
    (ticksFit_of_notMem (tick_notMem_plainCommand _))
  intro p hp
  simp only [List.mem_cons, List.not_mem_nil, or_false] at hp
  have half : ∀ x, scanInterval (cString "-s 0.5".toList) = some x → x.isPos := by
    have e : (scanInterval (cString "-s 0.5".toList)).all Fl.isPos = true := by decide +kernel
    intro x hx
    rwa [hx] at e
  have short : ∀ q ∈ ["-s 0.5".toList, "-t lab/node7".toList, "-s".toList],
      ∀ w ∈ commandWrites (cString q), w.Fits := by decide +kernel
  rcases hp with rfl | rfl | rfl
  · exact ⟨(commandWrites_fit_iff _).mp (short _ (by simp)), fun _ => half,
      fun h => absurd h (by decide), fun h => absurd h (by decide)⟩
  · exact ⟨(commandWrites_fit_iff _).mp (short _ (by simp)), fun h => absurd h (by decide),
      fun h => absurd h (by decide), fun _ => by decide⟩
  · refine ⟨(commandWrites_fit_iff _).mp (short _ (by simp)), fun _ x hx => ?_,
      fun h => absurd h (by decide), fun h => absurd h (by decide)⟩
    have e : scanInterval (cString "-s".toList) = none := by decide +kernel
    rw [e] at hx
    cases hx

end Powmon.Monitor
