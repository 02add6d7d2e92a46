import Powmon.Monitor.Config

/-!
# Fixed-size buffers

The strings that `on_message_callback` and `push_to_broker` write into arrays of fixed size, a `char`
of the text standing for a byte. No conversion has a field width, so a string fits only if what it is
made from is short enough: the second word of a `-b` or a `-t` command, and the topic in force, which
every tick copies again with the name of a device behind it.

`buffers_fit_iff` says which runs write no string that is longer than its array. Up to the first one
that does, the texts of the model are what the memory holds.
-/

namespace Powmon.Monitor
open Lib

/-! ## One event -/

lemma length_fmtNat_mono {m n : Nat} (h : m ≤ n) : (fmtNat m).length ≤ (fmtNat n).length := by
  have hpos : 0 < (fmtNat n).length := List.length_pos_iff.mpr (fmtNat_ne_nil n)
  have hn : n < 10 ^ (fmtNat n).length := (length_fmtNat_le_iff hpos).mp le_rfl
  exact (length_fmtNat_le_iff hpos).mpr (h.trans_lt hn)

lemma length_topicTmp (topic type : Text) (id : Nat) :
    (topicTmp topic type id).length = topic.length + 1 + type.length + (fmtNat id).length := by
  rw [topicTmp, device, List.length_append, List.length_cons, List.length_append]
  omega

/-- The names of `n` devices fit behind a topic if the last one does. -/
lemma topics_fit_iff (topic type : Text) (n : Nat) :
    (∀ id ∈ List.range n, (BufWrite.mk topicTmpSize (topicTmp topic type id)).Fits) ↔
      (0 < n → topic.length + 1 + type.length + (fmtNat (n - 1)).length < topicTmpSize) := by
  simp only [BufWrite.Fits, length_topicTmp, List.mem_range]
  constructor
  · intro h hn
    exact h (n - 1) (by omega)
  · intro h id hid
    have mono := length_fmtNat_mono (by omega : id ≤ n - 1)
    have last := h (by omega)
    omega

/-- The condition on the topic in force at a tick: the names of the last package and of the last core
fit behind it. -/
structure ShortTopic (ncpu ncore : Nat) (topic : Text) : Prop where
  cpu : 0 < ncpu → topic.length + 4 + (fmtNat (ncpu - 1)).length < topicTmpSize
  core : 0 < ncore → topic.length + 5 + (fmtNat (ncore - 1)).length < topicTmpSize

/-- A message whose topic fits `topic_tmp`. -/
def Message.Fits (msg : Message) : Prop := (BufWrite.mk topicTmpSize msg.topic).Fits

instance (msg : Message) : Decidable msg.Fits := inferInstanceAs (Decidable (BufWrite.Fits _))

/-- The messages of a tick fit exactly if the topic leaves room. -/
lemma messages_fit_iff (t : Tick) (s : SysData) :
    (∀ msg ∈ (sampHandler t s).out, msg.Fits) ↔ ShortTopic s.ncpu s.ncore s.topic := by
  obtain ⟨mc, mk, e⟩ := sampHandler_out t s
  rw [e, List.forall_mem_append, List.forall_mem_map, List.forall_mem_map]
  have cpus := topics_fit_iff s.topic "cpu".toList s.ncpu
  have cores := topics_fit_iff s.topic "core".toList s.ncore
  exact (and_congr cpus cores).trans ⟨fun h => ⟨h.1, h.2⟩, fun h => ⟨h.cpu, h.core⟩⟩

lemma tickWrites_fit_iff (t : Tick) (d : Daemon) :
    (∀ w ∈ (Event.tick t).writes d, w.Fits) ↔
      ShortTopic d.sysd.ncpu d.sysd.ncore d.sysd.topic := by
  rw [Event.writes, List.forall_mem_map]
  exact messages_fit_iff t d.sysd

/-! ## Runs -/

/-- The condition on an event, with the topic that is in force when it happens. -/
def Event.Short (ncpu ncore : Nat) (topic : Text) : Event → Prop
  | .command _ _ payload => ShortArgs (cString payload)
  | .tick _ => ShortTopic ncpu ncore topic

/-- A run writes no string that is longer than its array. -/
def Daemon.InBounds (d : Daemon) (evs : List Event) : Prop :=
  ∀ pre e post, evs = pre ++ e :: post → ∀ w ∈ e.writes (d.run pre), w.Fits

/-- The condition on the events of a run that starts with `topic` in force. -/
def ShortRun (ncpu ncore : Nat) (topic : Text) (evs : List Event) : Prop :=
  ∀ pre e post, evs = pre ++ e :: post → e.Short ncpu ncore (topicInForce topic pre)

section ShortRun
variable {ncpu ncore : Nat} {topic : Text} {e : Event} {evs : List Event}

lemma shortRun_nil : ShortRun ncpu ncore topic [] := by
  intro pre e post h
  cases pre <;> cases h

/-- The first event, and the others with the topic it leaves. -/
lemma shortRun_cons : ShortRun ncpu ncore topic (e :: evs) ↔
    e.Short ncpu ncore topic ∧ ShortRun ncpu ncore ((topicArg e).getD topic) evs := by
  constructor
  · intro h
    refine ⟨h [] e evs rfl, ?_⟩
    rintro pre x post rfl
    exact h (e :: pre) x post rfl
  · rintro ⟨first, rest⟩ pre x post split
    cases pre with
    | nil =>
      obtain ⟨rfl, -⟩ := List.cons.inj split
      exact first
    | cons y pre =>
      have tails := List.cons.inj split
      exact tails.1 ▸ rest pre x post tails.2

/-- The last event, with the topic that the others leave. -/
lemma shortRun_concat : ShortRun ncpu ncore topic (evs ++ [e]) ↔
    ShortRun ncpu ncore topic evs ∧ e.Short ncpu ncore (topicInForce topic evs) := by
  induction evs generalizing topic with
  | nil => simp [shortRun_cons, shortRun_nil, topicInForce]
  | cons x evs ih =>
    rw [List.cons_append, shortRun_cons, shortRun_cons, ih, and_assoc]
    exact Iff.rfl

end ShortRun

/-- A run stays within its arrays exactly if its strings are short enough. -/
lemma inBounds_iff (d : Daemon) (evs : List Event) :
    d.InBounds evs ↔ ShortRun d.sysd.ncpu d.sysd.ncore d.sysd.topic evs := by
  have each : ∀ pre (e : Event), (∀ w ∈ e.writes (d.run pre), w.Fits) ↔
      e.Short d.sysd.ncpu d.sysd.ncore (topicInForce d.sysd.topic pre) := by
    intro pre e
    cases e with
    | command stk connect payload => exact commandWrites_fit_iff _
    | tick t =>
      have hh : (d.run pre).sysd.host = d.sysd.host := run_host pre d
      have ncpu : (d.run pre).sysd.ncpu = d.sysd.ncpu := congrArg Host.ncpu hh
      have ncore : (d.run pre).sysd.ncore = d.sysd.ncore := congrArg Host.ncore hh
      rw [tickWrites_fit_iff, ncpu, ncore, run_topic]
      exact Iff.rfl
  simp only [Daemon.InBounds, ShortRun, each]

/-- In a run from any state, every string written fits its array exactly if the second word of every
`-b` command has less than 256 bytes, that of every `-t` command less than `BUFSIZ`, and the topic in
force at every tick leaves room for the names of the devices. -/
theorem buffers_fit_iff (d : Daemon) (evs : List Event) :
    (∀ pre e post, evs = pre ++ e :: post → ∀ w ∈ e.writes (d.run pre), w.Fits) ↔
      ∀ pre e post, evs = pre ++ e :: post →
        e.Short d.sysd.ncpu d.sysd.ncore (topicInForce d.sysd.topic pre) :=
  inBounds_iff d evs

/-- A host with one core, publishing under `xd/node7`. -/
def oneCoreDaemon : Daemon :=
  ⟨setTopics "xd".toList "node7".toList { initPowMon with ncpu := 1, ncore := 1 }, none⟩

/-- A topic of 250 bytes fits `buffer`; the next tick writes it into `topic_tmp` with `/core0` behind
it. A broker name of 256 bytes overruns `brokerHost` at once, a topic of `BUFSIZ` bytes `buffer`. -/
theorem buffers_overrun :
    (∀ w ∈ (plainCommand ("-t ".toList ++ List.replicate 250 'a')).writes oneCoreDaemon, w.Fits) ∧
    ¬ (∀ pre e post, [plainCommand ("-t ".toList ++ List.replicate 250 'a'), .tick default] =
        pre ++ e :: post → ∀ w ∈ e.writes (oneCoreDaemon.run pre), w.Fits) ∧
    ¬ (∀ w ∈ (plainCommand ("-b ".toList ++ List.replicate 256 'a')).writes oneCoreDaemon,
        w.Fits) := by
  have arg : wordArg (cString ("-t ".toList ++ List.replicate 250 'a')) =
      some (List.replicate 250 'a') := by decide +kernel
  have host : wordArg (cString ("-b ".toList ++ List.replicate 256 'a')) =
      some (List.replicate 256 'a') := by decide +kernel
  refine ⟨?_, ?_, ?_⟩
  · refine (commandWrites_fit_iff _).mpr ⟨fun h => absurd h (by decide +kernel), ?_⟩
    intro _ w hw
    rw [arg] at hw
    obtain rfl := Option.some.inj hw
    rw [List.length_replicate]
    decide
  · intro fit
    have short := (tickWrites_fit_iff default _).mp
      (fit [plainCommand ("-t ".toList ++ List.replicate 250 'a')] (.tick default) [] rfl)
    rw [run_topic] at short
    have long : (topicInForce oneCoreDaemon.sysd.topic
        [plainCommand ("-t ".toList ++ List.replicate 250 'a')]).length = 250 := by
      decide +kernel
    have core := short.core (by decide +kernel)
    rw [long] at core
    exact absurd core (by decide +kernel)
  · intro fit
    have short := (commandWrites_fit_iff _).mp fit
    have lt := short.broker (by decide +kernel) _ host
    rw [List.length_replicate] at lt
    exact absurd lt (by decide)

end Powmon.Monitor
