import Powmon.Lifecycle.Protocol

/-!
# At most one monitor

An invocation that has passed its check is a *starter* until it has written the pidfile, and the daemon
it forks is a *monitor*, as is an invocation of `run` that has passed its check. Between the check and
the write nothing keeps another invocation from passing its own check, and `run` never writes the
pidfile at all, so two monitors are possible. The invariant `Inv` holds as long as every check that
lets its invocation go on finds no other process in that position (`Undisturbed`).
-/

namespace Powmon.Lifecycle

/-- On the way from the check to the write of the pidfile. -/
inductive Phase.Starter : Phase → Prop where
  | starting : Starter .starting
  | forked {child : Pid} : Starter (.forked child)
  | stopBegin : Starter (.stopBegin true)
  | stopRead {pid : Option Pid} : Starter (.stopRead true pid)
  | killing {pid : Option Pid} : Starter (.killing true pid)
  | sleeping {targets : Finset Pid} : Starter (.sleeping true targets)

/-- On the way to the sampling loop, or in it. -/
inductive Phase.Monitor : Phase → Prop where
  | ready : Monitor .ready
  | sampling : Monitor .sampling
  | stopping : Monitor .stopping

/-- The process has passed its check and is on its way to the sampling loop or in it, and the pidfile
does not name it. -/
def Pending (s : State) (p : Pid) : Prop :=
  ∃ a, s.proc p = some a ∧ (a.Starter ∨ a.Monitor ∧ s.pidfile ≠ some p)

/-- The check of the mode switch lets the invocation go on to the sampling loop or to `daemonize`. -/
inductive Passes (s : State) (p : Pid) : Prop where
  | start (begin : s.proc p = some (.begin .start)) (status : s.status = false)
  | run (begin : s.proc p = some (.begin .run)) (status : s.status = false)
  | restart (begin : s.proc p = some (.begin .restart)) (status : s.status = true)

/-- If the step is a check that lets its invocation go on, then no process is pending. -/
def Undisturbed (s : State) (l : Label) : Prop :=
  ∀ p, l = .check p → Passes s p → ∀ q, ¬ Pending s q

/-- Every step of the run is undisturbed. -/
def Quiet (s : State) : List Label → Prop
  | [] => True
  | l :: ls => Undisturbed s l ∧ ∀ s', step s l = some s' → Quiet s' ls

/-- What a starter in phase `a` knows of a monitor `m` in phase `b`. -/
inductive Covers : Phase → Option Pid → Pid → Phase → Prop where
  | forked {pidfile m b} : Covers (.forked m) pidfile m b
  | stopBegin {m b} : Covers (.stopBegin true) (some m) m b
  | stopRead {m b} : Covers (.stopRead true (some m)) (some m) m b
  | killing {m b} : Covers (.killing true (some m)) (some m) m b
  | sleeping {targets pidfile m} (hit : m ∈ targets) :
    Covers (.sleeping true targets) pidfile m .stopping

/-- There is one starter and one monitor at most, and the starter knows of the monitor. -/
structure Inv (s : State) : Prop where
  one_starter {p q a b} : s.proc p = some a → a.Starter → s.proc q = some b → b.Starter → p = q
  one_monitor {p q a b} : s.proc p = some a → a.Monitor → s.proc q = some b → b.Monitor → p = q
  covers {p m a b} : s.proc p = some a → a.Starter → s.proc m = some b → b.Monitor →
    Covers a s.pidfile m b

/-- No monitor is a starter. -/
lemma Phase.Monitor.not_starter {a : Phase} (monitor : a.Monitor) : ¬ a.Starter := by
  intro starter
  cases monitor <;> cases starter

/-- The monitor may be told to stop. -/
lemma Covers.stopping {a : Phase} {pidfile : Option Pid} {m : Pid} {b : Phase}
    (covers : Covers a pidfile m b) : Covers a pidfile m .stopping := by
  cases covers with
  | forked => exact .forked
  | stopBegin => exact .stopBegin
  | stopRead => exact .stopRead
  | killing => exact .killing
  | sleeping hit => exact .sleeping hit

/-- It may enter the sampling loop. -/
lemma Covers.enter {a : Phase} {pidfile : Option Pid} {m : Pid}
    (covers : Covers a pidfile m .ready) : Covers a pidfile m .sampling := by
  cases covers with
  | forked => exact .forked
  | stopBegin => exact .stopBegin
  | stopRead => exact .stopRead
  | killing => exact .killing

/-- A monitor that the pidfile names is found. -/
lemma status_of_pidfile {s : State} {m : Pid} {b : Phase} (file : s.pidfile = some m)
    (live : s.proc m = some b) : s.status = true := by
  simp [State.status, file, live]

/-- The phases after an update. -/
lemma set_proc_some {s : State} {p q : Pid} {x : Option Phase} {a : Phase}
    (h : (s.set p x).proc q = some a) : q = p ∧ x = some a ∨ q ≠ p ∧ s.proc q = some a := by
  rcases eq_or_ne q p with rfl | ne
  · rw [set_proc_self] at h
    exact .inl ⟨rfl, h⟩
  · rw [set_proc_of_ne s x ne] at h
    exact .inr ⟨ne, h⟩

/-! ## Single updates -/

/-- A process leaves, or goes to a phase that is neither a starter's nor a monitor's. -/
lemma Inv.set_idle {s : State} (inv : Inv s) {p : Pid} {x : Option Phase}
    (idle : ∀ a, x = some a → ¬ a.Starter ∧ ¬ a.Monitor) : Inv (s.set p x) := by
  have starter {q a} (hq : (s.set p x).proc q = some a) (ha : a.Starter) : s.proc q = some a := by
    obtain ⟨-, hx⟩ | ⟨-, h⟩ := set_proc_some hq
    · exact absurd ha (idle a hx).1
    · exact h
  have monitor {q a} (hq : (s.set p x).proc q = some a) (ha : a.Monitor) : s.proc q = some a := by
    obtain ⟨-, hx⟩ | ⟨-, h⟩ := set_proc_some hq
    · exact absurd ha (idle a hx).2
    · exact h
  constructor
  · intro q r a b hq ha hr hb
    exact inv.one_starter (starter hq ha) ha (starter hr hb) hb
  · intro q r a b hq ha hr hb
    exact inv.one_monitor (monitor hq ha) ha (monitor hr hb) hb
  · intro q m a b hq ha hm hb
    exact inv.covers (starter hq ha) ha (monitor hm hb) hb

/-- A process leaves. -/
lemma Inv.set_none {s : State} (inv : Inv s) (p : Pid) : Inv (s.set p none) :=
  inv.set_idle nofun

/-- A process goes to an idle phase. -/
lemma Inv.set_some {s : State} (inv : Inv s) (p : Pid) {a : Phase} (starter : ¬ a.Starter)
    (monitor : ¬ a.Monitor) : Inv (s.set p (some a)) := by
  apply inv.set_idle
  intro b e
  cases e
  exact ⟨starter, monitor⟩

/-- A process becomes or stays the starter. -/
lemma Inv.set_starter {s : State} (inv : Inv s) {p : Pid} {x : Phase} (hx : x.Starter)
    (only : ∀ q a, s.proc q = some a → a.Starter → q = p)
    (covers : ∀ m b, s.proc m = some b → b.Monitor → Covers x s.pidfile m b) :
    Inv (s.set p (some x)) := by
  have starter {q a} (hq : (s.set p (some x)).proc q = some a) (ha : a.Starter) :
      q = p ∧ a = x := by
    obtain ⟨e, hx⟩ | ⟨ne, h⟩ := set_proc_some hq
    · exact ⟨e, (Option.some.inj hx).symm⟩
    · exact absurd (only q a h ha) ne
  have monitor {q a} (hq : (s.set p (some x)).proc q = some a) (ha : a.Monitor) :
      s.proc q = some a := by
    obtain ⟨-, e⟩ | ⟨-, h⟩ := set_proc_some hq
    · cases e
      exact absurd hx ha.not_starter
    · exact h
  constructor
  · intro q r a b hq ha hr hb
    exact (starter hq ha).1.trans (starter hr hb).1.symm
  · intro q r a b hq ha hr hb
    exact inv.one_monitor (monitor hq ha) ha (monitor hr hb) hb
  · intro q m a b hq ha hm hb
    rw [(starter hq ha).2]
    exact covers m b (monitor hm hb) hb

/-- The starter goes on. -/
lemma Inv.starter_step {s : State} (inv : Inv s) {p : Pid} {a x : Phase}
    (hp : s.proc p = some a) (ha : a.Starter) (hx : x.Starter)
    (covers : ∀ m b, s.proc m = some b → Covers a s.pidfile m b → Covers x s.pidfile m b) :
    Inv (s.set p (some x)) := by
  apply inv.set_starter hx
  · intro q b hq hb
    exact inv.one_starter hq hb hp ha
  · intro m b hm hb
    exact covers m b hm (inv.covers hp ha hm hb)

/-- A process becomes or stays the monitor. -/
lemma Inv.set_monitor {s : State} (inv : Inv s) {p : Pid} {x : Phase} (hx : x.Monitor)
    (only : ∀ q b, s.proc q = some b → b.Monitor → q = p)
    (covers : ∀ q a, s.proc q = some a → a.Starter → Covers a s.pidfile p x) :
    Inv (s.set p (some x)) := by
  have starter {q a} (hq : (s.set p (some x)).proc q = some a) (ha : a.Starter) :
      s.proc q = some a := by
    obtain ⟨-, e⟩ | ⟨-, h⟩ := set_proc_some hq
    · cases e
      exact absurd ha hx.not_starter
    · exact h
  have monitor {q a} (hq : (s.set p (some x)).proc q = some a) (ha : a.Monitor) :
      q = p ∧ a = x := by
    obtain ⟨e, hx⟩ | ⟨ne, h⟩ := set_proc_some hq
    · exact ⟨e, (Option.some.inj hx).symm⟩
    · exact absurd (only q a h ha) ne
  constructor
  · intro q r a b hq ha hr hb
    exact inv.one_starter (starter hq ha) ha (starter hr hb) hb
  · intro q r a b hq ha hr hb
    exact (monitor hq ha).1.trans (monitor hr hb).1.symm
  · intro q m a b hq ha hm hb
    obtain ⟨rfl, rfl⟩ := monitor hm hb
    exact covers q a (starter hq ha) ha

/-! ## Signals -/

/-- The phases after a signal. -/
lemma signal_proc_some {s : State} {targets : Finset Pid} {q : Pid} {a : Phase}
    (h : (s.signal targets).proc q = some a) :
    q ∉ targets ∧ s.proc q = some a ∨
    q ∈ targets ∧ ∃ b, s.proc q = some b ∧ b.signal = some a := by
  unfold State.signal at h
  dsimp only at h
  split at h
  next hit => exact .inr ⟨hit, Option.bind_eq_some_iff.mp h⟩
  next miss => exact .inl ⟨miss, h⟩

/-- What a signal makes of a phase. -/
lemma Phase.signal_some {a b : Phase} (h : b.signal = some a) :
    b.Monitor ∧ a = .stopping ∨ a = .left := by
  cases b <;> cases h
  · exact .inl ⟨.sampling, rfl⟩
  · exact .inl ⟨.stopping, rfl⟩
  · exact .inr rfl

/-- A starter has not been hit. -/
lemma starter_of_signal {s : State} {targets : Finset Pid} {q : Pid} {a : Phase}
    (h : (s.signal targets).proc q = some a) (ha : a.Starter) : s.proc q = some a := by
  obtain ⟨-, h⟩ | ⟨-, b, -, hb⟩ := signal_proc_some h
  · exact h
  · obtain ⟨-, rfl⟩ | rfl := Phase.signal_some hb <;> cases ha

/-- A monitor that has been hit stops. -/
lemma monitor_of_signal {s : State} {targets : Finset Pid} {q : Pid} {a : Phase}
    (h : (s.signal targets).proc q = some a) (ha : a.Monitor) :
    ∃ b, s.proc q = some b ∧ b.Monitor ∧ (a = .stopping ∨ q ∉ targets ∧ a = b) := by
  obtain ⟨miss, h⟩ | ⟨-, b, live, hb⟩ := signal_proc_some h
  · exact ⟨a, h, ha, .inr ⟨miss, rfl⟩⟩
  · obtain ⟨monitor, rfl⟩ | rfl := Phase.signal_some hb
    · exact ⟨b, live, monitor, .inl rfl⟩
    · cases ha

/-- A signal keeps the invariant. -/
lemma Inv.signal {s : State} (inv : Inv s) (targets : Finset Pid) : Inv (s.signal targets) := by
  constructor
  · intro p q a b hp ha hq hb
    exact inv.one_starter (starter_of_signal hp ha) ha (starter_of_signal hq hb) hb
  · intro p q a b hp ha hq hb
    obtain ⟨c, hp, hc, -⟩ := monitor_of_signal hp ha
    obtain ⟨d, hq, hd, -⟩ := monitor_of_signal hq hb
    exact inv.one_monitor hp hc hq hd
  · intro p m a b hp ha hm hb
    obtain ⟨c, hm, hc, hbc⟩ := monitor_of_signal hm hb
    have covers := inv.covers (starter_of_signal hp ha) ha hm hc
    obtain rfl | ⟨-, rfl⟩ := hbc
    · exact covers.stopping
    · exact covers

/-! ## Steps -/

/-- Where nothing is pending there is no starter. -/
lemma no_starter {s : State} (settled : ∀ q, ¬ Pending s q) {q : Pid} {a : Phase}
    (hq : s.proc q = some a) : ¬ a.Starter :=
  fun ha => settled q ⟨a, hq, .inl ha⟩

/-- And the pidfile names the monitor. -/
lemma monitor_named {s : State} (settled : ∀ q, ¬ Pending s q) {q : Pid} {a : Phase}
    (hq : s.proc q = some a) (ha : a.Monitor) : s.pidfile = some q :=
  by_contra fun ne => settled q ⟨a, hq, .inr ⟨ha, ne⟩⟩

/-- An invocation of `start` or `run` goes on: there is no monitor, as `daemon_status` would have seen
it. -/
lemma no_monitor {s : State} (settled : ∀ q, ¬ Pending s q) (status : s.status = false) {q : Pid}
    {a : Phase} (hq : s.proc q = some a) : ¬ a.Monitor := by
  intro ha
  rw [status_of_pidfile (monitor_named settled hq ha) hq] at status
  cases status

section Check
variable {s s' : State} {p : Pid}

/-- A check that goes on to `daemonize`. -/
lemma Inv.pass_start (inv : Inv s) (settled : ∀ q, ¬ Pending s q) (status : s.status = false) :
    Inv (s.set p (some .starting)) := by
  apply inv.set_starter .starting
  · intro q a hq ha
    exact absurd ha (no_starter settled hq)
  · intro m b hm hb
    exact absurd hb (no_monitor settled status hm)

/-- A check that goes on to the sampling loop. -/
lemma Inv.pass_run (inv : Inv s) (settled : ∀ q, ¬ Pending s q) (status : s.status = false) :
    Inv (s.set p (some .ready)) := by
  apply inv.set_monitor .ready
  · intro m b hm hb
    exact absurd hb (no_monitor settled status hm)
  · intro q a hq ha
    exact absurd ha (no_starter settled hq)

/-- An invocation of `restart` goes on: the monitor is the one the pidfile names. -/
lemma Inv.pass_restart (inv : Inv s) (settled : ∀ q, ¬ Pending s q) :
    Inv (s.set p (some (.stopBegin true))) := by
  apply inv.set_starter .stopBegin
  · intro q a hq ha
    exact absurd ha (no_starter settled hq)
  · intro m b hm hb
    rw [monitor_named settled hm hb]
    exact .stopBegin

/-- `daemon_status` in the `daemon_stop` of a restart. -/
lemma Inv.stop_status (inv : Inv s) {pid : Option Pid} (hp : s.proc p = some (.stopRead true pid)) :
    Inv (s.set p (if s.status then some (.killing true pid) else afterStop true)) := by
  cases status : s.status with
  | true =>
    refine inv.starter_step hp .stopRead .killing fun m b hm covers => ?_
    generalize s.pidfile = file at covers ⊢
    cases covers
    exact .killing
  | false =>
    refine inv.starter_step hp .stopRead .starting fun m b hm covers => ?_
    -- a daemon that is still there would have been found running
    generalize file : s.pidfile = f at covers
    cases covers
    rw [status_of_pidfile file hm] at status
    cases status

/-- The mode switch, and `daemon_status` in `daemon_stop`. -/
lemma Inv.check (inv : Inv s) (quiet : Undisturbed s (.check p))
    (h : step s (.check p) = some s') : Inv s' := by
  dsimp only [step] at h
  split at h
  next hp =>
    cases h
    cases status : s.status with
    | true => exact inv.set_none p
    | false => exact inv.pass_start (quiet p rfl (.start hp status)) status
  next hp =>
    cases h
    cases status : s.status with
    | true => exact inv.set_none p
    | false => exact inv.pass_run (quiet p rfl (.run hp status)) status
  next =>
    cases h
    exact inv.set_some p nofun nofun
  next hp =>
    cases h
    cases status : s.status with
    | true => exact inv.pass_restart (quiet p rfl (.restart hp status))
    | false => exact inv.set_none p
  next restart pid hp =>
    cases h
    cases restart with
    | true => exact inv.stop_status hp
    | false =>
      cases status : s.status with
      | true => exact inv.set_some p nofun nofun
      | false => exact inv.set_none p
  next => cases h

end Check

/-- The reading of the pid in `daemon_stop`. -/
lemma Inv.read {s s' : State} (inv : Inv s) {p : Pid} (h : step s (.read p) = some s') : Inv s' := by
  dsimp only [step] at h
  split at h
  next restart hp =>
    cases h
    cases restart with
    | false =>
      exact inv.set_some p nofun nofun
    | true =>
      refine inv.starter_step hp .stopBegin .stopRead fun m b hm covers => ?_
      generalize s.pidfile = file at covers ⊢
      cases covers
      exact .stopRead
  next => cases h

/-- The `kill` of `daemon_stop`. -/
lemma Inv.kill {s s' : State} (inv : Inv s) {p : Pid} {garbage : Finset Pid}
    (h : step s (.kill p garbage) = some s') : Inv s' := by
  dsimp only [step] at h
  split at h
  next restart pid hp =>
    split at h
    next =>
      cases h
      exact inv.signal _
    next =>
      cases h
      cases restart with
      | false =>
        exact (inv.signal _).set_some p nofun nofun
      | true =>
        refine (inv.signal _).set_starter .sleeping (fun q a hq ha => ?_) fun m b hm hb => ?_
        · exact inv.one_starter (starter_of_signal hq ha) ha hp .killing
        · obtain ⟨c, hm, hc, hbc⟩ := monitor_of_signal hm hb
          have covers := inv.covers hp .killing hm hc
          show Covers _ s.pidfile m b
          generalize s.pidfile = file at covers ⊢
          cases covers
          have hit : m ∈ targetsOf (some m) garbage := Finset.mem_singleton_self m
          obtain rfl | ⟨miss, -⟩ := hbc
          · exact .sleeping hit
          · exact absurd hit miss
  next => cases h

/-- The end of the `sleep` in `daemon_stop`. -/
lemma Inv.wake {s s' : State} (inv : Inv s) {p : Pid} (h : step s (.wake p) = some s') : Inv s' := by
  dsimp only [step] at h
  split at h
  next restart targets hp =>
    split at h
    next gone =>
      cases h
      cases restart with
      | false => exact inv.set_none p
      | true =>
        refine inv.starter_step hp .sleeping .starting fun m b hm covers => ?_
        cases covers with
        | sleeping hit => exact absurd hm (gone m hit)
    next => cases h
  next => cases h

/-- The `fork` of `daemonize`. -/
lemma Inv.fork {s s' : State} (inv : Inv s) {p child : Pid}
    (h : step s (.fork p child) = some s') : Inv s' := by
  dsimp only [step] at h
  split at h
  next hp =>
    split at h
    next free =>
      cases h
      have alone {m b} (hm : s.proc m = some b) : ¬ b.Monitor := by
        intro hb
        cases inv.covers hp .starting hm hb
      have parent : Inv (s.set p (some (.forked child))) :=
        inv.starter_step hp .starting .forked fun m b hm covers => by cases covers
      refine parent.set_monitor .ready (fun q b hq hb => ?_) fun q a hq ha => ?_
      · obtain ⟨-, e⟩ | ⟨-, hq⟩ := set_proc_some hq
        · cases e
          cases hb
        · exact absurd hb (alone hq)
      · obtain ⟨-, e⟩ | ⟨ne, hq⟩ := set_proc_some hq
        · cases e
          exact .forked
        · exact absurd (inv.one_starter hq ha hp .starting) ne
    next => cases h
  next => cases h

/-- The parent's write of the pidfile, and its exit. -/
lemma Inv.write {s s' : State} (inv : Inv s) {p : Pid} (h : step s (.write p) = some s') :
    Inv s' := by
  dsimp only [step] at h
  split at h
  next child hp =>
    cases h
    have starter {q a} (hq : (s.set p none).proc q = some a) : ¬ a.Starter := by
      intro ha
      obtain ⟨-, e⟩ | ⟨ne, hq⟩ := set_proc_some hq
      · cases e
      · exact ne (inv.one_starter hq ha hp .forked)
    constructor
    · intro q r a b hq ha
      exact absurd ha (starter hq)
    · exact (inv.set_none p).one_monitor
    · intro q m a b hq ha
      exact absurd ha (starter hq)
  next => cases h

/-- The pidfile is written before the loop. -/
lemma Inv.enter {s s' : State} (inv : Inv s) {p : Pid} (h : step s (.enter p) = some s') :
    Inv s' := by
  dsimp only [step] at h
  split at h
  next hp =>
    cases h
    refine inv.set_monitor .sampling (fun q b hq hb => ?_) fun q a hq ha => ?_
    · exact inv.one_monitor hq hb hp .ready
    · exact (inv.covers hq ha hp .ready).enter
  next => cases h

/-- One step. -/
lemma Inv.step {s s' : State} {l : Label} (inv : Inv s) (quiet : Undisturbed s l)
    (h : step s l = some s') : Inv s' := by
  cases l with
  | spawn p mode =>
    dsimp only [Lifecycle.step] at h
    split at h
    next =>
      cases h
      exact inv.set_some p nofun nofun
    next => cases h
  | check p => exact inv.check quiet h
  | read p => exact inv.read h
  | kill p garbage => exact inv.kill h
  | wake p => exact inv.wake h
  | fork p child => exact inv.fork h
  | write p => exact inv.write h
  | enter p => exact inv.enter h
  | leave p =>
    dsimp only [Lifecycle.step] at h
    split at h
    next =>
      cases h
      exact inv.set_some p nofun nofun
    next => cases h
  | exit p =>
    dsimp only [Lifecycle.step] at h
    split at h
    next => cases h
    next =>
      cases h
      exact inv.set_none p

/-! ## Runs -/

/-- At first there is no process. -/
lemma Inv.init (pidfile : Option Pid) : Inv (State.init pidfile) := by
  constructor
  · intro p q a b hp
    cases hp
  · intro p q a b hp
    cases hp
  · intro p m a b hp
    cases hp

/-- A run. -/
lemma Inv.exec {s s' : State} {ls : List Label} (inv : Inv s) (quiet : Quiet s ls)
    (run : exec s ls = some s') : Inv s' := by
  induction ls generalizing s with
  | nil =>
    cases run
    exact inv
  | cons l ls ih =>
    obtain ⟨t, first, rest⟩ := Option.bind_eq_some_iff.mp run
    exact ih (inv.step quiet.1 first) (quiet.2 t first) rest

/-- What the invariant is for. -/
lemma Inv.oneMonitor {s : State} (inv : Inv s) : OneMonitor s := by
  have monitor {a : Phase} (ha : a.InLoop) : a.Monitor := by
    obtain rfl | rfl := ha
    · exact .sampling
    · exact .stopping
  intro p q a b hp ha hq hb
  exact inv.one_monitor hp (monitor ha) hq (monitor hb)

/-- A run with one step in front. -/
lemma Quiet.cons {s t : State} {l : Label} {ls : List Label} (undisturbed : Undisturbed s l)
    (first : step s l = some t) (quiet : Quiet t ls) : Quiet s (l :: ls) := by
  refine ⟨undisturbed, fun s' h => ?_⟩
  rw [first] at h
  cases h
  exact quiet

/-- Only checks are disturbed. -/
lemma undisturbed_of_ne {s : State} {l : Label} (ne : ∀ p, l ≠ .check p) : Undisturbed s l :=
  fun p h => absurd h (ne p)

/-- The check of the mode switch, when every other process is a monitor the pidfile names. -/
lemma undisturbed_of_named {s : State} {p : Pid}
    (named : ∀ q a, s.proc q = some a → q ≠ p → a.Monitor ∧ s.pidfile = some q) :
    Undisturbed s (.check p) := by
  intro q e passes r pending
  cases e
  obtain ⟨a, hr, starter | ⟨monitor, ne⟩⟩ := pending
  · rcases eq_or_ne r p with rfl | other
    · cases passes with
      | start begin | run begin | restart begin =>
        cases begin.symm.trans hr
        cases starter
    · exact (named r a hr other).1.not_starter starter
  · rcases eq_or_ne r p with rfl | other
    · cases passes with
      | start begin | run begin | restart begin =>
        cases begin.symm.trans hr
        cases monitor
    · exact ne (named r a hr other).2

/-- `daemon_status` in `daemon_stop`. -/
lemma undisturbed_of_stopRead {s : State} {p : Pid} {restart : Bool} {pid : Option Pid}
    (hp : s.proc p = some (.stopRead restart pid)) : Undisturbed s (.check p) := by
  intro q e passes
  cases e
  cases passes with
  | start begin | run begin | restart begin => cases hp.symm.trans begin

/-- In a run all of whose steps are undisturbed, at most one process is in the sampling loop. -/
theorem oneMonitor_of_quiet {pidfile : Option Pid} {ls : List Label} {s : State}
    (quiet : Quiet (State.init pidfile) ls) (run : exec (State.init pidfile) ls = some s) :
    OneMonitor s :=
  ((Inv.init pidfile).exec quiet run).oneMonitor

/-- A daemon is started and then restarted. -/
def restarted : List Label :=
  [.spawn 1 .start, .check 1, .fork 1 2, .write 1, .enter 2,
    .spawn 3 .restart, .check 3, .read 3, .check 3, .kill 3 ∅, .leave 2, .exit 2, .wake 3,
    .fork 3 4, .write 3, .enter 4]

/-- The run of the example is quiet. -/
lemma quiet_restarted : Quiet (State.init none) restarted := by
  unfold restarted
  refine .cons (undisturbed_of_ne nofun) rfl ?_
  refine .cons (undisturbed_of_named fun q a hq ne => ?_) rfl ?_
  · obtain ⟨rfl, -⟩ | ⟨-, hq⟩ := set_proc_some hq
    · exact absurd rfl ne
    · cases hq
  iterate 4 refine .cons (undisturbed_of_ne nofun) rfl ?_
  refine .cons (undisturbed_of_named fun q a hq ne => ?_) rfl ?_
  · obtain ⟨rfl, -⟩ | ⟨-, hq⟩ := set_proc_some hq
    · exact absurd rfl ne
    · obtain ⟨rfl, e⟩ | ⟨notDaemon, hq⟩ := set_proc_some hq
      · cases e
        exact ⟨.sampling, rfl⟩
      · -- nobody else is left after the write
        obtain ⟨-, e⟩ | ⟨notStarter, hq⟩ := set_proc_some (s := State.set _ _ _) (x := none) hq
        · cases e
        · obtain ⟨e, -⟩ | ⟨-, hq⟩ := set_proc_some hq
          · exact absurd e notDaemon
          · iterate 3 rw [set_proc_of_ne _ _ notStarter] at hq
            cases hq
  refine .cons (undisturbed_of_ne nofun) rfl ?_
  refine .cons (undisturbed_of_stopRead rfl) rfl ?_
  iterate 7 refine .cons (undisturbed_of_ne nofun) rfl ?_
  trivial

/-- A monitor that has been restarted. -/
theorem oneMonitor_restarted :
    ∃ s, exec (State.init none) restarted = some s ∧ s.proc 4 = some .sampling ∧ OneMonitor s :=
  ⟨_, rfl, rfl, oneMonitor_of_quiet quiet_restarted rfl⟩

/-- Two invocations of `run`, one after the other: `run` checks the pidfile and never writes it. And two
invocations of `start`, the second of which makes its check before the first has written the pidfile. -/
theorem not_oneMonitor :
    (∃ s, exec (State.init none)
        [.spawn 1 .run, .check 1, .enter 1, .spawn 2 .run, .check 2, .enter 2] = some s ∧
      ¬ OneMonitor s) ∧
    ∃ s, exec (State.init none)
        [.spawn 1 .start, .spawn 2 .start, .check 1, .check 2, .fork 1 3, .fork 2 4, .write 1,
          .write 2, .enter 3, .enter 4] = some s ∧
      ¬ OneMonitor s := by
  refine ⟨⟨_, rfl, fun one => ?_⟩, ⟨_, rfl, fun one => ?_⟩⟩
  · cases one 1 2 .sampling .sampling rfl (.inl rfl) rfl (.inl rfl)
  · cases one 3 4 .sampling .sampling rfl (.inl rfl) rfl (.inl rfl)

end Powmon.Lifecycle
