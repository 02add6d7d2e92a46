import Mathlib

/-!
# Invocations of the daemon

`pow_mon run`, `start`, `stop` and `restart` of `powmon/bin/pow_mon.c`, any number of them on one host
with one pidfile: what `main`'s switch over the modes, `daemonize`, `daemon_stop` and `daemon_status`
do to the pidfile and to each other's processes, in steps that may interleave in any order.

The state is the pidfile and the phase of every live `pow_mon` process, by its pid, so live processes
have distinct pids, and a pid may be used again after its process exited. `daemon_status` finds a
process running if the pidfile names a live `pow_mon` process, whatever that one is doing.

What the steps leave to the environment:

* `exit` may happen in every phase: a detection fails, the connection is given up, the process is
  killed;
* `daemon_stop` reads the pidfile twice, for the pid it kills and inside `daemon_status`; without a
  pidfile the first time, the pid is what the stack holds, and the signal may hit any processes;
* a signal ends a process that has not installed its handler; one in the sampling loop is `stopping`
  from then on, and the sleep of `daemon_stop` does not end before it has left the loop (`enter` is
  the installation and `keepRunning = 1` at once: a signal between the two would be lost).
-/

namespace Powmon.Lifecycle

abbrev Pid := Nat

/-- The modes of `main` that are modelled. -/
inductive Mode where
  | start
  | run
  | stop
  | restart
deriving DecidableEq

/-- What a process is about to do. In the phases of `daemon_stop`, `restart` says which mode called
it. -/
inductive Phase where
  /-- The mode switch. -/
  | begin (mode : Mode)
  /-- `fork` in `daemonize`. -/
  | starting
  /-- The parent's write of the pidfile. -/
  | forked (child : Pid)
  /-- The reading of the pid in `daemon_stop`. -/
  | stopBegin (restart : Bool)
  /-- Its call of `daemon_status`. -/
  | stopRead (restart : Bool) (pid : Option Pid)
  /-- Its `kill`. -/
  | killing (restart : Bool) (pid : Option Pid)
  /-- The end of its `sleep`. -/
  | sleeping (restart : Bool) (targets : Finset Pid)
  /-- The sampling loop, after the set-up. -/
  | ready
  /-- In the sampling loop. -/
  | sampling
  /-- In the sampling loop, with `keepRunning` at `0`. -/
  | stopping
  /-- The exit, after the loop. -/
  | left
deriving DecidableEq

/-- The pidfile, if there is one, and the `pow_mon` processes. -/
structure State where
  pidfile : Option Pid
  proc : Pid → Option Phase

/-- No processes, and a pidfile from before. -/
def State.init (pidfile : Option Pid) : State := ⟨pidfile, fun _ => none⟩

def State.set (s : State) (p : Pid) (phase : Option Phase) : State :=
  { s with proc := Function.update s.proc p phase }

/-- `daemon_status`. -/
def State.status (s : State) : Bool :=
  match s.pidfile with
  | none => false
  | some p => (s.proc p).isSome

/-- `SIGINT`, for a process in this phase. -/
def Phase.signal : Phase → Option Phase
  | .sampling => some .stopping
  | .stopping => some .stopping
  | .left => some .left
  | _ => none

/-- `SIGINT` for these processes. -/
def State.signal (s : State) (targets : Finset Pid) : State :=
  { s with proc := fun p => if p ∈ targets then (s.proc p).bind Phase.signal else s.proc p }

/-- The processes that `kill(pid_, SIGINT)` hits; `garbage` are those of an unassigned `pid_`. -/
def targetsOf (pid : Option Pid) (garbage : Finset Pid) : Finset Pid :=
  match pid with
  | none => garbage
  | some p => {p}

/-- What follows `daemon_stop`. -/
def afterStop (restart : Bool) : Option Phase := if restart then some .starting else none

/-- The steps, by the process that makes them. -/
inductive Label where
  | spawn (p : Pid) (mode : Mode)
  | check (p : Pid)
  | read (p : Pid)
  | kill (p : Pid) (garbage : Finset Pid)
  | wake (p : Pid)
  | fork (p child : Pid)
  | write (p : Pid)
  | enter (p : Pid)
  | leave (p : Pid)
  | exit (p : Pid)
deriving DecidableEq

/-- One step, if it is possible. `check` is the switch over the modes, and the call of `daemon_status`
in `daemon_stop`. -/
def step (s : State) : Label → Option State
  | .spawn p mode =>
    if s.proc p = none then some (s.set p (some (.begin mode))) else none
  | .check p =>
    match s.proc p with
    | some (.begin .start) => some (s.set p (if s.status then none else some .starting))
    | some (.begin .run) => some (s.set p (if s.status then none else some .ready))
    | some (.begin .stop) => some (s.set p (some (.stopBegin false)))
    | some (.begin .restart) => some (s.set p (if s.status then some (.stopBegin true) else none))
    | some (.stopRead restart pid) =>
      some (s.set p (if s.status then some (.killing restart pid) else afterStop restart))
    | _ => none
  | .read p =>
    match s.proc p with
    | some (.stopBegin restart) => some (s.set p (some (.stopRead restart s.pidfile)))
    | _ => none
  | .kill p garbage =>
    match s.proc p with
    | some (.killing restart pid) =>
      let targets := targetsOf pid garbage
      -- a process that hits itself is gone
      if p ∈ targets then some (s.signal targets)
      else some ((s.signal targets).set p (some (.sleeping restart targets)))
    | _ => none
  | .wake p =>
    match s.proc p with
    | some (.sleeping restart targets) =>
      if ∀ q ∈ targets, s.proc q ≠ some .stopping then some (s.set p (afterStop restart)) else none
    | _ => none
  | .fork p child =>
    match s.proc p with
    | some .starting =>
      if s.proc child = none then
        some ((s.set p (some (.forked child))).set child (some .ready))
      else none
    | _ => none
  | .write p =>
    match s.proc p with
    | some (.forked child) => some { s.set p none with pidfile := some child }
    | _ => none
  | .enter p => if s.proc p = some .ready then some (s.set p (some .sampling)) else none
  | .leave p =>
    if s.proc p = some .sampling ∨ s.proc p = some .stopping then some (s.set p (some .left))
    else none
  | .exit p => if s.proc p = none then none else some (s.set p none)

/-- A run. -/
def exec (s : State) (ls : List Label) : Option State := ls.foldlM step s

/-- In the sampling loop. -/
def Phase.InLoop (a : Phase) : Prop := a = .sampling ∨ a = .stopping

/-- At most one process is in the sampling loop. -/
def OneMonitor (s : State) : Prop :=
  ∀ p q a b, s.proc p = some a → a.InLoop → s.proc q = some b → b.InLoop → p = q

@[simp]
lemma set_proc_self (s : State) (p : Pid) (x : Option Phase) : (s.set p x).proc p = x :=
  Function.update_self ..

lemma set_proc_of_ne (s : State) {p q : Pid} (x : Option Phase) (h : q ≠ p) :
    (s.set p x).proc q = s.proc q := Function.update_of_ne h ..

@[simp]
lemma set_pidfile (s : State) (p : Pid) (x : Option Phase) : (s.set p x).pidfile = s.pidfile := rfl

end Powmon.Lifecycle
