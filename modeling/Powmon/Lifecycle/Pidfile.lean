import Powmon.Lib.Scan
import Powmon.Lifecycle.Protocol

/-!
# The pidfile as text

`daemon_status` and `daemon_stop` of `powmon/bin/pow_mon.c` on the contents of the pidfile and of the
files under `/proc`. Both take the first word of the pidfile: `daemon_status` puts it into the path
`/proc/%s/comm` and looks whether a name that begins with `pow_mon` is found there, `daemon_stop` turns
it into a number by `atoi` and sends `SIGINT` to that number if `daemon_status` is content.

* `onlyMonitors_iff_harmless`: when the process that is signalled is a monitor, for every word and every
  `/proc`;
* `daemonStop_iff`: the two readings agree, whatever `/proc` holds, exactly for the numerals of pids; a
  word like `self` names an entry of `/proc` without being its number;
* `daemonStatus_eq_status`: with a pidfile that `daemonize` wrote, this is the check of the protocol in
  `Lifecycle/Protocol.lean`.

C → Lean naming: the locals of both functions that may be read before they are set are `Locals`. An
array that is overrun is the outcome `none`. What can be opened under `/proc` is a function from paths
to contents.
-/

namespace Powmon.Lifecycle
open Lib

/-! ## The functions -/

/-- The size of `cmd`, `pid` and `name`. -/
def arraySize : Nat := 100

/-- What the arrays, as strings, and the `pid_` of `daemon_stop` hold before they are assigned. -/
structure Locals where
  stopPid : Text
  stopPidNum : ℤ
  statusPid : Text
  name : Text

/-- The files that can be opened. -/
abbrev Files := Text → Option Text

/-- `fscanf(fp, "%s", array)`: the string the array then holds, which is the old one if the file has
no word. -/
def scanInto (held file : Text) : Option Text :=
  match scanStr file with
  | none => some held
  | some (w, _) => if w.length < arraySize then some (cString w) else none

/-- `/proc/%s/comm`. -/
def commPath (pid : Text) : Text := "/proc/".toList ++ (pid ++ "/comm".toList)

/-- `sprintf(cmd, "/proc/%s/comm", pid)`. -/
def sprintfComm (pid : Text) : Option Text :=
  if (commPath pid).length < arraySize then some (commPath pid) else none

/-- What `comm` of a monitor begins with. -/
def powMon : Text := "pow_mon".toList

/-- The part of `daemon_status` after it has read the pidfile. `strncmp` compares as many characters
as `pow_mon` has. -/
def checkComm (loc : Locals) (files : Files) (pid : Text) : Option Bool := do
  let cmd ← sprintfComm pid
  match files cmd with
  | none => return false
  | some comm =>
    let name ← scanInto loc.name comm
    return powMon.isPrefixOf name

/-- `daemon_status`, for the contents of the pidfile if there is one. -/
def daemonStatus (loc : Locals) (files : Files) (pidfile : Option Text) : Option Bool :=
  match pidfile with
  | none => some false
  | some file => do
    let pid ← scanInto loc.statusPid file
    checkComm loc files pid

/-- What `daemon_stop` returns, and the numbers it has sent `SIGINT` to. -/
structure Stopped where
  ret : ℤ
  kills : List ℤ
deriving DecidableEq

/-- `daemon_stop`. What it has set `ret` to by itself is replaced after the call of `daemon_status`. -/
def daemonStop (loc : Locals) (files : Files) (pidfile : Option Text) : Option Stopped := do
  let pid ←
    match pidfile with
    | none => some loc.stopPidNum
    | some file => (scanInto loc.stopPid file).map atoi
  let running ← daemonStatus loc files pidfile
  return if running then ⟨1, [pid]⟩ else ⟨0, []⟩

/-! ## What is meant -/

/-- The word is what `daemonize` writes for a process id. -/
def IsPid (w : Text) : Prop := ∃ n, 0 < n ∧ n < 2 ^ 31 ∧ w = fmtNat n

/-- `/proc/<w>/comm` exists, and its first word begins with `pow_mon`. -/
def IsMonitor (files : Files) (w : Text) : Prop :=
  ∃ comm x r, files (commPath w) = some comm ∧ scanStr comm = some (x, r) ∧
    powMon.isPrefixOf (cString x)

/-- `/proc/<w>/comm` exists, and has no word. -/
def Blank (files : Files) (w : Text) : Prop :=
  ∃ comm, files (commPath w) = some comm ∧ scanStr comm = none

/-- The check for the word `w` can be passed: by a monitor, or by a blank file that leaves in `name` what
was there before. -/
def Leads (loc : Locals) (files : Files) (w : Text) : Prop :=
  IsMonitor files w ∨ Blank files w ∧ powMon.isPrefixOf loc.name

/-- The check for the word `w` overruns neither `cmd` nor `name`. -/
structure Fits (files : Files) (w : Text) : Prop where
  cmd : (commPath w).length < arraySize
  name : ∀ comm x r, files (commPath w) = some comm → scanStr comm = some (x, r) →
    x.length < arraySize

/-- With the word `w` in the pidfile, the signal can only go to a monitor. -/
structure Harmless (loc : Locals) (files : Files) (w : Text) : Prop where
  fits : Fits files w
  /-- A blank name is not taken for what was in the array before. -/
  pid : IsPid w → Blank files w → ¬ powMon.isPrefixOf loc.name
  /-- Another word that leads somewhere begins with the number of a monitor. -/
  other : ¬ IsPid w → Leads loc files w →
    ∃ n : Nat, 0 < n ∧ atoi w = n ∧ IsMonitor files (fmtNat n)

/-! ## The check -/

section Check
variable {loc : Locals} {files : Files} {w : Text}

/-- There is no such process. -/
lemma checkComm_of_absent (hc : (commPath w).length < arraySize) (ha : files (commPath w) = none) :
    checkComm loc files w = some false := by
  rw [checkComm, sprintfComm, if_pos hc]
  simp [ha]

/-- There is one. -/
lemma checkComm_of_found {comm : Text} (hc : (commPath w).length < arraySize)
    (hf : files (commPath w) = some comm) :
    checkComm loc files w = (scanInto loc.name comm).map (powMon.isPrefixOf ·) := by
  rw [checkComm, sprintfComm, if_pos hc]
  simp [hf, Option.map_eq_bind]

/-- The check comes to a result exactly if nothing is overrun. -/
lemma checkComm_isSome_iff : (checkComm loc files w).isSome ↔ Fits files w := by
  by_cases hc : (commPath w).length < arraySize
  · cases hf : files (commPath w) with
    | none =>
      rw [checkComm_of_absent hc hf]
      refine ⟨fun _ => ⟨hc, ?_⟩, fun _ => rfl⟩
      rw [hf]
      nofun
    | some comm =>
      rw [checkComm_of_found hc hf, Option.isSome_map, scanInto]
      cases hs : scanStr comm with
      | none =>
        refine ⟨fun _ => ⟨hc, ?_⟩, fun _ => rfl⟩
        intro comm' x r hf' hs'
        rw [hf] at hf'
        cases hf'
        rw [hs] at hs'
        cases hs'
      | some word =>
        obtain ⟨x, r⟩ := word
        dsimp only
        split
        · next hx =>
          refine ⟨fun _ => ⟨hc, ?_⟩, fun _ => rfl⟩
          intro comm' x' r' hf' hs'
          rw [hf] at hf'
          cases hf'
          rw [hs] at hs'
          cases hs'
          exact hx
        · next hx => exact ⟨nofun, fun fits => absurd (fits.name comm x r hf hs) hx⟩
  · rw [checkComm, sprintfComm, if_neg hc]
    exact ⟨nofun, fun fits => absurd fits.cmd hc⟩

/-- What the check finds, if nothing is overrun. -/
lemma checkComm_eq_true_iff (fits : Fits files w) :
    checkComm loc files w = some true ↔ Leads loc files w := by
  rw [Leads]
  cases hf : files (commPath w) with
  | none =>
    rw [checkComm_of_absent fits.cmd hf]
    simp [IsMonitor, Blank, hf]
  | some comm =>
    rw [checkComm_of_found fits.cmd hf, scanInto]
    cases hs : scanStr comm with
    | none => simp [IsMonitor, Blank, hf, hs]
    | some word =>
      obtain ⟨x, r⟩ := word
      have hx := fits.name comm x r hf hs
      simp [IsMonitor, Blank, hf, hs, hx]

/-- A blank name is no monitor's. -/
lemma not_isMonitor_of_blank (h : Blank files w) : ¬ IsMonitor files w := by
  obtain ⟨comm, hf, hs⟩ := h
  rintro ⟨comm', x, r, hf', hs', -⟩
  rw [hf] at hf'
  cases hf'
  rw [hs] at hs'
  cases hs'

/-- For the numeral of a pid, path and number are those of one process. -/
lemma checkComm_of_isPid (hw : IsPid w) :
    ∃ n : Nat, 0 < n ∧ atoi w = n ∧ fmtNat n = w := by
  obtain ⟨n, pos, lt, rfl⟩ := hw
  exact ⟨n, pos, atoi_fmtNat lt, rfl⟩

end Check

/-! ## The words of `daemonize` -/

/-- Every file has a word, which fits into `name`. -/
def Named (files : Files) : Prop :=
  ∀ path comm, files path = some comm → ∃ x r, scanStr comm = some (x, r) ∧ x.length < arraySize

/-- The file that `daemonize` writes. -/
def pidLine (p : Pid) : Text := fmtNat p ++ ['\n']

/-- How long the path is. -/
lemma length_commPath (w : Text) : (commPath w).length = w.length + 11 := by
  unfold commPath
  simp

/-- Each word has its own path. -/
lemma commPath_inj {v w : Text} (h : commPath v = commPath w) : v = w :=
  List.append_cancel_right (List.append_cancel_left h)

/-- A number is a C string. -/
lemma cString_fmtNat (n : Nat) : cString (fmtNat n) = fmtNat n :=
  cString_eq_self (fmtNat_plain n).2

/-- A pid is read as it was written. -/
lemma scanStr_pidLine (p : Pid) : scanStr (pidLine p) = some (fmtNat p, ['\n']) := by
  have word : ∀ c ∈ fmtNat p, isSpace c = false := fun c hc =>
    isSpace_of_isNumChar (isNumChar_of_isDigit (isDigit_fmtNat hc))
  exact @scanStr_append [] (fmtNat p) ['\n'] nofun word (fmtNat_ne_nil p) (by simp [isSpace])

/-- The numerals of pids are short. -/
lemma length_pid_lt {n : Nat} (h : n < 2 ^ 31) : (fmtNat n).length < 11 :=
  Nat.lt_succ_of_le ((length_fmtNat_le_iff (by decide)).mpr (h.trans (by norm_num)))

/-- A kernel's name fits the buffer. -/
lemma fits_of_named {files : Files} (h : Named files) {n : Nat} (hn : n < 2 ^ 31) :
    Fits files (fmtNat n) := by
  refine ⟨?_, ?_⟩
  · have short := length_pid_lt hn
    rw [length_commPath, arraySize]
    omega
  · intro comm x r hf hs
    obtain ⟨x', r', hs', short⟩ := h _ comm hf
    rw [hs] at hs'
    cases hs'
    exact short

/-- And is not blank. -/
lemma not_blank_of_named {files : Files} (h : Named files) (w : Text) : ¬ Blank files w := by
  rintro ⟨comm, hf, hs⟩
  obtain ⟨x, r, hs', -⟩ := h _ comm hf
  rw [hs] at hs'
  cases hs'

/-- A pid is an `int`. -/
lemma atoi_lt (w : Text) : atoi w < 2 ^ 31 := BitVec.toInt_lt

/-- The files of a host with an entry of a monitor at each of these paths, and nothing else. -/
def monitorsAt (paths : List Text) : Files := fun path =>
  if path ∈ paths then some (powMon ++ ['\n']) else none

/-- The name of a monitor is read. -/
lemma scanStr_powMon : scanStr (powMon ++ ['\n']) = some (powMon, ['\n']) := by decide

/-- The files of the examples are a kernel's. -/
lemma named_monitorsAt (paths : List Text) : Named (monitorsAt paths) := by
  intro path comm hf
  obtain ⟨-, rfl⟩ := Option.ite_some_none_eq_some.mp hf
  exact ⟨_, _, scanStr_powMon, by decide⟩

/-- Which of them are monitors. -/
lemma isMonitor_monitorsAt (paths : List Text) (w : Text) :
    IsMonitor (monitorsAt paths) w ↔ commPath w ∈ paths := by
  constructor
  · rintro ⟨comm, x, r, hf, -⟩
    exact (Option.ite_some_none_eq_some.mp hf).1
  · intro h
    exact ⟨_, _, _, if_pos h, scanStr_powMon, by decide⟩

/-- The words that are harmless whatever processes there are and whatever else the path may lead to:
exactly the numerals of pids. -/
lemma harmless_always_iff (w : Text) :
    (∀ loc files, Named files → Harmless loc files w) ↔ IsPid w := by
  constructor
  · intro h
    by_contra hw
    -- the word leads to a monitor, and no other one does
    have harmless := h ⟨[], 0, [], []⟩ _ (named_monitorsAt [commPath w])
    have monitor := (isMonitor_monitorsAt [commPath w] w).mpr (List.mem_singleton_self _)
    obtain ⟨n, pos, hn, signalled⟩ := harmless.other hw (.inl monitor)
    have path := List.mem_singleton.mp ((isMonitor_monitorsAt _ _).mp signalled)
    have lt := atoi_lt w
    rw [hn] at lt
    exact hw ⟨n, pos, by exact_mod_cast lt, (commPath_inj path).symm⟩
  · rintro ⟨n, pos, lt, rfl⟩ loc files named
    exact ⟨fits_of_named named lt, fun _ blank => absurd blank (not_blank_of_named named _),
      fun hw => absurd ⟨n, pos, lt, rfl⟩ hw⟩

/-! ## The signal -/

section Signal
variable {loc : Locals} {files : Files} {file w r : Text}

/-- Both functions go by the first word of the pidfile. -/
lemma daemonStop_of_word (hw : scanStr file = some (w, r)) (hlen : w.length < arraySize) :
    daemonStop loc files (some file) = (checkComm loc files (cString w)).map fun running =>
      if running then ⟨1, [atoi (cString w)]⟩ else ⟨0, []⟩ := by
  have scan : ∀ held, scanInto held file = some (cString w) := by
    intro held
    rw [scanInto, hw]
    exact if_pos hlen
  simp [daemonStop, daemonStatus, scan, Option.map_eq_bind]

/-- The signal of a check that has succeeded goes to a monitor exactly if the word is harmless. -/
lemma kill_iff_of_running (hc : checkComm loc files w = some true) :
    (0 < atoi w ∧ IsMonitor files (fmtInt (atoi w))) ↔ Harmless loc files w := by
  have fits : Fits files w := checkComm_isSome_iff.mp (Option.isSome_of_eq_some hc)
  have found := (checkComm_eq_true_iff fits).mp hc
  constructor
  · rintro ⟨pos, monitor⟩
    refine ⟨fits, ?_, ?_⟩
    · intro hw blank _
      obtain ⟨n, -, hn, rfl⟩ := checkComm_of_isPid hw
      rw [hn] at monitor
      exact not_isMonitor_of_blank blank monitor
    · intro _ _
      obtain ⟨n, hn⟩ := Int.eq_ofNat_of_zero_le pos.le
      rw [hn] at pos monitor
      exact ⟨n, by exact_mod_cast pos, hn, monitor⟩
  · intro h
    by_cases hw : IsPid w
    · obtain ⟨n, pos, hn, rfl⟩ := checkComm_of_isPid hw
      rw [hn]
      refine ⟨by exact_mod_cast pos, ?_⟩
      cases found with
      | inl monitor => exact monitor
      | inr stale => exact absurd stale.2 (h.pid hw stale.1)
    · obtain ⟨n, pos, hn, monitor⟩ := h.other hw found
      rw [hn]
      exact ⟨by exact_mod_cast pos, monitor⟩

end Signal

/-- `daemon_stop` on this pidfile stays within its arrays and signals only a positive number whose
`/proc/<pid>/comm` begins with `pow_mon`. -/
def OnlyMonitors (loc : Locals) (files : Files) (file : Text) : Prop :=
  ∃ stopped, daemonStop loc files (some file) = some stopped ∧
    ∀ pid ∈ stopped.kills, 0 < pid ∧ IsMonitor files (fmtInt pid)

/-- One call, for any word, any files under `/proc` and any memory. -/
lemma onlyMonitors_iff_harmless {loc : Locals} {files : Files} {file w r : Text}
    (hw : scanStr file = some (w, r)) (hlen : w.length < arraySize) :
    OnlyMonitors loc files file ↔ Harmless loc files (cString w) := by
  rw [OnlyMonitors, daemonStop_of_word hw hlen]
  cases hc : checkComm loc files (cString w) with
  | none =>
    refine ⟨nofun, fun h => ?_⟩
    have runs : (checkComm loc files (cString w)).isSome := checkComm_isSome_iff.mpr h.fits
    rw [hc] at runs
    cases runs
  | some running =>
    cases running with
    | false =>
      refine ⟨fun _ => ?_, fun _ => ⟨⟨0, []⟩, rfl, nofun⟩⟩
      have fits : Fits files (cString w) :=
        checkComm_isSome_iff.mp (Option.isSome_of_eq_some hc)
      have nowhere : ¬ Leads loc files (cString w) := by
        intro leads
        exact absurd (hc.symm.trans ((checkComm_eq_true_iff fits).mpr leads)) (by decide)
      refine ⟨fits, ?_, fun _ leads => absurd leads nowhere⟩
      intro _ blank stale
      exact nowhere (.inr ⟨blank, stale⟩)
    | true =>
      rw [← kill_iff_of_running hc]
      constructor
      · rintro ⟨stopped, e, h⟩
        cases e
        exact h _ (List.mem_singleton_self _)
      · intro h
        exact ⟨_, rfl, List.forall_mem_singleton.mpr h⟩

/-- For every pidfile with a first word of fewer than 100 bytes: `daemon_stop` signals only monitors
whatever `/proc` holds exactly if the word is the numeral of a pid. With such a word it does so for any
one `/proc` exactly if that process's `comm` fits into `name` and is not a blank file that leaves there
a name of old. -/
theorem daemonStop_iff (file w r : Text) (hw : scanStr file = some (w, r)) (hlen : w.length < 100) :
    ((∀ loc files, Named files → OnlyMonitors loc files file) ↔ IsPid (cString w)) ∧
    (IsPid (cString w) → ∀ loc files, OnlyMonitors loc files file ↔
      Fits files (cString w) ∧ (Blank files (cString w) → ¬ powMon.isPrefixOf loc.name)) := by
  have one : ∀ loc files, OnlyMonitors loc files file ↔ Harmless loc files (cString w) :=
    fun _ _ => onlyMonitors_iff_harmless hw hlen
  simp only [one]
  refine ⟨harmless_always_iff (cString w), ?_⟩
  intro pid loc files
  constructor
  · intro h
    exact ⟨h.fits, h.pid pid⟩
  · rintro ⟨fits, fresh⟩
    exact ⟨fits, fun _ => fresh, fun other => absurd pid other⟩

/-- `/proc` while `pow_mon` is running as process `4711`: its entry, and `self`. -/
def selfEntry : Files := monitorsAt [commPath "4711".toList, commPath "self".toList]

/-- With the pid in the pidfile, the signal goes to that process. -/
theorem daemonStop_pid :
    IsPid "4711".toList ∧ OnlyMonitors ⟨[], 0, [], []⟩ selfEntry "4711\n".toList := by
  have pid : IsPid "4711".toList := ⟨4711, by decide, by decide, by decide⟩
  have ⟨always, _⟩ := daemonStop_iff "4711\n".toList "4711".toList ['\n'] (by decide) (by decide)
  exact ⟨pid, always.mpr pid _ _ (named_monitorsAt _)⟩

/-- With `self` in the pidfile the check finds the process that makes it, and the signal goes to
number `0`, the whole process group. -/
theorem daemonStop_self :
    scanStr "self\n".toList = some ("self".toList, ['\n']) ∧ "self".toList.length < 100 ∧
    daemonStop ⟨[], 0, [], []⟩ selfEntry (some "self\n".toList) = some ⟨1, [0]⟩ ∧
    Named selfEntry ∧ ¬ OnlyMonitors ⟨[], 0, [], []⟩ selfEntry "self\n".toList := by
  have run : daemonStop ⟨[], 0, [], []⟩ selfEntry (some "self\n".toList) = some ⟨1, [0]⟩ := by
    decide
  refine ⟨by decide, by decide, run, named_monitorsAt _, ?_⟩
  rintro ⟨stopped, e, h⟩
  rw [run] at e
  cases e
  exact absurd (h 0 (List.mem_singleton_self 0)).1 (by decide)

/-! ## The check of the protocol -/

/-- The files under `/proc` of a host on which these are the `pow_mon` processes. -/
structure ShowsProcs (files : Files) (s : State) : Prop where
  named : Named files
  monitor : ∀ p, IsMonitor files (fmtNat p) ↔ (s.proc p).isSome

section Protocol
variable {files : Files} {s : State}

/-- Whether a process of the protocol is found. -/
lemma checkComm_fmtNat (loc : Locals) (h : ShowsProcs files s) {p : Pid} (hp : p < 2 ^ 31) :
    checkComm loc files (fmtNat p) = some (s.proc p).isSome := by
  have fits := fits_of_named h.named hp
  obtain ⟨running, hc⟩ := Option.isSome_iff_exists.mp (checkComm_isSome_iff.mpr fits)
  have found : checkComm loc files (fmtNat p) = some true ↔ _ := checkComm_eq_true_iff fits
  rw [Leads, h.monitor, hc] at found
  have same : running = true ↔ (s.proc p).isSome := by
    simpa [not_blank_of_named h.named] using found
  rw [hc, Bool.eq_iff_iff.mpr same]

/-- `daemon_status` is the check of the protocol, as long as `daemonize` wrote the pidfile. -/
theorem daemonStatus_eq_status (loc : Locals) (h : ShowsProcs files s)
    (hp : ∀ p, s.pidfile = some p → p < 2 ^ 31) :
    daemonStatus loc files (s.pidfile.map pidLine) = some s.status := by
  cases hf : s.pidfile with
  | none => simp [daemonStatus, State.status, hf]
  | some p =>
    have lt := hp p hf
    have short : (fmtNat p).length < arraySize := (length_pid_lt lt).trans (by decide)
    have scan : scanInto loc.statusPid (pidLine p) = some (fmtNat p) := by
      rw [scanInto, scanStr_pidLine]
      exact (if_pos short).trans (congrArg some (cString_fmtNat p))
    simp [daemonStatus, State.status, hf, scan, checkComm_fmtNat loc h lt]

/-- And `daemon_stop` signals the process that the pidfile names. -/
theorem daemonStop_eq_kill (loc : Locals) (h : ShowsProcs files s) {p : Pid}
    (hf : s.pidfile = some p) (hp : p < 2 ^ 31) :
    daemonStop loc files (some (pidLine p)) =
      some (if s.status then ⟨1, [(p : ℤ)]⟩ else ⟨0, []⟩) := by
  have short : (fmtNat p).length < arraySize := (length_pid_lt hp).trans (by decide)
  rw [daemonStop_of_word (scanStr_pidLine p) short, cString_fmtNat, checkComm_fmtNat loc h hp,
    atoi_fmtNat hp, State.status, hf]
  rfl

end Protocol

end Powmon.Lifecycle
