import Powmon.Lib.CString

/-!
# The command line of energy-app

`main` of `energy-app/pow_mon.c` up to its call of `system`: the loop that collects the program to
measure and its arguments in `cmdline`, and the steps behind it that may leave the program first.

The loop looks for `-v` and `-h` in every place of `argv`, also behind the program's name, where
`usage` has the arguments of the program. `system_iff` says which programs run.

C → Lean naming: `argv` is the list of the words behind the name of energy-app; the results of the
calls that follow the loop are a `Setup`.
-/

namespace Powmon.Energy
open Lib

/-! ## Model -/

/-- `char cmdline[8192]`. -/
def cmdlineSize : Nat := 8192

/-- How `main` ends without a measured program: by an option, by a step that fails, or by a write
behind the end of `cmdline`. -/
inductive Leave where
  | version
  | help
  | failure
  | overrun
deriving DecidableEq

/-- The loop over `argv`, with the array as it stands. -/
def readArgs : List Text → Text → Except Leave Text
  | [], cmdline => .ok cmdline
  | arg :: argv, cmdline =>
    if arg = "-v".toList then .error .version
    else if arg = "-h".toList then .error .help
    else
      match (strcat cmdline arg).bind fun arr => putEnd arr ' ' with
      | none => .error .overrun
      | some cmdline => readArgs argv cmdline

/-- What the calls between the loop and `system` make of the host: the results of `detect_cpu_model`
and of `detect_topology`, and whether `program_msr` and `init_msr_data` return. -/
structure Setup where
  cpuModel : ℤ
  topology : ℤ
  msrs : Bool

/-- No step leaves the program. -/
structure Setup.Ready (host : Setup) : Prop where
  cpuModel : 0 ≤ host.cpuModel
  topology : host.topology = 0
  msrs : host.msrs = true

/-- `main`: the string it passes to `system`. -/
def measuredCommand (host : Setup) (argv : List Text) : Except Leave Text :=
  match readArgs argv (List.replicate cmdlineSize '\x00') with
  | .error e => .error e
  | .ok cmdline =>
    if host.cpuModel < 0 then .error .failure
    else if host.topology ≠ 0 then .error .failure
    else if host.msrs then .ok (cString cmdline)
    else .error .failure

/-- A word of a command line without white space. -/
structure PlainWord (w : Text) : Prop where
  ne_nil : w ≠ []
  no_nul : '\x00' ∉ w
  no_space : ∀ c ∈ w, isSpace c = false

/-! ## The loop -/

/-- The room that words take in `cmdline`, a separator behind each. -/
def room (argv : List Text) : Nat := (argv.map fun arg => arg.length + 1).sum

/-- What the loop appends. -/
def joined (argv : List Text) : Text := argv.flatMap fun arg => arg ++ [' ']

@[simp]
lemma room_cons (arg : Text) (argv : List Text) :
    room (arg :: argv) = arg.length + 1 + room argv := rfl

@[simp]
lemma joined_cons (arg : Text) (argv : List Text) :
    joined (arg :: argv) = arg ++ ' ' :: joined argv := by simp [joined]

section Loop
variable {argv : List Text}

/-- Words that fit and are no options of energy-app are collected one behind the other. -/
lemma readArgs_joined {t : Text} (hw : ∀ w ∈ argv, '\x00' ∉ w)
    (ho : ∀ w ∈ argv, w ≠ "-v".toList ∧ w ≠ "-h".toList) (ht : '\x00' ∉ t)
    (hlen : t.length + room argv < cmdlineSize) :
    readArgs argv (padded cmdlineSize t) = .ok (padded cmdlineSize (t ++ joined argv)) := by
  induction argv generalizing t with
  | nil =>
    rw [joined, List.flatMap_nil, List.append_nil]
    rfl
  | cons arg argv ih =>
    have harg := hw arg (by simp)
    obtain ⟨hv, hh⟩ := ho arg (by simp)
    rw [room_cons] at hlen
    have word : '\x00' ∉ t ++ arg := by simp [ht, harg]
    have appended : (strcat (padded cmdlineSize t) arg).bind (fun arr => putEnd arr ' ') =
        some (padded cmdlineSize (t ++ arg ++ [' '])) := by
      rw [strcat_padded ht (by omega), Option.bind_some, putEnd_padded word]
      rw [List.length_append]
      omega
    have left : (t ++ arg ++ [' ']).length + room argv < cmdlineSize := by
      rw [List.length_append, List.length_append, List.length_singleton]
      omega
    have rest := ih (fun w h => hw w (by simp [h])) (fun w h => ho w (by simp [h]))
      (by simp [ht, harg]) left
    rw [readArgs, if_neg hv, if_neg hh, appended]
    dsimp only
    rw [rest, joined_cons]
    simp only [List.append_assoc, List.singleton_append]

/-- With one of its options among them, energy-app ends before. -/
lemma readArgs_option (h : ∃ w ∈ argv, w = "-v".toList ∨ w = "-h".toList) (arr : Text) :
    ∃ e, readArgs argv arr = .error e := by
  induction argv generalizing arr with
  | nil =>
    obtain ⟨w, hw, -⟩ := h
    cases hw
  | cons arg argv ih =>
    rw [readArgs]
    by_cases hv : arg = "-v".toList
    · exact ⟨.version, if_pos hv⟩
    · rw [if_neg hv]
      by_cases hh : arg = "-h".toList
      · exact ⟨.help, if_pos hh⟩
      · rw [if_neg hh]
        obtain ⟨w, hw, ho⟩ := h
        have behind : w ∈ argv := by
          cases List.mem_cons.mp hw with
          | inl e =>
            rw [e] at ho
            exact absurd ho (by simp only [hv, hh, or_self, not_false_eq_true])
          | inr hw => exact hw
        cases (strcat arr arg).bind fun arr => putEnd arr ' ' with
        | none => exact ⟨.overrun, rfl⟩
        | some arr' => exact ih ⟨w, behind, ho⟩ arr'

/-- The words of what was collected are the words of the command line. -/
lemma words_joined (hw : ∀ w ∈ argv, PlainWord w) : words (joined argv) = argv := by
  induction argv with
  | nil => exact words_nil
  | cons arg argv ih =>
    have plain := hw arg (by simp)
    rw [joined_cons, words_append_space plain.no_space plain.ne_nil,
      ih fun w h => hw w (by simp [h])]

lemma nul_not_mem_joined (hw : ∀ w ∈ argv, PlainWord w) : '\x00' ∉ joined argv := by
  intro h
  obtain ⟨w, hmem, h⟩ := List.mem_flatMap.mp h
  cases List.mem_append.mp h with
  | inl h => exact (hw w hmem).no_nul h
  | inr h => exact absurd h (by decide)

end Loop

/-! ## The steps behind it -/

lemma measuredCommand_ready {host : Setup} (h : host.Ready) (argv : List Text) :
    measuredCommand host argv = (readArgs argv (padded cmdlineSize [])).map cString := by
  rw [measuredCommand, ← padded_nil]
  cases readArgs argv (padded cmdlineSize []) with
  | error e => rfl
  | ok cmdline =>
    dsimp only
    rw [if_neg (not_lt.mpr h.cpuModel), if_neg (not_not.mpr h.topology), if_pos h.msrs]
    rfl

lemma ready_of_measuredCommand {host : Setup} {argv : List Text} {cmd : Text}
    (h : measuredCommand host argv = .ok cmd) : host.Ready := by
  rw [measuredCommand] at h
  cases hr : readArgs argv (List.replicate cmdlineSize '\x00') with
  | error e =>
    rw [hr] at h
    cases h
  | ok cmdline =>
    rw [hr] at h
    dsimp only at h
    split at h
    · cases h
    · split at h
      · cases h
      · split at h
        · exact ⟨by omega, by omega, by assumption⟩
        · cases h

/-- A program and its arguments, all of them words without white space that fit into `cmdline`, reach
`system` as they were given exactly if the host can be measured and no argument is `-v` or `-h`. -/
theorem system_iff (host : Setup) (programname : Text) (args : List Text)
    (hname : programname ≠ "-v".toList ∧ programname ≠ "-h".toList)
    (hplain : ∀ w ∈ programname :: args, PlainWord w)
    (hroom : room (programname :: args) ≤ 8191) :
    (∃ cmd, measuredCommand host (programname :: args) = .ok cmd ∧
        words cmd = programname :: args) ↔
      host.Ready ∧ ∀ arg ∈ args, arg ≠ "-v".toList ∧ arg ≠ "-h".toList := by
  constructor
  · intro h
    obtain ⟨cmd, passed, -⟩ := h
    have ready := ready_of_measuredCommand passed
    refine ⟨ready, fun arg harg => not_or.mp fun option => ?_⟩
    obtain ⟨e, stopped⟩ := readArgs_option ⟨arg, List.mem_cons_of_mem programname harg, option⟩
      (padded cmdlineSize [])
    rw [measuredCommand_ready ready, stopped] at passed
    cases passed
  · intro h
    obtain ⟨ready, ho⟩ := h
    have run := readArgs_joined (t := []) (fun w hw => (hplain w hw).no_nul)
      (List.forall_mem_cons.mpr ⟨hname, ho⟩) List.not_mem_nil
      (by
        rw [List.length_nil, cmdlineSize]
        omega)
    refine ⟨joined (programname :: args), ?_, words_joined hplain⟩
    rw [measuredCommand_ready ready, run, List.nil_append, Except.map,
      cString_padded (nul_not_mem_joined hplain)]

/-- `energy_app sleep 1`. -/
theorem system_sleep :
    ∃ cmd, measuredCommand ⟨63, 0, true⟩ ["sleep".toList, "1".toList] = .ok cmd ∧
      words cmd = ["sleep".toList, "1".toList] :=
  (system_iff ⟨63, 0, true⟩ "sleep".toList ["1".toList] (by decide)
    (List.forall_mem_cons.mpr ⟨⟨by decide, by decide, by simp [isSpace]⟩,
      List.forall_mem_cons.mpr ⟨⟨by decide, by decide, by simp [isSpace]⟩, nofun⟩⟩)
    (by decide)).mpr ⟨⟨by decide, rfl, rfl⟩, by decide⟩

/-- `energy_app ls -h` shows the usage of energy-app. -/
theorem system_ls_help :
    ¬ ∃ cmd, measuredCommand ⟨63, 0, true⟩ ["ls".toList, "-h".toList] = .ok cmd ∧
      words cmd = ["ls".toList, "-h".toList] := by
  intro h
  obtain ⟨cmd, passed, -⟩ := h
  have ready : Setup.Ready ⟨63, 0, true⟩ := ⟨by decide, rfl, rfl⟩
  have option : ∃ w ∈ ["ls".toList, "-h".toList], w = "-v".toList ∨ w = "-h".toList :=
    ⟨"-h".toList, by simp, .inr rfl⟩
  obtain ⟨e, stopped⟩ := readArgs_option option (padded cmdlineSize [])
  rw [measuredCommand_ready ready, stopped] at passed
  cases passed

end Powmon.Energy
