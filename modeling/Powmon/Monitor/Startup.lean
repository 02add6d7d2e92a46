import Powmon.Monitor.Buffer
import Powmon.Monitor.Options

/-!
# Buffers at start-up

The strings that `main` of `powmon/bin/pow_mon.c` writes before it looks at the mode: the directories of
the file and of the options, the names of the pid file and the log file, the two topics, and the command
that sets the clock by the broker.

The arrays hold what is short enough (`arrays_fit_iff`). The command goes into a block of exactly its
own length, which leaves no byte for the terminator, whatever the broker's name is:
`startup_overruns`.
-/

namespace Powmon.Monitor
open Lib

/-! ## Writes -/

/-- `char pidfile[256]`, and the size of `logfile`, `pidfiledir` and `logfiledir`. -/
def pathSize : Nat := 256

/-- `char buffer[1024]`. -/
def topicBufferSize : Nat := 1024

/-- `sprintf(pidfile, "%s%s_%s", pidfiledir, hostname, "pow_mon.pid")`, and the same for the log. -/
def pathOf (dir hostname : Text) (name : String) : Text := dir ++ hostname ++ '_' :: name.toList

/-- `str_1`. -/
def rdate : Text := "rdate -s   ".toList

/-- `sprintf(rdate_cmd, "%s%s", str_1, brokerHost)`, with the size that `malloc` is asked for. -/
def rdateWrite (brokerHost : Text) : BufWrite where
  capacity := rdate.length + brokerHost.length
  text := rdate ++ brokerHost

/-- The options whose value is copied into an array. -/
def CopiesDir (w : Text) : Prop := role w = .opt .pidfiledir ∨ role w = .opt .logfiledir

instance (w : Text) : Decidable (CopiesDir w) := inferInstanceAs (Decidable (_ ∨ _))

/-- What the option loop writes. -/
def optionWrites : List Text → List BufWrite
  | [] => []
  | w :: ws =>
    if Exits w then []
    else (if CopiesDir w then ws.head?.toList.map (BufWrite.mk pathSize) else []) ++ optionWrites ws

/-- What `main` writes into the arrays, with the configuration after the loop. -/
def arrayWrites (ini : Dictionary) (argv : List Text) (hostname : Text) (c : Config) :
    List BufWrite :=
  [⟨pathSize, (mainFile ini).pidfiledir⟩, ⟨pathSize, (mainFile ini).logfiledir⟩] ++
    optionWrites argv ++
    [⟨pathSize, pathOf c.pidfiledir hostname "pow_mon.pid"⟩,
      ⟨pathSize, pathOf c.logfiledir hostname "pow_mon.log"⟩] ++
    c.topic.toList.flatMap fun topic =>
      [⟨topicBufferSize, cmdTopicOf topic hostname⟩, ⟨topicBufferSize, dataTopicOf topic hostname⟩]

/-- All it writes before the switch on the mode, if the loop gets to its end. -/
def startupWrites (ini : Dictionary) (argv : List Text) (hostname : Text) : List BufWrite :=
  match mainConfig ini argv with
  | .config c => arrayWrites ini argv hostname c ++ c.brokerHost.toList.map rdateWrite
  | _ => []

/-! ## The arrays -/

/-- How long the path is. -/
lemma length_pathOf (dir hostname : Text) (name : String) :
    (pathOf dir hostname name).length = dir.length + hostname.length + 1 + name.toList.length := by
  rw [pathOf, List.length_append, List.length_append, List.length_cons]
  omega

/-- How long the command topic is. -/
lemma length_cmdTopicOf (topic hostname : Text) :
    (cmdTopicOf topic hostname).length = topic.length + hostname.length + 2 := by
  rw [cmdTopicOf, cmdTopicString, List.length_append, List.length_cons, List.length_append]
  simp only [List.length_singleton]
  omega

/-- How long the data topic is. -/
lemma length_dataTopicOf (topic hostname : Text) :
    (dataTopicOf topic hostname).length = topic.length + hostname.length + 1 := by
  rw [dataTopicOf, List.length_append, List.length_cons]
  omega

/-- An option does not end the loop. -/
lemma not_exits_of_copiesDir {w : Text} (hw : CopiesDir w) : ¬ Exits w := by
  unfold Exits
  cases hw with
  | inl h => simp [h]
  | inr h => simp [h]

/-- The word behind a directory option, where there is one. -/
lemma copiedValue_fits_iff (x : Text) (argv : List Text) :
    (∀ w ∈ (if CopiesDir x then argv.head?.toList.map (BufWrite.mk pathSize) else [] :
        List BufWrite), w.Fits) ↔
      ∀ v post, argv = v :: post → CopiesDir x → v.length < pathSize := by
  by_cases hx : CopiesDir x
  · rw [if_pos hx]
    cases argv with
    | nil => simp
    | cons v argv => simp [hx, BufWrite.Fits]
  · rw [if_neg hx]
    simp [hx]

/-- The values the loop copies before it ends fit if they are shorter than their array. -/
lemma loopWrites_fit_iff (argv : List Text) :
    (∀ w ∈ optionWrites argv, w.Fits) ↔
      ∀ pre w v post, argv = pre ++ w :: v :: post → (∀ x ∈ pre, ¬ Exits x) → CopiesDir w →
        v.length < pathSize := by
  induction argv with
  | nil => simp [optionWrites]
  | cons x argv ih =>
    rw [optionWrites]
    by_cases he : Exits x
    · rw [if_pos he]
      refine iff_of_true nofun ?_
      intro pre w v post e goes hw
      cases pre with
      | nil =>
        obtain ⟨rfl, -⟩ := List.cons.inj e
        exact absurd he (not_exits_of_copiesDir hw)
      | cons y pre =>
        obtain ⟨rfl, -⟩ := List.cons.inj e
        exact absurd he (goes _ (by simp))
    · rw [if_neg he, List.forall_mem_append, copiedValue_fits_iff, ih]
      constructor
      · intro h pre w v post e goes hw
        cases pre with
        | nil =>
          obtain ⟨rfl, rest⟩ := List.cons.inj e
          exact h.1 v post rest hw
        | cons y pre =>
          obtain ⟨-, rest⟩ := List.cons.inj e
          exact h.2 pre w v post rest (fun z hz => goes z (by simp [hz])) hw
      · intro h
        refine ⟨?_, ?_⟩
        · intro v post e hx
          exact h [] x v post (by rw [e]; rfl) nofun hx
        · intro pre w v post e goes hw
          exact h (x :: pre) w v post (by rw [e]; rfl) (List.forall_mem_cons.mpr ⟨he, goes⟩) hw

/-- In a loop that gets to its end, these are all the values it copies. -/
lemma optionWrites_fit_iff {argv : List Text} (he : ∀ w ∈ argv, ¬ Exits w) :
    (∀ w ∈ optionWrites argv, w.Fits) ↔
      ∀ pre w v post, argv = pre ++ w :: v :: post → CopiesDir w → v.length < pathSize := by
  rw [loopWrites_fit_iff]
  constructor
  · intro h pre w v post e hw
    exact h pre w v post e (fun x hx => he x (by simp [e, hx])) hw
  · intro h pre w v post e _ hw
    exact h pre w v post e hw

/-- The condition on the strings of the file and of the command line, with the host's name. -/
structure RoomAtStartup (ini : Dictionary) (argv : List Text) (hostname : Text) (c : Config) :
    Prop where
  pidfiledir : (mainFile ini).pidfiledir.length < pathSize
  logfiledir : (mainFile ini).logfiledir.length < pathSize
  values : ∀ pre w v post, argv = pre ++ w :: v :: post → CopiesDir w → v.length < pathSize
  pidfile : c.pidfiledir.length + hostname.length + 12 < pathSize
  logfile : c.logfiledir.length + hostname.length + 12 < pathSize
  topic : ∀ topic, c.topic = some topic → topic.length + hostname.length + 2 < topicBufferSize

/-- A loop that ends with a configuration has met no `-h` and no `-v`. -/
lemma not_exits_of_config {argv : List Text} {c₀ c : Config} (h : optionLoop argv c₀ = .config c) :
    ∀ w ∈ argv, ¬ Exits w := by
  cases first_or_none Exits argv with
  | inl goes => exact goes
  | inr first =>
    obtain ⟨pre, w, post, rfl, hpre, hw⟩ := first
    rw [optionLoop_append_exit hpre hw] at h
    exact absurd (congrArg (Outcome.map id) h) (exitOn_map_ne_config id _ _ _)

section Startup
variable {ini : Dictionary} {argv : List Text} {hostname : Text} {c : Config}

/-- The topics fit exactly if root and hostname are short. -/
lemma topicWrites_fit_iff (topic : Option Text) (hostname : Text) :
    (∀ w ∈ topic.toList.flatMap fun topic => [BufWrite.mk topicBufferSize (cmdTopicOf topic hostname),
        ⟨topicBufferSize, dataTopicOf topic hostname⟩], w.Fits) ↔
      ∀ t, topic = some t → t.length + hostname.length + 2 < topicBufferSize := by
  cases topic with
  | none => simp
  | some t =>
    simp only [Option.toList_some, List.flatMap_singleton, List.forall_mem_cons, List.not_mem_nil,
      false_imp_iff, implies_true, and_true, BufWrite.Fits, length_cmdTopicOf, length_dataTopicOf,
      Option.some.injEq, forall_eq']
    omega

/-- The paths fit exactly if the directory and the hostname are short. -/
lemma pathWrite_fits_iff (dir hostname : Text) {name : String} (h : name.toList.length = 11) :
    (BufWrite.mk pathSize (pathOf dir hostname name)).Fits ↔
      dir.length + hostname.length + 12 < pathSize := by
  rw [BufWrite.Fits, length_pathOf, h]
  exact Nat.succ_le_iff

/-- Every string written into an array fits exactly if the directories, the topic and the host's name
leave room for what is put between them. -/
theorem arrays_fit_iff (hc : mainConfig ini argv = .config c) :
    (∀ w ∈ arrayWrites ini argv hostname c, w.Fits) ↔ RoomAtStartup ini argv hostname c := by
  have file : ∀ dir : Text, (BufWrite.mk pathSize dir).Fits ↔ dir.length < pathSize :=
    fun _ => Nat.succ_le_iff
  rw [arrayWrites, List.forall_mem_append, List.forall_mem_append, List.forall_mem_append,
    topicWrites_fit_iff, optionWrites_fit_iff (not_exits_of_config hc), List.forall_mem_cons,
    List.forall_mem_singleton, file, file, List.forall_mem_cons, List.forall_mem_singleton,
    pathWrite_fits_iff c.pidfiledir hostname (by simp),
    pathWrite_fits_iff c.logfiledir hostname (by simp)]
  constructor
  · intro h
    obtain ⟨⟨⟨⟨pidfiledir, logfiledir⟩, values⟩, pidfile, logfile⟩, topic⟩ := h
    exact ⟨pidfiledir, logfiledir, values, pidfile, logfile, topic⟩
  · intro h
    exact ⟨⟨⟨⟨h.pidfiledir, h.logfiledir⟩, h.values⟩, h.pidfile, h.logfile⟩, h.topic⟩

/-! ## The command -/

/-- The command is one byte too long for its block. -/
lemma rdateWrite_not_fits (brokerHost : Text) : ¬ (rdateWrite brokerHost).Fits := by
  rw [BufWrite.Fits, rdateWrite, List.length_append]
  exact Nat.not_succ_le_self _

/-- With any file, any command line, and any host, the terminator of the command is written behind
the block. -/
theorem startup_overruns (hc : mainConfig ini argv = .config c) {brokerHost : Text}
    (hb : c.brokerHost = some brokerHost) :
    ¬ ∀ w ∈ startupWrites ini argv hostname, w.Fits := by
  intro h
  rw [startupWrites, hc] at h
  dsimp only at h
  rw [hb, List.forall_mem_append] at h
  exact rdateWrite_not_fits brokerHost (h.2 (rdateWrite brokerHost) (by simp))

end Startup

/-- `-b h -t xd` with an empty file. -/
theorem startup_overruns_xd :
    ¬ ∀ w ∈ startupWrites (fun _ => none) ["-b".toList, "h".toList, "-t".toList, "xd".toList]
      "node7".toList, w.Fits :=
  startup_overruns (c := { mainFile (fun _ => none) with
    brokerHost := some "h".toList, topic := some "xd".toList }) rfl rfl

/-- There `rdate -s   h` and its terminator take 13 bytes of a block of 12. -/
theorem rdate_overrun :
    ∃ w ∈ startupWrites (fun _ => none) ["-b".toList, "h".toList, "-t".toList, "xd".toList]
      "node7".toList, w.capacity = 12 ∧ w.text.length + 1 = 13 ∧ ¬ w.Fits := by
  have last : rdateWrite "h".toList ∈ startupWrites (fun _ => none)
      ["-b".toList, "h".toList, "-t".toList, "xd".toList] "node7".toList :=
    List.mem_append_right _ (List.mem_singleton.mpr rfl)
  exact ⟨rdateWrite "h".toList, last, by decide, by decide, rdateWrite_not_fits _⟩

end Powmon.Monitor
