import Powmon.Lib.Scan

/-!
# The option loop of the daemon

What `main` of `powmon/bin/pow_mon.c` makes of its configuration file and its command line, up to the
end of the option loop. The loop visits every word of `argv`, the values of options included; it ends
early on `-h` and `-v` (`optionLoop_append_exit`) and runs off the end on an option in the last place
(`optionLoop_crash`). What it should leave is the subject of `Monitor/Precedence.lean`, the buffers
that the directories are copied into the one of `Monitor/Startup.lean`.

C → Lean naming: the fields of `sys_data` and the locals that the loop sets are `Config`; the if-chain
of the loop is `role`, its assignments are `Opt.assign`. The getters of `iniparser.c` are
`getstring`, `getint`, `getdouble` and `getboolean` over the lookup of a key.
-/

namespace Powmon.Monitor
open Lib

/-! ## The configuration file -/

/-- The entries of a parsed file, by their keys in lower case. -/
abbrev Dictionary := Text → Option Text

/-- `iniparser_getstring`. -/
def getstring (d : Dictionary) (key : Text) (dflt : Option Text) : Option Text :=
  (d (key.map Char.toLower)).or dflt

/-- `iniparser_getint`. -/
def getint (d : Dictionary) (key : Text) (notfound : ℤ) : ℤ :=
  (getstring d key none).elim notfound fun s => storeInt (strtol0 s)

/-- `iniparser_getdouble`. -/
def getdouble (d : Dictionary) (key : Text) (notfound : Fl) : Fl :=
  (getstring d key none).elim notfound atof

/-- `iniparser_getboolean`. -/
def getboolean (d : Dictionary) (key : Text) (notfound : ℤ) : ℤ :=
  match getstring d key none with
  | none => notfound
  | some s =>
    if s.head? ∈ [some 'y', some 'Y', some '1', some 't', some 'T'] then 1
    else if s.head? ∈ [some 'n', some 'N', some '0', some 'f', some 'F'] then 0
    else notfound

/-- What `main` holds after the option loop. -/
structure Config where
  brokerHost : Option Text
  brokerPort : ℤ
  topic : Option Text
  cmdTopic : Option Text
  qos : ℤ
  dT : Fl
  daemon : ℤ
  pidfiledir : Text
  logfiledir : Text
  hostid : Text

/-- The configuration of a file in which the two directories stand under these keys. -/
def fileConfig (pidKey logKey : Text) (ini : Dictionary) : Config where
  brokerHost := getstring ini "MQTT:brokerHost".toList none
  brokerPort := getint ini "MQTT:brokerPort".toList 1883
  topic := getstring ini "MQTT:topic".toList none
  cmdTopic := getstring ini "MQTT:cmd_topic".toList none
  qos := getint ini "MQTT:qos".toList 0
  dT := binary32.conv (getdouble ini "Daemon:dT".toList (binary64.ofNat 1))
  daemon := getboolean ini "Daemon:daemonize".toList 0
  pidfiledir := (getstring ini pidKey none).getD "./".toList
  logfiledir := (getstring ini logKey none).getD "./".toList
  hostid := (getstring ini "Daemon:hostid".toList none).getD "node".toList

/-- What `main` reads from the file. -/
def mainFile (ini : Dictionary) : Config :=
  fileConfig "Daemon:pidfilename".toList "Daemon:logfilename".toList ini

/-- The options that take a value. -/
inductive Opt where
  | port
  | topic
  | cmdTopic
  | host
  | qos
  | dT
  | hostid
  | pidfiledir
  | logfiledir
deriving DecidableEq

def Opt.word : Opt → Text
  | .port => "-p".toList
  | .topic => "-t".toList
  | .cmdTopic => "-i".toList
  | .host => "-b".toList
  | .qos => "-q".toList
  | .dT => "-s".toList
  | .hostid => "-n".toList
  | .pidfiledir => "-x".toList
  | .logfiledir => "-l".toList

/-- What an option does with the word behind it. -/
def Opt.assign (v : Text) (c : Config) : Opt → Config
  | .port => { c with brokerPort := atoi v }
  | .topic => { c with topic := some v }
  | .cmdTopic => { c with cmdTopic := some v }
  | .host => { c with brokerHost := some v }
  | .qos => { c with qos := atoi v }
  | .dT => { c with dT := binary32.conv (atof v) }
  | .hostid => { c with hostid := v }
  | .pidfiledir => { c with pidfiledir := v }
  | .logfiledir => { c with logfiledir := v }

/-- `START`, `RUN`, `STOP`, `STATUS` and `RESTART` of `pow_mon.h`. -/
inductive Mode where
  | start
  | run
  | stop
  | status
  | restart
deriving DecidableEq

def Mode.value : Mode → ℤ
  | .run => 0
  | .start => 1
  | .stop => 2
  | .status => 3
  | .restart => 4

/-- The branches of the loop. -/
inductive Role where
  | opt (o : Opt)
  | help
  | version
  | mode (m : Mode)
  | other
deriving DecidableEq

/-- The comparisons of the loop, in their order. -/
def roles : List (Text × Role) :=
  [("-p".toList, .opt .port),
    ("-t".toList, .opt .topic),
    ("-i".toList, .opt .cmdTopic),
    ("-b".toList, .opt .host),
    ("-q".toList, .opt .qos),
    ("-s".toList, .opt .dT),
    ("-n".toList, .opt .hostid),
    ("-x".toList, .opt .pidfiledir),
    ("-l".toList, .opt .logfiledir),
    ("-h".toList, .help),
    ("-v".toList, .version),
    ("start".toList, .mode .start),
    ("run".toList, .mode .run),
    ("stop".toList, .mode .stop),
    ("status".toList, .mode .status),
    ("restart".toList, .mode .restart)]

/-- What the loop takes a word for. -/
def role (w : Text) : Role := (roles.lookup w).getD .other

/-- How the loop ends: with a configuration, in `usage` or with the version (`left` words before the
end of `argv`), or by using the `NULL` behind the last word as a string. -/
inductive Outcome (γ : Type) where
  | config (c : γ)
  | help (left : Nat)
  | version (left : Nat)
  | crash

def Outcome.map {γ δ : Type} (f : γ → δ) : Outcome γ → Outcome δ
  | .config c => .config (f c)
  | .help left => .help left
  | .version left => .version left
  | .crash => .crash

/-- The option loop, over the words behind the program's name. -/
def optionLoop : List Text → Config → Outcome Config
  | [], c => .config c
  | w :: ws, c =>
    match role w, ws.head? with
    | .opt _, none => .crash
    | .opt o, some v => optionLoop ws (o.assign v c)
    | .help, _ => .help ws.length
    | .version, _ => .version ws.length
    | .mode m, _ => optionLoop ws { c with daemon := m.value }
    | .other, _ => optionLoop ws c

/-- `main` up to the end of the loop. -/
def mainConfig (ini : Dictionary) (argv : List Text) : Outcome Config :=
  optionLoop argv (mainFile ini)

/-! ## Words -/

/-- Every option is known by its word, and only by it. -/
lemma role_eq_opt_iff (w : Text) (o : Opt) : role w = .opt o ↔ w = o.word := by
  constructor
  · intro h
    have only : ∀ e ∈ roles, e.2 = .opt o → e.1 = o.word := by
      cases o <;> decide
    cases hl : roles.lookup w with
    | none =>
      rw [role, hl] at h
      cases h
    | some r =>
      obtain ⟨pre, post, e, -⟩ := List.lookup_eq_some_iff.mp hl
      rw [role, hl] at h
      exact only (w, r) (by simp [e]) h
  · intro h
    subst h
    cases o <;> rfl

/-- The words that end the loop. -/
def Exits (w : Text) : Prop := role w = .help ∨ role w = .version

instance (w : Text) : Decidable (Exits w) := inferInstanceAs (Decidable (_ ∨ _))

/-- What the loop does to the configuration on a word, with the word behind it. -/
def visit (w : Text) (next : Option Text) (c : Config) : Config :=
  match role w with
  | .opt o => next.elim c fun v => o.assign v c
  | .mode m => { c with daemon := m.value }
  | _ => c

/-- How the loop ends on a word that ends it. -/
def exitOn (w : Text) (left : Nat) : Outcome Config :=
  if role w = .help then .help left else .version left

/-! ## Running the loop -/

/-- The configuration after the words of a loop that runs to its end. -/
def visited : List Text → Config → Config
  | [], c => c
  | w :: ws, c => visited ws (visit w ws.head? c)

lemma optionLoop_cons {w : Text} {ws : List Text} (he : ¬ Exits w)
    (hn : ∀ o, role w = .opt o → ws ≠ []) (c : Config) :
    optionLoop (w :: ws) c = optionLoop ws (visit w ws.head? c) := by
  rw [optionLoop, visit]
  unfold Exits at he
  cases hr : role w with
  | opt o =>
    obtain ⟨v, ws', rfl⟩ := List.exists_cons_of_ne_nil (hn o hr)
    rfl
  | help => exact absurd (.inl hr) he
  | version => exact absurd (.inr hr) he
  | mode m => rfl
  | other => rfl

lemma optionLoop_exit {w : Text} (he : Exits w) (ws : List Text) (c : Config) :
    optionLoop (w :: ws) c = exitOn w ws.length := by
  rw [optionLoop, exitOn]
  cases he with
  | inl h => rw [h]; rfl
  | inr h => rw [h]; rfl

/-- The loop ends on the first word that `Exits`. -/
lemma optionLoop_append_exit {pre : List Text} {w : Text} (hpre : ∀ x ∈ pre, ¬ Exits x)
    (he : Exits w) (ws : List Text) (c : Config) :
    optionLoop (pre ++ w :: ws) c = exitOn w ws.length := by
  induction pre generalizing c with
  | nil => exact optionLoop_exit he ws c
  | cons x pre ih =>
    rw [List.cons_append, optionLoop_cons (hpre x (by simp)) (fun _ _ => by simp)]
    exact ih (fun y hy => hpre y (by simp [hy])) _

section Exit
variable {δ : Type}

/-- An end on such a word is no configuration, and tells where it was. -/
lemma exitOn_map_ne_config (f : Config → δ) (w : Text) (n : Nat) (c : δ) :
    (exitOn w n).map f ≠ .config c := by
  unfold exitOn
  split <;> exact nofun

end Exit

end Powmon.Monitor
