import Powmon.Lib.Collective
import Powmon.Monitor.Push
import Powmon.Mpi.Node
import Powmon.Topology.Bounds

/-!
# The collective calls of the wrappers

`MPI_Init` and `MPI_Finalize` of `powmpi/powmpi.c`: which collective calls a rank makes in them, and
where it leaves the process. Only the measuring rank of a node can leave: `detect_cpu_model` and
`detect_topology` may fail before the first barrier, and `show_result` exits between the second
barrier and `MPI_Comm_free` if the measured interval is short on one of its two clocks.

A rank's part is `Except Rank Rank`, where an error is a rank that has left with the calls it made. A
rank whose `detect_topology` writes beside its arrays counts as one that leaves there.
`RankEnv` is what the rank reads: `/proc/cpuinfo` and its clocks. The register accesses succeed.

`matching_iff` says when all ranks make the same calls and reach `PMPI_Finalize`. Then the calls
complete in whatever order they can (`matching_completes`, by the rule for collective calls).

C → Lean naming: `MPI_Finalized` is the field `finalized`, which `PMPI_Finalize` sets.
-/

namespace Powmon.Mpi
open Lib
open Monitor (Timeval)
open Powmon.Topology (detectWithin detectWithin_isSome_iff LineInRange)

/-! ## What a rank reads -/

/-- What a measuring rank reads between its collective calls. -/
structure RankEnv where
  modelFile : Option Text
  topologyFile : Option Text
  tvInit : Timeval
  wtimeInit : Fl
  tvFinal : Timeval
  wtimeFinal : Fl

/-- `sprintf(buf, "%.6f", tv.tv_sec + (tv.tv_usec / 1000000.0))`. -/
def getTimestamp (tv : Timeval) : Text :=
  fmtFixed 6 (binary64.add (binary64.ofNat tv.sec)
    (binary64.div (binary64.ofNat tv.usec) (binary64.ofNat 1000000)))

/-- `time_us = atof(sysd_.tmpstr)*1e6`. -/
def timeUs (tv : Timeval) : ℤ :=
  (binary64.mul (atof (getTimestamp tv)) (binary64.ofNat 1000000)).trunc

/-- `0.002`. -/
def twoMs : Fl := binary64.round false (decimal 3 2)

/-- The test of `show_result`. -/
def tooShort (env : RankEnv) : Bool :=
  (binary64.sub env.wtimeFinal env.wtimeInit).lt twoMs ||
    timeUs env.tvFinal - timeUs env.tvInit < 2000

/-- The body of the loop of `detect_cpu_model`. -/
def modelLine (model : ℤ) (buffer : Text) : ℤ :=
  let result := cString buffer
  if "model".toList.isPrefixOf result then (scanIntAfter 2 result).getD model else model

/-- `detect_cpu_model`; it leaves the process if the file cannot be opened. -/
def detectCpuModel (file : Option Text) : Option ℤ :=
  file.map fun text => (lines bufsiz text).foldl modelLine (-1)

/-! ## The wrappers -/

/-- The collective calls of the wrappers. -/
inductive Coll where
  | init
  | commSplit
  | barrier
  | commFree
  | finalize
deriving DecidableEq

/-- What is left of a rank: the collective calls it made, and whether MPI is finalized for it. -/
structure Rank where
  calls : List Coll
  finalized : Bool
deriving DecidableEq

/-- A collective call. -/
def Rank.call (c : Coll) (s : Rank) : Rank := { s with calls := s.calls ++ [c] }

/-- `poli_sync`. -/
def poliSync (worldSize : Nat) (s : Rank) : Rank :=
  if 1 < worldSize ∧ !s.finalized then s.call .barrier else s

/-- `poli_init`, for a rank that does or does not measure. -/
def poliInit (env : RankEnv) (worldSize imonitor : Nat) (s : Rank) : Except Rank Rank := do
  let s := s.call .commSplit
  if imonitor ≠ 0 then
    match detectCpuModel env.modelFile with
    | none => throw s
    | some model => if model < 0 then throw s
    if (detectWithin env.topologyFile).isNone then throw s
  return poliSync worldSize s

/-- `poli_finalize`. -/
def poliFinalize (env : RankEnv) (worldSize imonitor : Nat) (s : Rank) : Except Rank Rank := do
  let s := poliSync worldSize s
  if imonitor ≠ 0 then
    if tooShort env then throw s
  if !s.finalized then
    return s.call .commFree
  else
    return s

/-- `MPI_Init`. -/
def mpiInit (env : RankEnv) (worldSize imonitor : Nat) (s : Rank) : Except Rank Rank :=
  poliInit env worldSize imonitor (s.call .init)

/-- `MPI_Finalize`. -/
def mpiFinalize (env : RankEnv) (worldSize imonitor : Nat) (s : Rank) : Except Rank Rank := do
  let s ← poliFinalize env worldSize imonitor s
  return { s.call .finalize with finalized := true }

/-- A rank from `MPI_Init` to `MPI_Finalize`. -/
def rankRun (env : RankEnv) (worldSize imonitor : Nat) : Except Rank Rank := do
  let s ← mpiInit env worldSize imonitor ⟨[], false⟩
  mpiFinalize env worldSize imonitor s

/-- The calls of a rank, whether it left or not. -/
def callsOf : Except Rank Rank → List Coll
  | .error s => s.calls
  | .ok s => s.calls

/-- The collectives match: every rank gets a role, all ranks make the same calls, and all get through
`PMPI_Finalize`. -/
def Matching {n : Nat} (split : Split n) (names : Fin n → Text) (env : Fin n → RankEnv) : Prop :=
  ∃ m, poliInitNodes split names = some m ∧
    (∀ r r', callsOf (rankRun (env r) n (m r).imonitor) =
      callsOf (rankRun (env r') n (m r').imonitor)) ∧
    ∀ r, ∃ s, rankRun (env r) n (m r).imonitor = .ok s ∧ s.finalized

/-! ## What a rank does -/

/-- The detections of a measuring rank succeed: there is a model, and every number of the topology is an
index of its array. -/
structure HostDetected (env : RankEnv) : Prop where
  model : ∃ model, detectCpuModel env.modelFile = some model ∧ 0 ≤ model
  topology : ∃ text, env.topologyFile = some text ∧ ∀ l ∈ lines bufsiz text, LineInRange l

/-- A measuring rank gets through: its detections succeed, and its interval is long enough. -/
structure Healthy (env : RankEnv) : Prop extends HostDetected env where
  long : tooShort env = false

/-- The calls of a rank that gets through. -/
def allCalls (worldSize : Nat) : List Coll :=
  if 1 < worldSize then [.init, .commSplit, .barrier, .barrier, .commFree, .finalize]
  else [.init, .commSplit, .commFree, .finalize]

section Rank
variable {env : RankEnv} {worldSize imonitor : Nat} {s s' : Rank}

lemma poliSync_finalized (worldSize : Nat) (s : Rank) :
    (poliSync worldSize s).finalized = s.finalized := by
  unfold poliSync
  split <;> rfl

/-- A rank that does not measure, or detects its host, gets through `poli_init`. -/
lemma poliInit_ok (h : imonitor = 0 ∨ HostDetected env) :
    poliInit env worldSize imonitor s = .ok (poliSync worldSize (s.call .commSplit)) := by
  cases h with
  | inl h0 =>
    subst h0
    rfl
  | inr h =>
    obtain ⟨model, hm, hpos⟩ := h.model
    obtain ⟨d, hd⟩ := Option.isSome_iff_exists.mp ((detectWithin_isSome_iff _).mpr h.topology)
    unfold poliInit
    by_cases h0 : imonitor = 0
    · subst h0
      rfl
    · simp only [hm, hd, if_pos h0, not_lt.mpr hpos, if_false, Option.isNone_some]
      rfl

/-- A measuring rank that gets through `poli_init` has detected its host. -/
lemma poliInit_detected (hi : imonitor ≠ 0) (h : poliInit env worldSize imonitor s = .ok s') :
    HostDetected env := by
  simp only [poliInit, if_pos hi] at h
  cases hm : detectCpuModel env.modelFile with
  | none =>
    rw [hm] at h
    cases h
  | some model =>
    rw [hm] at h
    by_cases hneg : model < 0
    · simp only [if_pos hneg] at h
      cases h
    · cases hd : detectWithin env.topologyFile with
      | none =>
        simp only [if_neg hneg, hd] at h
        cases h
      | some d =>
        have found := (detectWithin_isSome_iff env.topologyFile).mp (Option.isSome_of_eq_some hd)
        exact ⟨⟨model, hm, not_lt.mp hneg⟩, found⟩

/-- A rank that does not measure, or is healthy, gets through `poli_finalize`. -/
lemma poliFinalize_ok (h : imonitor = 0 ∨ Healthy env) (hs : s.finalized = false) :
    poliFinalize env worldSize imonitor s = .ok ((poliSync worldSize s).call .commFree) := by
  have fin : (poliSync worldSize s).finalized = false := (poliSync_finalized worldSize s).trans hs
  unfold poliFinalize
  cases h with
  | inl h0 => simp [h0, fin]; rfl
  | inr h => simp [h.long, fin]; rfl

/-- After a short interval a measuring rank leaves between the barrier and `MPI_Comm_free`. -/
lemma poliFinalize_short (hi : imonitor ≠ 0) (short : tooShort env) :
    poliFinalize env worldSize imonitor s = .error (poliSync worldSize s) := by
  simp only [poliFinalize, if_pos hi, if_pos short]
  rfl

/-- A measuring rank that gets through `poli_finalize` has measured long enough. -/
lemma poliFinalize_long (hi : imonitor ≠ 0) (h : poliFinalize env worldSize imonitor s = .ok s') :
    tooShort env = false := by
  by_contra short
  rw [poliFinalize_short hi (Bool.not_eq_false _ ▸ short)] at h
  cases h

/-- A rank that does not measure, or is healthy, makes all calls and gets through. -/
lemma rankRun_ok (h : imonitor = 0 ∨ Healthy env) :
    rankRun env worldSize imonitor = .ok ⟨allCalls worldSize, true⟩ := by
  have init : mpiInit env worldSize imonitor ⟨[], false⟩ =
      .ok (poliSync worldSize ⟨[.init, .commSplit], false⟩) :=
    poliInit_ok (h.imp_right Healthy.toHostDetected)
  have finish : poliFinalize env worldSize imonitor
      (poliSync worldSize ⟨[.init, .commSplit], false⟩) =
      .ok ((poliSync worldSize (poliSync worldSize ⟨[.init, .commSplit], false⟩)).call .commFree) :=
    poliFinalize_ok h (poliSync_finalized worldSize _)
  have calls : (((poliSync worldSize (poliSync worldSize ⟨[.init, .commSplit], false⟩)).call
      .commFree).call .finalize).calls = allCalls worldSize := by
    by_cases hw : 1 < worldSize <;> simp [poliSync, Rank.call, allCalls, hw]
  rw [rankRun, init]
  show mpiFinalize env worldSize imonitor _ = _
  rw [mpiFinalize, finish, ← calls]
  rfl

/-- A measuring rank that gets through is healthy. -/
lemma rankRun_healthy (hi : imonitor ≠ 0) (h : rankRun env worldSize imonitor = .ok s) :
    Healthy env := by
  unfold rankRun at h
  cases init : mpiInit env worldSize imonitor ⟨[], false⟩ with
  | error t =>
    rw [init] at h
    cases h
  | ok t =>
    have h : mpiFinalize env worldSize imonitor t = .ok s := by rwa [init] at h
    unfold mpiFinalize at h
    cases finish : poliFinalize env worldSize imonitor t with
    | error u =>
      rw [finish] at h
      cases h
    | ok u =>
      exact ⟨poliInit_detected hi init, poliFinalize_long hi finish⟩

end Rank

/-- A rank measures or does not. -/
lemma imonitor_cases {n : Nat} (split : Split n) (color : Fin n → ℤ) (r : Fin n) :
    (splitNodes split color r).imonitor = 0 ∨ (splitNodes split color r).imonitor = 1 := by
  unfold splitNodes
  dsimp only
  split
  · exact .inr rfl
  · exact .inl rfl

/-! ## All ranks together -/

/-- The collective calls of the wrappers match on all ranks exactly if every processor name gives a
colour that is not negative, and the lowest rank of every colour is healthy. -/
theorem matching_iff {n : Nat} {split : Split n} (spec : SplitSpec split) (names : Fin n → Text)
    (env : Fin n → RankEnv) :
    Matching split names env ↔
      ∃ color : Fin n → ℤ,
        (∀ r, getCommSplitColorHostname (names r) = some (color r) ∧ 0 ≤ color r) ∧
        ∀ r, (∀ r', color r' = color r → r ≤ r') → Healthy (env r) := by
  constructor
  · rintro ⟨m, hm, -, through⟩
    obtain ⟨color, hc, rfl⟩ := poliInitNodes_eq_some_iff.mp hm
    have taken := fun r => splitColor_eq_some_iff.mp (hc r)
    refine ⟨color, taken, ?_⟩
    intro r low
    have measures := (splitNodes_imonitor_iff spec (fun r => (taken r).2) r).mpr low
    obtain ⟨s, hs, -⟩ := through r
    exact rankRun_healthy (by omega) hs
  · rintro ⟨color, taken, healthy⟩
    have run : ∀ r, rankRun (env r) n (splitNodes split color r).imonitor =
        .ok ⟨allCalls n, true⟩ := by
      intro r
      refine rankRun_ok ((imonitor_cases split color r).imp_right fun measures => ?_)
      exact healthy r ((splitNodes_imonitor_iff spec (fun r => (taken r).2) r).mp measures)
    have nodes : poliInitNodes split names = some (splitNodes split color) :=
      poliInitNodes_eq_some_iff.mpr ⟨color, fun r => splitColor_eq_some_iff.mpr (taken r), rfl⟩
    refine ⟨splitNodes split color, nodes, ?_, ?_⟩
    · intro r r'
      rw [run, run]
    · intro r
      exact ⟨_, run r, rfl⟩

/-- The ranks a call involves: those of the node for `MPI_Comm_free`, all of them otherwise. -/
def groupOf {n : Nat} (m : Fin n → MonitorT n) (r : Fin n) : Coll → Set (Fin n)
  | .commFree => {r' | r' ∈ (m r).mynodeComm}
  | _ => Set.univ

/-- Matching calls complete: from every state on the way, in whatever order calls completed so far,
all ranks can get through `PMPI_Finalize`. -/
theorem matching_completes {n : Nat} {split : Split n} (spec : SplitSpec split)
    (names : Fin n → NodeName) {env : Fin n → RankEnv}
    (h : Matching split (fun r => (names r).text) env) :
    ∃ m, poliInitNodes split (fun r => (names r).text) = some m ∧
      ∀ st, Relation.ReflTransGen (Completes (groupOf m))
          (fun r => callsOf (rankRun (env r) n (m r).imonitor)) st →
        Relation.ReflTransGen (Completes (groupOf m)) st fun _ => [] := by
  obtain ⟨m, hm, same, -⟩ := h
  refine ⟨m, hm, ?_⟩
  intro st run
  have node : ∀ r r', r' ∈ (m r).mynodeComm ↔ (names r').host = (names r).host := by
    rw [poliInitNodes_eq names] at hm
    cases hm
    exact mem_mynodeComm names spec
  have grouping : Grouping (groupOf m) := by
    refine ⟨?_, ?_⟩
    · intro r k
      cases k with
      | commFree => exact (node r r).mpr rfl
      | _ => trivial
    · intro r r' k hr
      cases k with
      | commFree =>
        have host := (node r r').mp hr
        ext x
        exact (node r' x).trans (host ▸ (node r x).symm)
      | _ => rfl
  obtain _ | ⟨⟨r⟩⟩ := isEmpty_or_nonempty (Fin n)
  · obtain rfl : st = fun _ => [] := Subsingleton.elim _ _
    exact .refl
  · have start : (fun r => callsOf (rankRun (env r) n (m r).imonitor)) =
        fun _ => callsOf (rankRun (env r) n (m r).imonitor) := funext fun r' => same r' r
    rw [start] at run
    exact completes_of_same grouping run

/-! ## A short program -/

/-- The line that `detect_cpu_model` looks for. -/
def modelFile : Text := unlines ["model\t\t: ".toList ++ fmtNat 63]

/-- The file has this one line. -/
lemma lines_modelFile : lines bufsiz modelFile = ["model\t\t: ".toList ++ fmtNat 63 ++ ['\n']] := by
  obtain ⟨hn, -⟩ := fmtNat_plain 63
  have len : (fmtNat 63).length ≤ 4 := (length_fmtNat_le_iff (by decide)).mpr (by decide)
  unfold modelFile
  rw [lines_unlines (by simp [hn])]
  · rfl
  · unfold bufsiz
    simp
    omega

/-- It has no NUL. -/
lemma cString_modelLine : cString ("model\t\t: ".toList ++ fmtNat 63 ++ ['\n']) =
    "model\t\t: ".toList ++ fmtNat 63 ++ ['\n'] := by
  refine cString_line ?_
  simp [(fmtNat_plain 63).2]

lemma detectCpuModel_modelFile : detectCpuModel (some modelFile) = some 63 := by
  have scan : scanIntAfter 2 ("model\t\t: ".toList ++ fmtNat 63 ++ ['\n']) = some 63 := by
    have h := @scanIntAfter_words [] (by simp)
      [⟨"model".toList, ['\t', '\t'], by simp, by simp [isSpace], by simp, by simp [isSpace]⟩,
        ⟨[':'], [' '], by simp, by simp [isSpace], by simp, by simp [isSpace]⟩] 63 ['\n'] (by simp)
    rw [storeInt_natCast (by norm_num)] at h
    simpa using h
  have key : "model".toList.isPrefixOf ("model\t\t: ".toList ++ fmtNat 63 ++ ['\n']) := by simp
  rw [detectCpuModel, Option.map_some, lines_modelFile, List.foldl_cons, List.foldl_nil, modelLine,
    cString_modelLine, if_pos key, scan]
  rfl

/-- The line is of no key of the topology. -/
lemma inRange_modelFile : ∀ l ∈ lines bufsiz modelFile, LineInRange l := by
  intro l hl tb key
  rw [lines_modelFile, List.mem_singleton] at hl
  rw [hl, cString_modelLine] at key
  have first : tb.key.head? ≠ some 'm' := by
    cases tb <;> decide
  cases hk : tb.key with
  | nil => cases tb <;> exact absurd hk (by decide)
  | cons c rest =>
    rw [hk] at key first
    exact absurd key (by simp_all)

/-- A program on a host with this file whose clocks show these two times. -/
def programEnv (final : Timeval) (wtimeFinal : Fl) : RankEnv where
  modelFile := some modelFile
  topologyFile := some modelFile
  tvInit := default
  wtimeInit := .fin false 0
  tvFinal := final
  wtimeFinal := wtimeFinal

lemma hostDetected_programEnv (final : Timeval) (wtimeFinal : Fl) :
    HostDetected (programEnv final wtimeFinal) :=
  ⟨⟨63, detectCpuModel_modelFile, by norm_num⟩, ⟨_, rfl, inRange_modelFile⟩⟩

/-- A program that takes a second. -/
def longEnv : RankEnv := programEnv ⟨1, 0, by decide, by decide⟩ (.fin false 1)

/-- The calls of a program that takes a second match on four ranks of two hosts. -/
theorem matching_two_nodes :
    Matching (sortSplit 4) (fun r => (twoNodes r).text) fun _ => longEnv := by
  refine (matching_iff (sortSplit_spec 4) _ _).mpr ⟨fun r => (twoNodes r).num, ?_, ?_⟩
  · exact fun r => ⟨(twoNodes r).getColor, Int.natCast_nonneg _⟩
  · intro r _
    exact ⟨hostDetected_programEnv _ _, by decide +kernel⟩

/-- A program whose two ends show the same time on both clocks. -/
def shortEnv : RankEnv := programEnv default (.fin false 0)

/-- Two ranks on one node run it: the measuring one leaves after the second barrier, while the other
one goes on to `MPI_Comm_free` and `PMPI_Finalize`. -/
theorem not_matching_short :
    callsOf (rankRun shortEnv 2 1) = [.init, .commSplit, .barrier, .barrier] ∧
    callsOf (rankRun shortEnv 2 0) =
      [.init, .commSplit, .barrier, .barrier, .commFree, .finalize] ∧
    ¬ Matching (sortSplit 2) (fun _ => (⟨46, by norm_num, none⟩ : NodeName).text)
      fun _ => shortEnv := by
  have short : tooShort shortEnv := by
    have us : timeUs shortEnv.tvFinal - timeUs shortEnv.tvInit = 0 := sub_self _
    simp [tooShort, us]
  refine ⟨?_, ?_, ?_⟩
  · have init : mpiInit shortEnv 2 1 ⟨[], false⟩ =
        .ok (poliSync 2 ⟨[.init, .commSplit], false⟩) :=
      poliInit_ok (.inr (hostDetected_programEnv _ _))
    rw [rankRun, init]
    show callsOf (mpiFinalize shortEnv 2 1 _) = _
    rw [mpiFinalize, poliFinalize_short (by norm_num) short]
    rfl
  · rw [rankRun_ok (.inl rfl)]
    rfl
  · rintro ⟨m, hm, -, through⟩
    rw [poliInitNodes_eq fun _ => ⟨46, by norm_num, none⟩] at hm
    cases hm
    obtain ⟨s, hs, -⟩ := through 0
    have first := (imonitor_iff (fun _ => ⟨46, by norm_num, none⟩) (sortSplit_spec 2) 0).mpr
      fun r _ => Fin.zero_le r
    rw [first] at hs
    have long := (rankRun_healthy (by norm_num) hs).long
    rw [short] at long
    cases long

end Powmon.Mpi
