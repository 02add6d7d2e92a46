import Powmon.Lib.Scan

/-!
# Ranks, nodes and the measuring rank

How `poli_init` of `powmpi/powmpi.c` finds the rank that measures a node: the number in the processor
name `COMPUTE-1-<n>` is the colour by which `MPI_Comm_split` groups the ranks, and the first rank of
each group measures.

`MPI_Comm_split` is not part of the source. It is a parameter, `split color key`, which says for every
rank the ranks of the communicator it gets, in their order there; `SplitSpec` is what the standard
promises of it.

C → Lean naming: `monitor_t` → `MonitorT`, `mynode_comm` → `mynodeComm`; the ranks of
`MPI_COMM_WORLD` are `Fin n`, and a communicator is the list of its ranks, so that `MPI_Comm_rank` is
the index in the list and `MPI_Comm_size` its length. A processor name of the documented form is a
`NodeName`. `none` is a crash on a null token, or the end of the program in MPI. `my_host` is left
out: it is the buffer that the second pass of `strtok` cuts up, and nothing reads it afterwards.
-/

namespace Powmon.Mpi
open Lib

/-! ## `MPI_Comm_split` -/

/-- A communicator: its ranks in order. -/
abbrev Comm (n : Nat) := List (Fin n)

/-- What a split function does: for colours and keys, the communicator of every rank. -/
abbrev Split (n : Nat) := (Fin n → ℤ) → (Fin n → ℤ) → Fin n → Comm n

/-- The standard on `MPI_Comm_split`, for colours that are not negative: the ranks of one colour get
one communicator, and it has them in the order of their keys, ranks with equal keys in the order they
had before. -/
structure SplitSpec {n : Nat} (split : Split n) : Prop where
  mem : ∀ color key, (∀ r, 0 ≤ color r) → ∀ r r', r' ∈ split color key r ↔ color r' = color r
  same : ∀ color key, (∀ r, 0 ≤ color r) → ∀ r r', color r' = color r →
    split color key r' = split color key r
  ordered : ∀ color key, (∀ r, 0 ≤ color r) → ∀ r,
    (split color key r).Pairwise fun a b => key a < key b ∨ (key a = key b ∧ a < b)

/-! ## The program -/

/-- `get_comm_split_color_hostname`: the `color`. -/
def getCommSplitColorHostname (hostname : Text) : Option ℤ := do
  let (token, _) ← strtok [' ', '\t', '.', '\n'] hostname
  let (_, rest) ← strtok ['-'] token
  let (_, rest) ← strtok ['-'] rest
  let (hostnum, _) ← strtok ['-'] rest
  return atoi hostnum

/-- `monitor_t`. -/
structure MonitorT (n : Nat) where
  imonitor : Nat
  worldRank : Fin n
  worldSize : Nat
  nodeRank : Nat
  nodeSize : Nat
  color : ℤ
  mynodeComm : Comm n

/-- What `poli_init` makes of the split by these colours; the keys are the world ranks. -/
def splitNodes {n : Nat} (split : Split n) (color : Fin n → ℤ) (r : Fin n) : MonitorT n :=
  let comm := split color (fun r => r) r
  { imonitor := if comm.idxOf r = 0 then 1 else 0
    worldRank := r
    worldSize := n
    nodeRank := comm.idxOf r
    nodeSize := comm.length
    color := color r
    mynodeComm := comm }

/-- The colour of a rank that gets a communicator. With a negative one `MPI_Comm_split` ends the
program or, where it is `MPI_UNDEFINED`, returns `MPI_COMM_NULL`, on which `MPI_Comm_size` ends it. -/
def splitColor (hostname : Text) : Option ℤ :=
  (getCommSplitColorHostname hostname).filter (0 ≤ ·)

/-- The first part of `poli_init` on all ranks, given their processor names: the split is only
complete if every rank gets to it, with a colour that gives it a communicator. -/
def poliInitNodes {n : Nat} (split : Split n) (names : Fin n → Text) :
    Option (Fin n → MonitorT n) :=
  if h : ∀ r, (splitColor (names r)).isSome then
    some (splitNodes split fun r => (splitColor (names r)).get (h r))
  else none

/-! ## Processor names -/

/-- A processor name of the documented form: `COMPUTE-1-<n>`, perhaps with a domain. -/
structure NodeName where
  num : Nat
  num_lt : num < 2 ^ 31
  domain : Option Text

/-- `COMPUTE-1-<n>`. -/
def NodeName.host (name : NodeName) : Text := "COMPUTE-1-".toList ++ fmtNat name.num

/-- The name as `MPI_Get_processor_name` returns it. -/
def NodeName.text (name : NodeName) : Text :=
  name.host ++ match name.domain with
    | none => []
    | some d => '.' :: d

lemma NodeName.host_inj {a b : NodeName} : a.host = b.host ↔ a.num = b.num := by
  unfold host
  rw [List.append_cancel_left_eq]
  exact ⟨fmtNat_inj, congrArg fmtNat⟩

lemma digit_not_delim {m : Nat} {c : Char} (hc : c ∈ fmtNat m) :
    c ∉ [' ', '\t', '.', '\n'] ∧ c ∉ ['-'] := by
  have digit := isDigit_fmtNat hc
  refine ⟨?_, ?_⟩ <;> intro hd
  · fin_cases hd <;> exact absurd digit (by decide)
  · rw [List.mem_singleton.mp hd] at digit
    exact absurd digit (by decide)

/-- The first token is the host, whatever the domain is. -/
lemma NodeName.strtok_text (name : NodeName) :
    strtok [' ', '\t', '.', '\n'] name.text = some (name.host, name.domain.getD []) := by
  have plain : ∀ c ∈ name.host, c ∉ [' ', '\t', '.', '\n'] := by
    intro c hc
    obtain hc | hc := List.mem_append.mp hc
    · have lit : ∀ c ∈ "COMPUTE-1-".toList, c ∉ [' ', '\t', '.', '\n'] := by simp
      exact lit c hc
    · exact (digit_not_delim hc).1
  have ne : name.host ≠ [] := by
    intro h
    exact fmtNat_ne_nil _ (List.append_eq_nil_iff.mp h).2
  unfold text
  cases name.domain with
  | none => exact strtok_append plain ne (by simp)
  | some d => exact strtok_append plain ne (by simp)

/-- The two passes of `strtok` find the host and its number. -/
lemma NodeName.getColor (name : NodeName) :
    getCommSplitColorHostname name.text = some (name.num : ℤ) := by
  have compute : strtok ['-'] name.host =
      some ("COMPUTE".toList, '1' :: '-' :: fmtNat name.num) := by
    have h := @strtok_append ['-'] "COMPUTE".toList ('-' :: '1' :: '-' :: fmtNat name.num) (by simp)
      (by simp) (by simp)
    unfold host
    simpa using h
  have one : strtok ['-'] ('1' :: '-' :: fmtNat name.num) = some (['1'], fmtNat name.num) :=
    @strtok_append ['-'] ['1'] ('-' :: fmtNat name.num) (by simp) (by simp) (by simp)
  have num : strtok ['-'] (fmtNat name.num) = some (fmtNat name.num, []) := by
    have h := @strtok_append ['-'] (fmtNat name.num) [] (fun c hc => (digit_not_delim hc).2)
      (fmtNat_ne_nil _) (by simp)
    rwa [List.append_nil] at h
  simp only [getCommSplitColorHostname, name.strtok_text, compute, one, num,
    atoi_fmtNat name.num_lt, Option.bind_eq_bind, Option.bind_some, Option.pure_def]

/-! ## The split -/

section Split
variable {n : Nat} {split : Split n}

lemma splitColor_eq_some_iff {hostname : Text} {color : ℤ} :
    splitColor hostname = some color ↔
      getCommSplitColorHostname hostname = some color ∧ 0 ≤ color := by
  simp [splitColor, Option.filter_eq_some_iff]

/-- The ranks get through the split exactly with these colours. -/
lemma poliInitNodes_eq_some_iff {names : Fin n → Text} {m : Fin n → MonitorT n} :
    poliInitNodes split names = some m ↔
      ∃ color : Fin n → ℤ, (∀ r, splitColor (names r) = some (color r)) ∧
        m = splitNodes split color := by
  constructor
  · intro h
    unfold poliInitNodes at h
    split at h
    · next reach =>
      cases h
      exact ⟨_, fun r => (Option.some_get (reach r)).symm, rfl⟩
    · cases h
  · rintro ⟨color, hc, rfl⟩
    have reach : ∀ r, (splitColor (names r)).isSome := fun r => Option.isSome_of_eq_some (hc r)
    rw [poliInitNodes, dif_pos reach]
    congr
    funext r
    exact Option.get_of_eq_some _ (hc r)

/-- In an ordered list the first one is the lowest one. -/
lemma idxOf_eq_zero_iff {l : List (Fin n)} (ordered : l.Pairwise (· < ·)) {r : Fin n} (hr : r ∈ l) :
    l.idxOf r = 0 ↔ ∀ r' ∈ l, r ≤ r' := by
  cases l with
  | nil => cases hr
  | cons a l =>
    have head := (List.pairwise_cons.mp ordered).1
    rw [List.idxOf_eq_zero_iff_head_eq (by simp), List.head_cons]
    constructor
    · rintro rfl r' hr'
      obtain rfl | hr' := List.mem_cons.mp hr'
      · exact le_rfl
      · exact (head r' hr').le
    · intro low
      obtain rfl | hr := List.mem_cons.mp hr
      · rfl
      · exact absurd (low a (by simp)) (not_le.mpr (head r hr))

/-- A rank measures exactly if it is the lowest one of its colour. -/
lemma splitNodes_imonitor_iff (spec : SplitSpec split) {color : Fin n → ℤ} (hc : ∀ r, 0 ≤ color r)
    (r : Fin n) :
    (splitNodes split color r).imonitor = 1 ↔ ∀ r', color r' = color r → r ≤ r' := by
  have mem := spec.mem color (fun r => r) hc r
  have ordered : (split color (fun r => r) r).Pairwise (· < ·) := by
    refine (spec.ordered _ _ hc r).imp ?_
    intro a b h
    obtain h | ⟨-, h⟩ := h
    · exact_mod_cast h
    · exact h
  have first : (splitNodes split color r).imonitor = 1 ↔
      (split color (fun r => r) r).idxOf r = 0 := by
    simp [splitNodes]
  rw [first, idxOf_eq_zero_iff ordered ((mem r).mpr rfl)]
  exact forall_congr' fun r' => imp_congr_left (mem r')

end Split

/-! ## One measuring rank per host -/

section Nodes
variable {n : Nat} {split : Split n} (names : Fin n → NodeName)

/-- With names of the documented form, every rank gets through the split, with the number of its host
as its colour. -/
lemma poliInitNodes_eq :
    poliInitNodes split (fun r => (names r).text) =
      some (splitNodes split fun r => ((names r).num : ℤ)) :=
  poliInitNodes_eq_some_iff.mpr ⟨_, fun r => splitColor_eq_some_iff.mpr
    ⟨(names r).getColor, Int.natCast_nonneg _⟩, rfl⟩

/-- The communicator of a rank has the ranks of its host. -/
lemma mem_mynodeComm (spec : SplitSpec split) (r r' : Fin n) :
    r' ∈ (splitNodes split (fun r => ((names r).num : ℤ)) r).mynodeComm ↔
      (names r').host = (names r).host := by
  rw [NodeName.host_inj, ← Int.natCast_inj]
  exact spec.mem _ _ (fun _ => Int.natCast_nonneg _) r r'

/-- A rank measures exactly if it is the lowest one of its host. -/
lemma imonitor_iff (spec : SplitSpec split) (r : Fin n) :
    (splitNodes split (fun r => ((names r).num : ℤ)) r).imonitor = 1 ↔
      ∀ r', (names r').host = (names r).host → r ≤ r' := by
  rw [splitNodes_imonitor_iff spec fun _ => Int.natCast_nonneg _]
  refine forall_congr' fun r' => imp_congr_left ?_
  rw [NodeName.host_inj, Int.natCast_inj]

/-- For every placement of the ranks on hosts, `poli_init` makes exactly one rank of every host its
monitor, the one with the lowest world rank, and gives a rank the communicator of exactly the ranks of
its host. -/
theorem poliInit_one_monitor (spec : SplitSpec split) :
    ∃ m, poliInitNodes split (fun r => (names r).text) = some m ∧
      (∀ r, ∃! r', (names r').host = (names r).host ∧ (m r').imonitor = 1) ∧
      (∀ r, (m r).imonitor = 1 → ∀ r', (names r').host = (names r).host → r ≤ r') ∧
      (∀ r r', (m r').mynodeComm = (m r).mynodeComm ↔ (names r').host = (names r).host) ∧
      (∀ r r', r' ∈ (m r).mynodeComm ↔ (names r').host = (names r).host) := by
  refine ⟨_, poliInitNodes_eq names, ?_, ?_, ?_, mem_mynodeComm names spec⟩
  · intro r
    -- the lowest rank of the host
    obtain ⟨low, hlow, hmin⟩ : ∃ low, (names low).host = (names r).host ∧
        ∀ r', (names r').host = (names r).host → low ≤ r' := by
      have ne : (Finset.univ.filter fun r' => (names r').host = (names r).host).Nonempty :=
        ⟨r, by simp⟩
      obtain ⟨low, hlow, hmin⟩ := Finset.exists_min_image _ id ne
      exact ⟨low, by simpa using hlow, fun r' hr' => hmin r' (by simpa using hr')⟩
    refine ⟨low, ⟨hlow, ?_⟩, ?_⟩
    · exact (imonitor_iff names spec low).mpr fun r' h => hmin r' (h.trans hlow)
    · intro other h
      have mono := (imonitor_iff names spec other).mp h.2
      exact le_antisymm (mono low (hlow.trans h.1.symm)) (hmin other h.1)
  · exact fun r h => (imonitor_iff names spec r).mp h
  · intro r r'
    constructor
    · intro same
      have self := (mem_mynodeComm names spec r' r').mpr rfl
      rw [same] at self
      exact (mem_mynodeComm names spec r r').mp self
    · intro same
      refine spec.same _ _ (fun _ => Int.natCast_nonneg _) r r' ?_
      exact congrArg Nat.cast (NodeName.host_inj.mp same)

end Nodes

/-! ## A split function -/

/-- The order of the ranks in a communicator. -/
def KeyLe {n : Nat} (key : Fin n → ℤ) (a b : Fin n) : Prop :=
  key a < key b ∨ (key a = key b ∧ a ≤ b)

instance {n : Nat} (key : Fin n → ℤ) : DecidableRel (KeyLe key) :=
  fun _ _ => inferInstanceAs (Decidable (_ ∨ _))

/-- Grouping by colour and sorting by key. -/
def sortSplit (n : Nat) : Split n := fun color key r =>
  ((List.finRange n).filter (color · = color r)).mergeSort (KeyLe key · ·)

lemma sortSplit_spec (n : Nat) : SplitSpec (sortSplit n) where
  mem color key _ r r' := by simp [sortSplit]
  same color key _ r r' h := by simp [sortSplit, h]
  ordered color key _ r := by
    have trans : ∀ a b c, KeyLe key a b → KeyLe key b c → KeyLe key a c := by
      intro a b c hab hbc
      obtain hab | ⟨hab, lab⟩ := hab <;> obtain hbc | ⟨hbc, lbc⟩ := hbc
      · exact .inl (hab.trans hbc)
      · exact .inl (hbc ▸ hab)
      · exact .inl (hab ▸ hbc)
      · exact .inr ⟨hab.trans hbc, lab.trans lbc⟩
    have total : ∀ a b, KeyLe key a b ∨ KeyLe key b a := by
      intro a b
      obtain h | h | h := lt_trichotomy (key a) (key b)
      · exact .inl (.inl h)
      · exact (le_total a b).imp (fun l => .inr ⟨h, l⟩) fun l => .inr ⟨h.symm, l⟩
      · exact .inr (.inl h)
    have sorted : (sortSplit n color key r).Pairwise (KeyLe key) := by
      refine List.Pairwise.imp of_decide_eq_true
        (@List.pairwise_mergeSort (Fin n) (fun a b => decide (KeyLe key a b)) ?_ ?_ _)
      · intro a b c hab hbc
        exact decide_eq_true (trans a b c (of_decide_eq_true hab) (of_decide_eq_true hbc))
      · intro a b
        simpa using total a b
    have nodup : (sortSplit n color key r).Nodup :=
      (List.mergeSort_perm _ _).nodup_iff.mpr ((List.nodup_finRange n).filter _)
    refine (sorted.and nodup).imp ?_
    intro a b h
    obtain ⟨h | ⟨h, hle⟩, hne⟩ := h
    · exact .inl h
    · exact .inr ⟨h, lt_of_le_of_ne hle hne⟩

/-- Four ranks, placed in turn on two hosts of which one is named with its domain. -/
def twoNodes (r : Fin 4) : NodeName :=
  if r.val % 2 = 0 then ⟨46, by norm_num, none⟩ else ⟨47, by norm_num, some "cluster".toList⟩

theorem poliInit_two_nodes :
    ∃ m, poliInitNodes (sortSplit 4) (fun r => (twoNodes r).text) = some m ∧
      (∀ r, ∃! r', (twoNodes r').host = (twoNodes r).host ∧ (m r').imonitor = 1) ∧
      (∀ r, (m r).imonitor = 1 → ∀ r', (twoNodes r').host = (twoNodes r).host → r ≤ r') ∧
      (∀ r r', (m r').mynodeComm = (m r).mynodeComm ↔ (twoNodes r').host = (twoNodes r).host) ∧
      (∀ r r', r' ∈ (m r).mynodeComm ↔ (twoNodes r').host = (twoNodes r).host) :=
  poliInit_one_monitor twoNodes (sortSplit_spec 4)

end Powmon.Mpi
