import Powmon.Topology.Detect

/-!
# The tables of the topology detection

`detect_topology` indexes its three arrays with numbers it has read from the file. `accesses` lists
the array accesses of a run, and `accesses_in_bounds_iff` says for which files all of them lie within
the arrays: nothing is checked, so it is exactly the files whose numbers do. A line without a number
reuses the variable of the line before, which then is in range already.
-/

namespace Powmon.Topology
open Lib

/-- The arrays of `detect_topology`. -/
inductive Table where
  | logicalCpus
  | sockets
  | cores
deriving DecidableEq

/-- The declared sizes. -/
def Table.size : Table → Nat
  | .logicalCpus => maxCores
  | .sockets => maxPackages
  | .cores => maxCores

/-- The key whose lines index an array, and the words before the number. -/
def Table.key : Table → Text
  | .logicalCpus => processorKey
  | .sockets => physicalIdKey
  | .cores => coreIdKey

/-- How many words stand in front of the number. -/
def Table.words : Table → Nat
  | .logicalCpus => 2
  | .sockets => 3
  | .cores => 3

/-- The arrays in the order of the blocks of the loop. -/
def tables : List Table := [.logicalCpus, .sockets, .cores]

/-- An array with its counter and its variable. -/
def TopologyState.tally (st : TopologyState) : Table → Tally
  | .logicalCpus => st.logicalCpus
  | .sockets => st.sockets
  | .cores => st.cores

/-- An access to `table[index]`. -/
structure Access where
  table : Table
  index : ℤ

/-- The access lies within the array. -/
def Access.InBounds (a : Access) : Prop := 0 ≤ a.index ∧ a.index < a.table.size

instance (a : Access) : Decidable a.InBounds := inferInstanceAs (Decidable (_ ∧ _))

/-- The element that the block of an array accesses on a line: the number of the line, or what the
variable held. -/
def lineAccess (st : TopologyState) (buffer : Text) (tb : Table) : Option Access :=
  let result := cString buffer
  if tb.key.isPrefixOf result then
    some ⟨tb, (scanIntAfter tb.words result).getD (st.tally tb).var⟩
  else none

/-- The accesses of the loop over the lines. -/
def fileAccesses (st : TopologyState) : List Text → List Access
  | [] => []
  | l :: ls => tables.filterMap (lineAccess st l) ++ fileAccesses (detectLine st l) ls

/-- The accesses of `detect_topology`: the loops that fill the arrays with `-1`, then the lines. -/
def accesses (text : Text) : List Access :=
  (tables.flatMap fun tb => (List.range tb.size).map fun i => ⟨tb, i⟩) ++
    fileAccesses ⟨.init, .init, .init⟩ (lines bufsiz text)

/-- `detect_topology`, for files on which it stays within its arrays. -/
def detectWithin (file : Option Text) : Option Detected := do
  let text ← file
  if ∀ a ∈ accesses text, a.InBounds then detectTopology (some text) else none

/-- Every number that a line gives is an index of the array of its key. -/
def LineInRange (buffer : Text) : Prop :=
  ∀ tb : Table, tb.key.isPrefixOf (cString buffer) →
    ∀ n ∈ scanIntAfter tb.words (cString buffer), 0 ≤ n ∧ n < tb.size

/-- A line counts in each table. -/
lemma detectLine_tally (st : TopologyState) (buffer : Text) (tb : Table) :
    (detectLine st buffer).tally tb = (st.tally tb).line tb.key tb.words (cString buffer) := by
  cases tb <;> rfl

lemma mem_tables (tb : Table) : tb ∈ tables := by
  cases tb <;> decide

/-- The variables hold indices of their arrays. -/
def VarsInRange (st : TopologyState) : Prop :=
  ∀ tb : Table, 0 ≤ (st.tally tb).var ∧ (st.tally tb).var < tb.size

/-- The variables start in range. -/
lemma varsInRange_init : VarsInRange ⟨.init, .init, .init⟩ := by
  intro tb
  cases tb <;> exact ⟨le_rfl, by decide⟩

/-- A variable holds the index of the last access. -/
lemma detectLine_var (st : TopologyState) (buffer : Text) (tb : Table) :
    ((detectLine st buffer).tally tb).var =
      ((lineAccess st buffer tb).map Access.index).getD (st.tally tb).var := by
  rw [detectLine_tally, Tally.line, lineAccess]
  split
  · unfold Tally.mark
    dsimp only
    split <;> rfl
  · rfl

/-- With the variables in range, the accesses of a line are in bounds exactly if its numbers are in
range. -/
lemma lineAccess_inBounds_iff {st : TopologyState} (hv : VarsInRange st) (l : Text) :
    (∀ a ∈ tables.filterMap (lineAccess st l), a.InBounds) ↔ LineInRange l := by
  constructor
  · intro all tb hkey n hn
    refine all ⟨tb, n⟩ (List.mem_filterMap.mpr ⟨tb, mem_tables tb, ?_⟩)
    rw [lineAccess, if_pos hkey, Option.mem_def.mp hn]
    rfl
  · intro ok a ha
    obtain ⟨tb, -, e⟩ := List.mem_filterMap.mp ha
    rw [lineAccess] at e
    split at e
    · rename_i hkey
      cases e
      cases hn : scanIntAfter tb.words (cString l) with
      | none => exact hv tb
      | some n => exact ok tb hkey n hn
    · cases e

/-- The variables stay in range as long as the accesses are in bounds. -/
lemma detectLine_inRange {st : TopologyState} (hv : VarsInRange st) {l : Text}
    (h : ∀ a ∈ tables.filterMap (lineAccess st l), a.InBounds) : VarsInRange (detectLine st l) := by
  intro tb
  rw [detectLine_var]
  cases ha : lineAccess st l tb with
  | none => exact hv tb
  | some a =>
    have table : a.table = tb := by
      rw [lineAccess] at ha
      split at ha
      · cases ha
        rfl
      · cases ha
    have bounds := h a (List.mem_filterMap.mpr ⟨tb, mem_tables tb, ha⟩)
    rw [Access.InBounds, table] at bounds
    exact bounds

/-- All accesses are in bounds exactly if the line of each is. -/
lemma fileAccesses_inBounds_iff {st : TopologyState} (hv : VarsInRange st) (ls : List Text) :
    (∀ a ∈ fileAccesses st ls, a.InBounds) ↔ ∀ l ∈ ls, LineInRange l := by
  induction ls generalizing st with
  | nil => simp [fileAccesses]
  | cons l ls ih =>
    rw [fileAccesses, List.forall_mem_append, List.forall_mem_cons]
    constructor
    · intro h
      obtain ⟨line, rest⟩ := h
      exact ⟨(lineAccess_inBounds_iff hv l).mp line, (ih (detectLine_inRange hv line)).mp rest⟩
    · intro h
      obtain ⟨line, rest⟩ := h
      have line' := (lineAccess_inBounds_iff hv l).mpr line
      exact ⟨line', (ih (detectLine_inRange hv line')).mpr rest⟩

/-- The accesses of a run are in bounds exactly if all numbers of the file are in range. -/
lemma accesses_inBounds_iff (text : Text) :
    (∀ a ∈ accesses text, a.InBounds) ↔ ∀ l ∈ lines bufsiz text, LineInRange l := by
  have fill : ∀ a ∈ tables.flatMap fun tb => (List.range tb.size).map fun i : Nat => Access.mk tb i,
      a.InBounds := by
    intro a ha
    obtain ⟨tb, -, ha⟩ := List.mem_flatMap.mp ha
    obtain ⟨i, hi, rfl⟩ := List.mem_map.mp ha
    exact ⟨Int.natCast_nonneg i, Int.ofNat_lt.mpr (List.mem_range.mp hi)⟩
  have lines := fileAccesses_inBounds_iff varsInRange_init (lines bufsiz text)
  rw [accesses, List.forall_mem_append]
  constructor
  · intro h
    exact lines.mp h.2
  · intro h
    exact ⟨fill, lines.mpr h⟩

/-- When a topology is detected within the arrays. -/
lemma detectWithin_isSome_iff (file : Option Text) :
    (detectWithin file).isSome ↔
      ∃ text, file = some text ∧ ∀ l ∈ lines bufsiz text, LineInRange l := by
  cases file with
  | none => simp [detectWithin]
  | some text =>
    have within := accesses_inBounds_iff text
    simp only [detectWithin, Option.bind_eq_bind, Option.bind_some]
    split
    · next h => exact ⟨fun _ => ⟨text, rfl, within.mp h⟩, fun _ => rfl⟩
    · next h =>
      refine ⟨nofun, ?_⟩
      rintro ⟨text', e, h'⟩
      cases e
      exact absurd (within.mpr h') h

/-- For every file, `detect_topology` stays within its arrays exactly if every number on a
`processor`, `physical id` or `core id` line is an index of the array of that key. -/
theorem accesses_in_bounds_iff (text : Text) :
    (∀ a ∈ accesses text, 0 ≤ a.index ∧ a.index < a.table.size) ↔
      ∀ l ∈ lines bufsiz text, ∀ tb : Table, tb.key.isPrefixOf (cString l) →
        ∀ n ∈ scanIntAfter tb.words (cString l), 0 ≤ n ∧ n < tb.size :=
  accesses_inBounds_iff text

/-- A package with the physical id `16` is counted behind the array. -/
theorem accesses_sixteenth :
    ¬ ∀ a ∈ accesses (unlines [physicalIdLine 16]), 0 ≤ a.index ∧ a.index < a.table.size := by
  intro all
  have file : lines bufsiz (unlines [physicalIdLine 16]) = [physicalIdLine 16 ++ ['\n']] := by
    rw [lines_unlines]
    · rfl
    · unfold physicalIdLine
      simp [(fmtNat_plain 16).1]
    · have len : (fmtNat 16).length ≤ 4 := length_id_le (by decide)
      unfold physicalIdLine bufsiz
      simp
      omega
  have plain : '\x00' ∉ physicalIdLine 16 := by
    unfold physicalIdLine
    simp [(fmtNat_plain 16).2]
  have key : Table.sockets.key.isPrefixOf (cString (physicalIdLine 16 ++ ['\n'])) := by
    rw [cString_line plain]
    unfold Table.key physicalIdKey physicalIdLine
    simp [List.isPrefixOf]
  have access : (⟨.sockets, 16⟩ : Access) ∈ accesses (unlines [physicalIdLine 16]) := by
    rw [accesses, file, fileAccesses, fileAccesses]
    refine List.mem_append_right _ (List.mem_append_left _ ?_)
    refine List.mem_filterMap.mpr ⟨.sockets, mem_tables _, ?_⟩
    rw [lineAccess, if_pos key, cString_line plain]
    have scan := scan_physicalIdLine 16
    rw [storeInt_natCast (by norm_num)] at scan
    exact congrArg (fun n => some (Access.mk .sockets (Option.getD n _))) scan
  exact absurd (all _ access).2 (by decide)

end Powmon.Topology
