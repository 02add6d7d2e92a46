import Powmon.Lib.Scan

/-!
# Topology detection

`detect_topology` of `sensor_read_lib.c`, which the programs share: it goes through the lines of
`/proc/cpuinfo`, and for each of three keys (`processor`, `physical id`, `core id`) counts how many
different numbers occur after it. The number of cores is then the product of two of the counts.

The kernel's side is `Record`: one logical CPU with its three numbers and the lines it is shown by.
A record carries that it is well formed, so a file of records (`cpuinfo`) is. `detectTopology_cpuinfo`
says what the detection makes of such a file; `ncore_eq_pairs_iff` when the product is the number of
physical cores.

C → Lean naming: a table with its counter and its scanned variable (`sockets`, `total_sockets`,
`phys_id`) is a `Tally`; the three of them are `TopologyState`. The tables are functions of the index,
`-1` where the source has `-1`; an index outside the C arrays does not occur with a well-formed file.
-/

namespace Powmon.Topology
open Lib

/-! ## The program -/

/-- `MAX_CORES`. -/
def maxCores : Nat := 1024

/-- `MAX_PACKAGES`. -/
def maxPackages : Nat := 16

/-- A table of the numbers seen, how many they are, and the variable `sscanf` stores the last one in. -/
structure Tally where
  table : ℤ → ℤ
  total : Nat
  var : ℤ

/-- An empty table. -/
def Tally.init : Tally := ⟨fun _ => -1, 0, 0⟩

/-- `if (table[i] == -1) { table[i] = 1; total += 1; }`. -/
def Tally.mark (t : Tally) (i : ℤ) : Tally :=
  let t := { t with var := i }
  if t.table i = -1 then { t with table := Function.update t.table i 1, total := t.total + 1 } else t

/-- The block for one key: `if (!strncmp(result, key, …)) { sscanf(result, "%*s…%d", &var); … }` with
`words` times `%*s`. A line without the number leaves the variable as it is. -/
def Tally.line (key : Text) (words : Nat) (t : Tally) (result : Text) : Tally :=
  if key.isPrefixOf result then t.mark ((scanIntAfter words result).getD t.var) else t

/-- `"processor"`. -/
def processorKey : Text := "processor".toList
/-- `"physical id"`. -/
def physicalIdKey : Text := "physical id".toList
/-- `"core id"`. -/
def coreIdKey : Text := "core id".toList

/-- The three tables of `detect_topology`. -/
structure TopologyState where
  logicalCpus : Tally
  sockets : Tally
  cores : Tally

/-- The body of the loop over the lines. -/
def detectLine (st : TopologyState) (buffer : Text) : TopologyState :=
  let result := cString buffer
  { logicalCpus := st.logicalCpus.line processorKey 2 result
    sockets := st.sockets.line physicalIdKey 3 result
    cores := st.cores.line coreIdKey 3 result }

/-- The fields of `sys_data` that `detect_topology` sets. -/
structure Detected where
  ncore : Nat
  ncpu : Nat
  htEn : Bool
deriving DecidableEq

/-- The end of `detect_topology`. -/
def TopologyState.result (st : TopologyState) : Detected where
  ncore := st.cores.total * st.sockets.total
  ncpu := st.sockets.total
  htEn := st.cores.total * st.sockets.total * 2 = st.logicalCpus.total

/-- `detect_topology`, with the contents of `/proc/cpuinfo` if it can be opened. -/
def detectTopology (file : Option Text) : Option Detected := do
  let text ← file
  let st := (lines bufsiz text).foldl detectLine ⟨.init, .init, .init⟩
  return st.result

/-! ## Well-formed files -/

/-- The line of a logical CPU. -/
def processorLine (n : Nat) : Text := "processor\t: ".toList ++ fmtNat n
/-- That of its package. -/
def physicalIdLine (n : Nat) : Text := "physical id\t: ".toList ++ fmtNat n
/-- That of its core. -/
def coreIdLine (n : Nat) : Text := "core id\t\t: ".toList ++ fmtNat n

/-- One logical CPU in `/proc/cpuinfo`: the lines that show it hold each of the three lines once, in
any order and among any others, and fit into the program's buffer. -/
structure Record where
  processor : Nat
  physicalId : Nat
  coreId : Nat
  shown : List Text
  processor_lt : processor < maxCores
  physicalId_lt : physicalId < maxPackages
  coreId_lt : coreId < maxCores
  processor_line : shown.filter (processorKey.isPrefixOf ·) = [processorLine processor]
  physicalId_line : shown.filter (physicalIdKey.isPrefixOf ·) = [physicalIdLine physicalId]
  coreId_line : shown.filter (coreIdKey.isPrefixOf ·) = [coreIdLine coreId]
  plain : ∀ l ∈ shown, '\n' ∉ l ∧ '\x00' ∉ l
  fits : ∀ l ∈ shown, l.length + 1 < bufsiz

/-- The file that shows the records. -/
def cpuinfo (rs : List Record) : Text := unlines (rs.flatMap Record.shown)

/-- The physical ids of a file. -/
def physicalIds (rs : List Record) : Finset Nat := (rs.map Record.physicalId).toFinset

/-- The logical CPUs of a file. -/
def processors (rs : List Record) : Finset Nat := (rs.map Record.processor).toFinset

/-- The core ids of a file. -/
def coreIds (rs : List Record) : Finset Nat := (rs.map Record.coreId).toFinset

/-- The physical cores: the pairs of a physical id and a core id that belong to one record. -/
def physicalCores (rs : List Record) : Finset (Nat × Nat) :=
  (rs.map fun r => (r.physicalId, r.coreId)).toFinset

/-! ## Counting -/

/-- The table holds the numbers of `S`, and the counter says how many they are. -/
def Tally.Counts (t : Tally) (S : Finset Nat) : Prop :=
  (∀ i : Nat, t.table i = -1 ↔ i ∉ S) ∧ t.total = S.card

/-- At first nothing is counted. -/
lemma Tally.init_counts : Tally.init.Counts ∅ := ⟨fun _ => by simp [Tally.init], rfl⟩

/-- A number counts once. -/
lemma Tally.mark_counts {t : Tally} {S : Finset Nat} (h : t.Counts S) (n : Nat) :
    (t.mark n).Counts (insert n S) := by
  obtain ⟨table, total⟩ := h
  by_cases hn : n ∈ S
  · have seen : t.table n ≠ -1 := fun e => (table n).mp e hn
    rw [Finset.insert_eq_of_mem hn]
    simpa [mark, seen, Counts] using And.intro table total
  · have fresh : t.table n = -1 := (table n).mpr hn
    refine ⟨?_, ?_⟩
    · intro i
      by_cases hi : i = n
      · subst hi
        simp [mark, fresh]
      · have hz : (i : ℤ) ≠ n := by exact_mod_cast hi
        simp [mark, fresh, hz, hi, table i]
    · simp [mark, fresh, total, Finset.card_insert_of_notMem hn]

/-- Marking numbers one after the other counts the different ones. -/
lemma Tally.foldl_mark_counts {t : Tally} {S : Finset Nat} (h : t.Counts S) (ns : List Nat) :
    (ns.foldl (fun t n => t.mark n) t).Counts (S ∪ ns.toFinset) := by
  induction ns generalizing t S with
  | nil => simpa using h
  | cons n ns ih =>
    have step := ih (Tally.mark_counts h n)
    rwa [List.toFinset_cons, Finset.union_insert, ← Finset.insert_union]

/-! ## Reading the lines -/

/-- A table marks the numbers of the lines with its key. -/
lemma Tally.foldl_line {key : Text} {words : Nat} (hk : '\n' ∉ key) (line : Nat → Text)
    (hl : ∀ n, scanIntAfter words (line n ++ ['\n']) = some (storeInt n)) {ls : List Text}
    {ns : List Nat} (hls : ∀ l ∈ ls, '\x00' ∉ l) (h : ls.filter (key.isPrefixOf ·) = ns.map line)
    (hns : ∀ n ∈ ns, n < 2 ^ 31) (t : Tally) :
    ls.foldl (fun t l => t.line key words (cString (l ++ ['\n']))) t =
      ns.foldl (fun t n => t.mark n) t := by
  induction ls generalizing ns t with
  | nil =>
    obtain rfl : ns = [] := List.map_eq_nil_iff.mp h.symm
    rfl
  | cons l ls ih =>
    have tail := @fun ns => @ih ns fun x hx => hls x (by simp [hx])
    rw [List.foldl_cons, cString_line (hls l (by simp)), Tally.line, isPrefixOf_newline hk]
    by_cases hp : key.isPrefixOf l
    · rw [List.filter_cons_of_pos hp] at h
      cases ns with
      | nil => cases h
      | cons n ns =>
        rw [List.map_cons] at h
        obtain ⟨rfl, rest⟩ := List.cons.inj h
        rw [if_pos hp, hl, tail ns rest fun m hm => hns m (by simp [hm]),
          storeInt_natCast (hns n (by simp))]
        rfl
    · rw [List.filter_cons_of_neg hp] at h
      rw [if_neg hp, tail ns h hns]

/-- The number of a `processor` line. -/
lemma scan_processorLine (n : Nat) :
    scanIntAfter 2 (processorLine n ++ ['\n']) = some (storeInt n) := by
  have h := @scanIntAfter_words [] (by simp)
    [⟨"processor".toList, ['\t'], by simp, by simp [isSpace], by simp, by simp [isSpace]⟩,
      ⟨[':'], [' '], by simp, by simp [isSpace], by simp, by simp [isSpace]⟩] n ['\n'] (by simp)
  unfold processorLine
  simpa using h

/-- That of a `physical id` line. -/
lemma scan_physicalIdLine (n : Nat) :
    scanIntAfter 3 (physicalIdLine n ++ ['\n']) = some (storeInt n) := by
  have h := @scanIntAfter_words [] (by simp)
    [⟨"physical".toList, [' '], by simp, by simp [isSpace], by simp, by simp [isSpace]⟩,
      ⟨"id".toList, ['\t'], by simp, by simp [isSpace], by simp, by simp [isSpace]⟩,
      ⟨[':'], [' '], by simp, by simp [isSpace], by simp, by simp [isSpace]⟩] n ['\n'] (by simp)
  unfold physicalIdLine
  simpa using h

/-- That of a `core id` line. -/
lemma scan_coreIdLine (n : Nat) :
    scanIntAfter 3 (coreIdLine n ++ ['\n']) = some (storeInt n) := by
  have h := @scanIntAfter_words [] (by simp)
    [⟨"core".toList, [' '], by simp, by simp [isSpace], by simp, by simp [isSpace]⟩,
      ⟨"id".toList, ['\t', '\t'], by simp, by simp [isSpace], by simp, by simp [isSpace]⟩,
      ⟨[':'], [' '], by simp, by simp [isSpace], by simp, by simp [isSpace]⟩] n ['\n'] (by simp)
  unfold coreIdLine
  simpa using h

/-- The three tables are filled independently of each other. -/
lemma foldl_detectLine (ls : List Text) (st : TopologyState) :
    ls.foldl detectLine st =
      ⟨ls.foldl (fun t l => t.line processorKey 2 (cString l)) st.logicalCpus,
        ls.foldl (fun t l => t.line physicalIdKey 3 (cString l)) st.sockets,
        ls.foldl (fun t l => t.line coreIdKey 3 (cString l)) st.cores⟩ := by
  induction ls generalizing st with
  | nil => rfl
  | cons l ls ih => exact ih (detectLine st l)

/-- The lines of a file with a key are those of its records. -/
lemma filter_shown {key : Text} {line : Nat → Text} {id : Record → Nat} (rs : List Record)
    (h : ∀ r ∈ rs, r.shown.filter (key.isPrefixOf ·) = [line (id r)]) :
    (rs.flatMap Record.shown).filter (key.isPrefixOf ·) = (rs.map id).map line := by
  induction rs with
  | nil => rfl
  | cons r rs ih =>
    rw [List.flatMap_cons, List.filter_append, h r (by simp), ih fun r hr => h r (by simp [hr])]
    rfl

/-! ## What is detected -/

/-- The lines of a file of records. -/
lemma lines_cpuinfo (rs : List Record) :
    lines bufsiz (cpuinfo rs) = (rs.flatMap Record.shown).map fun l => l ++ ['\n'] := by
  refine lines_unlines ?_ ?_
  · intro l hl
    obtain ⟨r, -, hl⟩ := List.mem_flatMap.mp hl
    exact (r.plain l hl).1
  · intro l hl
    obtain ⟨r, -, hl⟩ := List.mem_flatMap.mp hl
    exact r.fits l hl

/-- A well-formed file is taken apart into its numbers: each kind is counted once for each of its
values. -/
lemma detectTopology_cpuinfo (rs : List Record) :
    detectTopology (some (cpuinfo rs)) =
      some ⟨(coreIds rs).card * (physicalIds rs).card, (physicalIds rs).card,
        (coreIds rs).card * (physicalIds rs).card * 2 = (processors rs).card⟩ := by
  have plain : ∀ l ∈ rs.flatMap Record.shown, '\x00' ∉ l := by
    intro l hl
    obtain ⟨r, -, hl⟩ := List.mem_flatMap.mp hl
    exact (r.plain l hl).2
  -- every table counts the values of its key
  have tally : ∀ {key : Text} {words : Nat} {line : Nat → Text} (id : Record → Nat), '\n' ∉ key →
      (∀ n, scanIntAfter words (line n ++ ['\n']) = some (storeInt n)) →
      (∀ r ∈ rs, r.shown.filter (key.isPrefixOf ·) = [line (id r)]) →
      (∀ r ∈ rs, id r < maxCores) →
      ((lines bufsiz (cpuinfo rs)).foldl (fun t l => t.line key words (cString l))
        Tally.init).total = (rs.map id).toFinset.card := by
    intro key words line id hk hl hr hid
    have small : ∀ n ∈ rs.map id, n < 2 ^ 31 := by
      intro n hn
      obtain ⟨r, hr, rfl⟩ := List.mem_map.mp hn
      exact (hid r hr).trans (by decide)
    rw [lines_cpuinfo, List.foldl_map,
      Tally.foldl_line hk line hl plain (filter_shown rs hr) small]
    simpa using (Tally.foldl_mark_counts Tally.init_counts (rs.map id)).2
  have logicalCpus := tally Record.processor (by unfold processorKey; simp) scan_processorLine
    (fun r _ => r.processor_line) fun r _ => r.processor_lt
  have sockets := tally Record.physicalId (by unfold physicalIdKey; simp) scan_physicalIdLine
    (fun r _ => r.physicalId_line) fun r _ => r.physicalId_lt.trans (by decide)
  have cores := tally Record.coreId (by unfold coreIdKey; simp) scan_coreIdLine
    (fun r _ => r.coreId_line) fun r _ => r.coreId_lt
  simp only [detectTopology, Option.bind_eq_bind, Option.bind_some, Option.pure_def,
    foldl_detectLine, TopologyState.result, logicalCpus, sockets, cores, physicalIds, coreIds,
    processors]
  congr

/-- A core is a package and a core id. -/
lemma physicalCores_subset (rs : List Record) :
    physicalCores rs ⊆ physicalIds rs ×ˢ coreIds rs := by
  intro x hx
  obtain ⟨r, hr, rfl⟩ := List.mem_map.mp (List.mem_toFinset.mp hx)
  refine Finset.mem_product.mpr ⟨?_, ?_⟩
  · exact List.mem_toFinset.mpr (List.mem_map_of_mem hr)
  · exact List.mem_toFinset.mpr (List.mem_map_of_mem hr)

/-- On every well-formed file `NCPU` is the number of physical ids, and `NCORE` is the number of
physical cores exactly when every physical id occurs together with every core id. -/
theorem detectTopology_cores_iff (rs : List Record) :
    ∃ d, detectTopology (some (cpuinfo rs)) = some d ∧ d.ncpu = (physicalIds rs).card ∧
      (d.ncore = (physicalCores rs).card ↔
        ∀ p ∈ physicalIds rs, ∀ c ∈ coreIds rs, (p, c) ∈ physicalCores rs) := by
  refine ⟨_, detectTopology_cpuinfo rs, rfl, ?_⟩
  have grid : (physicalIds rs ×ˢ coreIds rs).card =
      (coreIds rs).card * (physicalIds rs).card := by
    rw [Finset.card_product, mul_comm]
  rw [← grid]
  constructor
  · intro e p hp c hc
    have same := Finset.eq_of_subset_of_card_le (physicalCores_subset rs) e.le
    rw [same]
    exact Finset.mem_product.mpr ⟨hp, hc⟩
  · intro all
    have sub : physicalIds rs ×ˢ coreIds rs ⊆ physicalCores rs := by
      intro x hx
      obtain ⟨hp, hc⟩ := Finset.mem_product.mp hx
      exact all x.1 hp x.2 hc
    exact congrArg Finset.card (Finset.Subset.antisymm sub (physicalCores_subset rs))

/-! ## A host with a disabled core -/

/-- An id has four digits at most. -/
lemma length_id_le {n : Nat} (h : n < maxCores) : (fmtNat n).length ≤ 4 :=
  (length_fmtNat_le_iff (by decide)).mpr (h.trans (by decide))

instance : NeZero maxCores := ⟨by decide⟩

instance : NeZero maxPackages := ⟨by decide⟩

/-- A record that shows nothing but its three lines. -/
def record (processor : Fin maxCores) (physicalId : Fin maxPackages) (coreId : Fin maxCores) :
    Record where
  processor := processor
  physicalId := physicalId
  coreId := coreId
  shown := [processorLine processor, physicalIdLine physicalId, coreIdLine coreId, []]
  processor_lt := processor.isLt
  physicalId_lt := physicalId.isLt
  coreId_lt := coreId.isLt
  processor_line := by
    unfold processorKey processorLine physicalIdLine coreIdLine
    simp [List.isPrefixOf]
  physicalId_line := by
    unfold physicalIdKey processorLine physicalIdLine coreIdLine
    simp [List.isPrefixOf]
  coreId_line := by
    unfold coreIdKey processorLine physicalIdLine coreIdLine
    simp [List.isPrefixOf]
  plain := by
    unfold processorLine physicalIdLine coreIdLine
    simp [fmtNat_plain]
  fits := by
    have l1 := length_id_le processor.isLt
    have l2 := length_id_le (physicalId.isLt.trans (by decide : maxPackages < maxCores))
    have l3 := length_id_le coreId.isLt
    unfold processorLine physicalIdLine coreIdLine bufsiz
    simp only [List.forall_mem_cons, List.length_append, List.length_nil]
    simp
    omega

/-- Two sockets with two cores each; the second one has core `2` instead of core `1`. -/
def fusedOff : List Record :=
  [record 0 0 0, record 1 0 1, record 2 1 0, record 3 1 2]

/-- Four physical cores are detected as six. -/
theorem detectTopology_fusedOff :
    (physicalCores fusedOff).card = 4 ∧
    ∃ d, detectTopology (some (cpuinfo fusedOff)) = some d ∧ d.ncore = 6 :=
  ⟨by decide, _, detectTopology_cpuinfo fusedOff, by decide⟩

end Powmon.Topology
