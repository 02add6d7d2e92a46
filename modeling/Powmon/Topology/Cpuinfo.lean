import Powmon.Monitor.Detect
import Powmon.Topology.Detect

/-!
# Files in the format of `/proc/cpuinfo`

What `detect_topology` and `detect_cpu_model` of the daemon make of any sequence of lines in the
kernel's format. An `InfoLine` is one such line: the four keys with a number, the `model name` line,
whose front is that of a `model` line, and anything that starts with none of the keys.

A line acts on the table of its key by marking its number and on everything else not at all
(`lineProcessor`, `linePhysicalId`, `lineCoreId`, `line_model`), so that `detect_cpuinfo` gives the
results as cardinalities of the sets of numbers, and the model as that of the last `model` line.
-/

namespace Powmon.Topology
open Lib
open Monitor (SysData modelKey modelLine selectModel detectCpuModel)

/-! ## Lines -/

/-- What stands between a key and its value, and the value. -/
def field (tabs : Nat) (value : Text) : Text :=
  List.replicate (tabs + 1) '\t' ++ ':' :: ' ' :: value

/-- `"model name"`. -/
def modelNameKey : Text := "model name".toList

/-- What a line shows. -/
inductive Content where
  | processor (tabs : Nat) (i : Fin maxCores)
  | physicalId (tabs : Nat) (p : Fin maxPackages)
  | coreId (tabs : Nat) (c : Fin maxCores)
  | model (tabs m : Nat)
  | modelName (tabs : Nat) (name : Text)
  | other (text : Text)

/-- The text of a line, without its newline. -/
def Content.text : Content → Text
  | .processor tabs i => processorKey ++ field tabs (fmtNat i)
  | .physicalId tabs p => physicalIdKey ++ field tabs (fmtNat p)
  | .coreId tabs c => coreIdKey ++ field tabs (fmtNat c)
  | .model tabs m => modelKey ++ field tabs (fmtNat m)
  | .modelName tabs name => modelNameKey ++ field tabs name
  | .other text => text

/-- The prefixes the two functions test for. -/
inductive Key where
  | processor
  | physicalId
  | coreId
  | model
deriving DecidableEq

/-- The key as it is looked for. -/
def Key.text : Key → Text
  | .processor => processorKey
  | .physicalId => physicalIdKey
  | .coreId => coreIdKey
  | .model => modelKey

/-- A line that fits into the buffers of the functions. -/
structure InfoLine where
  content : Content
  plain : '\n' ∉ content.text
  fits : content.text.length + 1 < bufsiz
  other : ∀ text, content = .other text → ∀ key : Key, ¬ key.text.isPrefixOf text

/-- The line without its newline. -/
def InfoLine.text (l : InfoLine) : Text := l.content.text

/-- The numbers on the lines of one kind. -/
def Content.processor? : Content → Option Nat
  | .processor _ i => some i
  | _ => none

/-- The package that a line names. -/
def Content.physicalId? : Content → Option Nat
  | .physicalId _ p => some p
  | _ => none

/-- The core that it names. -/
def Content.coreId? : Content → Option Nat
  | .coreId _ c => some c
  | _ => none

/-- The model that it names. -/
def Content.model? : Content → Option Nat
  | .model _ m => some m
  | _ => none

/-- The logical CPUs, packages and cores that the lines name, and the model they name last. -/
def namedProcessors (ls : List InfoLine) : Finset Nat :=
  (ls.filterMap fun l => l.content.processor?).toFinset

/-- The packages of all lines. -/
def namedPhysicalIds (ls : List InfoLine) : Finset Nat :=
  (ls.filterMap fun l => l.content.physicalId?).toFinset

/-- The cores of all lines. -/
def namedCoreIds (ls : List InfoLine) : Finset Nat :=
  (ls.filterMap fun l => l.content.coreId?).toFinset

/-- The model of the last line that names one. -/
def lastModel (ls : List InfoLine) : Option Nat :=
  (ls.filterMap fun l => l.content.model?).getLast?

/-! ## Fronts of lines -/

/-- The key that a line is taken for. -/
def Content.key? : Content → Option Key
  | .processor _ _ => some .processor
  | .physicalId _ _ => some .physicalId
  | .coreId _ _ => some .coreId
  | .model _ _ | .modelName _ _ => some .model
  | .other _ => none

/-- A key is one line without NUL. -/
lemma Key.text_plain (key : Key) : '\n' ∉ key.text ∧ '\x00' ∉ key.text := by
  cases key <;> unfold text <;> dsimp only
  · unfold processorKey
    simp
  · unfold physicalIdKey
    simp
  · unfold coreIdKey
    simp
  · unfold modelKey
    simp

/-- No key is at the front of a line of another one, but `model` is at that of a `model name`. -/
lemma isPrefixOf_text (l : InfoLine) (key : Key) :
    key.text.isPrefixOf l.text = decide (l.content.key? = some key) := by
  obtain ⟨content, plain, fits, other⟩ := l
  unfold InfoLine.text
  cases content with
  | other text =>
    have h := other text rfl key
    simp only [Content.key?, reduceCtorEq, decide_false]
    exact Bool.eq_false_iff.mpr h
  | _ =>
    unfold Content.text Content.key? processorKey physicalIdKey coreIdKey modelKey modelNameKey
    cases key <;> unfold Key.text processorKey physicalIdKey coreIdKey modelKey <;>
      simp [List.isPrefixOf]

/-- Each line begins with its own key only. -/
lemma key_iff (l : InfoLine) (key : Key) :
    key.text.isPrefixOf (cString (l.text ++ ['\n'])) ↔ l.content.key? = some key := by
  obtain ⟨hn, h0⟩ := key.text_plain
  rw [isPrefixOf_cString hn h0, isPrefixOf_text l key, decide_eq_true_iff]

/-! ## Scanning the lines -/

/-- A word that ends in tabs. -/
def tabbed (word : Text) (tabs : Nat) (hne : word ≠ []) (hp : ∀ c ∈ word, isSpace c = false) :
    Spaced where
  word := word
  gap := List.replicate (tabs + 1) '\t'
  word_ne := hne
  word_plain := hp
  gap_ne := by simp
  gap_space := by simp [isSpace]

/-- A word that ends in a space. -/
def spaced (word : Text) (hne : word ≠ []) (hp : ∀ c ∈ word, isSpace c = false) : Spaced where
  word := word
  gap := [' ']
  word_ne := hne
  word_plain := hp
  gap_ne := by simp
  gap_space := by simp [isSpace]

/-- The number of a field is read behind the words of its key. -/
lemma scanIntAfter_field (xs : List Spaced) (word : Text) (hne : word ≠ [])
    (hp : ∀ c ∈ word, isSpace c = false) (tabs n : Nat) :
    scanIntAfter (xs.length + 2)
      (xs.flatMap (fun x => x.word ++ x.gap) ++ word ++ field tabs (fmtNat n) ++ ['\n']) =
      some (storeInt n) := by
  have h := @scanIntAfter_words [] (by simp)
    (xs ++ [tabbed word tabs hne hp, spaced [':'] (by simp) (by simp [isSpace])]) n ['\n'] (by simp)
  simpa [tabbed, spaced, field] using h

/-- So is a key with its value. -/
lemma field_plain {key : Text} (h : '\x00' ∉ key) (tabs n : Nat) :
    '\x00' ∉ key ++ field tabs (fmtNat n) := by
  simp [field, h, (fmtNat_plain n).2]

/-- The number of a `processor` line. -/
lemma scan_processor (tabs : Nat) (i : Fin maxCores) :
    scanIntAfter 2 ((Content.processor tabs i).text ++ ['\n']) = some (storeInt i) := by
  have h := scanIntAfter_field [] "processor".toList (by simp) (by simp [isSpace]) tabs i
  unfold Content.text processorKey
  simpa using h

/-- That of a `physical id` line. -/
lemma scan_physicalId (tabs : Nat) (p : Fin maxPackages) :
    scanIntAfter 3 ((Content.physicalId tabs p).text ++ ['\n']) = some (storeInt p) := by
  have h := scanIntAfter_field [spaced "physical".toList (by simp) (by simp [isSpace])] "id".toList
    (by simp) (by simp [isSpace]) tabs p
  unfold Content.text physicalIdKey
  simpa [spaced] using h

/-- That of a `core id` line. -/
lemma scan_coreId (tabs : Nat) (c : Fin maxCores) :
    scanIntAfter 3 ((Content.coreId tabs c).text ++ ['\n']) = some (storeInt c) := by
  have h := scanIntAfter_field [spaced "core".toList (by simp) (by simp [isSpace])] "id".toList
    (by simp) (by simp [isSpace]) tabs c
  unfold Content.text coreIdKey
  simpa [spaced] using h

/-- That of a `model` line. -/
lemma scan_model (tabs m : Nat) :
    scanIntAfter 2 ((Content.model tabs m).text ++ ['\n']) = some (storeInt m) := by
  have h := scanIntAfter_field [] "model".toList (by simp) (by simp [isSpace]) tabs m
  unfold Content.text modelKey
  simpa using h

/-- The number of a `model name` line is looked for at its colon, whatever the name is. -/
lemma scan_modelName (tabs : Nat) (name : Text) :
    scanIntAfter 2 (cString ((Content.modelName tabs name).text ++ ['\n'])) = none := by
  have cut : cString ((Content.modelName tabs name).text ++ ['\n']) =
      [] ++ ("model".toList ++ ([' '] ++ ("name".toList ++ (List.replicate (tabs + 1) '\t' ++
        ':' :: ' ' :: cString (name ++ ['\n']))))) := by
    have e := cString_append (a := modelNameKey ++ List.replicate (tabs + 1) '\t' ++ [':', ' '])
      (by unfold modelNameKey; simp) (name ++ ['\n'])
    unfold Content.text field modelNameKey at *
    simpa using e
  have first := @scanStr_append [] "model".toList ([' '] ++ ("name".toList ++
    (List.replicate (tabs + 1) '\t' ++ ':' :: ' ' :: cString (name ++ ['\n'])))) (by simp)
    (by simp [isSpace]) (by simp) (by simp [isSpace])
  have second := @scanStr_append [' '] "name".toList (List.replicate (tabs + 1) '\t' ++
    ':' :: ' ' :: cString (name ++ ['\n'])) (by simp [isSpace]) (by simp [isSpace]) (by simp)
    (by simp [List.replicate_succ, isSpace])
  have number : scanInt (List.replicate (tabs + 1) '\t' ++ ':' :: ' ' :: cString (name ++ ['\n'])) =
      none := by
    rw [scanInt, List.dropWhile_append_of_pos (by simp [isSpace])]
    rfl
  rw [cut, scanIntAfter, skipWords, first]
  simp only [Option.bind_eq_bind, Option.bind_some]
  rw [skipWords, second]
  simp only [Option.bind_eq_bind, Option.bind_some, skipWords]
  rw [number]
  rfl

/-! ## What a line does -/

/-- The block for a key marks the numbers of the lines with that key. -/
lemma line_marks (l : InfoLine) (key : Key) (words : Nat) (num : Option Nat)
    (absent : l.content.key? ≠ some key → num = none)
    (present : l.content.key? = some key → ∃ n < maxCores, num = some n ∧ '\x00' ∉ l.text ∧
      scanIntAfter words (l.text ++ ['\n']) = some (storeInt n)) (t : Tally) :
    t.line key.text words (cString (l.text ++ ['\n'])) = num.elim t fun n => t.mark n := by
  rw [Tally.line]
  by_cases h : l.content.key? = some key
  · obtain ⟨n, hn, rfl, plain, scan⟩ := present h
    rw [if_pos ((key_iff l key).mpr h), cString_line plain, scan,
      storeInt_natCast (hn.trans (by decide))]
    rfl
  · rw [if_neg (fun hp => h ((key_iff l key).mp hp)), absent h]
    rfl

/-- A line in the pass over `processor`. -/
lemma line_processor (l : InfoLine) (t : Tally) :
    t.line processorKey 2 (cString (l.text ++ ['\n'])) =
      l.content.processor?.elim t fun n => t.mark n := by
  obtain ⟨content, plain, fits, other⟩ := l
  refine line_marks _ .processor 2 _ ?_ ?_ t
  · cases content with
    | processor tabs i => exact fun h => absurd rfl h
    | _ => exact fun _ => rfl
  · cases content with
    | processor tabs i =>
      exact fun _ => ⟨i, i.isLt, rfl, field_plain Key.processor.text_plain.2 tabs i,
        scan_processor tabs i⟩
    | _ => exact fun h => by cases h

/-- In the pass over `physical id`. -/
lemma line_physicalId (l : InfoLine) (t : Tally) :
    t.line physicalIdKey 3 (cString (l.text ++ ['\n'])) =
      l.content.physicalId?.elim t fun n => t.mark n := by
  obtain ⟨content, plain, fits, other⟩ := l
  refine line_marks _ .physicalId 3 _ ?_ ?_ t
  · cases content with
    | physicalId tabs p => exact fun h => absurd rfl h
    | _ => exact fun _ => rfl
  · cases content with
    | physicalId tabs p =>
      exact fun _ => ⟨p, p.isLt.trans (by decide), rfl,
        field_plain Key.physicalId.text_plain.2 tabs p, scan_physicalId tabs p⟩
    | _ => exact fun h => by cases h

/-- In the pass over `core id`. -/
lemma line_coreId (l : InfoLine) (t : Tally) :
    t.line coreIdKey 3 (cString (l.text ++ ['\n'])) =
      l.content.coreId?.elim t fun n => t.mark n := by
  obtain ⟨content, plain, fits, other⟩ := l
  refine line_marks _ .coreId 3 _ ?_ ?_ t
  · cases content with
    | coreId tabs c => exact fun h => absurd rfl h
    | _ => exact fun _ => rfl
  · cases content with
    | coreId tabs c =>
      exact fun _ => ⟨c, c.isLt, rfl, field_plain Key.coreId.text_plain.2 tabs c,
        scan_coreId tabs c⟩
    | _ => exact fun h => by cases h

/-- A `model` line sets the model; a `model name` line is taken for one, but has no number where one
is looked for. -/
lemma line_model (l : InfoLine) (model : ℤ) :
    modelLine model (l.text ++ ['\n']) = l.content.model?.elim model fun m => storeInt m := by
  have front := key_iff l .model
  obtain ⟨content, plain, fits, other⟩ := l
  rw [modelLine]
  cases content with
  | model tabs m =>
    have plain : '\x00' ∉ (Content.model tabs m).text := field_plain Key.model.text_plain.2 tabs m
    have scan := scan_model tabs m
    rw [← cString_line plain] at scan
    exact (if_pos (front.mpr rfl)).trans (congrArg (Option.getD · model) scan)
  | modelName tabs name =>
    exact (if_pos (front.mpr rfl)).trans
      (congrArg (Option.getD · model) (scan_modelName tabs name))
  | _ => exact if_neg fun hp => by cases front.mp hp

/-! ## What is detected -/

/-- A pass marks the numbers of its lines. -/
lemma foldl_marks {num : InfoLine → Option Nat} {f : Tally → InfoLine → Tally}
    (h : ∀ l t, f t l = (num l).elim t fun n => t.mark n) (ls : List InfoLine) (t : Tally) :
    ls.foldl f t = (ls.filterMap num).foldl (fun t n => t.mark n) t := by
  induction ls generalizing t with
  | nil => rfl
  | cons l ls ih =>
    rw [List.foldl_cons, h, ih]
    cases hn : num l with
    | none => rw [List.filterMap_cons_none hn]; rfl
    | some n => rw [List.filterMap_cons_some hn]; rfl

/-- The loop of `detect_cpu_model` ends with the number of the last `model` line. -/
lemma foldl_modelLine (ls : List InfoLine) (model : ℤ) :
    ls.foldl (fun model l => modelLine model (l.text ++ ['\n'])) model =
      (lastModel ls).elim model fun m => storeInt m := by
  induction ls using List.reverseRecOn generalizing model with
  | nil => rfl
  | append_singleton ls l ih =>
    rw [List.foldl_append, List.foldl_cons, List.foldl_nil, line_model, lastModel,
      List.filterMap_append, ih]
    cases hm : l.content.model? with
    | none => simp [lastModel, hm]
    | some m => simp [hm]

/-- The file of these lines. -/
def infoFile (ls : List InfoLine) : Text := unlines (ls.map InfoLine.text)

/-- `fgets` reads line by line. -/
lemma lines_infoFile (ls : List InfoLine) :
    lines bufsiz (infoFile ls) = ls.map fun l => l.text ++ ['\n'] := by
  rw [infoFile, lines_unlines, List.map_map]
  · rfl
  · intro text h
    obtain ⟨l, -, rfl⟩ := List.mem_map.mp h
    exact l.plain
  · intro text h
    obtain ⟨l, -, rfl⟩ := List.mem_map.mp h
    exact l.fits

/-- On every sequence of lines in the format of `/proc/cpuinfo`, `detect_topology` finds as many
packages as there are different physical ids, that number times the different core ids as cores, and
hyperthreading if there are twice as many logical CPUs; `detect_cpu_model` goes by the last `model`
line, or finds none. -/
theorem detect_cpuinfo (ls : List InfoLine) :
    (∃ d, detectTopology (some (infoFile ls)) = some d ∧
      d.ncpu = (namedPhysicalIds ls).card ∧
      d.ncore = (namedPhysicalIds ls).card * (namedCoreIds ls).card ∧
      (d.htEn = true ↔ (namedProcessors ls).card = 2 * d.ncore)) ∧
    ∀ s : SysData, detectCpuModel (some (infoFile ls)) s =
      some (selectModel ((lastModel ls).elim (-1) fun m => storeInt m) s) := by
  have tally : ∀ {num : InfoLine → Option Nat} {f : Tally → Text → Tally},
      (∀ (l : InfoLine) t, f t (l.text ++ ['\n']) = (num l).elim t fun n => t.mark n) →
      ((lines bufsiz (infoFile ls)).foldl f Tally.init).total =
        (ls.filterMap num).toFinset.card := by
    intro num f h
    rw [lines_infoFile, List.foldl_map, foldl_marks h]
    simpa using (Tally.foldl_mark_counts Tally.init_counts (ls.filterMap num)).2
  have logicalCpus := tally (f := fun t l => t.line processorKey 2 (cString l)) line_processor
  have sockets := tally (f := fun t l => t.line physicalIdKey 3 (cString l)) line_physicalId
  have cores := tally (f := fun t l => t.line coreIdKey 3 (cString l)) line_coreId
  constructor
  · refine ⟨_, rfl, ?_, ?_, ?_⟩
    · rw [foldl_detectLine]
      exact sockets
    · rw [foldl_detectLine, TopologyState.result]
      simp only [sockets, cores, namedPhysicalIds, namedCoreIds, mul_comm]
    · rw [foldl_detectLine, TopologyState.result]
      simp only [sockets, cores, logicalCpus, namedProcessors, decide_eq_true_iff]
      omega
  · intro s
    rw [detectCpuModel, Option.map_some, lines_infoFile, List.foldl_map, foldl_modelLine]

/-- A line that begins with none of the keys. -/
def otherLine (text : Text) (plain : '\n' ∉ text) (fits : text.length + 1 < bufsiz)
    (other : ∀ key : Key, ¬ key.text.isPrefixOf text) : InfoLine :=
  ⟨.other text, plain, fits, fun _ e => Content.other.inj e ▸ other⟩

/-- Logical CPU `2` on core `9` of package `1`, then `0` and `1` on package `0`, in no order and with
repetitions. -/
def dualLines : List InfoLine :=
  [⟨.coreId 1 9, by decide, by decide, nofun⟩,
    ⟨.processor 0 2, by decide, by decide, nofun⟩,
    ⟨.model 1 45, by decide, by decide, nofun⟩,
    otherLine "vendor_id\t: GenuineIntel".toList (by decide) (by decide) fun key => by
      cases key <;> decide,
    ⟨.physicalId 0 1, by decide, by decide, nofun⟩,
    ⟨.processor 0 0, by decide, by decide, nofun⟩,
    ⟨.coreId 1 0, by decide, by decide, nofun⟩,
    otherLine [] (by decide) (by decide) fun key => by cases key <;> decide,
    ⟨.physicalId 0 0, by decide, by decide, nofun⟩,
    ⟨.model 1 63, by decide, by decide, nofun⟩,
    ⟨.modelName 0 "Intel(R) Xeon(R) CPU 45".toList, by decide, by decide, nofun⟩,
    ⟨.processor 0 1, by decide, by decide, nofun⟩,
    ⟨.coreId 1 9, by decide, by decide, nofun⟩,
    ⟨.physicalId 0 0, by decide, by decide, nofun⟩]

/-- Two packages with core ids `0` and `9`, three logical CPUs, and the model of the last `model`
line. -/
theorem detect_cpuinfo_dual :
    (∃ d, detectTopology (some (infoFile dualLines)) = some d ∧ d.ncpu = 2 ∧ d.ncore = 4 ∧
      d.htEn = false) ∧
    ∀ s : SysData, detectCpuModel (some (infoFile dualLines)) s = some (selectModel 63 s) := by
  obtain ⟨⟨d, found, ncpu, ncore, htEn⟩, model⟩ := detect_cpuinfo dualLines
  have packages : (namedPhysicalIds dualLines).card = 2 := by decide +kernel
  have cores : (namedCoreIds dualLines).card = 2 := by decide +kernel
  have cpus : (namedProcessors dualLines).card = 3 := by decide +kernel
  rw [packages] at ncpu ncore
  rw [cores] at ncore
  rw [cpus, ncore] at htEn
  refine ⟨⟨d, found, ncpu, ncore, ?_⟩, model⟩
  rw [← Bool.not_eq_true, htEn]
  decide

end Powmon.Topology
