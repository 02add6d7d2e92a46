import Powmon.Iniparser.Document

/-!
# Writing a configuration file

`iniparser_dump_ini` of `powmon/lib/iniparser/src/iniparser.c`, which prints a dictionary section by
section: a section is a key without a colon, and its entries are the keys that begin with its name and a
colon. `iniparserLoad_dumpIni` is the way round: what is printed for a dictionary whose names and values
can be written without quotes is read back as the same dictionary.

Without the conditions of `Dumpable` it is not: an entry whose section is no key of its own is not
printed, and a value with a `;` is cut off when it is read.
-/

namespace Powmon.Iniparser
open Lib

/-! ## The code -/

/-- `iniparser_find_entry`. -/
def findEntry (d : Dictionary) (entry : Text) : Bool := (dictionaryGet d (strlwc entry)).isSome

/-- `iniparser_getnsec`. -/
def getnsec (d : Dictionary) : Nat := d.slots.countP fun s => s.any fun e => ':' ∉ e.key

/-- The loop of `iniparser_getsecname`, with the sections still to be passed by. -/
def getsecnameLoop : List (Option Entry) → Nat → Option Text
  | [], _ => none
  | none :: slots, n => getsecnameLoop slots n
  | some e :: slots, n =>
    if ':' ∈ e.key then getsecnameLoop slots n
    else match n with
      | 0 => some e.key
      | n + 1 => getsecnameLoop slots n

/-- `iniparser_getsecname`. -/
def getsecname (d : Dictionary) (n : Nat) : Option Text := getsecnameLoop d.slots n

/-- `"%-30s = %s"`. -/
def entryLine (key val : Text) : Text :=
  key ++ List.replicate (30 - key.length) ' ' ++ " = ".toList ++ val

/-- The loop of `iniparser_dumpsection_ini` over the entries that begin with `keym`. -/
def dumpEntries (keym : Text) (slots : List (Option Entry)) : Text :=
  slots.flatMap fun s => s.elim [] fun e =>
    if keym <+: e.key then entryLine (e.key.drop keym.length) (e.val.getD []) ++ ['\n'] else []

/-- `iniparser_dumpsection_ini`, or `none` if the name and the colon do not fit into `keym`. -/
def dumpsectionIni (d : Dictionary) : Option Text → Option Text
  | none => some []
  | some s =>
    if findEntry d s then
      if s.length + 1 ≤ asciiLineSz then
        some ("\n[".toList ++ s ++ "]\n".toList ++ dumpEntries (s ++ [':']) d.slots ++ "\n".toList)
      else none
    else some []

/-- `iniparser_dump_ini`. -/
def dumpIni (d : Dictionary) : Option Text :=
  let nsec := getnsec d
  if nsec < 1 then
    some (d.slots.flatMap fun s => s.elim [] fun e =>
      e.key ++ " = ".toList ++ e.val.getD "(null)".toList ++ "\n".toList)
  else
    ((List.range nsec).mapM fun i => dumpsectionIni d (getsecname d i)).map fun printed =>
      printed.flatten ++ "\n".toList

/-! ## Sections -/

/-- The entries in the order of their slots. -/
def Dictionary.entries (d : Dictionary) : List Entry := d.slots.filterMap id

/-- The names of the sections. -/
def Dictionary.sections (d : Dictionary) : List Text :=
  (d.entries.filter fun e => ':' ∉ e.key).map Entry.key

/-- `iniparser_getnsec` counts the sections. -/
lemma getnsec_eq (d : Dictionary) : getnsec d = d.sections.length := by
  rw [getnsec, Dictionary.sections, Dictionary.entries, List.length_map]
  induction d.slots with
  | nil => rfl
  | cons s slots ih =>
    cases s with
    | none => simpa using ih
    | some e =>
      by_cases h : ':' ∈ e.key
      · simpa [h] using ih
      · simpa [h] using ih

/-- `iniparser_getsecname` names them. -/
lemma getsecname_eq (d : Dictionary) (n : Nat) : getsecname d n = d.sections[n]? := by
  rw [getsecname, Dictionary.sections, Dictionary.entries]
  induction d.slots generalizing n with
  | nil => rfl
  | cons s slots ih =>
    cases s with
    | none => simpa [getsecnameLoop] using ih n
    | some e =>
      by_cases h : ':' ∈ e.key
      · simpa [getsecnameLoop, h] using ih n
      · cases n with
        | zero => simp [getsecnameLoop, h]
        | succ n => simpa [getsecnameLoop, h] using ih n

/-- The loop over the numbers of the sections goes through their names. -/
lemma dumpIni_sections {d : Dictionary} (h : d.sections ≠ []) :
    dumpIni d = (d.sections.mapM fun s => dumpsectionIni d (some s)).map fun printed =>
      printed.flatten ++ "\n".toList := by
  have some_section : ¬ getnsec d < 1 := by
    rw [getnsec_eq]
    have := List.length_pos_iff.mpr h
    omega
  have names : (List.range d.sections.length).map (getsecname d) = d.sections.map some := by
    refine List.ext_getElem (by simp) fun i h _ => ?_
    rw [List.length_map, List.length_range] at h
    simp [getsecname_eq, List.getElem?_eq_getElem h]
  have loop : ((List.range d.sections.length).mapM fun i => dumpsectionIni d (getsecname d i)) =
      d.sections.mapM fun s => dumpsectionIni d (some s) := by
    have through := congrArg (List.mapM (dumpsectionIni d)) names
    rwa [List.mapM_map, List.mapM_map] at through
  rw [dumpIni, if_neg some_section, getnsec_eq, loop]

/-! ## What can be printed -/

/-- The names of sections that can be written. -/
structure SectionName (s : Text) : Prop where
  ne : s ≠ []
  plain : ']' ∉ s
  stripped : Stripped s
  lower : strlwc s = s
  oneLine : '\n' ∉ s ∧ '\x00' ∉ s
  room : s.length + 3 < asciiLineSz

/-- The keys and values that can be written without quotes. -/
structure PlainEntry (key val : Text) : Prop where
  isKey : KeyText key
  lower : strlwc key = key
  isValue : val = [] ∨ PlainValue val
  oneLine : '\n' ∉ key ++ val ∧ '\x00' ∉ key ++ val
  closed : val.getLast? ≠ some '\\'
  room : (entryLine key val).length + 1 < asciiLineSz

/-- What can be printed and read back. -/
structure Dumpable (d : Dictionary) : Prop where
  inv : DictInv d
  /-- A key without a colon is a section, -/
  sections : ∀ e ∈ d.entries, ':' ∉ e.key → e.val = none ∧ SectionName e.key
  /-- and every other one is an entry of a section, with a value. -/
  entries : ∀ e ∈ d.entries, ':' ∈ e.key → e.key.length ≤ asciiLineSz ∧
    ∃ s ∈ d.sections, ∃ key val, e.key = s ++ ':' :: key ∧ e.val = some val ∧ PlainEntry key val

/-- The entries of a section. -/
def Dictionary.entriesOf (d : Dictionary) (s : Text) : List Entry :=
  d.entries.filter fun e => s ++ [':'] <+: e.key

/-- The lines that are printed for a section. -/
def Dictionary.sectionLines (d : Dictionary) (s : Text) : List Text :=
  [] :: ('[' :: (s ++ [']'])) ::
    ((d.entriesOf s).map fun e => entryLine (e.key.drop (s.length + 1)) (e.val.getD [])) ++ [[]]

section Printed
variable {d : Dictionary} {s : Text}

/-- A section is a key without a colon. -/
lemma mem_sections : s ∈ d.sections ↔ ∃ e ∈ d.entries, ':' ∉ e.key ∧ e.key = s := by
  simp [Dictionary.sections, and_assoc]

/-- The loop writes a line for each entry of the section. -/
lemma dumpEntries_eq (d : Dictionary) (s : Text) :
    dumpEntries (s ++ [':']) d.slots =
      unlines ((d.entriesOf s).map fun e => entryLine (e.key.drop (s.length + 1)) (e.val.getD [])) := by
  rw [dumpEntries, Dictionary.entriesOf, Dictionary.entries]
  induction d.slots with
  | nil => rfl
  | cons slot slots ih =>
    cases slot with
    | none => simpa using ih
    | some e =>
      by_cases h : s ++ [':'] <+: e.key
      · simpa [h, unlines] using ih
      · simpa [h] using ih

/-- Lines one after the other. -/
lemma unlines_append (l₁ l₂ : List Text) : unlines (l₁ ++ l₂) = unlines l₁ ++ unlines l₂ :=
  List.flatMap_append

/-- A section is found under its own name. -/
lemma findEntry_section (h : Dumpable d) (hs : s ∈ d.sections) : findEntry d s := by
  obtain ⟨e, mem, plain, rfl⟩ := mem_sections.mp hs
  obtain ⟨-, name⟩ := h.sections e mem plain
  obtain ⟨i, hi⟩ := List.mem_iff_getElem?.mp (by simpa [Dictionary.entries] using mem)
  have found := (lookup_eq_some_iff h.inv.keys).mpr ⟨i, hi, rfl⟩
  rw [findEntry, name.lower, dictionaryGet_eq h.inv, found]
  rfl

/-- `iniparser_dumpsection_ini`. -/
lemma dumpsectionIni_eq (h : Dumpable d) (hs : s ∈ d.sections) :
    dumpsectionIni d (some s) = some (unlines (d.sectionLines s)) := by
  obtain ⟨e, mem, plain, rfl⟩ := mem_sections.mp hs
  obtain ⟨-, name⟩ := h.sections e mem plain
  have room := name.room
  rw [dumpsectionIni, if_pos (findEntry_section h hs), if_pos (by omega), dumpEntries_eq,
    Dictionary.sectionLines, ← List.cons_append, unlines_append]
  simp [unlines]

end Printed

/-! ## The way round -/

section RoundTrip
variable {d : Dictionary} {s key val : Text}

/-- The empty line. -/
def emptyItem : Item :=
  ⟨[], .empty, [], List.forall_mem_nil _, List.forall_mem_nil _, trivial,
    ⟨by simp [Body.render], by simp [Body.render]⟩, by simp [Body.render], by simp [Body.render], by
    simp [Body.render, asciiLineSz]⟩

/-- A line is an item if what it consists of is one. -/
lemma exists_item {b : Body} {after t : Text} (e : b.render ++ after = t) (ok : b.Ok)
    (stripped : Stripped b.render) (ha : ∀ c ∈ after, isSpace c) (oneLine : '\n' ∉ t ∧ '\x00' ∉ t)
    (closed : b.render.getLast? ≠ some '\\') (room : t.length + 1 < asciiLineSz) :
    ∃ i : Item, i.text = t ∧ i.body = b := by
  subst e
  exact ⟨⟨[], b, after, List.forall_mem_nil _, ha, ok, stripped, oneLine, closed, room⟩, rfl, rfl⟩

/-- The line of a section. -/
lemma sectionItem (h : SectionName s) :
    ∃ i : Item, i.text = '[' :: (s ++ [']']) ∧ i.body = .section s := by
  have last : ('[' :: (s ++ [']'])).getLast? = some ']' := by
    rw [← List.cons_append, List.getLast?_concat]
  refine exists_item (b := .section s) (List.append_nil _) ⟨h.ne, h.plain⟩ ⟨?_, ?_⟩
    (List.forall_mem_nil _) ?_ ?_ ?_
  · rintro c ⟨⟩
    rfl
  · rw [Body.render, last]
    rintro c ⟨⟩
    rfl
  · simpa using h.oneLine
  · rw [Body.render, last]
    decide
  · have := h.room
    simp only [List.length_cons, List.length_append, List.length_nil]
    omega

/-- What pads a key. -/
lemma isSpace_replicate {n : Nat} : ∀ c ∈ List.replicate n ' ' ++ [' '], isSpace c := by
  intro c hc
  rcases List.mem_append.mp hc with h | h
  · rw [List.eq_of_mem_replicate h]
    rfl
  · rw [List.mem_singleton.mp h]
    rfl

/-- The line of an entry is one line. -/
lemma PlainEntry.not_mem (h : PlainEntry key val) :
    '\n' ∉ entryLine key val ∧ '\x00' ∉ entryLine key val := by
  have := h.oneLine
  simp only [List.mem_append, not_or] at this
  simp [entryLine, this]

/-- An entry is a line with its key and its value. -/
lemma entryItem (h : PlainEntry key val) : ∃ (i : Item) (gap gap' : Text) (v : Value),
    i.text = entryLine key val ∧ i.body = .entry key gap gap' v ∧ v.text = val := by
  obtain ⟨c, key', hkey⟩ := List.exists_cons_of_ne_nil h.isKey.ne
  have first : ∀ b : Text, (key ++ b).head? = some c := by
    intro b
    rw [hkey]
    rfl
  have solid : isSpace c = false := h.isKey.stripped.head c (by rw [hkey]; rfl)
  have line : entryLine key val =
      key ++ (List.replicate (30 - key.length) ' ' ++ [' ']) ++ '=' :: ([' '] ++ val) := by
    simp [entryLine]
  rcases h.isValue with rfl | plain
  · -- the blank behind the `=` is white space at the end
    let b : Body := .entry key (List.replicate (30 - key.length) ' ' ++ [' ']) [] (.blank [])
    have last : b.render.getLast? = some '=' := List.getLast?_concat ..
    have stripped : Stripped b.render := by
      refine ⟨?_, ?_⟩
      · simp only [b, Body.render, List.append_assoc, first]
        rintro c ⟨⟩
        exact solid
      · rw [last]
        rintro c ⟨⟩
        rfl
    obtain ⟨i, text, body⟩ := @exists_item b [' '] (entryLine key [])
      (by rw [line]; simp [b, Body.render, Value.render])
      ⟨h.isKey, isSpace_replicate, List.forall_mem_nil _, CommentTail.nil⟩
      stripped (by simp [isSpace]) h.not_mem (by rw [last]; decide) h.room
    exact ⟨i, _, _, _, text, body, rfl⟩
  · let b : Body :=
      .entry key (List.replicate (30 - key.length) ' ' ++ [' ']) [' '] (.plain val [] [])
    have last : b.render.getLast? = val.getLast? := by
      have : b.render = key ++ (List.replicate (30 - key.length) ' ' ++ [' ']) ++ ['=', ' '] ++ val := by
        simp [b, Body.render, Value.render]
      rw [this, List.getLast?_append_of_ne_nil _ plain.ne]
    have stripped : Stripped b.render := by
      refine ⟨?_, last ▸ plain.stripped.last⟩
      simp only [b, Body.render, List.append_assoc, first]
      rintro c ⟨⟩
      exact solid
    obtain ⟨i, text, body⟩ := @exists_item b [] (entryLine key val)
      (by rw [line]; simp [b, Body.render, Value.render])
      ⟨h.isKey, isSpace_replicate, by simp [isSpace], plain, List.forall_mem_nil _, CommentTail.nil⟩
      stripped (List.forall_mem_nil _) h.not_mem (last ▸ h.closed) h.room
    exact ⟨i, _, _, _, text, body, rfl⟩

/-- The section of an entry is what stands in front of its first colon. -/
lemma prefix_colon {s s' key : Text} (hs : ':' ∉ s) (hs' : ':' ∉ s')
    (h : s ++ [':'] <+: s' ++ ':' :: key) : s = s' := by
  obtain ⟨r, e⟩ := h
  have cut : ∀ {a b : Text}, ':' ∉ a → (a ++ ':' :: b).takeWhile (· ≠ ':') = a := by
    intro a b ha
    have before : ∀ c ∈ a, decide (c ≠ ':') = true :=
      fun c hc => decide_eq_true fun e => ha (e ▸ hc)
    rw [List.takeWhile_append_of_pos before]
    simp
  have both := congrArg (List.takeWhile (· ≠ ':')) e
  rwa [List.append_assoc, List.singleton_append, cut hs, cut hs'] at both

/-- What the entries of a section are. -/
lemma Dumpable.entriesOf (h : Dumpable d) (hs : s ∈ d.sections) {e : Entry}
    (he : e ∈ d.entriesOf s) : e.key.length ≤ asciiLineSz ∧
      ∃ key val, e.key = s ++ ':' :: key ∧ e.val = some val ∧ PlainEntry key val := by
  obtain ⟨mem, isPrefix⟩ := List.mem_filter.mp he
  have isPrefix : s ++ [':'] <+: e.key := by simpa using isPrefix
  have colon : ':' ∈ e.key := isPrefix.mem (by simp)
  obtain ⟨fits, s', hs', key, val, hkey, hval, plain⟩ := h.entries e mem colon
  obtain ⟨_, -, noColon, rfl⟩ := mem_sections.mp hs
  obtain ⟨_, -, noColon', rfl⟩ := mem_sections.mp hs'
  rw [hkey] at isPrefix
  rw [prefix_colon noColon noColon' isPrefix]
  exact ⟨fits, key, val, hkey, hval, plain⟩

/-- The call that stores an entry. -/
def Entry.call (e : Entry) : Call := .set e.key e.val

/-- The lines of the entries of a section say what they are printed for. -/
lemma entryItems {es : List Entry} (h : ∀ e ∈ es, ∃ key val, e.key = s ++ ':' :: key ∧
    e.val = some val ∧ PlainEntry key val) :
    ∃ doc : List Item,
      doc.map Item.text =
        es.map (fun e => entryLine (e.key.drop (s.length + 1)) (e.val.getD [])) ∧
      ∀ rest, assignments s (doc ++ rest) = es.map Entry.call ++ assignments s rest := by
  induction es with
  | nil => exact ⟨[], rfl, fun _ => rfl⟩
  | cons e es ih =>
    obtain ⟨doc, texts, calls⟩ := ih fun e he => h e (List.mem_cons_of_mem _ he)
    obtain ⟨key, val, hkey, hval, plain⟩ := h e List.mem_cons_self
    obtain ⟨i, gap, gap', v, text, body, value⟩ := entryItem plain
    have key_eq : e.key.drop (s.length + 1) = key := by
      rw [hkey, List.drop_length_add_append]
      rfl
    refine ⟨i :: doc, ?_, fun rest => ?_⟩
    · rw [List.map_cons, texts, text, List.map_cons, key_eq, hval]
      rfl
    · rw [List.cons_append, assignments, body]
      dsimp only
      rw [value, plain.lower, calls, List.map_cons, Entry.call, hkey, hval]
      rfl

/-- The lines of a section. -/
lemma sectionItems (h : Dumpable d) (hs : s ∈ d.sections) :
    ∃ doc : List Item, doc.map Item.text = d.sectionLines s ∧ ∀ held rest,
      assignments held (doc ++ rest) =
        .set s none :: (d.entriesOf s).map Entry.call ++ assignments s rest := by
  obtain ⟨doc, texts, calls⟩ := entryItems fun e he => (h.entriesOf hs he).2
  have name : SectionName s := by
    obtain ⟨e, mem, plain, rfl⟩ := mem_sections.mp hs
    exact (h.sections e mem plain).2
  obtain ⟨i, text, body⟩ := sectionItem name
  refine ⟨emptyItem :: i :: doc ++ [emptyItem], ?_, fun held rest => ?_⟩
  · simp only [List.cons_append, List.map_cons, List.map_append, texts, text,
      Dictionary.sectionLines]
    rfl
  · have header : assignments held (emptyItem :: i :: doc ++ [emptyItem] ++ rest) =
        .set (strlwc (strip s)) none ::
          assignments (strlwc (strip s)) (doc ++ (emptyItem :: rest)) := by
      simp [assignments, emptyItem, body]
    rw [header, name.stripped.strip_eq, name.lower, calls]
    rfl

/-- Every call that stores an entry of the dictionary. -/
def Dictionary.calls (d : Dictionary) (sections : List Text) : List Call :=
  sections.flatMap fun s => .set s none :: (d.entriesOf s).map Entry.call

/-- The lines of all sections. -/
lemma documentItems (h : Dumpable d) {sections : List Text} (hs : ∀ s ∈ sections, s ∈ d.sections) :
    ∃ doc : List Item, doc.map Item.text = sections.flatMap d.sectionLines ++ [[]] ∧
      ∀ held, assignments held doc = d.calls sections := by
  induction sections with
  | nil => exact ⟨[emptyItem], rfl, fun _ => rfl⟩
  | cons s sections ih =>
    obtain ⟨doc, texts, calls⟩ := ih fun s hs' => hs s (List.mem_cons_of_mem _ hs')
    obtain ⟨block, texts', calls'⟩ := sectionItems h (hs s List.mem_cons_self)
    refine ⟨block ++ doc, ?_, fun held => ?_⟩
    · rw [List.map_append, texts, texts', List.flatMap_cons, List.append_assoc]
    · rw [calls', calls, Dictionary.calls, Dictionary.calls, List.flatMap_cons, List.cons_append]

/-- Calls that only set what a map says give the part of it that they set. -/
lemma foldl_mean_eq_some {m : Text → Option (Option Text)} {calls : List Call}
    (only : ∀ c ∈ calls, ∃ key val, c = .set key val ∧ m key = some val) {key : Text}
    {val : Option Text} :
    calls.foldl Call.mean (fun _ => none) key = some val ↔ .set key val ∈ calls := by
  induction calls using List.reverseRecOn with
  | nil => simp
  | append_singleton calls c ih =>
    obtain ⟨key', val', rfl, hm⟩ := only c (by simp)
    have only' : ∀ c ∈ calls, ∃ key val, c = .set key val ∧ m key = some val :=
      fun c hc => only c (by simp [hc])
    rw [List.foldl_append, List.foldl_cons, List.foldl_nil, Call.mean]
    by_cases hk : key = key'
    · subst hk
      rw [Function.update_self]
      constructor
      · rintro ⟨⟩
        simp
      · intro mem
        obtain ⟨_, _, ⟨⟩, same⟩ := only _ mem
        rw [← same, hm]
    · rw [Function.update_of_ne hk, ih only']
      simp [hk]

/-- What is looked up is an entry. -/
lemma Dumpable.get_iff (h : Dumpable d) {key : Text} {val : Option Text} :
    dictionaryGet d key = some val ↔ ∃ e ∈ d.entries, e.key = key ∧ e.val = val := by
  have slot : ∀ e, e ∈ d.entries ↔ ∃ i : Nat, d.slots[i]? = some (some e) := by
    intro e
    rw [← List.mem_iff_getElem?]
    simp [Dictionary.entries]
  rw [dictionaryGet_eq h.inv, Option.map_eq_some_iff]
  refine exists_congr fun e => ?_
  rw [lookup_eq_some_iff h.inv.keys, slot]
  simp only [exists_and_right, and_assoc]

/-- The calls are those that store the entries. -/
lemma Dumpable.mem_calls (h : Dumpable d) {c : Call} :
    c ∈ d.calls d.sections ↔ ∃ e ∈ d.entries, c = e.call := by
  rw [Dictionary.calls, List.mem_flatMap]
  constructor
  · rintro ⟨s, hs, mem⟩
    rcases List.mem_cons.mp mem with rfl | mem
    · obtain ⟨e, he, plain, rfl⟩ := mem_sections.mp hs
      exact ⟨e, he, by rw [Entry.call, (h.sections e he plain).1]⟩
    · obtain ⟨e, he, rfl⟩ := List.mem_map.mp mem
      exact ⟨e, (List.mem_filter.mp he).1, rfl⟩
  · rintro ⟨e, he, rfl⟩
    by_cases colon : ':' ∈ e.key
    · obtain ⟨-, s, hs, key, val, hkey, -⟩ := h.entries e he colon
      refine ⟨s, hs, List.mem_cons_of_mem _ (List.mem_map_of_mem (List.mem_filter.mpr ⟨he, ?_⟩))⟩
      rw [hkey]
      exact decide_eq_true ⟨key, by simp⟩
    · refine ⟨e.key, mem_sections.mpr ⟨e, he, colon, rfl⟩, ?_⟩
      rw [Entry.call, (h.sections e he colon).1]
      exact List.mem_cons_self

/-- What is printed for a dictionary says what it holds. -/
lemma Dumpable.mean_calls (h : Dumpable d) :
    (d.calls d.sections).foldl Call.mean (fun _ => none) = dictionaryGet d := by
  have only : ∀ c ∈ d.calls d.sections, ∃ key val, c = .set key val ∧
      dictionaryGet d key = some val := by
    intro c hc
    obtain ⟨e, he, rfl⟩ := h.mem_calls.mp hc
    exact ⟨e.key, e.val, rfl, h.get_iff.mpr ⟨e, he, rfl, rfl⟩⟩
  funext key
  refine Option.ext fun val => ?_
  rw [foldl_mean_eq_some only, h.mem_calls, h.get_iff]
  simp [Entry.call, eq_comm]

/-- The keys fit. -/
lemma Dumpable.fits (h : Dumpable d) {key : Text} {val : Option Text}
    (mem : .set key val ∈ d.calls d.sections) : key.length ≤ asciiLineSz := by
  obtain ⟨e, he, ⟨⟩⟩ := h.mem_calls.mp mem
  by_cases colon : ':' ∈ e.key
  · exact (h.entries e he colon).1
  · have := (h.sections e he colon).2.room
    omega

/-- Without a section nothing is printed. -/
lemma Dumpable.no_sections (h : Dumpable d) (none_there : d.sections = []) :
    d.entries = [] ∧ dumpIni d = some [] := by
  have empty : d.entries = [] := by
    refine List.eq_nil_iff_forall_not_mem.mpr fun e he => ?_
    by_cases colon : ':' ∈ e.key
    · obtain ⟨-, s, hs, -⟩ := h.entries e he colon
      rw [none_there] at hs
      cases hs
    · have := mem_sections.mpr ⟨e, he, colon, rfl⟩
      rw [none_there] at this
      cases this
  have few : getnsec d < 1 := by
    rw [getnsec_eq, none_there]
    exact Nat.zero_lt_one
  refine ⟨empty, ?_⟩
  rw [dumpIni, if_pos few]
  refine congrArg some (List.flatMap_eq_nil_iff.mpr fun s hs => ?_)
  cases s with
  | none => rfl
  | some e =>
    have : e ∈ d.entries := by simpa [Dictionary.entries] using hs
    rw [empty] at this
    cases this

/-- What is printed. -/
lemma Dumpable.dumpIni_eq (h : Dumpable d) (some_section : d.sections ≠ []) :
    dumpIni d = some (unlines (d.sections.flatMap d.sectionLines ++ [[]])) := by
  have blocks : ∀ sections : List Text, (∀ s ∈ sections, s ∈ d.sections) →
      sections.mapM (fun s => dumpsectionIni d (some s)) =
        some (sections.map fun s => unlines (d.sectionLines s)) := by
    intro sections hs
    induction sections with
    | nil => rfl
    | cons s sections ih =>
      rw [List.mapM_cons, dumpsectionIni_eq h (hs s List.mem_cons_self),
        ih fun s hs' => hs s (List.mem_cons_of_mem _ hs')]
      rfl
  have flat : ∀ sections : List Text,
      (sections.map fun s => unlines (d.sectionLines s)).flatten =
        unlines (sections.flatMap d.sectionLines) := by
    intro sections
    rw [unlines, List.flatMap_assoc, List.flatMap_def]
    rfl
  rw [dumpIni_sections some_section, blocks _ fun s hs => hs, Option.map_some, flat, unlines_append]
  rfl

/-- A dictionary is printed and read back as what it was. -/
theorem iniparserLoad_dumpIni {below : Char} (hb : below ≠ '\\') (h : Dumpable d) :
    ∃ file d', dumpIni d = some file ∧ iniparserLoad below (some file) = .ok d' ∧
      dictionaryGet d' = dictionaryGet d := by
  have lines : ∃ doc : List Item, dumpIni d = some (unlines (doc.map Item.text)) ∧
      assignments [] doc = d.calls d.sections := by
    by_cases some_section : d.sections = []
    · refine ⟨[], (h.no_sections some_section).2, ?_⟩
      rw [some_section]
      rfl
    · obtain ⟨doc, texts, calls⟩ := documentItems h fun s hs => hs
      exact ⟨doc, by rw [h.dumpIni_eq some_section, texts], calls []⟩
  obtain ⟨doc, printed, calls⟩ := lines
  obtain ⟨d', run, -, get, -⟩ := runCalls_new 0 (assignments [] doc)
  have load := iniparserLoad_assignments hb doc (fun key val mem => h.fits (calls ▸ mem)) run
  refine ⟨_, d', printed, load, ?_⟩
  rw [← h.mean_calls, ← calls]
  exact get

/-- The section `mqtt` with one entry. -/
theorem iniparserLoad_dumpIni_qos : ∃ file d',
    dumpIni ⟨2, [some ⟨['m'], none, dictionaryHash ['m']⟩,
      some ⟨['m', ':', 'q'], some ['1'], dictionaryHash ['m', ':', 'q']⟩]⟩ = some file ∧
    iniparserLoad ' ' (some file) = .ok d' ∧
    dictionaryGet d' = dictionaryGet ⟨2, [some ⟨['m'], none, dictionaryHash ['m']⟩,
      some ⟨['m', ':', 'q'], some ['1'], dictionaryHash ['m', ':', 'q']⟩]⟩ := by
  have head : SectionName ['m'] := ⟨by decide, by decide, ⟨by simp [isSpace], by simp [isSpace]⟩,
    by decide, by decide, by decide⟩
  have key : KeyText ['q'] := ⟨by decide, by decide, ⟨by simp [isSpace], by simp [isSpace]⟩, by simp⟩
  have val : PlainValue ['1'] := ⟨by decide, by simp, ⟨by simp [isSpace], by simp [isSpace]⟩, by simp⟩
  have entry : PlainEntry ['q'] ['1'] := ⟨key, by decide, .inr val, by decide, by decide, by decide⟩
  refine iniparserLoad_dumpIni (by decide) ⟨⟨?_, ?_, by decide, by decide⟩, ?_, ?_⟩
  · intro i j e e' hi hj hk
    rcases i with _ | _ | i
    · rcases j with _ | _ | j
      · rfl
      · cases hi
        cases hj
        cases hk
      · cases hj
    · rcases j with _ | _ | j
      · cases hi
        cases hj
        cases hk
      · rfl
      · cases hj
    · cases hi
  · intro e he
    simp only [List.mem_cons, Option.some.injEq, List.not_mem_nil, or_false] at he
    rcases he with rfl | rfl <;> rfl
  · intro e he plain
    simp only [Dictionary.entries, List.filterMap_cons, id, List.filterMap_nil, List.mem_cons,
      List.not_mem_nil, or_false] at he
    rcases he with rfl | rfl
    · exact ⟨rfl, head⟩
    · exact absurd plain (by simp)
  · intro e he colon
    simp only [Dictionary.entries, List.filterMap_cons, id, List.filterMap_nil, List.mem_cons,
      List.not_mem_nil, or_false] at he
    rcases he with rfl | rfl
    · exact absurd colon (by simp)
    · exact ⟨by decide, ['m'], by decide, ['q'], ['1'], rfl, rfl, entry⟩

end RoundTrip

end Powmon.Iniparser
