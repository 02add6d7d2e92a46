import Powmon.Iniparser.Dictionary
import Powmon.Iniparser.Line

/-!
# Reading a configuration file

`iniparser_load` of `powmon/lib/iniparser/src/iniparser.c`: the loop over the lines of the file, which
puts lines that end in a backslash together with the following one, hands them to `iniparser_line` and
stores what it finds in a dictionary.

`errs` counts the syntax errors, but is set to the result of `dictionary_set` by every section and every
value, so that a syntax error in front of one is forgotten. `iniparserLoad_iff` is what a file has to be
for the function to return a dictionary, and what the dictionary then is.

C → Lean naming: `Failure` says why there is no dictionary: `null` where the function returns `NULL`,
`overrun` where it leaves one of its arrays. The byte in front of the array `line`, which is looked at
after a line of blanks, is the argument `below`.
-/

namespace Powmon.Iniparser
open Lib

/-! ## The code -/

inductive Failure where
  | null
  | overrun
deriving DecidableEq

/-- The variables of the loop. `pending` are the `last` characters of `line` that are kept. -/
structure LoadState where
  pending : Text
  section_ : Text
  dict : Dictionary
  errs : Nat

/-- The `switch` on the status of a line. `tmp` has `ASCIILINESZ + 1` bytes. -/
def storeLine (st : LoadState) : Line → Except Failure LoadState
  | .empty => .ok { st with pending := [] }
  | .comment => .ok { st with pending := [] }
  | .section name =>
    match dictionarySet st.dict name none with
    | none => .error .overrun
    | some dict => .ok ⟨[], name, dict, 0⟩
  | .value key val =>
    let tmp := st.section_ ++ ':' :: key
    if tmp.length ≤ asciiLineSz then
      match dictionarySet st.dict tmp (some val) with
      | none => .error .overrun
      | some dict => .ok ⟨[], st.section_, dict, 0⟩
    else .error .overrun
  | .error => .ok { st with pending := [], errs := st.errs + 1 }

/-- The body of the loop, after `fgets` has put `chunk` behind what is kept. -/
def loadLine (below : Char) (st : LoadState) (chunk : Text) : Except Failure LoadState :=
  let line := cString (st.pending ++ chunk)
  if line.length = 1 then .ok st
  else if line.getLast?.getD below ≠ '\n' then .error .null
  else
    let line := rstrip line
    if line.getLast?.getD below = '\\' then
      if line = [] then .error .overrun else .ok { st with pending := line.dropLast }
    else storeLine st (iniparserLine st.section_ line)

/-- The loop. -/
def loadLoop (below : Char) (st : LoadState) (file : Text) : Except Failure LoadState :=
  match _h : fgets (asciiLineSz - st.pending.length) file with
  | none => .ok st
  | some (chunk, rest) => do loadLoop below (← loadLine below st chunk) rest
termination_by file.length
decreasing_by
  obtain ⟨hl, rfl⟩ := fgets_eq_some _h
  have : 0 < chunk.length := List.length_pos_iff.mpr hl
  simp
  omega

/-- `iniparser_load`, for the contents of the file if there is one. -/
def iniparserLoad (below : Char) : Option Text → Except Failure Dictionary
  | none => .error .null
  | some file => do
    let st ← loadLoop below ⟨[], [], dictionaryNew 0, 0⟩ file
    if st.errs = 0 then .ok st.dict else .error .null

/-! ## What is meant -/

/-- The lines of a file as `iniparser_line` sees them: without the white space at the end, and put
together where a line ends in a backslash. -/
def joinLines (pending : Text) : List Text → List Text
  | [] => []
  | l :: ls =>
    let line := rstrip (pending ++ l)
    if line.getLast? = some '\\' then joinLines line.dropLast ls else line :: joinLines [] ls

/-- Every line, with what it is put together with, fits into the array with its newline. Only a single
character can stand behind the last newline. -/
def LinesFit (last : Text) (pending : Text) : List Text → Prop
  | [] => last = [] ∨ pending = [] ∧ last.length = 1
  | l :: ls =>
    (pending ++ l).length + 1 < asciiLineSz ∧
      let line := rstrip (pending ++ l)
      if line.getLast? = some '\\' then LinesFit last line.dropLast ls else LinesFit last [] ls

/-- What `section` holds after a line. -/
def Line.holds (held : Text) : Line → Text
  | .section name => name
  | _ => held

/-- What the lines are, each with the section it is in. -/
def readLines (held : Text) : List Text → List (Text × Line)
  | [] => []
  | l :: ls =>
    (held, iniparserLine held l) :: readLines ((iniparserLine held l).holds held) ls

/-- The call of `dictionary_set` for a line. -/
def callOf : Text × Line → Option Call
  | (_, .section name) => some (.set name none)
  | (held, .value key val) => some (.set (held ++ ':' :: key) (some val))
  | _ => none

/-- Every key fits into `tmp`, with its section. -/
def NamesFit (read : List (Text × Line)) : Prop :=
  ∀ held key val, (held, .value key val) ∈ read → (held ++ ':' :: key).length ≤ asciiLineSz

/-- Behind every syntax error there is a section or a value. -/
def Forgiven (read : List (Text × Line)) : Prop :=
  ∀ pre held post, read = pre ++ (held, Line.error) :: post → ∃ x ∈ post, (callOf x).isSome

/-! ## The loop -/

section Loop
variable {below : Char} {st st' : LoadState} {l r file last : Text} {ls : List Text}

/-- The loop ends with the file. -/
lemma loadLoop_end (h : fgets (asciiLineSz - st.pending.length) file = none) :
    loadLoop below st file = .ok st := by
  rw [loadLoop]
  split
  · rfl
  · next e =>
    rw [h] at e
    cases e

/-- A line that is read, and the rest. -/
lemma loadLoop_step {chunk : Text}
    (h : fgets (asciiLineSz - st.pending.length) file = some (chunk, r)) :
    loadLoop below st file = (loadLine below st chunk >>= fun st => loadLoop below st r) := by
  rw [loadLoop]
  split
  · next e =>
    rw [h] at e
    cases e
  · next e =>
    rw [h] at e
    cases e
    rfl

/-- What is kept of a line can be a line itself: it has neither newlines nor NULs, and room is left. -/
structure Keepable (pending : Text) : Prop where
  newline : '\n' ∉ pending
  nul : '\x00' ∉ pending
  room : pending.length + 2 < asciiLineSz

/-- A line that ends neither within the array nor before the file does. -/
lemma takeLine_short {n : Nat} (h : '\n' ∉ l) (hn : n ≤ l.length ∨ r = []) :
    takeLine n (l ++ r) = (l.take n, l.drop n ++ r) := by
  induction n generalizing l with
  | zero => rfl
  | succ n ih =>
    cases l with
    | nil =>
      rcases hn with hn | rfl
      · cases hn
      · rfl
    | cons c l =>
      have hc : c ≠ '\n' := fun e => h (by simp [e])
      have tail := ih (l := l) (fun m => h (List.mem_cons_of_mem c m))
        (hn.imp_left fun hn => by simpa using hn)
      simp [takeLine, hc, tail]

/-- A piece of a line without a newline at its end is refused. -/
lemma loadLine_refuses {chunk : Text} (hp : Keepable st.pending) (hc : '\n' ∉ chunk)
    (h0 : '\x00' ∉ chunk) (hne : chunk ≠ []) (hlen : (st.pending ++ chunk).length ≠ 1) :
    loadLine below st chunk = .error .null := by
  have whole : cString (st.pending ++ chunk) = st.pending ++ chunk :=
    cString_eq_self fun m => (List.mem_append.mp m).elim hp.nul h0
  obtain ⟨c, hlast⟩ := Option.isSome_iff_exists.mp
    (List.getLast?_isSome.mpr (List.append_ne_nil_of_right_ne_nil st.pending hne))
  have notNewline : c ≠ '\n' := by
    rintro rfl
    exact (List.mem_append.mp (List.mem_of_getLast? hlast)).elim hp.newline hc
  simp only [loadLine, whole, hlast, Option.getD_some]
  rw [if_neg hlen, if_pos notNewline]

/-- Stripping makes nothing longer. -/
lemma length_rstrip_le (s : Text) : (rstrip s).length ≤ s.length :=
  (List.rdropWhile_prefix (p := isSpace) s).length_le

/-- Nothing is new in what is left. -/
lemma mem_of_mem_rstrip {s : Text} {c : Char} (h : c ∈ rstrip s) : c ∈ s :=
  (List.rdropWhile_prefix (p := isSpace) s).mem h

/-- A line that fits is either kept, if it ends in a backslash, or handed on. -/
lemma loadLine_fits (hb : below ≠ '\\') (hp : Keepable st.pending) (hl : '\x00' ∉ l) :
    loadLine below st (l ++ ['\n']) =
      if (rstrip (st.pending ++ l)).getLast? = some '\\' then
        .ok { st with pending := (rstrip (st.pending ++ l)).dropLast }
      else storeLine st (iniparserLine st.section_ (rstrip (st.pending ++ l))) := by
  have whole : cString (st.pending ++ (l ++ ['\n'])) = st.pending ++ l ++ ['\n'] := by
    rw [← List.append_assoc]
    refine cString_line fun m => ?_
    exact (List.mem_append.mp m).elim hp.nul hl
  have cut : rstrip (st.pending ++ l ++ ['\n']) = rstrip (st.pending ++ l) :=
    rstrip_append_space (by simp [isSpace])
  simp only [loadLine, whole, List.getLast?_concat, Option.getD_some, cut, ne_eq,
    not_true_eq_false, if_false]
  by_cases empty : st.pending ++ l = []
  · -- the loop goes on at once, with nothing kept
    have nothing : st.pending = [] := (List.append_eq_nil_iff.mp empty).1
    rw [empty]
    change Except.ok st = Except.ok { st with pending := [] }
    rw [← nothing]
  · have long : (st.pending ++ l ++ ['\n']).length ≠ 1 := by
      have := List.length_pos_iff.mpr empty
      rw [List.length_append, List.length_singleton]
      omega
    rw [if_neg long]
    cases hlast : (rstrip (st.pending ++ l)).getLast? with
    | none =>
      rw [Option.getD_none, if_neg hb]
      simp
    | some c =>
      have hne : rstrip (st.pending ++ l) ≠ [] := by
        intro e
        rw [e] at hlast
        cases hlast
      simp only [Option.getD_some, Option.some.injEq, hne, if_false]

/-- Nothing is kept of a line that is handed on. -/
lemma storeLine_pending {x : Line} (h : storeLine st x = .ok st') : st'.pending = [] := by
  cases x with
  | empty => cases h; rfl
  | comment => cases h; rfl
  | error => cases h; rfl
  | «section» name =>
    cases hd : dictionarySet st.dict name none with
    | none => rw [storeLine, hd] at h; cases h
    | some dict => rw [storeLine, hd] at h; cases h; rfl
  | value key val =>
    simp only [storeLine] at h
    split at h
    · cases hd : dictionarySet st.dict (st.section_ ++ ':' :: key) (some val) with
      | none => rw [hd] at h; cases h
      | some dict => rw [hd] at h; cases h; rfl
    · cases h

lemma keepable_nil : Keepable [] := ⟨by simp, by simp, by simp [asciiLineSz]⟩

/-- What is kept of a line that fits. -/
lemma Keepable.dropLast (hp : Keepable st.pending) (hn : '\n' ∉ l) (h0 : '\x00' ∉ l)
    (room : (st.pending ++ l).length + 1 < asciiLineSz)
    (hlast : (rstrip (st.pending ++ l)).getLast? = some '\\') :
    Keepable (rstrip (st.pending ++ l)).dropLast := by
  have back : ∀ c ∈ (rstrip (st.pending ++ l)).dropLast, c ∈ st.pending ∨ c ∈ l := by
    intro c hc
    exact List.mem_append.mp (mem_of_mem_rstrip (List.mem_of_mem_dropLast hc))
  have shorter := length_rstrip_le (st.pending ++ l)
  have some_char := List.length_pos_of_mem (List.mem_of_getLast? hlast)
  refine ⟨fun h => (back _ h).elim hp.newline hn, fun h => (back _ h).elim hp.nul h0, ?_⟩
  rw [List.length_dropLast]
  omega

/-- The file is read line by line if the lines fit. -/
lemma fgets_line {n : Nat} (hn : '\n' ∉ l) (room : l.length + 1 < n) (r : Text) :
    fgets n (unlines (l :: ls) ++ r) = some (l ++ ['\n'], unlines ls ++ r) := by
  have cons : unlines (l :: ls) ++ r = l ++ '\n' :: (unlines ls ++ r) := by simp [unlines]
  rw [fgets, cons, takeLine_line (by omega) hn]
  cases l <;> rfl

/-- `fgets` on a line that is too long or has no newline. -/
lemma fgets_short {n : Nat} (hn : '\n' ∉ l) (hne : l ≠ []) (hpos : 1 < n)
    (hlen : n - 1 ≤ l.length ∨ r = []) :
    fgets n (l ++ r) = some (l.take (n - 1), l.drop (n - 1) ++ r) := by
  have some_char : l.take (n - 1) ≠ [] := by
    rw [ne_eq, List.take_eq_nil_iff]
    rintro (h | h)
    · omega
    · exact hne h
  rw [fgets, takeLine_short hn hlen]
  split
  · next e => exact absurd (Prod.mk.inj e).1 some_char
  · rfl

lemma fgets_nil (n : Nat) : fgets n [] = none := by
  unfold fgets
  cases n - 1 <;> rfl

/-- The lines as they are handed on. -/
def storeLines (lines : List Text) (st : LoadState) : Except Failure LoadState :=
  lines.foldlM (fun st line => storeLine st (iniparserLine st.section_ line)) st

/-- The array is cleared. -/
def LoadState.clear (st : LoadState) : LoadState := { st with pending := [] }

/-- What is left of the line array does not count. -/
lemma storeLine_clear (st : LoadState) (x : Line) : storeLine st.clear x = storeLine st x := by
  cases x <;> rfl

/-- Of a file whose lines fit only the lines matter. -/
lemma loadLoop_fits (hb : below ≠ '\\') (hp : Keepable st.pending)
    (plain : ∀ l ∈ ls, '\n' ∉ l ∧ '\x00' ∉ l) (hn : '\n' ∉ last) (h0 : '\x00' ∉ last)
    (fits : LinesFit last st.pending ls) :
    (loadLoop below st (unlines ls ++ last)).map LoadState.clear =
      storeLines (joinLines st.pending ls) st.clear := by
  induction ls generalizing st with
  | nil =>
    rcases fits with rfl | ⟨nokeep, single⟩
    · rw [show unlines [] ++ [] = ([] : Text) from rfl, loadLoop_end (fgets_nil _)]
      rfl
    · -- a single character is taken for an empty line
      obtain ⟨c, rfl⟩ := List.length_eq_one_iff.mp single
      have step : fgets (asciiLineSz - st.pending.length) (unlines [] ++ [c]) = some ([c], []) := by
        rw [nokeep]
        exact fgets_short (l := [c]) hn (by simp) (by simp [asciiLineSz]) (.inr rfl)
      have skip : loadLine below st [c] = .ok st := by
        have whole : cString [c] = [c] := cString_eq_self h0
        rw [loadLine, nokeep, List.nil_append, whole]
        rfl
      rw [loadLoop_step step, skip]
      change (loadLoop below st []).map _ = _
      rw [loadLoop_end (fgets_nil _)]
      rfl
  | cons l ls ih =>
    obtain ⟨room, fits⟩ := fits
    obtain ⟨hln, hl0⟩ := plain l (by simp)
    have plain' : ∀ l ∈ ls, '\n' ∉ l ∧ '\x00' ∉ l := fun l h => plain l (by simp [h])
    have step : fgets (asciiLineSz - st.pending.length) (unlines (l :: ls) ++ last) =
        some (l ++ ['\n'], unlines ls ++ last) :=
      fgets_line hln (by rw [List.length_append] at room; omega) last
    rw [loadLoop_step step, loadLine_fits hb hp hl0, joinLines]
    dsimp only at fits ⊢
    split
    · next kept =>
      rw [if_pos kept] at fits
      exact ih (hp.dropLast hln hl0 room kept) plain' fits
    · next whole =>
      rw [if_neg whole] at fits
      rw [storeLines, List.foldlM_cons, storeLine_clear]
      change _ = storeLine st (iniparserLine st.section_ _) >>= _
      cases hstore : storeLine st (iniparserLine st.section_ (rstrip (st.pending ++ l))) with
      | error e => rfl
      | ok st₁ =>
        have empty : st₁.pending = [] := storeLine_pending hstore
        have same : st₁.clear = st₁ := by rw [LoadState.clear, ← empty]
        have rest := @ih st₁ (empty ▸ keepable_nil) plain' (empty ▸ fits)
        rw [empty, same] at rest
        exact rest

/-- A file whose lines do not fit is refused, if nothing goes wrong before. -/
lemma linesFit_of_loadLoop (hb : below ≠ '\\') (hp : Keepable st.pending)
    (plain : ∀ l ∈ ls, '\n' ∉ l ∧ '\x00' ∉ l) (hn : '\n' ∉ last) (h0 : '\x00' ∉ last)
    (h : loadLoop below st (unlines ls ++ last) = .ok st') : LinesFit last st.pending ls := by
  induction ls generalizing st with
  | nil =>
    by_cases hlast : last = []
    · exact .inl hlast
    · have room := hp.room
      have step : fgets (asciiLineSz - st.pending.length) (unlines [] ++ last) =
          some (last.take (asciiLineSz - st.pending.length - 1),
            last.drop (asciiLineSz - st.pending.length - 1) ++ []) := by
        rw [← fgets_short hn hlast (by omega) (.inr rfl), List.append_nil]
        rfl
      refine .inr ?_
      by_contra long
      have refused : loadLine below st (last.take (asciiLineSz - st.pending.length - 1)) =
          .error .null := loadLine_refuses hp
        (fun m => hn (List.mem_of_mem_take m)) (fun m => h0 (List.mem_of_mem_take m))
        (by rw [ne_eq, List.take_eq_nil_iff]; exact not_or.mpr ⟨by omega, hlast⟩)
        (by
          rw [List.length_append, List.length_take]
          have := List.length_pos_iff.mpr hlast
          rw [← List.length_eq_zero_iff] at long
          omega)
      rw [loadLoop_step step, refused] at h
      cases h
  | cons l ls ih =>
    obtain ⟨hln, hl0⟩ := plain l (by simp)
    have plain' : ∀ l ∈ ls, '\n' ∉ l ∧ '\x00' ∉ l := fun l h => plain l (by simp [h])
    by_cases room : (st.pending ++ l).length + 1 < asciiLineSz
    · refine ⟨room, ?_⟩
      have step : fgets (asciiLineSz - st.pending.length) (unlines (l :: ls) ++ last) =
          some (l ++ ['\n'], unlines ls ++ last) :=
        fgets_line hln (by rw [List.length_append] at room; omega) last
      rw [loadLoop_step step, loadLine_fits hb hp hl0] at h
      dsimp only
      split
      · next kept =>
        rw [if_pos kept] at h
        exact @ih { st with pending := (rstrip (st.pending ++ l)).dropLast }
          (hp.dropLast hln hl0 room kept) plain' h
      · next whole =>
        rw [if_neg whole] at h
        cases hstore : storeLine st (iniparserLine st.section_ (rstrip (st.pending ++ l))) with
        | error e => rw [hstore] at h; cases h
        | ok st₁ =>
          rw [hstore] at h
          have empty : st₁.pending = [] := storeLine_pending hstore
          exact empty ▸ @ih st₁ (empty ▸ keepable_nil) plain' h
    · have left := hp.room
      rw [List.length_append] at room
      have hne : l ≠ [] := by
        rintro rfl
        simp at room
        omega
      have step : fgets (asciiLineSz - st.pending.length) (l ++ ('\n' :: (unlines ls ++ last))) =
          some (l.take (asciiLineSz - st.pending.length - 1), _) :=
        fgets_short hln hne (by omega) (.inl (by omega))
      have refused : loadLine below st (l.take (asciiLineSz - st.pending.length - 1)) =
          .error .null := loadLine_refuses hp
        (fun m => hln (List.mem_of_mem_take m)) (fun m => hl0 (List.mem_of_mem_take m))
        (by rw [ne_eq, List.take_eq_nil_iff]; exact not_or.mpr ⟨by omega, hne⟩)
        (by rw [List.length_append, List.length_take]; omega)
      have cons : unlines (l :: ls) ++ last = l ++ '\n' :: (unlines ls ++ last) := by simp [unlines]
      rw [cons, loadLoop_step step, refused] at h
      cases h

end Loop

/-! ## What is stored -/

section Store
variable {st : LoadState} {lines : List Text} {d : Dictionary} {held : Text} {x : Line}
  {read : List (Text × Line)}

/-- Whether the key of a line fits into `tmp`. -/
def Line.Fits (held : Text) (x : Line) : Prop :=
  ∀ key val, x = .value key val → (held ++ ':' :: key).length ≤ asciiLineSz

/-- The first line and the others. -/
lemma namesFit_cons : NamesFit ((held, x) :: read) ↔ x.Fits held ∧ NamesFit read := by
  refine ⟨fun h => ⟨fun key val e => h held key val (by simp [e]), fun h' k v m =>
    h h' k v (List.mem_cons_of_mem _ m)⟩, fun ⟨first, rest⟩ h' k v m => ?_⟩
  rcases List.mem_cons.mp m with e | m
  · cases e
    exact first k v rfl
  · exact rest h' k v m

/-- An error needs a section or a value behind it. -/
lemma forgiven_cons :
    Forgiven ((held, x) :: read) ↔
      (x = .error → ∃ y ∈ read, (callOf y).isSome) ∧ Forgiven read := by
  refine ⟨fun h => ⟨fun e => h [] held read (by rw [e]; rfl), fun pre h' post e =>
    h ((held, x) :: pre) h' post (by rw [e]; rfl)⟩, fun ⟨first, rest⟩ pre h' post e => ?_⟩
  cases pre with
  | nil =>
    cases e
    exact first rfl
  | cons y pre =>
    cases e
    exact rest pre h' post rfl

/-- A line that stores nothing. -/
lemma storeLine_quiet (h : callOf (st.section_, x) = none) :
    storeLine st x =
      .ok ⟨[], x.holds st.section_, st.dict, if x = .error then st.errs + 1 else st.errs⟩ := by
  cases x with
  | empty => rfl
  | comment => rfl
  | error => rfl
  | «section» name => cases h
  | value key val => cases h

/-- A line that stores something, and so forgets the errors. -/
lemma storeLine_call {c : Call} {st' : LoadState} (h : callOf (st.section_, x) = some c) :
    storeLine st x = .ok st' ↔
      x.Fits st.section_ ∧
        ∃ dict, c.run st.dict = some dict ∧ st' = ⟨[], x.holds st.section_, dict, 0⟩ := by
  cases x with
  | empty => cases h
  | comment => cases h
  | error => cases h
  | «section» name =>
    cases h
    have fits : Line.Fits st.section_ (.section name) := nofun
    simp only [storeLine, Call.run, Line.holds, fits, true_and]
    cases dictionarySet st.dict name none with
    | none => simp
    | some dict => simp [eq_comm]
  | value key val =>
    cases h
    simp only [storeLine, Call.run, Line.holds]
    by_cases room : (st.section_ ++ ':' :: key).length ≤ asciiLineSz
    · have fits : Line.Fits st.section_ (.value key val) := by
        rintro key val ⟨⟩
        exact room
      rw [if_pos room]
      cases dictionarySet st.dict (st.section_ ++ ':' :: key) (some val) with
      | none => simp
      | some dict => simp [fits, eq_comm]
    · rw [if_neg room]
      simp only [reduceCtorEq, false_iff]
      exact fun ⟨fits, _⟩ => room (fits key val rfl)

/-- There is no error left if none was there in front of the lines, or if a section or a value among
them made it forgotten, and if the same holds of every line that is an error itself. -/
lemma storeLines_iff :
    (∃ st', storeLines lines st = .ok st' ∧ st'.dict = d ∧ st'.errs = 0) ↔
      NamesFit (readLines st.section_ lines) ∧ Forgiven (readLines st.section_ lines) ∧
        (st.errs = 0 ∨ ∃ y ∈ readLines st.section_ lines, (callOf y).isSome) ∧
        runCalls ((readLines st.section_ lines).filterMap callOf) st.dict = some d := by
  induction lines generalizing st with
  | nil =>
    have noNames : NamesFit [] := nofun
    have noErrors : Forgiven [] := fun pre held post e => by cases pre <;> cases e
    constructor
    · rintro ⟨st', h, rfl, none_left⟩
      cases h
      exact ⟨noNames, noErrors, .inl none_left, rfl⟩
    · rintro ⟨-, -, none_left | ⟨y, mem, -⟩, h⟩
      · cases h
        exact ⟨st, rfl, rfl, none_left⟩
      · cases mem
  | cons line lines ih =>
    have step : storeLines (line :: lines) st =
        storeLine st (iniparserLine st.section_ line) >>= storeLines lines := rfl
    rw [step, readLines, namesFit_cons, forgiven_cons]
    generalize iniparserLine st.section_ line = x
    cases hc : callOf (st.section_, x) with
    | none =>
      -- an error has to be made forgotten behind the line, and then so is every one in front of it
      have noKey : x.Fits st.section_ := by
        rintro key val rfl
        cases hc
      rw [storeLine_quiet hc]
      refine (@ih ⟨[], _, st.dict, _⟩).trans ?_
      rw [List.filterMap_cons_none hc, List.exists_mem_cons_iff, hc]
      by_cases error : x = .error
      · simp only [error, if_true, Nat.add_one_ne_zero, false_or, forall_const, Option.isSome_none,
          Bool.false_eq_true]
        rw [error] at noKey
        tauto
      · simp only [error, if_false, false_imp_iff, true_and, Option.isSome_none, Bool.false_eq_true,
          false_or, noKey]
    | some c =>
      rw [List.filterMap_cons_some hc, List.exists_mem_cons_iff, hc]
      have noError : x ≠ .error := by
        rintro rfl
        cases hc
      have runs : runCalls (c :: (readLines (x.holds st.section_) lines).filterMap callOf) st.dict =
          c.run st.dict >>= runCalls ((readLines (x.holds st.section_) lines).filterMap callOf) := rfl
      rw [runs]
      by_cases stored : x.Fits st.section_ ∧ (c.run st.dict).isSome
      · obtain ⟨fits, h⟩ := stored
        obtain ⟨dict, h⟩ := Option.isSome_iff_exists.mp h
        rw [(storeLine_call hc).mpr ⟨fits, dict, h, rfl⟩, h]
        refine (@ih ⟨[], _, dict, 0⟩).trans ?_
        simp only [fits, noError, false_imp_iff, true_and, true_or, Option.isSome_some, or_true]
        rfl
      · constructor
        · rintro ⟨st', h, -⟩
          cases hs : storeLine st x with
          | error e => rw [hs] at h; cases h
          | ok st₁ =>
            obtain ⟨fits, dict, h, -⟩ := (storeLine_call hc).mp hs
            exact absurd ⟨fits, by rw [h]; rfl⟩ stored
        · rintro ⟨⟨fits, -⟩, -, -, h⟩
          cases hd : c.run st.dict with
          | none => rw [hd] at h; cases h
          | some dict => exact absurd ⟨fits, by rw [hd]; rfl⟩ stored

end Store

/-- There is a dictionary when the loop comes to its end without an error left. -/
lemma iniparserLoad_loop {below : Char} {file : Text} {d : Dictionary} :
    iniparserLoad below (some file) = .ok d ↔
      ∃ st, loadLoop below ⟨[], [], dictionaryNew 0, 0⟩ file = .ok st ∧ st.dict = d ∧ st.errs = 0 := by
  rw [iniparserLoad]
  cases loadLoop below ⟨[], [], dictionaryNew 0, 0⟩ file with
  | error e => simp [bind, Except.bind]
  | ok st =>
    change (if st.errs = 0 then Except.ok st.dict else .error Failure.null) = _ ↔ _
    by_cases none_left : st.errs = 0
    · simp [none_left]
    · simp [none_left]

section Load
variable {below : Char} {ls : List Text} {last : Text} {d : Dictionary}

/-- What a file whose lines fit is read as. -/
lemma iniparserLoad_fits (hb : below ≠ '\\') (plain : ∀ l ∈ ls, '\n' ∉ l ∧ '\x00' ∉ l) (hn : '\n' ∉ last)
    (h0 : '\x00' ∉ last) (fits : LinesFit last [] ls) :
    iniparserLoad below (some (unlines ls ++ last)) = .ok d ↔
      NamesFit (readLines [] (joinLines [] ls)) ∧ Forgiven (readLines [] (joinLines [] ls)) ∧
        runCalls ((readLines [] (joinLines [] ls)).filterMap callOf) (dictionaryNew 0) = some d := by
  have lines : (loadLoop below ⟨[], [], dictionaryNew 0, 0⟩ (unlines ls ++ last)).map
      LoadState.clear = storeLines (joinLines [] ls) ⟨[], [], dictionaryNew 0, 0⟩ :=
    loadLoop_fits hb keepable_nil plain hn h0 fits
  have stored := @storeLines_iff ⟨[], [], dictionaryNew 0, 0⟩ (joinLines [] ls) d
  simp only [true_or, true_and] at stored
  rw [iniparserLoad_loop, ← stored]
  constructor
  · rintro ⟨st, h, hd, he⟩
    rw [h] at lines
    exact ⟨st.clear, lines.symm, hd, he⟩
  · rintro ⟨st, h, hd, he⟩
    cases hl : loadLoop below ⟨[], [], dictionaryNew 0, 0⟩ (unlines ls ++ last) with
    | error e =>
      rw [hl] at lines
      cases lines.trans h
    | ok st' =>
      rw [hl] at lines
      cases lines.trans h
      exact ⟨st', rfl, hd, he⟩

end Load

/-- A file is read if and only if its lines fit into the array, the keys into the other one, and nothing
behind the last section or value is a syntax error: the dictionary is then the one that the calls of
`dictionary_set` give. -/
theorem iniparserLoad_iff {below : Char} {ls : List Text} {last : Text} {d : Dictionary}
    (hb : below ≠ '\\') (plain : ∀ l ∈ ls, '\n' ∉ l ∧ '\x00' ∉ l) (hn : '\n' ∉ last)
    (h0 : '\x00' ∉ last) :
    iniparserLoad below (some (unlines ls ++ last)) = .ok d ↔
      LinesFit last [] ls ∧ NamesFit (readLines [] (joinLines [] ls)) ∧
        Forgiven (readLines [] (joinLines [] ls)) ∧
        runCalls ((readLines [] (joinLines [] ls)).filterMap callOf) (dictionaryNew 0) = some d := by
  by_cases fits : LinesFit last [] ls
  · rw [iniparserLoad_fits hb plain hn h0 fits, and_iff_right fits]
  · refine iff_of_false ?_ fun h => fits h.1
    rw [iniparserLoad_loop]
    rintro ⟨st, h, -⟩
    exact fits (linesFit_of_loadLoop hb keepable_nil plain hn h0 h)

/-- The error of the second line is forgotten in the third, which is put together with the fourth. -/
theorem iniparserLoad_forgets :
    ∃ d, iniparserLoad '\x00' (some (unlines ["[Monitor]".toList, "nonsense".toList,
        "topic = x\\".toList, "d # comment".toList] ++ [])) = .ok d ∧
      dictionaryGet d "monitor:topic".toList = some (some "xd".toList) := by
  obtain ⟨d, run, -, get, -⟩ := runCalls_spec (dictInv_new 0)
    [.set "monitor".toList none, .set "monitor:topic".toList (some "xd".toList)]
  have read : readLines [] (joinLines [] ["[Monitor]".toList, "nonsense".toList,
      "topic = x\\".toList, "d # comment".toList]) =
      [([], .section "monitor".toList), ("monitor".toList, .error),
        ("monitor".toList, .value "topic".toList "xd".toList)] := by
    decide
  refine ⟨d, (iniparserLoad_iff (by decide) (by decide) (by decide) (by decide)).mpr
    ⟨?_, ?_, ?_, ?_⟩, ?_⟩
  · refine ⟨by decide, ?_⟩
    rw [if_neg (by decide)]
    refine ⟨by decide, ?_⟩
    rw [if_neg (by decide)]
    refine ⟨by decide, ?_⟩
    rw [if_pos (by decide)]
    refine ⟨by decide, ?_⟩
    rw [if_neg (by decide)]
    exact .inl rfl
  · rw [read]
    simp only [namesFit_cons]
    refine ⟨nofun, nofun, ?_, nofun⟩
    rintro key val ⟨⟩
    decide
  · rw [read]
    simp only [forgiven_cons]
    refine ⟨nofun, fun _ => ⟨_, List.mem_cons_self, rfl⟩, nofun, ?_⟩
    rintro (_ | ⟨_, _⟩) _ _ ⟨⟩
  · rw [read]
    exact run
  · rw [get]
    decide

end Powmon.Iniparser
