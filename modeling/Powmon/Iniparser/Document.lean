import Powmon.Iniparser.Load

/-!
# Files of the documented format

A configuration file as its author sees it: sections and comments, keys with values that are plain,
quoted or left out, and as much white space as one likes. `iniparserLoad_document` is what such a file
means: it is always accepted, and every key has the value that the last line for it gives.

An `Item` is one line, and carries what keeps it from being read as something else.
-/

namespace Powmon.Iniparser
open Lib

/-! ## Documents -/

/-- What stands behind the `=`. -/
inductive Value where
  | plain (val space tail : Text)
  | quoted (q : Char) (val tail : Text)
  | blank (tail : Text)

/-- The text of it. -/
def Value.render : Value → Text
  | .plain val space tail => val ++ space ++ tail
  | .quoted q val tail => q :: (val ++ q :: tail)
  | .blank tail => tail

/-- What keeps it from being read as another kind of value. -/
def Value.Ok : Value → Prop
  | .plain val space tail => PlainValue val ∧ (∀ c ∈ space, isSpace c) ∧ CommentTail tail
  | .quoted q val _ => (q = '"' ∨ q = '\'') ∧ QuotedValue q val
  | .blank tail => CommentTail tail

/-- The value that is meant. -/
def Value.text : Value → Text
  | .plain val _ _ => val
  | .quoted _ val _ => strip val
  | .blank _ => []

/-- A line without the white space around it. -/
inductive Body where
  | empty
  | comment (text : Text)
  | section (name : Text)
  | entry (key gap gap' : Text) (value : Value)

/-- The text of the line. -/
def Body.render : Body → Text
  | .empty => []
  | .comment text => text
  | .section name => '[' :: (name ++ [']'])
  | .entry key gap gap' value => key ++ gap ++ '=' :: (gap' ++ value.render)

/-- What keeps it from being read as another kind of line. -/
def Body.Ok : Body → Prop
  | .empty => True
  | .comment text => text.head? = some '#' ∨ text.head? = some ';'
  | .section name => name ≠ [] ∧ ']' ∉ name
  | .entry key gap gap' value =>
    KeyText key ∧ (∀ c ∈ gap, isSpace c) ∧ (∀ c ∈ gap', isSpace c) ∧ value.Ok

/-- A line of the file. -/
structure Item where
  before : Text
  body : Body
  after : Text
  before_space : ∀ c ∈ before, isSpace c
  after_space : ∀ c ∈ after, isSpace c
  ok : body.Ok
  stripped : Stripped body.render
  /-- It is one line, -/
  oneLine : '\n' ∉ before ++ (body.render ++ after) ∧ '\x00' ∉ before ++ (body.render ++ after)
  /-- which is not continued in the next one -/
  closed : body.render.getLast? ≠ some '\\'
  /-- and fits into the array. -/
  room : (before ++ (body.render ++ after)).length + 1 < asciiLineSz

/-- The line as it stands in the file. -/
def Item.text (i : Item) : Text := i.before ++ (i.body.render ++ i.after)

/-- What the lines say, in the section `held`: a section is there, and a key has a value. -/
def assignments (held : Text) : List Item → List Call
  | [] => []
  | i :: doc =>
    match i.body with
    | .section name => .set (strlwc (strip name)) none :: assignments (strlwc (strip name)) doc
    | .entry key _ _ value =>
      .set (held ++ ':' :: strlwc key) (some value.text) :: assignments held doc
    | _ => assignments held doc

/-! ## Lines -/

/-- What `iniparser_line` has to make of a line. -/
def Body.line : Body → Line
  | .empty => .empty
  | .comment _ => .comment
  | .section name => .section (strlwc (strip name))
  | .entry key _ _ value => .value (strlwc key) value.text

/-- `iniparser_line` makes that of it. -/
lemma Body.iniparserLine_eq {b : Body} (h : b.Ok) (hs : Stripped b.render) (held : Text) :
    iniparserLine held b.render = b.line := by
  cases b with
  | empty => rfl
  | comment text => exact iniparserLine_comment hs h held
  | «section» name => exact iniparserLine_section h.1 h.2 held
  | entry key gap gap' value =>
    obtain ⟨hk, hg, hg', hv⟩ := h
    cases value with
    | plain val space tail => exact iniparserLine_plain hk hg hg' hv.1 hv.2.1 hv.2.2 held hs.last
    | quoted q val tail => exact iniparserLine_quoted hv.1 hk hg hg' hv.2 held hs.last
    | blank tail =>
      have ht : CommentTail tail := hv
      exact iniparserLine_blank hk hg hg' ht held hs.last

/-- The white space at the end of a line is taken off, and all of it if there is nothing else. -/
lemma Item.rstrip_text (i : Item) :
    i.body.render = [] ∧ rstrip i.text = [] ∨
      i.body.render ≠ [] ∧ rstrip i.text = i.before ++ i.body.render := by
  have cut : rstrip i.text = rstrip (i.before ++ i.body.render) := by
    rw [Item.text, ← List.append_assoc]
    exact rstrip_append_space i.after_space
  by_cases empty : i.body.render = []
  · refine .inl ⟨empty, ?_⟩
    rw [cut, empty, List.append_nil, ← List.nil_append i.before]
    exact rstrip_append_space i.before_space
  · refine .inr ⟨empty, ?_⟩
    rw [cut]
    refine rstrip_eq_self fun c hc => i.stripped.last c ?_
    rwa [List.getLast?_append_of_ne_nil _ empty] at hc

/-- Only the empty line has no text. -/
lemma Body.render_eq_nil {b : Body} (h : b.Ok) (e : b.render = []) : b = .empty := by
  cases b with
  | empty => rfl
  | comment text =>
    obtain rfl : text = [] := e
    rcases h with h | h <;> cases h
  | «section» name => cases e
  | entry key gap gap' value => simp [Body.render] at e

/-- The same for the line as `iniparser_load` hands it over. -/
lemma Item.iniparserLine_eq (i : Item) (held : Text) :
    iniparserLine held (rstrip i.text) = i.body.line := by
  rcases i.rstrip_text with ⟨empty, e⟩ | ⟨-, e⟩
  · rw [e, Body.render_eq_nil i.ok empty]
    rfl
  · have pad := iniparserLine_pad i.stripped i.before_space (b := []) (List.forall_mem_nil _) held
    rw [List.append_nil] at pad
    rw [e, pad, Body.iniparserLine_eq i.ok i.stripped]

/-- A line is not continued. -/
lemma Item.not_continued (i : Item) : (rstrip i.text).getLast? ≠ some '\\' := by
  rcases i.rstrip_text with ⟨-, e⟩ | ⟨some_char, e⟩
  · rw [e]
    intro h
    cases h
  · rw [e, List.getLast?_append_of_ne_nil _ some_char]
    exact i.closed

/-! ## The whole file -/

/-- So no lines are put together. -/
lemma joinLines_document (doc : List Item) :
    joinLines [] (doc.map Item.text) = doc.map fun i => rstrip i.text := by
  induction doc with
  | nil => rfl
  | cons i doc ih =>
    simp only [List.map_cons, joinLines, List.nil_append]
    rw [if_neg i.not_continued, ih]

/-- All lines fit. -/
lemma linesFit_document (doc : List Item) : LinesFit [] [] (doc.map Item.text) := by
  induction doc with
  | nil => exact .inl rfl
  | cons i doc ih =>
    refine ⟨i.room, ?_⟩
    dsimp only
    rw [List.nil_append, if_neg i.not_continued]
    exact ih

/-- The lines are read as they are meant. -/
lemma readLines_document (held : Text) (doc : List Item) :
    ((readLines held (doc.map fun i => rstrip i.text)).filterMap callOf) = assignments held doc ∧
      ∀ x ∈ readLines held (doc.map fun i => rstrip i.text), x.2 ≠ .error := by
  induction doc generalizing held with
  | nil => exact ⟨rfl, List.forall_mem_nil _⟩
  | cons i doc ih =>
    rw [List.map_cons, readLines, i.iniparserLine_eq held, assignments]
    cases i.body with
    | empty =>
      obtain ⟨calls, fine⟩ := ih held
      exact ⟨calls, List.forall_mem_cons.mpr ⟨(fun h => by cases h), fine⟩⟩
    | comment text =>
      obtain ⟨calls, fine⟩ := ih held
      exact ⟨calls, List.forall_mem_cons.mpr ⟨(fun h => by cases h), fine⟩⟩
    | «section» name =>
      obtain ⟨calls, fine⟩ := ih (strlwc (strip name))
      exact ⟨congrArg _ calls, List.forall_mem_cons.mpr ⟨(fun h => by cases h), fine⟩⟩
    | entry key gap gap' value =>
      obtain ⟨calls, fine⟩ := ih held
      exact ⟨congrArg _ calls, List.forall_mem_cons.mpr ⟨(fun h => by cases h), fine⟩⟩

/-- A file whose keys fit is loaded as the calls for its lines. -/
lemma iniparserLoad_assignments {below : Char} (hb : below ≠ '\\') (doc : List Item)
    (fits : ∀ key val, Call.set key val ∈ assignments [] doc → key.length ≤ asciiLineSz) {d : Dictionary}
    (run : runCalls (assignments [] doc) (dictionaryNew 0) = some d) :
    iniparserLoad below (some (unlines (doc.map Item.text))) = .ok d := by
  obtain ⟨calls, fine⟩ := readLines_document [] doc
  rw [← List.append_nil (unlines _), iniparserLoad_fits hb ?_ (by simp) (by simp) (linesFit_document doc),
    joinLines_document, calls]
  · refine ⟨?_, ?_, run⟩
    · intro held key val mem
      refine fits _ (some val) ?_
      rw [← calls]
      exact List.mem_filterMap.mpr ⟨_, mem, rfl⟩
    · intro pre held post e
      exact absurd rfl (fine (held, .error) (by rw [e]; simp))
  · intro l hl
    obtain ⟨i, -, rfl⟩ := List.mem_map.mp hl
    exact i.oneLine

/-- A file of the documented format is accepted if its keys fit into `tmp` with their sections, and every
key then has the value of the last line for it, whatever case the lines are written in. -/
theorem iniparserLoad_document {below : Char} (hb : below ≠ '\\') (doc : List Item)
    (fits : ∀ key val, Call.set key val ∈ assignments [] doc → key.length ≤ asciiLineSz) :
    ∃ d, iniparserLoad below (some (unlines (doc.map Item.text))) = .ok d ∧
      ∀ key, dictionaryGet d key = (assignments [] doc).foldl Call.mean (fun _ => none) key := by
  obtain ⟨d, run, -, get, -⟩ := runCalls_new 0 (assignments [] doc)
  exact ⟨d, iniparserLoad_assignments hb doc fits run, fun key => congrFun get key⟩

/-- The two lines `[MQTT]` and `qos = 1`. -/
theorem iniparserLoad_document_qos :
    ∃ d, iniparserLoad ' ' (some "[MQTT]\nqos = 1\n".toList) = .ok d ∧
      dictionaryGet d "mqtt:qos".toList = some (some "1".toList) := by
  have key : KeyText ['q', 'o', 's'] :=
    ⟨by decide, by decide, ⟨by simp [isSpace], by simp [isSpace]⟩, by simp⟩
  have val : PlainValue ['1'] :=
    ⟨by decide, by simp, ⟨by simp [isSpace], by simp [isSpace]⟩, by simp⟩
  let head : Item := ⟨[], .section ['M', 'Q', 'T', 'T'], [], List.forall_mem_nil _,
    List.forall_mem_nil _, ⟨by decide, by decide⟩,
    ⟨by simp [Body.render, isSpace], by simp [Body.render, isSpace]⟩, by decide, by decide, by decide⟩
  let entry : Item := ⟨[], .entry ['q', 'o', 's'] [' '] [' '] (.plain ['1'] [] []), [],
    List.forall_mem_nil _, List.forall_mem_nil _, ⟨key, by simp [isSpace], by simp [isSpace], val,
      List.forall_mem_nil _, .nil⟩, ⟨by simp [Body.render, isSpace],
    by simp [Body.render, Value.render, isSpace]⟩, by decide, by decide, by decide⟩
  have said : assignments [] [head, entry] =
      [.set "mqtt".toList none, .set "mqtt:qos".toList (some "1".toList)] := by
    rfl
  obtain ⟨d, load, get⟩ := @iniparserLoad_document ' ' (by decide) [head, entry] (by
    rw [said]
    intro key val mem
    simp only [List.mem_cons, Call.set.injEq, List.not_mem_nil, or_false] at mem
    rcases mem with ⟨rfl, -⟩ | ⟨rfl, -⟩ <;> decide)
  refine ⟨d, load, ?_⟩
  rw [get, said]
  decide

end Powmon.Iniparser
