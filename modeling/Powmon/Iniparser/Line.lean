import Powmon.Lib.Scanf

/-!
# One line of a configuration file

`iniparser_line` of `powmon/lib/iniparser/src/iniparser.c`: a line is empty, a comment, a section, a key
with its value, or a syntax error. Keys and values are taken apart by five formats of `sscanf`, tried
one after the other.

What the lines of the documented format are taken for: `iniparserLine_comment`,
`iniparserLine_section`, `iniparserLine_plain`, `iniparserLine_quoted` and `iniparserLine_blankValue`.

C → Lean naming: `line_status` is `Line`, with what C leaves in `section`, `key` and `value`. The
buffer `section` keeps what it held if a section line has no name; the other two are only read after
they have been assigned.
-/

namespace Powmon.Iniparser
open Lib

/-! ## The code -/

/-- `ASCIILINESZ`. -/
def asciiLineSz : Nat := 1024

/-- `strlwc`. -/
def strlwc (s : Text) : Text := (s.take asciiLineSz).map Char.toLower

/-- The status of a line. -/
inductive Line where
  | empty
  | comment
  | section (name : Text)
  | value (key val : Text)
  | error
deriving DecidableEq

/-- `"%[^=] = "`, with which four of the formats begin. -/
def keyIs : List Directive := [.set (· ≠ '='), .space, .lit '=', .space]

/-- `"%[^=] = \"%[^\"]\""`. -/
def doubleQuoted : List Directive := keyIs ++ [.lit '"', .set (· ≠ '"'), .lit '"']

/-- `"%[^=] = '%[^\']'"`. -/
def singleQuoted : List Directive := keyIs ++ [.lit '\'', .set (· ≠ '\''), .lit '\'']

/-- `"%[^=] = %[^;#]"`. -/
def unquoted : List Directive := keyIs ++ [.set fun c => c ≠ ';' ∧ c ≠ '#']

/-- `"%[^=] = %[;#]"`. -/
def onlyComment : List Directive := keyIs ++ [.set fun c => c = ';' ∨ c = '#']

/-- `"%[^=] %[=]"`. -/
def onlyKey : List Directive := [.set (· ≠ '='), .space, .set (· = '=')]

/-- The key and the value that the first format with two assignments gives. -/
def firstOf : List (List Directive) → Text → Option (Text × Text)
  | [], _ => none
  | f :: fs, line =>
    match sscanf f line with
    | [key, value] => some (key, value)
    | _ => firstOf fs line

/-- `iniparser_line`, with what `section` held before. -/
def iniparserLine (held input : Text) : Line :=
  let line := strip input
  if line.length < 1 then .empty
  else if line.head? = some '#' ∨ line.head? = some ';' then .comment
  else if line.head? = some '[' ∧ line.getLast? = some ']' then
    let name := (sscanf [.lit '[', .set (· ≠ ']')] line).headD held
    .section (strlwc (strip name))
  else
    match firstOf [doubleQuoted, singleQuoted, unquoted] line with
    | some (key, value) =>
      let value := strip value
      .value (strlwc (strip key)) (if value = "\"\"".toList ∨ value = "''".toList then [] else value)
    | none =>
      match firstOf [onlyComment, onlyKey] line with
      | some (key, _) => .value (strlwc (strip key)) []
      | none => .error

example : iniparserLine [] "topic = xd ; comment".toList = .value "topic".toList "xd".toList := by
  decide

/-! ## Lines of the documented format -/

/-- White space in front of the line and behind it makes no difference. -/
lemma iniparserLine_pad {a l b : Text} (hl : Stripped l) (ha : ∀ c ∈ a, isSpace c)
    (hb : ∀ c ∈ b, isSpace c) (held : Text) :
    iniparserLine held (a ++ (l ++ b)) = iniparserLine held l := by
  rw [iniparserLine, iniparserLine, strip_append hl ha hb, hl.strip_eq]

lemma iniparserLine_comment {l : Text} (hl : Stripped l)
    (h : l.head? = some '#' ∨ l.head? = some ';') (held : Text) :
    iniparserLine held l = .comment := by
  have hne : ¬ l.length < 1 := by
    cases l with
    | nil => simp at h
    | cons c l => simp
  simp only [iniparserLine, hl.strip_eq]
  rw [if_neg hne, if_pos h]

/-- `[name]`. -/
lemma iniparserLine_section {name : Text} (hne : name ≠ []) (h : ']' ∉ name) (held : Text) :
    iniparserLine held ('[' :: (name ++ [']'])) = .section (strlwc (strip name)) := by
  have hl : Stripped ('[' :: (name ++ [']'])) := by
    refine ⟨?_, ?_⟩
    · rintro c ⟨⟩
      rfl
    · rw [← List.cons_append, List.getLast?_concat]
      rintro c ⟨⟩
      rfl
  have scan : sscanf [.lit '[', .set (· ≠ ']')] ('[' :: (name ++ [']'])) = [name] := by
    rw [sscanf_lit, sscanf_set]
    · rfl
    · intro c hc
      exact decide_eq_true fun e => h (e ▸ hc)
    · exact hne
    · simp
  have last : ('[' :: (name ++ [']'])).getLast? = some ']' := by
    rw [← List.cons_append, List.getLast?_concat]
  simp only [iniparserLine, hl.strip_eq, scan, last]
  simp

/-- The texts that can stand before the `=`: they are not taken for something else. -/
structure KeyText (key : Text) : Prop where
  ne : key ≠ []
  plain : '=' ∉ key
  stripped : Stripped key
  head : ∀ c ∈ key.head?, c ≠ '#' ∧ c ≠ ';' ∧ c ≠ '['

section Value
variable {key gap gap' rest : Text} {ds : List Directive}

lemma KeyText.plain_gap (hk : KeyText key) (hg : ∀ c ∈ gap, isSpace c) :
    ∀ c ∈ key ++ gap, c ≠ '=' := by
  intro c hc
  rcases List.mem_append.mp hc with h | h
  · exact fun e => hk.plain (e ▸ h)
  · rintro rfl
    exact absurd (hg _ h) (by decide)

/-- The beginning of the formats reads the key, with the blanks behind it. -/
lemma sscanf_keyIs (hk : KeyText key) (hg : ∀ c ∈ gap, isSpace c) (hg' : ∀ c ∈ gap', isSpace c)
    (hr : ∀ c ∈ rest.head?, isSpace c = false) :
    sscanf (keyIs ++ ds) (key ++ gap ++ '=' :: (gap' ++ rest)) =
      (key ++ gap) :: sscanf ds rest := by
  rw [keyIs, List.cons_append, sscanf_set (by simpa using hk.plain_gap hg) (by simp [hk.ne]) (by simp)]
  have none_between := @sscanf_space ([.lit '=', .space] ++ ds) [] ('=' :: (gap' ++ rest))
    (List.forall_mem_nil _)
    (by simp [isSpace])
  rw [List.nil_append] at none_between
  rw [List.cons_append, none_between, List.cons_append, sscanf_lit, List.cons_append,
    sscanf_space hg' hr]
  rfl

/-- A line that begins with a key is none of the other kinds. -/
lemma iniparserLine_key (hk : KeyText key) (held : Text) {tail : Text} {l : Text}
    (e : l = key ++ tail) (hlast : ∀ c ∈ l.getLast?, isSpace c = false) :
    iniparserLine held l =
      match firstOf [doubleQuoted, singleQuoted, unquoted] l with
      | some (key, value) =>
        .value (strlwc (strip key)) (if strip value = "\"\"".toList ∨ strip value = "''".toList
          then [] else strip value)
      | none =>
        match firstOf [onlyComment, onlyKey] l with
        | some (key, _) => .value (strlwc (strip key)) []
        | none => .error := by
  obtain ⟨c, key', hkey⟩ := List.exists_cons_of_ne_nil hk.ne
  have first : l.head? = some c := by rw [e, hkey]; rfl
  have hc := hk.head c (by rw [hkey]; rfl)
  have hl : Stripped l := by
    refine ⟨?_, hlast⟩
    intro d hd
    rw [first] at hd
    cases hd
    exact hk.stripped.head c (by rw [hkey]; rfl)
  have long : ¬ l.length < 1 := by
    rw [e, hkey]
    simp
  have noComment : ¬ (l.head? = some '#' ∨ l.head? = some ';') := by
    rw [first]
    simp [hc.1, hc.2.1]
  have noSection : ¬ (l.head? = some '[' ∧ l.getLast? = some ']') := by
    rw [first]
    simp [hc.2.2]
  simp only [iniparserLine, hl.strip_eq]
  rw [if_neg long, if_neg noComment, if_neg noSection]

/-- What can stand behind a value: nothing, or a comment. -/
def CommentTail (tail : Text) : Prop := ∀ c ∈ tail.head?, c = ';' ∨ c = '#'

lemma CommentTail.nil : CommentTail [] := fun c h => by cases h

/-- The values that are written without quotes. -/
structure PlainValue (val : Text) : Prop where
  ne : val ≠ []
  plain : ∀ c ∈ val, c ≠ ';' ∧ c ≠ '#'
  stripped : Stripped val
  head : ∀ c ∈ val.head?, c ≠ '"' ∧ c ≠ '\''

/-- The values that are written between two quotes `q`. -/
structure QuotedValue (q : Char) (val : Text) : Prop where
  ne : val ≠ []
  plain : q ∉ val
  /-- They are no pair of quotes themselves. -/
  nonempty : strip val ≠ "\"\"".toList ∧ strip val ≠ "''".toList

/-- A format with quotes does not match where there are none. -/
lemma sscanf_quoted_none {q : Char} (hk : KeyText key) (hg : ∀ c ∈ gap, isSpace c)
    (hg' : ∀ c ∈ gap', isSpace c) (hr : ∀ c ∈ rest.head?, isSpace c = false)
    (hq : ∀ c ∈ rest.head?, c ≠ q) :
    sscanf (keyIs ++ .lit q :: ds) (key ++ gap ++ '=' :: (gap' ++ rest)) = [key ++ gap] := by
  rw [sscanf_keyIs hk hg hg' hr, sscanf_lit_ne]
  intro c hc
  exact (hq c hc).symm

/-- `key = value ; comment`. -/
lemma iniparserLine_plain {val blank tail : Text} (hk : KeyText key) (hg : ∀ c ∈ gap, isSpace c)
    (hg' : ∀ c ∈ gap', isSpace c) (hv : PlainValue val) (hb : ∀ c ∈ blank, isSpace c)
    (ht : CommentTail tail) (held : Text)
    (hlast : ∀ c ∈ (key ++ gap ++ '=' :: (gap' ++ (val ++ blank ++ tail))).getLast?,
      isSpace c = false) :
    iniparserLine held (key ++ gap ++ '=' :: (gap' ++ (val ++ blank ++ tail))) =
      .value (strlwc key) val := by
  obtain ⟨c, val', hval⟩ := List.exists_cons_of_ne_nil hv.ne
  have first : (val ++ blank ++ tail).head? = some c := by rw [hval]; rfl
  have solid : ∀ d ∈ (val ++ blank ++ tail).head?, isSpace d = false := by
    rw [first]
    rintro d ⟨⟩
    exact hv.stripped.head c (by rw [hval]; rfl)
  have noQuote := hv.head c (by rw [hval]; rfl)
  have double : sscanf doubleQuoted (key ++ gap ++ '=' :: (gap' ++ (val ++ blank ++ tail))) =
      [key ++ gap] := by
    refine sscanf_quoted_none hk hg hg' solid ?_
    rw [first]
    rintro d ⟨⟩
    exact noQuote.1
  have single : sscanf singleQuoted (key ++ gap ++ '=' :: (gap' ++ (val ++ blank ++ tail))) =
      [key ++ gap] := by
    refine sscanf_quoted_none hk hg hg' solid ?_
    rw [first]
    rintro d ⟨⟩
    exact noQuote.2
  have bare : sscanf unquoted (key ++ gap ++ '=' :: (gap' ++ (val ++ blank ++ tail))) =
      [key ++ gap, val ++ blank] := by
    rw [unquoted, sscanf_keyIs hk hg hg' solid, sscanf_set]
    · rfl
    · intro d hd
      rcases List.mem_append.mp hd with h | h
      · simpa using hv.plain d h
      · have blankChar := hb d h
        refine decide_eq_true ⟨?_, ?_⟩ <;> rintro rfl <;> exact absurd blankChar (by decide)
    · simp [hv.ne]
    · intro d hd
      simpa [or_iff_not_imp_left] using ht d hd
  have stripKey : strip (key ++ gap) = key := strip_append_right hk.stripped hg
  have stripVal : strip (val ++ blank) = val := strip_append_right hv.stripped hb
  have notEmpty : ¬ (val = "\"\"".toList ∨ val = "''".toList) := by
    rw [hval]
    rintro (h | h) <;> cases h
    · exact noQuote.1 rfl
    · exact noQuote.2 rfl
  rw [iniparserLine_key hk held (by rw [List.append_assoc]) hlast]
  simp only [firstOf, double, single, bare, stripKey, stripVal]
  rw [if_neg notEmpty]

/-- `key = "value"`, and the same with single quotes, whatever stands behind it. -/
lemma iniparserLine_quoted {q : Char} {val tail : Text} (hq : q = '"' ∨ q = '\'') (hk : KeyText key)
    (hg : ∀ c ∈ gap, isSpace c) (hg' : ∀ c ∈ gap', isSpace c) (hv : QuotedValue q val) (held : Text)
    (hlast : ∀ c ∈ (key ++ gap ++ '=' :: (gap' ++ (q :: (val ++ q :: tail)))).getLast?,
      isSpace c = false) :
    iniparserLine held (key ++ gap ++ '=' :: (gap' ++ (q :: (val ++ q :: tail)))) =
      .value (strlwc key) (strip val) := by
  have solid : ∀ d ∈ (q :: (val ++ q :: tail)).head?, isSpace d = false := by
    rintro d ⟨⟩
    rcases hq with rfl | rfl <;> rfl
  have between : ∀ p : Char → Bool, (∀ c, p c ↔ c ≠ q) →
      sscanf (keyIs ++ [.lit q, .set p, .lit q])
        (key ++ gap ++ '=' :: (gap' ++ (q :: (val ++ q :: tail)))) = [key ++ gap, val] := by
    intro p hp
    rw [sscanf_keyIs hk hg hg' solid, sscanf_lit, sscanf_set]
    · rw [sscanf_lit]
      rfl
    · intro c hc
      exact (hp c).mpr fun e => hv.plain (e ▸ hc)
    · exact hv.ne
    · rintro c ⟨⟩
      simp [hp]
  have stripKey : strip (key ++ gap) = key := strip_append_right hk.stripped hg
  have notEmpty : ¬ (strip val = "\"\"".toList ∨ strip val = "''".toList) :=
    not_or.mpr hv.nonempty
  rw [iniparserLine_key hk held (by rw [List.append_assoc]) hlast]
  rcases hq with rfl | rfl
  · have double := between (· ≠ '"') (by simp)
    simp only [firstOf, doubleQuoted, double, stripKey]
    rw [if_neg notEmpty]
  · have double : sscanf doubleQuoted
        (key ++ gap ++ '=' :: (gap' ++ ('\'' :: (val ++ '\'' :: tail)))) = [key ++ gap] := by
      refine sscanf_quoted_none hk hg hg' solid ?_
      rintro d ⟨⟩
      decide
    have single := between (· ≠ '\'') (by simp)
    simp only [firstOf, double, singleQuoted, single, stripKey]
    rw [if_neg notEmpty]

/-- `key =`, with nothing or a comment behind it. -/
lemma iniparserLine_blank {tail : Text} (hk : KeyText key) (hg : ∀ c ∈ gap, isSpace c)
    (hg' : ∀ c ∈ gap', isSpace c) (ht : CommentTail tail) (held : Text)
    (hlast : ∀ c ∈ (key ++ gap ++ '=' :: (gap' ++ tail)).getLast?, isSpace c = false) :
    iniparserLine held (key ++ gap ++ '=' :: (gap' ++ tail)) = .value (strlwc key) [] := by
  have solid : ∀ d ∈ tail.head?, isSpace d = false := by
    intro d hd
    rcases ht d hd with rfl | rfl <;> rfl
  have double : sscanf doubleQuoted (key ++ gap ++ '=' :: (gap' ++ tail)) = [key ++ gap] := by
    refine sscanf_quoted_none hk hg hg' solid fun d hd => ?_
    rcases ht d hd with rfl | rfl <;> decide
  have single : sscanf singleQuoted (key ++ gap ++ '=' :: (gap' ++ tail)) = [key ++ gap] := by
    refine sscanf_quoted_none hk hg hg' solid fun d hd => ?_
    rcases ht d hd with rfl | rfl <;> decide
  have bare : sscanf unquoted (key ++ gap ++ '=' :: (gap' ++ tail)) = [key ++ gap] := by
    rw [unquoted, sscanf_keyIs hk hg hg' solid, sscanf_set_none]
    intro d hd
    simpa [or_iff_not_imp_left] using ht d hd
  have stripKey : strip (key ++ gap) = key := strip_append_right hk.stripped hg
  have noEquals : ∀ c ∈ gap'.head?, c ≠ '=' := by
    intro c hc
    rintro rfl
    exact absurd ( hg' '=' (List.mem_of_mem_head? hc)) (by decide)
  have found : ∃ v, firstOf [onlyComment, onlyKey] (key ++ gap ++ '=' :: (gap' ++ tail)) =
      some (key ++ gap, v) := by
    cases tail with
    | nil =>
      -- no comment: the `=` itself is what the last format assigns
      have comment : sscanf onlyComment (key ++ gap ++ '=' :: (gap' ++ [])) = [key ++ gap] :=
        sscanf_keyIs hk hg hg' (by simp)
      have equals : sscanf onlyKey (key ++ gap ++ '=' :: (gap' ++ [])) = [key ++ gap, ['=']] := by
        rw [onlyKey, sscanf_set (by simpa using hk.plain_gap hg) (by simp [hk.ne]) (by simp)]
        have none_between := @sscanf_space [.set (· = '=')] [] ('=' :: (gap' ++ []))
          (List.forall_mem_nil _)
          (by simp [isSpace])
        have one := @sscanf_set (· = '=') [] ['='] (gap' ++ []) (by simp) (by simp)
          (by simpa using noEquals)
        rw [List.nil_append] at none_between
        rw [none_between]
        exact congrArg _ one
      exact ⟨['='], by simp only [firstOf, comment, equals]⟩
    | cons c t =>
      have first := ht c rfl
      obtain ⟨w, r, hw⟩ : ∃ w r, (c :: t).span (fun c => decide (c = ';' ∨ c = '#')) = (c :: w, r) := by
        rw [List.span_eq_takeWhile_dropWhile, List.takeWhile_cons_of_pos (by simpa using first)]
        exact ⟨_, _, rfl⟩
      have comment : sscanf onlyComment (key ++ gap ++ '=' :: (gap' ++ (c :: t))) =
          [key ++ gap, c :: w] := by
        rw [onlyComment, sscanf_keyIs hk hg hg' solid, sscanf, hw]
        rfl
      exact ⟨c :: w, by simp only [firstOf, comment]⟩
  obtain ⟨v, found⟩ := found
  rw [iniparserLine_key hk held (by rw [List.append_assoc]) hlast]
  simp only [firstOf, double, single, bare]
  simp only [firstOf] at found
  rw [found]
  dsimp only
  rw [stripKey]

end Value

end Powmon.Iniparser
