import Powmon.Lib.Scan

/-!
# Formats of `sscanf`

A format as the list of its directives: sets of characters (`%[…]`), white space and literal characters.
`sscanf` gives the texts assigned until a directive does not match. A set needs at least one character,
white space none.

`sscanf_set`, `sscanf_space` and `sscanf_lit` run a format over a text that is put together from the
parts that the directives match.
-/

namespace Powmon.Lib

/-- A directive of a format. -/
inductive Directive where
  | set (p : Char → Bool)
  | space
  | lit (c : Char)

/-- What `sscanf` assigns. -/
def sscanf : List Directive → Text → List Text
  | [], _ => []
  | .set p :: ds, s =>
    match s.span p with
    | ([], _) => []
    | (w, r) => w :: sscanf ds r
  | .space :: ds, s => sscanf ds (s.dropWhile isSpace)
  | .lit c :: ds, s =>
    match s with
    | [] => []
    | d :: r => if c = d then sscanf ds r else []

section Sscanf
variable {p : Char → Bool} {ds : List Directive} {w r : Text}

/-- A conversion takes all characters of its set. -/
lemma sscanf_set (hw : ∀ c ∈ w, p c) (hne : w ≠ []) (hr : ∀ c ∈ r.head?, ¬ p c) :
    sscanf (.set p :: ds) (w ++ r) = w :: sscanf ds r := by
  rw [sscanf, span_append hw hr]
  cases w with
  | nil => exact absurd rfl hne
  | cons c w => rfl

/-- A set does not match where no character of it stands. -/
lemma sscanf_set_none (hr : ∀ c ∈ r.head?, ¬ p c) : sscanf (.set p :: ds) r = [] := by
  have none := span_append (w := []) (List.forall_mem_nil _) hr
  rw [List.nil_append] at none
  rw [sscanf, none]

/-- White space in the format skips any amount of it. -/
lemma sscanf_space (hw : ∀ c ∈ w, isSpace c) (hr : ∀ c ∈ r.head?, isSpace c = false) :
    sscanf (.space :: ds) (w ++ r) = sscanf ds r := by
  rw [sscanf, List.dropWhile_append_of_pos hw]
  cases r with
  | nil => rfl
  | cons c r => rw [List.dropWhile_cons_of_neg (by simp [hr c rfl])]

/-- A character in the format matches itself. -/
lemma sscanf_lit (c : Char) : sscanf (.lit c :: ds) (c :: r) = sscanf ds r := if_pos rfl

/-- Any other character ends the scan. -/
lemma sscanf_lit_ne {c : Char} (hr : ∀ d ∈ r.head?, c ≠ d) : sscanf (.lit c :: ds) r = [] := by
  cases r with
  | nil => rfl
  | cons d r => exact if_neg (hr d rfl)

end Sscanf

/-! ## White space at the ends -/

/-- A text without white space at its end. -/
def rstrip (s : Text) : Text := s.rdropWhile isSpace

/-- There is no white space at either end of the text. -/
structure Stripped (s : Text) : Prop where
  head : ∀ c ∈ s.head?, isSpace c = false
  last : ∀ c ∈ s.getLast?, isSpace c = false

/-- White space at the end is taken off. -/
lemma rstrip_append_space {s w : Text} (hw : ∀ c ∈ w, isSpace c) : rstrip (s ++ w) = rstrip s := by
  induction w using List.reverseRecOn with
  | nil => rw [List.append_nil]
  | append_singleton w c ih =>
    rw [← List.append_assoc, rstrip, List.rdropWhile_concat_pos _ _ _ (hw c (by simp))]
    exact ih fun d hd => hw d (by simp [hd])

/-- Where there is none, nothing is. -/
lemma rstrip_eq_self {s : Text} (h : ∀ c ∈ s.getLast?, isSpace c = false) : rstrip s = s := by
  rw [rstrip, List.rdropWhile_eq_self_iff]
  intro hne
  rw [h _ (List.getLast?_eq_some_getLast hne)]
  exact Bool.false_ne_true

/-- Without white space at the front, only the end is looked at. -/
lemma strip_eq_rstrip {s : Text} (h : ∀ c ∈ s.head?, isSpace c = false) : strip s = rstrip s := by
  have skip : s.dropWhile isSpace = s := by
    cases s with
    | nil => rfl
    | cons c s => exact List.dropWhile_cons_of_neg (by simp [h c rfl])
  rw [strip, skip]
  rfl

/-- A stripped text stays. -/
lemma Stripped.strip_eq {s : Text} (h : Stripped s) : strip s = s :=
  (strip_eq_rstrip h.head).trans (rstrip_eq_self h.last)

/-- White space around a text is taken off. -/
lemma strip_append {a s b : Text} (h : Stripped s) (ha : ∀ c ∈ a, isSpace c)
    (hb : ∀ c ∈ b, isSpace c) : strip (a ++ (s ++ b)) = s := by
  have skip : (a ++ (s ++ b)).dropWhile isSpace = (s ++ b).dropWhile isSpace :=
    List.dropWhile_append_of_pos ha
  cases s with
  | nil =>
    rw [strip, skip, List.nil_append, List.dropWhile_eq_nil_iff.mpr hb]
    rfl
  | cons c s =>
    have front : ((c :: s) ++ b).dropWhile isSpace = (c :: s) ++ b :=
      List.dropWhile_cons_of_neg (by simp [h.head c rfl])
    rw [strip, skip, front]
    exact (rstrip_append_space hb).trans (rstrip_eq_self h.last)

lemma strip_append_right {s b : Text} (h : Stripped s) (hb : ∀ c ∈ b, isSpace c) :
    strip (s ++ b) = s := strip_append (a := []) h (List.forall_mem_nil _) hb

end Powmon.Lib
