import Powmon.Lib.Ieee

/-!
# Text

Texts are lists of characters. The module has what C's `printf` writes for integers and for
floating-point values (`fmtInt`, `fmtFixed`), and the scanners that read numbers back
(`scanDecimal`, and the conversions of `sscanf`), together with the round trips between the two sides:

* `scanDecimal_fixedDigits`: a fixed-point text is read back as the number it shows;
* `fmtNat_inj`: different numbers have different texts.
-/

namespace Powmon.Lib

/-- A C string or a Python string. -/
abbrev Text := List Char

/-! ## Printing -/

/-- `%u`. -/
def fmtNat (n : Nat) : Text := Nat.toDigits 10 n

/-- `%d`. -/
def fmtInt : ℤ → Text
  | .ofNat n => fmtNat n
  | .negSucc n => '-' :: fmtNat (n + 1)

/-- The text of a sign bit. -/
def fmtSign (neg : Bool) : Text := if neg then ['-'] else []

/-- The text of `n / 10 ^ d` with `d` decimals. -/
def fixedDigits (d n : Nat) : Text :=
  fmtNat (n / 10 ^ d) ++ '.' :: (fmtNat (n % 10 ^ d)).leftpad d '0'

/-- A magnitude rounded to `d` decimals, in units of the last one. -/
def toFixed (d : Nat) (x : ℚ≥0) : Nat := halfEven (x * 10 ^ d)

/-- The number that `fixedDigits d n` shows. -/
def decimal (d n : Nat) : ℚ≥0 := n / 10 ^ d

/-- `%.df`: the value rounded to `d` decimals, or `nan` or `inf` with the sign bit. -/
def fmtFixed (d : Nat) : Fl → Text
  | .nan neg => fmtSign neg ++ "nan".toList
  | .inf neg => fmtSign neg ++ "inf".toList
  | .fin neg x => fmtSign neg ++ fixedDigits d (toFixed d x)

/-! ## Scanning -/

/-- C's `isspace` and Python's string whitespace. -/
def isSpace (c : Char) : Bool := c ∈ [' ', '\t', '\n', '\r', '\x0b', '\x0c']

/-- Python's `str.strip`. -/
def strip (s : Text) : Text :=
  ((s.dropWhile isSpace).reverse.dropWhile isSpace).reverse

/-- The value of a digit text. -/
def digitsVal (s : Text) : Nat := Nat.ofDigitChars 10 s 0

/-- An optional sign. -/
def scanSign : Text → Bool × Text
  | '-' :: s => (true, s)
  | '+' :: s => (false, s)
  | s => (false, s)

/-- The longest digit prefix. -/
def scanDigits (s : Text) : Text × Text := s.span Char.isDigit

/-- The digits after an optional decimal point. -/
def scanFraction : Text → Text × Text
  | '.' :: s => scanDigits s
  | s => ([], s)

/-- An optional exponent: it is only read if a digit follows the `e` and its sign. -/
def scanExponent (s : Text) : ℤ × Text :=
  match s with
  | c :: r =>
    if c = 'e' ∨ c = 'E' then
      let (neg, t) := scanSign r
      match scanDigits t with
      | ([], _) => (0, s)
      | (ds, t) => (if neg then -(digitsVal ds : ℤ) else digitsVal ds, t)
    else (0, s)
  | [] => (0, s)

/-- An unsigned decimal literal at the front of the text: its exact value and what follows it. -/
def scanDecimal (s : Text) : Option (ℚ≥0 × Text) :=
  let (ip, s) := scanDigits s
  let (fp, s) := scanFraction s
  if ip = [] ∧ fp = [] then none
  else
    let (e, s) := scanExponent s
    some ((digitsVal (ip ++ fp) : ℚ≥0) * 10 ^ (e - fp.length), s)

/-! ## `sscanf` -/

/-- A C string ends at the first NUL. -/
def cString (s : Text) : Text := s.takeWhile (· ≠ '\x00')

/-- `%s`: a word after any white space, and what follows it. -/
def scanStr (s : Text) : Option (Text × Text) :=
  match (s.dropWhile isSpace).span fun c => !isSpace c with
  | ([], _) => none
  | (w, r) => some (w, r)

/-- `%d`. -/
def scanInt (s : Text) : Option (ℤ × Text) :=
  let (neg, s) := scanSign (s.dropWhile isSpace)
  match scanDigits s with
  | ([], _) => none
  | (ds, r) => some (if neg then -(digitsVal ds : ℤ) else digitsVal ds, r)

/-- Whether a text starts with the word, in either case. -/
def startsWithWord (w s : Text) : Bool := w.isPrefixOf (s.map Char.toLower)

/-- The value of a hexadecimal digit. -/
def hexDigit (c : Char) : Option Nat :=
  if c.isDigit then some (c.toNat - 48)
  else if 'a' ≤ c.toLower ∧ c.toLower ≤ 'f' then some (c.toLower.toNat - 87)
  else none

/-- The longest prefix of hexadecimal digits. -/
def scanHexDigits (s : Text) : List Nat × Text :=
  let (ds, r) := s.span fun c => (hexDigit c).isSome
  (ds.filterMap hexDigit, r)

/-- What follows the `0x` of a hexadecimal literal. A point without digits is taken in, and the value is
the `0` in front of the `x`. -/
def scanHexFraction (s : Text) : Option (ℚ≥0 × Text) :=
  let (ip, s) := scanHexDigits s
  let (point, fp, s) :=
    match s with
    | '.' :: r => (true, scanHexDigits r)
    | s => (false, [], s)
  if ip = [] ∧ fp = [] then
    if point then some (0, s) else none
  else
    let m : Nat := (ip ++ fp).foldl (fun n d => 16 * n + d) 0
    let (e, s) : ℤ × Text :=
      match s with
      | c :: r =>
        if c = 'p' ∨ c = 'P' then
          let (neg, t) := scanSign r
          match scanDigits t with
          | ([], _) => (0, s)
          | (ds, t) => (if neg then -(digitsVal ds : ℤ) else digitsVal ds, t)
        else (0, s)
      | [] => (0, s)
    some ((m : ℚ≥0) * exp2 (e - 4 * fp.length), s)

/-- `%f` into a variable of format `f`: a decimal or hexadecimal literal, `inf`, `infinity` or
`nan`. After `inf` an `i` has to go on to `infinity`. -/
def scanFloat (f : Format) (s : Text) : Option (Fl × Text) :=
  let (neg, s) := scanSign (s.dropWhile isSpace)
  if startsWithWord "infinity".toList s then some (.inf neg, s.drop 8)
  else if startsWithWord "infi".toList s then none
  else if startsWithWord "inf".toList s then some (.inf neg, s.drop 3)
  else if startsWithWord "nan".toList s then some (.nan neg, s.drop 3)
  else if startsWithWord "0x".toList s then
    (scanHexFraction (s.drop 2)).map fun (x, r) => (f.round neg x, r)
  else (scanDecimal s).map fun (x, r) => (f.round neg x, r)

/-! ## C strings -/

/-- Text without a NUL stays in front of what C sees. -/
lemma cString_append {a : Text} (h : '\x00' ∉ a) (b : Text) : cString (a ++ b) = a ++ cString b := by
  rw [cString, List.takeWhile_append_of_pos]
  · rfl
  · intro c hc
    exact decide_eq_true fun e => h (e ▸ hc)

/-- A text without NUL is a C string. -/
lemma cString_eq_self {a : Text} (h : '\x00' ∉ a) : cString a = a := by
  refine List.takeWhile_eq_self_iff.mpr fun c hc => ?_
  exact decide_eq_true fun e => h (e ▸ hc)

/-- So is a line of it. -/
lemma cString_line {l : Text} (h : '\x00' ∉ l) : cString (l ++ ['\n']) = l ++ ['\n'] := by
  rw [cString_append h]
  rfl

/-! ## Digits -/

/-- A number is written in digits. -/
lemma isDigit_fmtNat {n : Nat} {c : Char} (h : c ∈ fmtNat n) : c.isDigit :=
  Nat.isDigit_of_mem_toDigits (by norm_num) (by norm_num) h

/-- Digits are no control characters. -/
lemma fmtNat_plain (n : Nat) : '\n' ∉ fmtNat n ∧ '\x00' ∉ fmtNat n := by
  refine ⟨?_, ?_⟩ <;> intro h <;> exact absurd (isDigit_fmtNat h) (by decide)

/-- How many there are. -/
lemma length_fmtNat_le_iff {d n : Nat} (hd : 0 < d) : (fmtNat n).length ≤ d ↔ n < 10 ^ d :=
  Nat.length_toDigits_le_iff (by norm_num) hd

/-- There is one. -/
lemma fmtNat_ne_nil (n : Nat) : fmtNat n ≠ [] := Nat.toDigits_ne_nil

/-- They are read as they were written. -/
@[simp]
lemma digitsVal_fmtNat (n : Nat) : digitsVal (fmtNat n) = n := Nat.ofDigitChars_ten_toDigits

/-- Different numbers have different texts. -/
lemma fmtNat_inj {m n : Nat} (h : fmtNat m = fmtNat n) : m = n := by
  rw [← digitsVal_fmtNat m, h, digitsVal_fmtNat]

/-- Padding is digits too. -/
lemma isDigit_leftpad {d n : Nat} {c : Char} (h : c ∈ (fmtNat n).leftpad d '0') : c.isDigit := by
  rw [List.leftpad, List.mem_append] at h
  rcases h with h | h
  · rw [List.eq_of_mem_replicate h]
    rfl
  · exact isDigit_fmtNat h

/-- Characters of a kind are split off up to the first one that is not. -/
lemma span_append {p : Char → Bool} {w r : Text} (hw : ∀ c ∈ w, p c)
    (hr : ∀ c ∈ r.head?, ¬ p c) : (w ++ r).span p = (w, r) := by
  rw [List.span_eq_takeWhile_dropWhile, List.takeWhile_append_of_pos hw,
    List.dropWhile_append_of_pos hw]
  cases r with
  | nil => simp
  | cons c r => simp [hr c (by simp)]

/-- Nothing is skipped in front of a character of another kind. -/
lemma dropWhile_append {p : Char → Bool} {w : Text} (hne : w ≠ []) (hw : ∀ c ∈ w, ¬ p c)
    (r : Text) : (w ++ r).dropWhile p = w ++ r := by
  cases w with
  | nil => exact absurd rfl hne
  | cons c w => simp [hw c (by simp)]

/-- A digit text is read up to the first character that is not a digit. -/
lemma scanDigits_append {ds r : Text} (h : ∀ c ∈ ds, c.isDigit)
    (hr : ∀ c ∈ r.head?, ¬ c.isDigit) : scanDigits (ds ++ r) = (ds, r) := span_append h hr

/-! ## Fixed-point texts -/

/-- And fills the field. -/
lemma length_leftpad_fmtNat {d n : Nat} (hd : 0 < d) (hn : n < 10 ^ d) :
    ((fmtNat n).leftpad d '0').length = d := by
  have := (length_fmtNat_le_iff hd).mpr hn
  rw [List.length_leftpad]
  omega

/-- It does not change the number. -/
lemma digitsVal_leftpad (d n : Nat) : digitsVal ((fmtNat n).leftpad d '0') = n := by
  rw [digitsVal, List.leftpad, Nat.ofDigitChars_append, Nat.ofDigitChars_replicate_zero, mul_zero]
  exact digitsVal_fmtNat n

/-- Digits one after the other. -/
lemma digitsVal_append (s t : Text) :
    digitsVal (s ++ t) = 10 ^ t.length * digitsVal s + digitsVal t := by
  rw [digitsVal, Nat.ofDigitChars_append, Nat.ofDigitChars_eq_ofDigitChars_zero]
  rfl

/-- A fixed-point text is read back as the number it shows. -/
lemma scanDecimal_fixedDigits {d : Nat} (hd : 0 < d) (n : Nat) :
    scanDecimal (fixedDigits d n) = some (decimal d n, []) := by
  have hlen := length_leftpad_fmtNat hd (Nat.mod_lt n (by positivity : 0 < 10 ^ d))
  have hip : scanDigits (fixedDigits d n) =
      (fmtNat (n / 10 ^ d), '.' :: (fmtNat (n % 10 ^ d)).leftpad d '0') :=
    scanDigits_append (fun _ => isDigit_fmtNat) (by simp)
  have hfp : scanDigits ((fmtNat (n % 10 ^ d)).leftpad d '0') =
      ((fmtNat (n % 10 ^ d)).leftpad d '0', []) := by
    have := scanDigits_append (r := []) (fun _ => isDigit_leftpad (d := d) (n := n % 10 ^ d))
      (by simp)
    rwa [List.append_nil] at this
  have hval : digitsVal (fmtNat (n / 10 ^ d) ++ (fmtNat (n % 10 ^ d)).leftpad d '0') = n := by
    rw [digitsVal_append, hlen, digitsVal_fmtNat, digitsVal_leftpad]
    exact Nat.div_add_mod n (10 ^ d)
  simp only [scanDecimal, hip, scanFraction, hfp, fmtNat_ne_nil, false_and, if_false,
    scanExponent, hval, hlen, zero_sub, zpow_neg, zpow_natCast]
  rw [decimal, div_eq_mul_inv]

/-- The characters of a printed number. -/
def isNumChar (c : Char) : Bool := c.isDigit || c ∈ ['-', '.', 'n', 'a', 'i', 'f']

/-- Numbers are written in digits, -/
lemma isNumChar_of_isDigit {c : Char} (h : c.isDigit) : isNumChar c := by simp [isNumChar, h]

/-- with a point, -/
lemma isNumChar_fixedDigits {d n : Nat} {c : Char} (h : c ∈ fixedDigits d n) : isNumChar c := by
  rw [fixedDigits, List.mem_append, List.mem_cons] at h
  rcases h with h | rfl | h
  · exact isNumChar_of_isDigit (isDigit_fmtNat h)
  · rfl
  · exact isNumChar_of_isDigit (isDigit_leftpad h)

/-- with a sign, -/
lemma isNumChar_fmtSign {neg : Bool} {c : Char} (h : c ∈ fmtSign neg) : isNumChar c := by
  cases neg with
  | false => simp [fmtSign] at h
  | true =>
    rw [fmtSign, if_pos rfl, List.mem_singleton] at h
    subst h
    rfl

/-- as `%.2f` writes them, -/
lemma isNumChar_fmtFixed {d : Nat} {x : Fl} {c : Char} (h : c ∈ fmtFixed d x) : isNumChar c := by
  have hnan : ∀ c ∈ "nan".toList, isNumChar c := by simp [isNumChar]
  have hinf : ∀ c ∈ "inf".toList, isNumChar c := by simp [isNumChar]
  cases x with
  | nan neg => exact (List.mem_append.mp h).elim isNumChar_fmtSign (hnan c)
  | inf neg => exact (List.mem_append.mp h).elim isNumChar_fmtSign (hinf c)
  | fin neg x => exact (List.mem_append.mp h).elim isNumChar_fmtSign isNumChar_fixedDigits

/-- as `%d` writes them, -/
lemma isNumChar_fmtInt {z : ℤ} {c : Char} (h : c ∈ fmtInt z) : isNumChar c := by
  cases z with
  | ofNat n => exact isNumChar_of_isDigit (isDigit_fmtNat h)
  | negSucc n =>
    rcases List.mem_cons.mp h with rfl | h
    · rfl
    · exact isNumChar_of_isDigit (isDigit_fmtNat h)

/-- and without spaces. -/
lemma isSpace_of_isNumChar {c : Char} (h : isNumChar c) : isSpace c = false := by
  by_contra hs
  rw [Bool.not_eq_false] at hs
  have hs : c ∈ [' ', '\t', '\n', '\r', '\x0b', '\x0c'] := of_decide_eq_true hs
  have sep : ∀ c ∈ [' ', '\t', '\n', '\r', '\x0b', '\x0c'], isNumChar c = false := by
    simp [isNumChar]
  rw [sep c hs] at h
  cases h

/-- Stripping leaves a text of number characters alone. -/
lemma strip_of_isNumChar {s : Text} (h : ∀ c ∈ s, isNumChar c) : strip s = s := by
  have drop : ∀ t : Text, (∀ c ∈ t, isNumChar c) → t.dropWhile isSpace = t := by
    intro t ht
    cases t with
    | nil => rfl
    | cons c t =>
      rw [List.dropWhile_cons, isSpace_of_isNumChar (ht c (by simp))]
      rfl
  rw [strip, drop s h, drop s.reverse (by simpa using h), List.reverse_reverse]

end Powmon.Lib
