import Powmon.Lib.Text

/-!
# Lines, words and tokens

What C programs take text apart with: `fgets` (and the lines a loop over it sees), the conversions of
`sscanf` one after the other (`skipWords`, `scanIntAfter`), `strtok` and `atoi`.

* `lines_unlines`: lines that fit into the buffer come back one by one;
* `scanStr_append`, `scanInt_append`: a word and a number at the front of a text;
* `strtok_append`, `atoi_fmtNat`: a token, and the number it shows.
-/

namespace Powmon.Lib

/-! ## Lines -/

/-- `BUFSIZ`. -/
def bufsiz : Nat := 8192

/-- At most `n` characters, up to a newline. -/
def takeLine : Nat → Text → Text × Text
  | 0, s => ([], s)
  | _ + 1, [] => ([], [])
  | n + 1, c :: s =>
    if c = '\n' then ([c], s)
    else
      let (l, r) := takeLine n s
      (c :: l, r)

/-- `fgets` into a buffer of `size` bytes: the line and the rest of the file, or nothing at its end. -/
def fgets (size : Nat) (s : Text) : Option (Text × Text) :=
  match takeLine (size - 1) s with
  | ([], _) => none
  | x => some x

lemma takeLine_append (n : Nat) (s : Text) : (takeLine n s).1 ++ (takeLine n s).2 = s := by
  induction n generalizing s with
  | zero => rfl
  | succ n ih =>
    cases s with
    | nil => rfl
    | cons c s =>
      by_cases h : c = '\n'
      · simp [takeLine, h]
      · simp [takeLine, h, ih]

lemma fgets_eq_some {size : Nat} {s l r : Text} (h : fgets size s = some (l, r)) :
    l ≠ [] ∧ s = l ++ r := by
  unfold fgets at h
  have e := takeLine_append (size - 1) s
  cases ht : takeLine (size - 1) s with
  | mk l' r' =>
    rw [ht] at h e
    cases l' with
    | nil => cases h
    | cons c l' =>
      cases h
      exact ⟨by simp, e.symm⟩

/-- The lines that `while (fgets(…))` sees. -/
def lines (size : Nat) (s : Text) : List Text :=
  match _h : fgets size s with
  | none => []
  | some (l, r) => l :: lines size r
termination_by s.length
decreasing_by
  obtain ⟨hl, rfl⟩ := fgets_eq_some _h
  have : 0 < l.length := List.length_pos_iff.mpr hl
  simp
  omega

/-- A file of these lines. -/
def unlines (ls : List Text) : Text := ls.flatMap fun l => l ++ ['\n']

lemma takeLine_line {n : Nat} {l r : Text} (hn : l.length < n) (hl : '\n' ∉ l) :
    takeLine n (l ++ '\n' :: r) = (l ++ ['\n'], r) := by
  induction l generalizing n with
  | nil =>
    obtain ⟨n, rfl⟩ := Nat.exists_eq_add_of_lt hn
    simp [takeLine]
  | cons c l ih =>
    obtain ⟨n, rfl⟩ := Nat.exists_eq_add_of_le' (Nat.one_le_of_lt hn)
    have hc : c ≠ '\n' := fun e => hl (by simp [e])
    have tail := ih (n := n) (by simpa using hn) (fun h => hl (by simp [h]))
    simp [takeLine, hc, tail]

/-- Lines that fit into the buffer, with their newline and the terminating NUL, come back one by
one. -/
lemma lines_unlines {size : Nat} {ls : List Text} (hn : ∀ l ∈ ls, '\n' ∉ l)
    (hs : ∀ l ∈ ls, l.length + 1 < size) :
    lines size (unlines ls) = ls.map fun l => l ++ ['\n'] := by
  induction ls with
  | nil =>
    have e : fgets size [] = none := by
      unfold fgets
      cases size - 1 <;> rfl
    rw [lines, unlines, List.flatMap_nil, e]
    rfl
  | cons l ls ih =>
    have line := takeLine_line (n := size - 1) (r := unlines ls)
      (by have := hs l (by simp); omega) (hn l (by simp))
    have e : fgets size (unlines (l :: ls)) = some (l ++ ['\n'], unlines ls) := by
      have cons : unlines (l :: ls) = l ++ '\n' :: unlines ls := by simp [unlines]
      rw [fgets, cons, line]
      cases l <;> rfl
    rw [lines]
    split
    · rename_i h
      rw [e] at h
      cases h
    · rename_i h
      rw [e] at h
      cases h
      rw [ih (fun x hx => hn x (by simp [hx])) (fun x hx => hs x (by simp [hx]))]
      rfl

/-- A key without a newline is at the front of a line with or without its newline. -/
lemma isPrefixOf_newline {key : Text} (hk : '\n' ∉ key) (l : Text) :
    key.isPrefixOf (l ++ ['\n']) = key.isPrefixOf l := by
  induction key generalizing l with
  | nil => rfl
  | cons c key ih =>
    have hc : c ≠ '\n' := fun e => hk (by simp [e])
    cases l with
    | nil => simp [List.isPrefixOf, hc]
    | cons d l => simp [List.isPrefixOf, ih (fun h => hk (by simp [h]))]

/-- A key is at the front of a line as C sees it, up to a NUL, exactly if it is at its front. -/
lemma isPrefixOf_cString {key : Text} (hn : '\n' ∉ key) (h0 : '\x00' ∉ key) (l : Text) :
    key.isPrefixOf (cString (l ++ ['\n'])) = key.isPrefixOf l := by
  rw [← isPrefixOf_newline hn l]
  generalize l ++ ['\n'] = s
  induction key generalizing s with
  | nil => rfl
  | cons c key ih =>
    have hc : c ≠ '\x00' := fun e => h0 (by simp [e])
    have tail := ih (fun h => hn (by simp [h])) (fun h => h0 (by simp [h]))
    cases s with
    | nil => rfl
    | cons d s =>
      by_cases hd : d = '\x00'
      · subst hd
        simp [cString, List.isPrefixOf, hc]
      · have cut : cString (d :: s) = d :: cString s := by simp [cString, hd]
        rw [cut, List.isPrefixOf, List.isPrefixOf, tail]

/-! ## Words and numbers -/

/-- A word is read up to the white space that follows it. -/
lemma scanStr_append {ws w r : Text} (hws : ∀ c ∈ ws, isSpace c) (hw : ∀ c ∈ w, isSpace c = false)
    (hne : w ≠ []) (hr : ∀ c ∈ r.head?, isSpace c) : scanStr (ws ++ (w ++ r)) = some (w, r) := by
  have skip : (ws ++ (w ++ r)).dropWhile isSpace = w ++ r := by
    rw [List.dropWhile_append_of_pos hws]
    exact dropWhile_append hne (by simpa using hw) r
  have word : (w ++ r).span (fun c => !isSpace c) = (w, r) :=
    span_append (by simpa using hw) (by simpa using hr)
  rw [scanStr, skip, word]
  cases w with
  | nil => exact absurd rfl hne
  | cons c w => rfl

/-- A printed number is read back. -/
lemma scanInt_append {ws r : Text} (n : Nat) (hws : ∀ c ∈ ws, isSpace c)
    (hr : ∀ c ∈ r.head?, ¬ c.isDigit) :
    scanInt (ws ++ (fmtNat n ++ r)) = some ((n : ℤ), r) := by
  have digits : scanDigits (fmtNat n ++ r) = (fmtNat n, r) :=
    scanDigits_append (fun _ => isDigit_fmtNat) hr
  have head : ∃ c t, fmtNat n = c :: t ∧ c.isDigit := by
    cases h : fmtNat n with
    | nil => exact absurd h (fmtNat_ne_nil n)
    | cons c t => exact ⟨c, t, rfl, isDigit_fmtNat (n := n) (by simp [h])⟩
  obtain ⟨c, t, e, hc⟩ := head
  have skip : (ws ++ (fmtNat n ++ r)).dropWhile isSpace = fmtNat n ++ r := by
    rw [List.dropWhile_append_of_pos hws]
    refine dropWhile_append (fmtNat_ne_nil n) ?_ r
    intro d hd
    rw [isSpace_of_isNumChar (isNumChar_of_isDigit (isDigit_fmtNat hd))]
    exact Bool.false_ne_true
  have sign : scanSign (fmtNat n ++ r) = (false, fmtNat n ++ r) := by
    have h1 : c ≠ '-' := by
      rintro rfl
      exact absurd hc (by decide)
    have h2 : c ≠ '+' := by
      rintro rfl
      exact absurd hc (by decide)
    rw [e, List.cons_append, scanSign]
    · exact fun s h => h1 (by cases h; rfl)
    · exact fun s h => h2 (by cases h; rfl)
  simp only [scanInt, skip, sign, digits]
  rw [e]
  simp [← e]

/-- `%*s`, `k` times. -/
def skipWords : Nat → Text → Option Text
  | 0, s => some s
  | k + 1, s => do
    let (_, r) ← scanStr s
    skipWords k r

/-- A scanned number as an `int`: `strtol` saturates in 64 bits, the assignment keeps 32 of them. -/
def storeInt (n : ℤ) : ℤ := (BitVec.ofInt 32 (max (-2 ^ 63) (min n (2 ^ 63 - 1)))).toInt

lemma storeInt_natCast {n : Nat} (hn : n < 2 ^ 31) : storeInt n = n := by
  have clamp : max (-2 ^ 63) (min (n : ℤ) (2 ^ 63 - 1)) = n := by omega
  rw [storeInt, clamp, BitVec.toInt_ofInt]
  exact Int.bmod_eq_of_le (by omega) (by omega)

/-- `sscanf` of a format with `k` times `%*s` and one `%d`: the `int`, if one is stored. -/
def scanIntAfter (k : Nat) (s : Text) : Option ℤ := do
  let r ← skipWords k s
  let (n, _) ← scanInt r
  return storeInt n

/-- A word and the white space after it. -/
structure Spaced where
  word : Text
  gap : Text
  word_ne : word ≠ []
  word_plain : ∀ c ∈ word, isSpace c = false
  gap_ne : gap ≠ []
  gap_space : ∀ c ∈ gap, isSpace c

/-- A number after words is found by skipping them. -/
lemma scanIntAfter_words {ws : Text} (hws : ∀ c ∈ ws, isSpace c) (xs : List Spaced) (n : Nat)
    {r : Text} (hr : ∀ c ∈ r.head?, ¬ c.isDigit) :
    scanIntAfter xs.length (ws ++ (xs.flatMap (fun x => x.word ++ x.gap) ++ (fmtNat n ++ r))) =
      some (storeInt n) := by
  induction xs generalizing ws with
  | nil =>
    rw [scanIntAfter, List.length_nil, skipWords, Option.bind_eq_bind, Option.bind_some,
      List.flatMap_nil, List.nil_append, scanInt_append n hws hr]
    rfl
  | cons x xs ih =>
    obtain ⟨c, gap, e⟩ := List.exists_cons_of_ne_nil x.gap_ne
    have hc : isSpace c := x.gap_space c (by simp [e])
    have word := scanStr_append (r := x.gap ++ (xs.flatMap (fun x => x.word ++ x.gap) ++
      (fmtNat n ++ r))) hws x.word_plain x.word_ne (by simpa [e] using hc)
    have tail := ih x.gap_space
    rw [scanIntAfter] at tail ⊢
    rw [List.length_cons, skipWords, List.flatMap_cons, List.append_assoc, List.append_assoc, word]
    exact tail

/-! ## Tokens -/

/-- `strtok`: the next token of the text and what is left for the following call. The delimiter after
the token, which C overwrites by a NUL, belongs to neither. -/
def strtok (delims : List Char) (s : Text) : Option (Text × Text) :=
  match (s.dropWhile (· ∈ delims)).span fun c => c ∉ delims with
  | ([], _) => none
  | (w, r) => some (w, r.drop 1)

lemma strtok_append {delims : List Char} {w r : Text} (hw : ∀ c ∈ w, c ∉ delims) (hne : w ≠ [])
    (hr : ∀ c ∈ r.head?, c ∈ delims) : strtok delims (w ++ r) = some (w, r.drop 1) := by
  have skip : (w ++ r).dropWhile (· ∈ delims) = w ++ r :=
    dropWhile_append hne (by simpa using hw) r
  have token : (w ++ r).span (fun c => c ∉ delims) = (w, r) :=
    span_append (by simpa using hw) (by simpa using hr)
  rw [strtok, skip, token]
  cases w with
  | nil => exact absurd rfl hne
  | cons c w => rfl

/-- `atoi`, which is `strtol` (it saturates in 64 bits) converted to `int`. -/
def atoi (s : Text) : ℤ := storeInt (((scanInt s).map Prod.fst).getD 0)

/-- The value of a text of digits in base `b`. -/
def digitsIn (b : Nat) (ds : List Nat) : Nat := ds.foldl (fun n d => b * n + d) 0

/-- `strtol` with base `0`: hexadecimal after `0x`, octal after `0`, decimal otherwise. -/
def strtol0 (s : Text) : ℤ :=
  let (neg, s) := scanSign (s.dropWhile isSpace)
  let hex := (scanHexDigits (s.drop 2)).1
  let n : Nat :=
    if startsWithWord "0x".toList s ∧ hex ≠ [] then digitsIn 16 hex
    else if s.head? = some '0' then
      digitsIn 8 ((s.takeWhile fun c => '0' ≤ c ∧ c ≤ '7').map fun c => c.toNat - 48)
    else digitsVal (scanDigits s).1
  if neg then -(n : ℤ) else n

/-- `atof`, which unlike `%f` reads `inf` whatever follows it. -/
def atof (s : Text) : Fl :=
  let (neg, t) := scanSign (s.dropWhile isSpace)
  if startsWithWord "inf".toList t then .inf neg
  else ((scanFloat binary64 s).map Prod.fst).getD (.fin false 0)

lemma atoi_fmtNat {n : Nat} (hn : n < 2 ^ 31) : atoi (fmtNat n) = n := by
  have e : scanInt (fmtNat n) = some ((n : ℤ), []) := by
    have h := @scanInt_append [] [] n (by simp) (by simp)
    simpa using h
  rw [atoi, e]
  exact storeInt_natCast hn

end Powmon.Lib
