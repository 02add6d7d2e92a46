import Powmon.Lib.Text

/-!
# Strings in arrays

An array of `char` holds a string up to its first NUL. A text that is built in place, by `strcat` and
by characters stored over the terminator, stays a string only as long as zeros follow it: `padded`
arrays are the ones in which nothing but zeros does.

* `strcat_padded` and `putEnd_padded`: both operations append to the string of a padded array;
* `words_append_space`: the words of a text, one after the other.
-/

namespace Powmon.Lib

/-! ## Operations -/

/-- `strlen`. -/
def strlen (arr : Text) : Nat := (cString arr).length

/-- `strcat` into an array, if the string and its terminator end inside it. -/
def strcat (arr s : Text) : Option Text :=
  if strlen arr + s.length < arr.length then
    some (cString arr ++ s ++ '\x00' :: arr.drop (strlen arr + s.length + 1))
  else none

/-- `arr[strlen(arr)] = c`, which leaves no terminator of its own. -/
def putEnd (arr : Text) (c : Char) : Option Text :=
  if strlen arr < arr.length then some (arr.set (strlen arr) c) else none

/-- An array of `size` bytes with a text and zeros behind it. -/
def padded (size : Nat) (t : Text) : Text := t ++ List.replicate (size - t.length) '\x00'

/-! ## Padded arrays -/

section Padded
variable {size : Nat} {t s : Text}

lemma padded_nil (size : Nat) : padded size [] = List.replicate size '\x00' := rfl

/-- A text that fits leaves the size of the array. -/
lemma length_padded (h : t.length ≤ size) : (padded size t).length = size := by
  rw [padded, List.length_append, List.length_replicate]
  omega

/-- The padding ends the text and does not show. -/
lemma cString_padded (ht : '\x00' ∉ t) : cString (padded size t) = t := by
  rw [padded, cString_append ht, cString, List.takeWhile_replicate]
  simp

/-- `strcat` appends to the string of a padded array. -/
lemma strcat_padded (ht : '\x00' ∉ t) (h : t.length + s.length < size) :
    strcat (padded size t) s = some (padded size (t ++ s)) := by
  have rest : (padded size t).drop (t.length + s.length + 1) =
      List.replicate (size - (t.length + s.length + 1)) '\x00' := by
    rw [padded, Nat.add_assoc, List.drop_length_add_append, List.drop_replicate]
    congr 1
    omega
  have zeros : size - (t ++ s).length = size - (t.length + s.length + 1) + 1 := by
    rw [List.length_append]
    omega
  rw [strcat, strlen, cString_padded ht, length_padded (by omega), if_pos h, rest, padded, zeros,
    List.replicate_succ]

/-- So does a character stored over its terminator. -/
lemma putEnd_padded (ht : '\x00' ∉ t) (h : t.length < size) (c : Char) :
    putEnd (padded size t) c = some (padded size (t ++ [c])) := by
  have zeros : size - t.length = size - (t ++ [c]).length + 1 := by
    rw [List.length_append, List.length_singleton]
    omega
  have stored : (padded size t).set t.length c = padded size (t ++ [c]) := by
    rw [padded, zeros, List.replicate_succ, List.set_append_right _ _ le_rfl, Nat.sub_self,
      List.set_cons_zero, padded, List.append_assoc]
    rfl
  rw [putEnd, strlen, cString_padded ht, length_padded (by omega), if_pos h, stored]

end Padded

/-! ## Words -/

/-- The words of a text, by the white space between them. -/
def words (s : Text) : List Text := (s.splitOnP isSpace).filter (· ≠ [])

@[simp]
lemma words_nil : words [] = [] := rfl

/-- A word with a blank behind it is the first of the text. -/
lemma words_append_space {w : Text} (hw : ∀ c ∈ w, isSpace c = false) (hne : w ≠ []) (r : Text) :
    words (w ++ ' ' :: r) = w :: words r := by
  rw [words, List.splitOnP_append_cons_of_forall_mem hw ' ' rfl, List.filter_cons_of_pos]
  · rfl
  · exact decide_eq_true hne

end Powmon.Lib
