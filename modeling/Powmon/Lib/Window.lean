import Mathlib

/-!
# Windows

A queue whose first elements are active, while the others wait for room: `count` is compared with a
limit before one more becomes active, goes down when an active one is done, and the room is then given
to those that wait. `count` need not be the number of active elements: what it is above it, the
`excess`, is room that is never given to anyone.

* `excess_run`: no operation changes the excess;
* `full_run`: as long as elements wait, the room is used up;
* `order_run`: elements become active in the order in which they were added;
* `stall`: once the excess has reached the limit, nothing becomes active any more, whatever is done and
  whatever is added.
-/

namespace Powmon.Lib

structure Window (α : Type*) where
  active : List α
  waiting : List α
  count : ℤ

namespace Window
variable {α : Type*}

/-- The part of `count` that no active element accounts for. -/
def excess (w : Window α) : ℤ := w.count - w.active.length

/-- There is only waiting where there is no room. -/
def Full (limit : ℤ) (w : Window α) : Prop := w.waiting ≠ [] → limit ≤ w.count

/-- One more element. -/
def push (limit : ℤ) (a : α) (w : Window α) : Window α :=
  if w.count < limit then { w with active := w.active ++ [a], count := w.count + 1 }
  else { w with waiting := w.waiting ++ [a] }

/-- The room is given to the first of those that wait. -/
def refill (limit : ℤ) (w : Window α) : Window α :=
  let room := (limit - w.count).toNat
  ⟨w.active ++ w.waiting.take room, w.waiting.drop room, w.count + (w.waiting.take room).length⟩

/-- The active element at `i` is done. -/
def done (limit : ℤ) (i : Nat) (w : Window α) : Window α :=
  if i < w.active.length then
    refill limit { w with active := w.active.eraseIdx i, count := w.count - 1 }
  else w

/-- The operations. -/
inductive Op (α : Type*) where
  | push (a : α)
  | done (i : Nat)

def step (limit : ℤ) (w : Window α) : Op α → Window α
  | .push a => w.push limit a
  | .done i => w.done limit i

def run (limit : ℤ) (ops : List (Op α)) (w : Window α) : Window α := ops.foldl (step limit) w

/-- What the operations add. -/
def pushed (ops : List (Op α)) : List α :=
  ops.filterMap fun
    | .push a => some a
    | .done _ => none

variable {limit : ℤ} {w : Window α}

/-- A run in two parts. -/
lemma run_append (limit : ℤ) (ops ops' : List (Op α)) (w : Window α) :
    w.run limit (ops ++ ops') = (w.run limit ops).run limit ops' := List.foldl_append

/-- Adding one leaves what is counted beyond the active ones. -/
@[simp]
lemma excess_push (limit : ℤ) (a : α) (w : Window α) : (w.push limit a).excess = w.excess := by
  unfold push
  split <;> simp [excess]

/-- A refill leaves it. -/
@[simp]
lemma excess_refill (limit : ℤ) (w : Window α) : (w.refill limit).excess = w.excess := by
  simp only [refill, excess, List.length_append, Nat.cast_add]
  omega

/-- Removing one leaves it. -/
@[simp]
lemma excess_done (limit : ℤ) (i : Nat) (w : Window α) : (w.done limit i).excess = w.excess := by
  unfold done
  split
  · next hi =>
    rw [excess_refill]
    have length := List.length_eraseIdx_of_lt hi
    simp only [excess, length]
    omega
  · rfl

/-- So does any run. -/
lemma excess_run (limit : ℤ) (ops : List (Op α)) (w : Window α) :
    (w.run limit ops).excess = w.excess := by
  induction ops generalizing w with
  | nil => rfl
  | cons op ops ih =>
    refine (ih (w.step limit op)).trans ?_
    cases op with
    | push a => exact excess_push limit a w
    | done i => exact excess_done limit i w

/-- After a refill no place is free while somebody waits. -/
lemma full_refill (limit : ℤ) (w : Window α) : (w.refill limit).Full limit := by
  intro left
  simp only [refill, ne_eq, List.drop_eq_nil_iff, not_le] at left ⊢
  rw [List.length_take]
  omega

/-- Every operation keeps it so. -/
lemma full_step (h : w.Full limit) (op : Op α) : (w.step limit op).Full limit := by
  cases op with
  | push a =>
    simp only [step, push]
    split
    · next room =>
      intro left
      have := h left
      omega
    · next room => exact fun _ => not_lt.mp room
  | done i =>
    simp only [step, done]
    split
    · exact full_refill limit _
    · exact h

/-- So does any run. -/
lemma full_run (h : w.Full limit) (ops : List (Op α)) : (w.run limit ops).Full limit := by
  induction ops generalizing w with
  | nil => exact h
  | cons op ops ih => exact ih (full_step h op)

/-- What becomes active are the first of those that waited or were added. -/
lemma order_step (h : w.Full limit) (op : Op α) :
    ∃ started, w.waiting ++ pushed [op] = started ++ (w.step limit op).waiting ∧
      (w.step limit op).active.Sublist (w.active ++ started) := by
  cases op with
  | push a =>
    simp only [step, push]
    split
    · next room =>
      have nothing : w.waiting = [] := by
        by_contra some_left
        exact absurd (h some_left) (not_le.mpr room)
      rw [nothing]
      exact ⟨[a], rfl, List.Sublist.refl _⟩
    · exact ⟨[], rfl, by rw [List.append_nil]⟩
  | done i =>
    have added : w.waiting ++ pushed [Op.done i] = w.waiting := List.append_nil _
    rw [added]
    simp only [step, done]
    split
    · refine ⟨_, (List.take_append_drop _ _).symm, ?_⟩
      exact (List.eraseIdx_sublist _ _).append (List.Sublist.refl _)
    · exact ⟨[], rfl, by rw [List.append_nil]⟩

/-- The waiting ones start in the order in which they came. -/
lemma order_run (h : w.Full limit) (ops : List (Op α)) :
    ∃ started, w.waiting ++ pushed ops = started ++ (w.run limit ops).waiting ∧
      (w.run limit ops).active.Sublist (w.active ++ started) := by
  induction ops generalizing w with
  | nil => exact ⟨[], List.append_nil _, by rw [List.append_nil]; exact List.Sublist.refl _⟩
  | cons op ops ih =>
    obtain ⟨first, split, fewer⟩ := order_step h op
    obtain ⟨next, split', fewer'⟩ := ih (full_step h op)
    refine ⟨first ++ next, ?_, fewer'.trans ?_⟩
    · have cons : pushed (op :: ops) = pushed [op] ++ pushed ops := by
        cases op <;> rfl
      rw [cons, ← List.append_assoc, split, List.append_assoc, split', List.append_assoc]
      rfl
    · rw [← List.append_assoc]
      exact fewer.append (List.Sublist.refl _)

/-- Nothing becomes active where the excess has reached the limit. -/
lemma stall_step (h : limit ≤ w.excess) (op : Op α) :
    (w.step limit op).active.Sublist w.active ∧ (w.step limit op).waiting = w.waiting ++ pushed [op] := by
  have bound : limit ≤ w.count := by
    unfold excess at h
    omega
  cases op with
  | push a =>
    simp only [step, push, if_neg (not_lt.mpr bound)]
    exact ⟨List.Sublist.refl _, rfl⟩
  | done i =>
    have added : w.waiting ++ pushed [Op.done (α := α) i] = w.waiting := List.append_nil _
    rw [added]
    simp only [step, done]
    split
    · next hi =>
      have noRoom : (limit - (w.count - 1)).toNat = 0 := by
        unfold excess at h
        omega
      simp only [refill, noRoom, List.take_zero, List.append_nil, List.drop_zero]
      exact ⟨List.eraseIdx_sublist _ _, trivial⟩
    · exact ⟨List.Sublist.refl _, rfl⟩

/-- With as much excess as there are places nobody ever starts. -/
lemma stall (h : limit ≤ w.excess) (ops : List (Op α)) :
    (w.run limit ops).active.Sublist w.active ∧ (w.run limit ops).waiting = w.waiting ++ pushed ops := by
  induction ops generalizing w with
  | nil => exact ⟨List.Sublist.refl _, (List.append_nil _).symm⟩
  | cons op ops ih =>
    obtain ⟨fewer, more⟩ := stall_step h op
    have kept : (w.step limit op).excess = w.excess := excess_run limit [op] w
    obtain ⟨fewer', more'⟩ := @ih (w.step limit op) (kept ▸ h)
    refine ⟨fewer'.trans fewer, more'.trans ?_⟩
    rw [more, List.append_assoc]
    cases op <;> rfl

end Window

end Powmon.Lib
