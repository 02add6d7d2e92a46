import Mathlib

/-!
# Writes to a store

`contents m log` is what a store that held `m` holds after the writes of `log`. `SetsBits` are the
logs of a program that only ever sets bits: each write reads a cell, sets the bits of that cell's mask
and stores the result back. However often such a program runs, a cell is either as it was or has
exactly its mask set (`SetsBits.contents_eq`), so that a cell once written does not change any more
(`SetsBits.settled`).
-/

namespace Powmon.Lib

section Store
variable {κ α : Type*} [DecidableEq κ]

/-- The contents of a store after a log of writes. -/
def contents (m : κ → α) (log : List (κ × α)) : κ → α :=
  log.foldl (fun m e => Function.update m e.1 e.2) m

@[simp]
lemma contents_nil (m : κ → α) : contents m [] = m := rfl

/-- The last entry of the log counts. -/
@[simp]
lemma contents_snoc (m : κ → α) (log : List (κ × α)) (e : κ × α) :
    contents m (log ++ [e]) = Function.update (contents m log) e.1 e.2 := by
  simp [contents]

end Store

section SetsBits
variable {κ : Type*} [DecidableEq κ] {w : Nat} {mask : κ → BitVec w} {m : κ → BitVec w}

/-- Every write of the log stores what the cell holds at that moment, with the bits of the cell's mask
set. -/
inductive SetsBits (mask : κ → BitVec w) (m : κ → BitVec w) : List (κ × BitVec w) → Prop where
  | nil : SetsBits mask m []
  | snoc {log} (k : κ) :
    SetsBits mask m log →
    SetsBits mask m (log ++ [(k, contents m log k ||| mask k)])

/-- A cell that was written has its mask set, any other one is as it was. -/
lemma SetsBits.contents_eq {log : List (κ × BitVec w)} (h : SetsBits mask m log) (k : κ) :
    contents m log k = if k ∈ log.map Prod.fst then m k ||| mask k else m k := by
  induction h with
  | nil => rfl
  | @snoc log j _ ih =>
    rw [contents_snoc]
    by_cases hk : k = j
    · subst hk
      rw [Function.update_self, ih]
      by_cases hm : k ∈ log.map Prod.fst <;> simp [hm, BitVec.or_assoc]
    · rw [Function.update_of_ne hk, ih]
      simp [hk]

/-- What the program has written at some earlier moment is such a log as well. -/
lemma SetsBits.of_prefix {pre log : List (κ × BitVec w)} (h : SetsBits mask m log)
    (hp : pre <+: log) : SetsBits mask m pre := by
  induction h with
  | nil =>
    rw [List.prefix_nil.mp hp]
    exact .nil
  | snoc k h ih =>
    cases List.prefix_concat_iff.mp hp with
    | inl e =>
      rw [e]
      exact .snoc k h
    | inr hp => exact ih hp

/-- From the moment at which every cell of the log has been written, the store does not change. -/
lemma SetsBits.settled {pre log : List (κ × BitVec w)} (h : SetsBits mask m log)
    (hp : pre <+: log) (hk : ∀ k ∈ log.map Prod.fst, k ∈ pre.map Prod.fst) :
    contents m log = contents m pre := by
  funext k
  rw [h.contents_eq, (h.of_prefix hp).contents_eq]
  have keys : k ∈ log.map Prod.fst ↔ k ∈ pre.map Prod.fst :=
    ⟨hk k, fun hm => (hp.map Prod.fst).subset hm⟩
  simp only [keys]

end SetsBits

end Powmon.Lib
