import Mathlib

/-!
# Collective calls

Processes that each have a list of collective calls to make. A call completes when every process of
its group is at it, and then all of them go on (`Completes`). Which groups complete first is open.

If all processes have the same list, no order of completion gets stuck: `completes_of_same` goes from
every state on the way to the one in which no calls are left. The invariant is `Aligned`: of a group,
either all processes have made a call or none has.
-/

namespace Powmon.Lib

section Collective
variable {ρ κ : Type*}

/-- The processes a call involves form groups. -/
structure Grouping (group : ρ → κ → Set ρ) : Prop where
  self : ∀ r k, r ∈ group r k
  same : ∀ r r' k, r' ∈ group r k → group r' k = group r k

/-- A call completes: all processes of a group are at it and go on; the others stay where they are. -/
def Completes (group : ρ → κ → Set ρ) (st st' : ρ → List κ) : Prop :=
  ∃ r k, (∀ r' ∈ group r k, st r' = k :: st' r') ∧ ∀ r' ∉ group r k, st' r' = st r'

/-- Every process has made the first calls of `L`, and the processes of a group have made the same
calls of the group. -/
structure Aligned (group : ρ → κ → Set ρ) (L : List κ) (st : ρ → List κ) : Prop where
  suffix : ∀ r, st r <:+ L
  made : ∀ r r' k rest, (k :: rest) <:+ L → r' ∈ group r k →
    ((st r).length ≤ rest.length ↔ (st r').length ≤ rest.length)

lemma Aligned.init (group : ρ → κ → Set ρ) (L : List κ) : Aligned group L fun _ => L :=
  ⟨fun _ => List.suffix_rfl, fun _ _ _ _ _ _ => Iff.rfl⟩

/-- Two ends of one list that are equally long are equal. -/
lemma suffix_eq {L a b : List κ} (ha : a <:+ L) (hb : b <:+ L) (h : a.length = b.length) : a = b :=
  (List.suffix_of_suffix_length_le ha hb h.le).eq_of_length h

/-- The completion of a call keeps the processes aligned. -/
lemma Aligned.step {group : ρ → κ → Set ρ} (hg : Grouping group) {L : List κ} {st st' : ρ → List κ}
    (h : Aligned group L st) (hs : Completes group st st') : Aligned group L st' := by
  obtain ⟨r₀, k₀, here, stay⟩ := hs
  refine ⟨?_, ?_⟩
  · intro r
    by_cases hr : r ∈ group r₀ k₀
    · exact (List.suffix_cons k₀ (st' r)).trans (here r hr ▸ h.suffix r)
    · rw [stay r hr]
      exact h.suffix r
  · -- one process goes on and the other does not: the call is not one of theirs
    have mixed : ∀ r r' k rest, (k :: rest) <:+ L → r' ∈ group r k → r ∈ group r₀ k₀ →
        r' ∉ group r₀ k₀ → ((st' r).length ≤ rest.length ↔ (st' r').length ≤ rest.length) := by
      intro r r' k rest hk hr' hr hn
      have old := h.made r r' k rest hk hr'
      have len : (st r).length = (st' r).length + 1 := by rw [here r hr, List.length_cons]
      have ne : (st' r).length ≠ rest.length := by
        intro e
        have same : k :: rest = k₀ :: st' r :=
          suffix_eq hk (here r hr ▸ h.suffix r) (by simp [e])
        obtain ⟨rfl, -⟩ := List.cons.inj same
        rw [← hg.same r₀ r k hr] at hn
        exact hn hr'
      rw [stay r' hn]
      omega
    intro r r' k rest hk hr'
    by_cases hr : r ∈ group r₀ k₀ <;> by_cases hn : r' ∈ group r₀ k₀
    · -- both were at the call, with the same calls behind it
      have len : ∀ x ∈ group r₀ k₀, ∀ y ∈ group r₀ k₀, (st' x).length ≤ (st' y).length := by
        intro x hx y hy
        by_contra hlt
        have old := h.made y x k₀ (st' x) (here x hx ▸ h.suffix x)
          (by rw [hg.same r₀ y k₀ hy]; exact hx)
        rw [here x hx, here y hy, List.length_cons, List.length_cons] at old
        omega
      rw [Nat.le_antisymm (len r hr r' hn) (len r' hn r hr)]
    · exact mixed r r' k rest hk hr' hr hn
    · refine (mixed r' r k rest hk ?_ hn hr).symm
      rw [hg.same r r' k hr']
      exact hg.self r k
    · rw [stay r hr, stay r' hn]
      exact h.made r r' k rest hk hr'

/-- Aligned processes that have calls left can complete one. -/
lemma Aligned.progress [Finite ρ] {group : ρ → κ → Set ρ} {L : List κ} {st : ρ → List κ}
    (h : Aligned group L st) {r₀ : ρ} (left : st r₀ ≠ []) : ∃ st', Completes group st st' := by
  classical
  -- a process that is furthest behind
  have : Nonempty ρ := ⟨r₀⟩
  obtain ⟨r, hmax⟩ := Finite.exists_max fun r => (st r).length
  obtain ⟨k, rest, e⟩ : ∃ k rest, st r = k :: rest := by
    cases hr : st r with
    | nil =>
      have := hmax r₀
      rw [hr] at this
      exact absurd (List.length_eq_zero_iff.mp (Nat.le_zero.mp this)) left
    | cons k rest => exact ⟨k, rest, rfl⟩
  refine ⟨fun r' => if r' ∈ group r k then rest else st r', r, k, ?_, ?_⟩
  · intro r' hr'
    have made := h.made r r' k rest (e ▸ h.suffix r) hr'
    have max := hmax r'
    have len : (st r').length = (st r).length := by
      rw [e, List.length_cons] at made max ⊢
      omega
    dsimp only
    rw [if_pos hr', ← e]
    exact suffix_eq (h.suffix r') (h.suffix r) len
  · intro r' hr'
    exact if_neg hr'

/-- Processes that all have the same calls to make never get stuck: from every state on the way, the
calls that are left can be completed. -/
theorem completes_of_same [Finite ρ] {group : ρ → κ → Set ρ} (hg : Grouping group) {L : List κ}
    {st : ρ → List κ} (run : Relation.ReflTransGen (Completes group) (fun _ => L) st) :
    Relation.ReflTransGen (Completes group) st fun _ => [] := by
  have := Fintype.ofFinite ρ
  have aligned : Aligned group L st := by
    induction run with
    | refl => exact Aligned.init group L
    | tail _ hs ih => exact ih.step hg hs
  clear run
  -- every completion leaves fewer calls
  obtain ⟨m, hm⟩ : ∃ m, m = ∑ r, (st r).length := ⟨_, rfl⟩
  induction m using Nat.strong_induction_on generalizing st with
  | _ m ih =>
    by_cases left : ∃ r, st r ≠ []
    · obtain ⟨r, hr⟩ := left
      obtain ⟨st', hs⟩ := aligned.progress hr
      have fewer : ∑ r, (st' r).length < ∑ r, (st r).length := by
        obtain ⟨r₀, k₀, here, stay⟩ := hs
        refine Finset.sum_lt_sum ?_ ⟨r₀, Finset.mem_univ _, ?_⟩
        · intro r _
          by_cases hr : r ∈ group r₀ k₀
          · rw [here r hr, List.length_cons]
            omega
          · rw [stay r hr]
        · rw [here r₀ (hg.self r₀ k₀), List.length_cons]
          omega
      exact .head hs (ih _ (hm ▸ fewer) (aligned.step hg hs) rfl)
    · push Not at left
      obtain rfl : st = fun _ => [] := funext left
      exact .refl

end Collective

end Powmon.Lib
