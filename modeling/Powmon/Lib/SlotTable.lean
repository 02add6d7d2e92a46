import Mathlib

/-!
# Tables of slots

An array whose slots are free or hold an entry with a key, with no order among them. A key is found by
going through the slots (`slotOf`), a free slot by going round from some index (`freeFrom`). As long as
no two slots have one key (`DistinctKeys`), the table stands for a finite map (`lookup`), and storing an
entry in a free slot, replacing the entry of a key, freeing a slot and adding free slots at the end are
the operations of that map:

* `lookup_insert`, `lookup_replace`, `lookup_remove`, `lookup_grow`;
* `ncard_keys`: there are as many entries as keys;
* `freeFrom_isSome`: from every index of the table the way round finds a free slot if there is one.
-/

namespace Powmon.Lib

section SlotTable
variable {ε κ : Type*} [DecidableEq κ] {key : ε → κ} {slots : List (Option ε)}

/-! ## Searches -/

/-- The first slot whose entry has the key. -/
def slotOf (key : ε → κ) (slots : List (Option ε)) (k : κ) : Option Nat :=
  slots.findIdx? fun s => s.any fun e => key e = k

/-- The entry of a key. -/
def lookup (key : ε → κ) (slots : List (Option ε)) (k : κ) : Option ε :=
  (slotOf key slots k).bind fun i => (slots[i]?).join

/-- The next free slot from `i` on, going round at the end of the table, after `fuel` slots at most. -/
def freeFrom (slots : List (Option ε)) : Nat → Nat → Option Nat
  | 0, _ => none
  | fuel + 1, i =>
    match slots[i]? with
    | none => none
    | some none => some i
    | some (some _) => freeFrom slots fuel (if i + 1 = slots.length then 0 else i + 1)

/-- The number of entries. -/
def occupied (slots : List (Option ε)) : Nat := slots.countP Option.isSome

/-- No two slots have the same key. -/
def DistinctKeys (key : ε → κ) (slots : List (Option ε)) : Prop :=
  ∀ ⦃i j : Nat⦄ ⦃e e' : ε⦄, slots[i]? = some (some e) → slots[j]? = some (some e') →
    key e = key e' → i = j

/-! ## Looking up -/

/-- The slot of a key has an entry with it. -/
lemma slotOf_spec {k : κ} {i : Nat} (h : slotOf key slots k = some i) :
    ∃ e, slots[i]? = some (some e) ∧ key e = k := by
  obtain ⟨hi, found, -⟩ := List.findIdx?_eq_some_iff_getElem.mp h
  cases hs : slots[i] with
  | none =>
    rw [hs] at found
    cases found
  | some e =>
    rw [hs] at found
    exact ⟨e, by rw [List.getElem?_eq_getElem hi, hs], by simpa using found⟩

/-- A key has no slot when no entry has it. -/
lemma slotOf_eq_none_iff {k : κ} :
    slotOf key slots k = none ↔ ∀ (i : Nat) (e : ε), slots[i]? = some (some e) → key e ≠ k := by
  rw [slotOf, List.findIdx?_eq_none_iff]
  constructor
  · intro h i e hi hk
    have missed := h (some e) (List.mem_of_getElem? hi)
    simp [hk] at missed
  · intro h s hs
    cases s with
    | none => rfl
    | some e =>
      obtain ⟨i, hi⟩ := List.mem_iff_getElem?.mp hs
      simpa using h i e hi

/-- The entry of a key is the one in some slot that has it. -/
lemma lookup_eq_some_iff (hd : DistinctKeys key slots) {k : κ} {e : ε} :
    lookup key slots k = some e ↔ ∃ i : Nat, slots[i]? = some (some e) ∧ key e = k := by
  rw [lookup]
  cases h : slotOf key slots k with
  | none =>
    refine ⟨nofun, ?_⟩
    rintro ⟨i, hi, hk⟩
    exact absurd hk (slotOf_eq_none_iff.mp h i e hi)
  | some j =>
    obtain ⟨e', hj, hk'⟩ := slotOf_spec h
    rw [Option.bind_some, hj, Option.join_some]
    constructor
    · rintro ⟨⟩
      exact ⟨j, hj, hk'⟩
    · rintro ⟨i, hi, hk⟩
      obtain rfl := hd hi hj (hk.trans hk'.symm)
      rw [hi] at hj
      cases hj
      rfl

/-- Then it is not found. -/
lemma lookup_eq_none_iff {k : κ} :
    lookup key slots k = none ↔ ∀ (i : Nat) (e : ε), slots[i]? = some (some e) → key e ≠ k := by
  rw [← slotOf_eq_none_iff, lookup]
  cases h : slotOf key slots k with
  | none => simp
  | some j =>
    obtain ⟨e, hj, -⟩ := slotOf_spec h
    simp [hj]

/-- Tables with the same entries are the same map. -/
lemma lookup_congr {slots' : List (Option ε)} (hd : DistinctKeys key slots)
    (hd' : DistinctKeys key slots') {k : κ}
    (h : ∀ e, key e = k →
      ((∃ i : Nat, slots[i]? = some (some e)) ↔ ∃ i : Nat, slots'[i]? = some (some e))) :
    lookup key slots k = lookup key slots' k := by
  refine Option.ext fun e => ?_
  rw [lookup_eq_some_iff hd, lookup_eq_some_iff hd']
  constructor
  · rintro ⟨i, hi, hk⟩
    obtain ⟨j, hj⟩ := (h e hk).mp ⟨i, hi⟩
    exact ⟨j, hj, hk⟩
  · rintro ⟨i, hi, hk⟩
    obtain ⟨j, hj⟩ := (h e hk).mpr ⟨i, hi⟩
    exact ⟨j, hj, hk⟩

/-! ## Changing a slot -/

section Change
variable {i : Nat} {s : Option ε} {e : ε}

/-- The slots after a write. -/
lemma getElem?_set_entry {x : Option ε} (hi : slots[i]? = some x) (s : Option ε) (j : Nat) :
    (slots.set i s)[j]? = if i = j then some s else slots[j]? := by
  obtain ⟨lt, -⟩ := List.getElem?_eq_some_iff.mp hi
  rw [List.getElem?_set, if_pos lt]

omit [DecidableEq κ] in
/-- A slot may get any entry whose key is in no other slot. -/
lemma DistinctKeys.set {x : Option ε} (hd : DistinctKeys key slots) (hi : slots[i]? = some x)
    (fresh : ∀ (j : Nat) (e' : ε), slots[j]? = some (some e') → key e' = key e → j = i) :
    DistinctKeys key (slots.set i (some e)) := by
  intro j j' a b hj hj' hk
  rw [getElem?_set_entry hi] at hj hj'
  split at hj <;> split at hj'
  · next h h' => exact h.symm.trans h'
  · next h h' =>
    cases hj
    exact absurd (fresh j' b hj' hk.symm).symm h'
  · next h h' =>
    cases hj'
    exact absurd (fresh j a hj hk).symm h
  · exact hd hj hj' hk

omit [DecidableEq κ] in
/-- Freeing a slot keeps the keys distinct. -/
lemma DistinctKeys.free {x : Option ε} (hd : DistinctKeys key slots) (hi : slots[i]? = some x) :
    DistinctKeys key (slots.set i none) := by
  intro j j' a b hj hj' hk
  rw [getElem?_set_entry hi] at hj hj'
  split at hj
  · cases hj
  · split at hj'
    · cases hj'
    · exact hd hj hj' hk

/-- What is written is found. -/
lemma lookup_set_self {x : Option ε} (hd : DistinctKeys key (slots.set i (some e)))
    (hi : slots[i]? = some x) : lookup key (slots.set i (some e)) (key e) = some e := by
  refine (lookup_eq_some_iff hd).mpr ⟨i, ?_, rfl⟩
  rw [getElem?_set_entry hi, if_pos rfl]

/-- Keys other than those of the old and the new entry are as before. -/
lemma lookup_set_of_ne {x : Option ε} (hd : DistinctKeys key slots)
    (hd' : DistinctKeys key (slots.set i s)) (hi : slots[i]? = some x) {k : κ}
    (hx : ∀ a ∈ x, key a ≠ k) (hs : ∀ a ∈ s, key a ≠ k) :
    lookup key (slots.set i s) k = lookup key slots k := by
  refine lookup_congr hd' hd fun a ha => ?_
  constructor
  · rintro ⟨j, hj⟩
    rw [getElem?_set_entry hi] at hj
    split at hj
    · cases hj
      exact absurd ha (hs a rfl)
    · exact ⟨j, hj⟩
  · rintro ⟨j, hj⟩
    refine ⟨j, ?_⟩
    rw [getElem?_set_entry hi]
    split
    · next h =>
      rw [← h, hi] at hj
      cases hj
      exact absurd ha (hx a rfl)
    · exact hj

/-- An entry with a new key in a free slot. -/
lemma lookup_insert (hd : DistinctKeys key slots) (hi : slots[i]? = some none)
    (fresh : lookup key slots (key e) = none) :
    DistinctKeys key (slots.set i (some e)) ∧
      lookup key (slots.set i (some e)) = Function.update (lookup key slots) (key e) (some e) := by
  have hd' : DistinctKeys key (slots.set i (some e)) := by
    refine hd.set hi ?_
    intro j e' hj hk
    exact absurd hk (lookup_eq_none_iff.mp fresh j e' hj)
  refine ⟨hd', ?_⟩
  funext k
  by_cases hk : k = key e
  · subst hk
    rw [Function.update_self, lookup_set_self hd' hi]
  · rw [Function.update_of_ne hk]
    exact lookup_set_of_ne hd hd' hi nofun fun a ha => by
      cases ha
      exact fun h => hk h.symm

/-- Another entry for the key of a slot. -/
lemma lookup_replace {e₀ : ε} (hd : DistinctKeys key slots) (hi : slots[i]? = some (some e₀))
    (hk : key e = key e₀) :
    DistinctKeys key (slots.set i (some e)) ∧
      lookup key (slots.set i (some e)) = Function.update (lookup key slots) (key e) (some e) := by
  have hd' : DistinctKeys key (slots.set i (some e)) := by
    refine hd.set hi ?_
    intro j e' hj he
    exact hd hj hi (he.trans hk)
  refine ⟨hd', ?_⟩
  funext k
  by_cases hke : k = key e
  · subst hke
    rw [Function.update_self, lookup_set_self hd' hi]
  · rw [Function.update_of_ne hke]
    refine lookup_set_of_ne hd hd' hi ?_ ?_
    · rintro a ⟨⟩ h
      exact hke (h.symm.trans hk.symm)
    · rintro a ⟨⟩ h
      exact hke h.symm

/-- A slot is freed. -/
lemma lookup_remove (hd : DistinctKeys key slots) (hi : slots[i]? = some (some e)) :
    DistinctKeys key (slots.set i none) ∧
      lookup key (slots.set i none) = Function.update (lookup key slots) (key e) none := by
  have hd' := hd.free hi
  refine ⟨hd', ?_⟩
  funext k
  by_cases hk : k = key e
  · subst hk
    rw [Function.update_self, lookup_eq_none_iff]
    intro j e' hj he
    rw [getElem?_set_entry hi] at hj
    split at hj
    · cases hj
    · next h => exact h (hd hi hj he.symm)
  · rw [Function.update_of_ne hk]
    refine lookup_set_of_ne hd hd' hi ?_ nofun
    rintro a ⟨⟩ h
    exact hk h.symm

/-- One more entry. -/
lemma occupied_insert (hi : slots[i]? = some none) :
    occupied (slots.set i (some e)) = occupied slots + 1 := by
  obtain ⟨lt, hs⟩ := List.getElem?_eq_some_iff.mp hi
  rw [occupied, List.countP_set lt, hs]
  rfl

/-- As many entries. -/
lemma occupied_replace {e₀ : ε} (hi : slots[i]? = some (some e₀)) :
    occupied (slots.set i (some e)) = occupied slots := by
  obtain ⟨lt, hs⟩ := List.getElem?_eq_some_iff.mp hi
  have pos : 0 < slots.countP Option.isSome :=
    List.countP_pos_iff.mpr ⟨some e₀, List.mem_of_getElem? hi, rfl⟩
  rw [occupied, List.countP_set lt, hs, occupied]
  simp only [Option.isSome_some, if_true]
  omega

/-- One entry less. -/
lemma occupied_remove (hi : slots[i]? = some (some e)) :
    occupied (slots.set i none) + 1 = occupied slots := by
  obtain ⟨lt, hs⟩ := List.getElem?_eq_some_iff.mp hi
  have pos : 0 < slots.countP Option.isSome :=
    List.countP_pos_iff.mpr ⟨some e, List.mem_of_getElem? hi, rfl⟩
  rw [occupied, List.countP_set lt, hs, occupied]
  simp only [Option.isSome_some, if_true, Option.isSome_none, Bool.false_eq_true, if_false]
  omega

end Change

/-! ## More slots -/

section Grow
variable {m : Nat}

/-- More slots hold no more entries. -/
lemma getElem?_grow {j : Nat} {e : ε} :
    (slots ++ List.replicate m none)[j]? = some (some e) ↔ slots[j]? = some (some e) := by
  rw [List.getElem?_append]
  split
  · rfl
  · next h =>
    rw [List.getElem?_replicate, List.getElem?_eq_none (Nat.le_of_not_lt h)]
    split <;> simp

/-- Free slots at the end change nothing. -/
lemma lookup_grow (hd : DistinctKeys key slots) :
    DistinctKeys key (slots ++ List.replicate m none) ∧
      lookup key (slots ++ List.replicate m none) = lookup key slots := by
  have hd' : DistinctKeys key (slots ++ List.replicate m none) := by
    intro i j e e' hi hj hk
    exact hd (getElem?_grow.mp hi) (getElem?_grow.mp hj) hk
  refine ⟨hd', ?_⟩
  funext k
  exact lookup_congr hd' hd fun e _ => exists_congr fun i => getElem?_grow

/-- As many as before. -/
lemma occupied_grow : occupied (slots ++ List.replicate m none) = occupied slots := by
  rw [occupied, List.countP_append, occupied, Nat.add_eq_left, List.countP_eq_zero]
  intro s hs
  rw [List.eq_of_mem_replicate hs]
  exact Bool.false_ne_true

end Grow

/-! ## Counting keys -/

omit [DecidableEq κ] in
/-- The keys of the rest are distinct. -/
lemma DistinctKeys.tail {s : Option ε} (hd : DistinctKeys key (s :: slots)) :
    DistinctKeys key slots := by
  intro i j e e' hi hj hk
  have same := @hd (i + 1) (j + 1) e e' hi hj hk
  omega

omit [DecidableEq κ] in
/-- The entries have as many keys. -/
lemma DistinctKeys.nodup (hd : DistinctKeys key slots) : (slots.reduceOption.map key).Nodup := by
  induction slots with
  | nil => exact List.nodup_nil
  | cons s slots ih =>
    cases s with
    | none =>
      rw [List.reduceOption_cons_of_none]
      exact ih hd.tail
    | some e =>
      rw [List.reduceOption_cons_of_some, List.map_cons, List.nodup_cons]
      refine ⟨?_, ih hd.tail⟩
      intro mem
      obtain ⟨e', he', hk⟩ := List.mem_map.mp mem
      obtain ⟨j, hj⟩ := List.mem_iff_getElem?.mp (List.reduceOption_mem_iff.mp he')
      have first : 0 = j + 1 := @hd 0 (j + 1) e e' rfl hj hk.symm
      omega

omit [DecidableEq κ] in
/-- The entries counted. -/
lemma length_reduceOption (slots : List (Option ε)) :
    slots.reduceOption.length = occupied slots := by
  induction slots with
  | nil => rfl
  | cons s slots ih =>
    cases s with
    | none => exact ih
    | some e =>
      rw [List.reduceOption_cons_of_some, List.length_cons, ih, occupied, occupied,
        List.countP_cons_of_pos rfl]

/-- The table has one entry for each key that is found. -/
lemma ncard_keys (hd : DistinctKeys key slots) :
    Set.ncard {k | lookup key slots k ≠ none} = occupied slots := by
  have keys : {k | lookup key slots k ≠ none} = ↑(slots.reduceOption.map key).toFinset := by
    ext k
    rw [Set.mem_ofPred_eq, Option.ne_none_iff_exists', Finset.mem_coe, List.mem_toFinset,
      List.mem_map]
    refine exists_congr fun e => ?_
    rw [lookup_eq_some_iff hd, List.reduceOption_mem_iff, List.mem_iff_getElem?, exists_and_right]
  rw [keys, Set.ncard_coe_finset, List.toFinset_card_of_nodup hd.nodup, List.length_map,
    length_reduceOption]

/-! ## Free slots -/

/-- A table that is not full has a free slot. -/
lemma exists_free (h : occupied slots < slots.length) : ∃ i : Nat, slots[i]? = some none := by
  by_contra none_free
  have full : slots.countP Option.isSome = slots.length := by
    refine List.countP_eq_length.mpr fun s hs => ?_
    cases s with
    | some e => rfl
    | none =>
      obtain ⟨i, hi⟩ := List.mem_iff_getElem?.mp hs
      exact absurd ⟨i, hi⟩ none_free
  exact absurd full h.ne

/-- The slot that is found is free. -/
lemma freeFrom_spec {fuel i j : Nat} (h : freeFrom slots fuel i = some j) :
    slots[j]? = some none := by
  induction fuel generalizing i with
  | zero => cases h
  | succ fuel ih =>
    rw [freeFrom] at h
    split at h
    · cases h
    · next hs =>
      cases h
      exact hs
    · exact ih h

/-- The index after `i`, going round. -/
lemma next_index {n i : Nat} (hi : i < n) : (if i + 1 = n then 0 else i + 1) = (i + 1) % n := by
  split
  · next e => rw [e, Nat.mod_self]
  · exact (Nat.mod_eq_of_lt (by omega)).symm

/-- A way round that finds nothing has passed entries only. -/
lemma freeFrom_eq_none {fuel i : Nat} (hi : i < slots.length) (h : freeFrom slots fuel i = none) :
    ∀ t < fuel, slots[(i + t) % slots.length]? ≠ some none := by
  induction fuel generalizing i with
  | zero => exact nofun
  | succ fuel ih =>
    rw [freeFrom, List.getElem?_eq_getElem hi] at h
    intro t ht
    cases hs : slots[i] with
    | none =>
      rw [hs] at h
      cases h
    | some e =>
      rw [hs] at h
      dsimp only at h
      rw [next_index hi] at h
      cases t with
      | zero =>
        rw [Nat.add_zero, Nat.mod_eq_of_lt hi, List.getElem?_eq_getElem hi, hs]
        simp
      | succ t =>
        have lt : (i + 1) % slots.length < slots.length := Nat.mod_lt _ (by omega)
        have passed := ih lt h t (by omega)
        rwa [Nat.mod_add_mod, Nat.add_assoc, Nat.add_comm 1 t] at passed

/-- Going round the whole table from any index finds a free slot if there is one. -/
lemma freeFrom_isSome {i : Nat} (hi : i < slots.length) (h : occupied slots < slots.length) :
    ∃ j, freeFrom slots slots.length i = some j ∧ slots[j]? = some none := by
  cases hf : freeFrom slots slots.length i with
  | some j => exact ⟨j, rfl, freeFrom_spec hf⟩
  | none =>
    exfalso
    obtain ⟨k, hk⟩ := exists_free h
    obtain ⟨lt, -⟩ := List.getElem?_eq_some_iff.mp hk
    have passed := freeFrom_eq_none hi hf ((k + slots.length - i) % slots.length)
      (Nat.mod_lt _ (by omega))
    rw [Nat.add_mod_mod, show i + (k + slots.length - i) = k + slots.length by omega,
      Nat.add_mod_right, Nat.mod_eq_of_lt lt] at passed
    exact passed hk

end SlotTable

end Powmon.Lib
