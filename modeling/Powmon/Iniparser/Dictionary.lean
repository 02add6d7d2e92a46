import Powmon.Lib.SlotTable
import Powmon.Lib.Text

/-!
# The dictionary of the configuration parser

`dictionary.c` of `powmon/lib/iniparser/src`: an array of slots that is doubled when it is full, keys
that are found by their hash and then compared, and entries that are taken out one by one, which leaves
free slots anywhere.

* `DictInv`: what every operation keeps;
* `dictionary_refines`: after any calls the dictionary is the map that the calls describe, however the
  hashes of the keys fall, and `n` is the number of its keys. In particular the way round from index `n`
  on always finds a free slot, as the comment in `dictionary_set` says.

C → Lean naming: the arrays `key`, `val` and `hash` are one list of slots, where a slot with the key
`NULL` is free; `size` is its length. A value may be `NULL`. A way round that does not end, or that
leaves the arrays, is the outcome `none`. Memory is always available.
-/

namespace Powmon.Iniparser
open Lib

/-! ## The code -/

/-- A key with its value and hash. -/
structure Entry where
  key : Text
  val : Option Text
  hash : BitVec 32
deriving DecidableEq

structure Dictionary where
  n : Nat
  slots : List (Option Entry)
deriving DecidableEq

/-- `DICTMINSZ`. -/
def dictMinSz : Nat := 128

/-- `(unsigned)key[i]`: a `char` is signed. -/
def charBits (c : Char) : BitVec 32 := (BitVec.ofNat 8 c.toNat).signExtend 32

/-- `dictionary_hash`. -/
def dictionaryHash (key : Text) : BitVec 32 :=
  let hash := key.foldl (fun hash c =>
    let hash := hash + charBits c
    let hash := hash + (hash <<< 10)
    hash ^^^ (hash >>> 6)) 0
  let hash := hash + (hash <<< 3)
  let hash := hash ^^^ (hash >>> 11)
  hash + (hash <<< 15)

/-- `dictionary_new`. -/
def dictionaryNew (size : ℤ) : Dictionary :=
  let size := if size < dictMinSz then dictMinSz else size.toNat
  ⟨0, List.replicate size none⟩

/-- The loop over the slots in `dictionary_get`, `dictionary_set` and `dictionary_unset`. -/
def findKey (d : Dictionary) (key : Text) : Option Nat :=
  d.slots.findIdx? fun s => s.any fun e => dictionaryHash key = e.hash ∧ key = e.key

/-- `dictionary_get`: the value if the key is found, which may be `NULL`; otherwise C returns the default
that it is given. -/
def dictionaryGet (d : Dictionary) (key : Text) : Option (Option Text) :=
  (findKey d key).bind fun i => (d.slots[i]?).join.map Entry.val

/-- `dictionary_set`. -/
def dictionarySet (d : Dictionary) (key : Text) (val : Option Text) : Option Dictionary :=
  match if 0 < d.n then findKey d key else none with
  | some i => some { d with slots := d.slots.modify i (Option.map fun e => { e with val := val }) }
  | none =>
    let size := d.slots.length
    let slots := if d.n = size then d.slots ++ List.replicate size none else d.slots
    (freeFrom slots slots.length d.n).map fun i =>
      ⟨d.n + 1, slots.set i (some ⟨key, val, dictionaryHash key⟩)⟩

/-- `dictionary_unset`. -/
def dictionaryUnset (d : Dictionary) (key : Text) : Dictionary :=
  match findKey d key with
  | none => d
  | some i => ⟨d.n - 1, d.slots.set i none⟩

/-! ## The invariant -/

/-- What holds of a dictionary between two calls. -/
structure DictInv (d : Dictionary) : Prop where
  /-- No key twice. -/
  keys : DistinctKeys Entry.key d.slots
  /-- The hashes are those of the keys. -/
  hashes : ∀ e, some e ∈ d.slots → e.hash = dictionaryHash e.key
  /-- `n` counts the entries. -/
  count : d.n = occupied d.slots
  /-- The array is never empty. -/
  size : 0 < d.slots.length

section Operations
variable {d : Dictionary} {key : Text}

lemma findIdx?_congr {α : Type} {p q : α → Bool} {l : List α} (h : ∀ x ∈ l, p x = q x) :
    l.findIdx? p = l.findIdx? q := by
  induction l with
  | nil => rfl
  | cons x l ih =>
    rw [List.findIdx?_cons, List.findIdx?_cons, h x List.mem_cons_self,
      ih fun y hy => h y (List.mem_cons_of_mem x hy)]

/-- With the right hashes the comparison of the keys alone decides. -/
lemma findKey_eq (h : ∀ e, some e ∈ d.slots → e.hash = dictionaryHash e.key) (key : Text) :
    findKey d key = slotOf Entry.key d.slots key := by
  have same : ∀ s ∈ d.slots,
      (s.any fun e => decide (dictionaryHash key = e.hash ∧ key = e.key)) =
        s.any fun e => decide (e.key = key) := by
    intro s hs
    cases s with
    | none => rw [Option.any_none, Option.any_none]
    | some e =>
      rw [Option.any_some, Option.any_some]
      refine decide_eq_decide.mpr ?_
      constructor
      · exact fun both => both.2.symm
      · intro hk
        exact ⟨(congrArg dictionaryHash hk.symm).trans (h e hs).symm, hk.symm⟩
  rw [findKey, slotOf]
  exact findIdx?_congr same

/-- `dictionary_get` is the lookup of the table. -/
lemma dictionaryGet_eq (inv : DictInv d) (key : Text) :
    dictionaryGet d key = (lookup Entry.key d.slots key).map Entry.val := by
  rw [dictionaryGet, findKey_eq inv.hashes, lookup, Option.map_bind]
  rfl

/-- The operations change the map by changing the table. -/
lemma dictionaryGet_update {d' : Dictionary} (inv : DictInv d) (inv' : DictInv d')
    {e : Option Entry}
    (h : lookup Entry.key d'.slots = Function.update (lookup Entry.key d.slots) key e) :
    dictionaryGet d' = Function.update (dictionaryGet d) key (e.map Entry.val) := by
  funext k
  rw [dictionaryGet_eq inv', h]
  by_cases hk : k = key
  · subst hk
    rw [Function.update_self, Function.update_self]
  · rw [Function.update_of_ne hk, Function.update_of_ne hk, dictionaryGet_eq inv]

/-- An empty dictionary is not searched by `dictionary_set`, and has nothing to find. -/
lemma findKey_guarded (inv : DictInv d) (key : Text) :
    (if 0 < d.n then findKey d key else none) = slotOf Entry.key d.slots key := by
  split
  · exact findKey_eq inv.hashes key
  · next h =>
    rw [eq_comm, slotOf_eq_none_iff]
    intro i e hi
    have pos : 0 < occupied d.slots :=
      List.countP_pos_iff.mpr ⟨some e, List.mem_of_getElem? hi, rfl⟩
    have := inv.count
    omega

/-- A slot that is written holds the hash of its key. -/
lemma hashes_set {slots : List (Option Entry)} {i : Nat} {s : Option Entry}
    (h : ∀ e, some e ∈ slots → e.hash = dictionaryHash e.key)
    (hs : ∀ e ∈ s, e.hash = dictionaryHash e.key) :
    ∀ e, some e ∈ slots.set i s → e.hash = dictionaryHash e.key := by
  intro e mem
  cases List.mem_or_eq_of_mem_set mem with
  | inl old => exact h e old
  | inr new => exact hs e new.symm

/-- The value of a key that is found is replaced. -/
lemma dictionarySet_found (inv : DictInv d) {i : Nat} (h : slotOf Entry.key d.slots key = some i)
    (val : Option Text) :
    ∃ e, d.slots[i]? = some (some e) ∧ e.key = key ∧
      dictionarySet d key val = some { d with slots := d.slots.set i (some { e with val := val }) } := by
  obtain ⟨e, hi, hk⟩ := slotOf_spec h
  refine ⟨e, hi, hk, ?_⟩
  have modified : d.slots.modify i (Option.map fun e => { e with val := val }) =
      d.slots.set i (some { e with val := val }) := by
    refine List.ext_getElem? fun j => ?_
    rw [List.getElem?_modify, getElem?_set_entry hi]
    split
    · next hj =>
      rw [← hj, hi]
      rfl
    · exact id_map _
  rw [dictionarySet, findKey_guarded inv, h]
  exact congrArg (fun slots => some { d with slots := slots }) modified

/-- What `dictionary_set` does: it finds a place for the key and stores the value there, in an array of
twice the size if there is no place left. -/
lemma dictionarySet_spec (inv : DictInv d) (key : Text) (val : Option Text) :
    ∃ d', dictionarySet d key val = some d' ∧ DictInv d' ∧
      dictionaryGet d' = Function.update (dictionaryGet d) key (some val) ∧
      (d'.slots.length = d.slots.length ∨
        d.n = d.slots.length ∧ d'.slots.length = 2 * d.slots.length) := by
  cases h : slotOf Entry.key d.slots key with
  | some i =>
    obtain ⟨e, hi, hk, result⟩ := dictionarySet_found inv h val
    refine ⟨_, result, ?_⟩
    obtain ⟨keys, found⟩ := @lookup_replace _ _ _ Entry.key d.slots i { e with val := val } e
      inv.keys hi rfl
    have inv' : DictInv { d with slots := d.slots.set i (some { e with val := val }) } := by
      refine ⟨keys, ?_, ?_, ?_⟩
      · refine hashes_set inv.hashes ?_
        rintro _ ⟨⟩
        exact inv.hashes e (List.mem_of_getElem? hi)
      · exact inv.count.trans (occupied_replace hi).symm
      · exact inv.size.trans_eq List.length_set.symm
    subst hk
    exact ⟨inv', dictionaryGet_update inv inv' found, .inl List.length_set⟩
  | none =>
    -- the array in which the free slot is looked for
    obtain ⟨slots, hslots⟩ : ∃ slots, slots =
      if d.n = d.slots.length then d.slots ++ List.replicate d.slots.length none else d.slots :=
      ⟨_, rfl⟩
    have grown : DistinctKeys Entry.key slots ∧ lookup Entry.key slots = lookup Entry.key d.slots ∧
        occupied slots = d.n ∧ d.n < slots.length ∧
        (∀ e, some e ∈ slots → e.hash = dictionaryHash e.key) ∧
        (slots.length = d.slots.length ∨
          d.n = d.slots.length ∧ slots.length = 2 * d.slots.length) := by
      have size := inv.size
      have few : d.n ≤ d.slots.length := inv.count.trans_le List.countP_le_length
      by_cases full : d.n = d.slots.length
      · rw [if_pos full] at hslots
        obtain ⟨keys, found⟩ := @lookup_grow _ _ _ Entry.key d.slots d.slots.length inv.keys
        have len : slots.length = 2 * d.slots.length := by
          rw [hslots, List.length_append, List.length_replicate]
          omega
        refine ⟨hslots ▸ keys, hslots ▸ found, ?_, by omega, ?_, .inr ⟨full, len⟩⟩
        · rw [hslots, occupied_grow, inv.count]
        · intro e mem
          rw [hslots, List.mem_append] at mem
          cases mem with
          | inl old => exact inv.hashes e old
          | inr new => cases List.eq_of_mem_replicate new
      · rw [if_neg full] at hslots
        subst hslots
        exact ⟨inv.keys, rfl, inv.count.symm, by omega, inv.hashes, .inl rfl⟩
    obtain ⟨keys, same, count, lt, hashes, len⟩ := grown
    obtain ⟨i, hf, hi⟩ := freeFrom_isSome lt (count.trans_lt lt)
    have fresh : lookup Entry.key slots key = none := by
      rw [same, lookup, h]
      rfl
    obtain ⟨keys', found⟩ := @lookup_insert _ _ _ Entry.key slots i ⟨key, val, dictionaryHash key⟩
      keys hi fresh
    have inv' : DictInv ⟨d.n + 1, slots.set i (some ⟨key, val, dictionaryHash key⟩)⟩ := by
      refine ⟨keys', ?_, ?_, ?_⟩
      · refine hashes_set hashes ?_
        rintro _ ⟨⟩
        rfl
      · rw [occupied_insert hi, count]
      · rw [List.length_set]
        omega
    refine ⟨_, ?_, inv', dictionaryGet_update inv inv' (same ▸ found), ?_⟩
    · rw [dictionarySet, findKey_guarded inv, h]
      dsimp only
      rw [← hslots, hf]
      rfl
    · rw [List.length_set]
      exact len

/-- What `dictionary_unset` does. -/
lemma dictionaryUnset_spec (inv : DictInv d) (key : Text) :
    DictInv (dictionaryUnset d key) ∧
      dictionaryGet (dictionaryUnset d key) = Function.update (dictionaryGet d) key none ∧
      (dictionaryUnset d key).slots.length = d.slots.length := by
  rw [dictionaryUnset, findKey_eq inv.hashes]
  cases h : slotOf Entry.key d.slots key with
  | none =>
    refine ⟨inv, ?_, rfl⟩
    have absent : dictionaryGet d key = none := by
      rw [dictionaryGet_eq inv, lookup, h]
      rfl
    exact (Function.update_eq_self_iff.mpr absent.symm).symm
  | some i =>
    obtain ⟨e, hi, hk⟩ := slotOf_spec h
    obtain ⟨keys, found⟩ := lookup_remove inv.keys hi
    have removed := occupied_remove hi
    have inv' : DictInv ⟨d.n - 1, d.slots.set i none⟩ := by
      refine ⟨keys, hashes_set inv.hashes (fun _ h => by cases h), ?_, ?_⟩
      · have := inv.count
        dsimp only
        omega
      · exact inv.size.trans_eq List.length_set.symm
    subst hk
    exact ⟨inv', dictionaryGet_update inv inv' found, List.length_set⟩

end Operations

/-! ## Runs -/

/-- The calls that change a dictionary. -/
inductive Call where
  | set (key : Text) (val : Option Text)
  | unset (key : Text)

/-- The call. -/
def Call.run (d : Dictionary) : Call → Option Dictionary
  | .set key val => dictionarySet d key val
  | .unset key => some (dictionaryUnset d key)

/-- What a call means: a key gets a value, or has none any more. -/
def Call.mean (m : Text → Option (Option Text)) : Call → Text → Option (Option Text)
  | .set key val => Function.update m key (some val)
  | .unset key => Function.update m key none

/-- The calls, one after the other. -/
def runCalls (calls : List Call) (d : Dictionary) : Option Dictionary :=
  calls.foldlM Call.run d

/-- Every size that `dictionary_new` or a growing dictionary can have. -/
def SizeFrom (size₀ size : Nat) : Prop := ∃ j, size = size₀ * 2 ^ j

/-- A new dictionary is in order. -/
lemma dictInv_new (size : ℤ) : DictInv (dictionaryNew size) := by
  obtain ⟨m, hm, e⟩ : ∃ m, 0 < m ∧ dictionaryNew size = ⟨0, List.replicate m none⟩ := by
    unfold dictionaryNew dictMinSz
    refine ⟨_, ?_, rfl⟩
    split <;> omega
  rw [e]
  refine ⟨?_, ?_, ?_, ?_⟩
  · intro i j a b hi
    rw [List.getElem?_replicate] at hi
    split at hi <;> cases hi
  · intro a mem
    cases List.eq_of_mem_replicate mem
  · rw [eq_comm, occupied, List.countP_eq_zero]
    intro s hs
    rw [List.eq_of_mem_replicate hs]
    exact Bool.false_ne_true
  · rwa [List.length_replicate]

/-- A call does what it means, and keeps the dictionary in order. -/
lemma Call.run_spec {d : Dictionary} (inv : DictInv d) (c : Call) :
    ∃ d', c.run d = some d' ∧ DictInv d' ∧ dictionaryGet d' = c.mean (dictionaryGet d) ∧
      SizeFrom d.slots.length d'.slots.length := by
  cases c with
  | set key val =>
    obtain ⟨d', h, inv', get, size⟩ := dictionarySet_spec inv key val
    refine ⟨d', h, inv', get, ?_⟩
    rcases size with same | ⟨-, double⟩
    · exact ⟨0, by rw [same, pow_zero, Nat.mul_one]⟩
    · exact ⟨1, by rw [double, pow_one, Nat.mul_comm]⟩
  | unset key =>
    obtain ⟨inv', get, size⟩ := dictionaryUnset_spec inv key
    exact ⟨_, rfl, inv', get, 0, by rw [size, pow_zero, Nat.mul_one]⟩

/-- Every run from a dictionary in order goes through, and does what its calls mean. -/
lemma runCalls_spec {d : Dictionary} (inv : DictInv d) (calls : List Call) :
    ∃ d', runCalls calls d = some d' ∧ DictInv d' ∧
      dictionaryGet d' = calls.foldl Call.mean (dictionaryGet d) ∧
      SizeFrom d.slots.length d'.slots.length := by
  induction calls generalizing d with
  | nil => exact ⟨d, rfl, inv, rfl, 0, by rw [pow_zero, Nat.mul_one]⟩
  | cons c calls ih =>
    obtain ⟨d₁, h₁, inv₁, get₁, j, size₁⟩ := Call.run_spec inv c
    obtain ⟨d₂, h₂, inv₂, get₂, k, size₂⟩ := ih inv₁
    refine ⟨d₂, ?_, inv₂, ?_, j + k, ?_⟩
    · rw [runCalls, List.foldlM_cons, h₁]
      exact h₂
    · rw [get₂, get₁, List.foldl_cons]
    · rw [size₂, size₁, pow_add, Nat.mul_assoc]

/-- A new dictionary is empty. -/
lemma dictionaryGet_new (size : ℤ) (key : Text) : dictionaryGet (dictionaryNew size) key = none := by
  have inv := dictInv_new size
  have empty : occupied (dictionaryNew size).slots = 0 := inv.count.symm
  rw [dictionaryGet_eq inv, Option.map_eq_none_iff, lookup_eq_none_iff]
  intro i e hi
  have pos : 0 < occupied (dictionaryNew size).slots :=
    List.countP_pos_iff.mpr ⟨some e, List.mem_of_getElem? hi, rfl⟩
  omega

/-- Every run from a new dictionary. -/
lemma runCalls_new (size : ℤ) (calls : List Call) :
    ∃ d, runCalls calls (dictionaryNew size) = some d ∧ DictInv d ∧
      dictionaryGet d = calls.foldl Call.mean (fun _ => none) ∧
      SizeFrom (dictionaryNew size).slots.length d.slots.length := by
  obtain ⟨d, run, inv, get, grown⟩ := runCalls_spec (dictInv_new size) calls
  have new : dictionaryGet (dictionaryNew size) = fun _ => none :=
    funext fun key => dictionaryGet_new size key
  rw [new] at get
  exact ⟨d, run, inv, get, grown⟩

/-- The dictionary is the map of its calls: after any calls on a new one of any size, all of which come
to an end, every key has the value last set and not unset since, `n` is the number of keys, and the array
has a slot for each of them and has only been doubled. -/
theorem dictionary_refines (size : ℤ) (calls : List Call) :
    ∃ d, runCalls calls (dictionaryNew size) = some d ∧
      (∀ key, dictionaryGet d key = calls.foldl Call.mean (fun _ => none) key) ∧
      d.n = Set.ncard {key | calls.foldl Call.mean (fun _ => none) key ≠ none} ∧
      d.n ≤ d.slots.length ∧ SizeFrom (dictionaryNew size).slots.length d.slots.length := by
  obtain ⟨d, run, inv, get, grown⟩ := runCalls_new size calls
  refine ⟨d, run, fun key => congrFun get key, ?_, ?_, grown⟩
  · rw [← get, inv.count, ← ncard_keys inv.keys]
    refine congrArg Set.ncard (Set.ext fun key => ?_)
    rw [Set.mem_ofPred_eq, Set.mem_ofPred_eq, dictionaryGet_eq inv, ne_eq, ne_eq,
      Option.map_eq_none_iff]
  · exact inv.count.trans_le List.countP_le_length

end Powmon.Iniparser
