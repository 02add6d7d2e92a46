import Mathlib

/-!
# Forests of keyed nodes

Trees side by side: every node has a key, a value, the trees below it and the trees that follow it. A path
is a list of keys, and a forest stands for the function from paths to values that is `d` where there is no
node (`look`). Going down a path and making the nodes that are missing, going down a path and pruning on
the way back, and clearing the whole forest are point updates and maps of that function:

* `look_adjust`, `look_prune`, `look_clear`;
* `look_under`: the same for a change of the trees below one root;
* `look_of_mem_entries`, `mem_entries_of_look`, `nodup_entries`: the nodes as a list;
* `Leafy`: a key whose nodes have no node below.
-/

namespace Powmon.Lib

/-- Trees side by side. -/
inductive Forest (κ α : Type*) where
  | nil
  | cons (key : κ) (value : α) (children next : Forest κ α)
deriving DecidableEq, Repr

namespace Forest
variable {κ α : Type*}

/-- The keys of the roots. -/
def keys : Forest κ α → List κ
  | nil => []
  | cons k _ _ next => k :: next.keys

/-- The nodes, each with its path, those below a node before it. -/
def entries : Forest κ α → List (List κ × α)
  | nil => []
  | cons k v children next =>
    children.entries.map (Prod.map (List.cons k) id) ++ ([k], v) :: next.entries

/-- No two siblings have the same key. -/
def Distinct : Forest κ α → Prop
  | nil => True
  | cons k _ children next => k ∉ next.keys ∧ children.Distinct ∧ next.Distinct

/-- There is no node below one with the key. -/
def Leafy (leaf : κ) : Forest κ α → Prop
  | nil => True
  | cons k _ children next => (k = leaf → children = nil) ∧ children.Leafy leaf ∧ next.Leafy leaf

/-- A path of new nodes. -/
def chain (d v : α) : List κ → Forest κ α
  | [] => nil
  | [k] => cons k v nil nil
  | k :: ks => cons k d (chain d v ks) nil

/-- A chain has one root. -/
lemma keys_chain (d v : α) (t : κ) (ts : List κ) : (chain d v (t :: ts)).keys = [t] := by
  cases ts <;> rfl

/-- And no siblings. -/
lemma distinct_chain (d v : α) (q : List κ) : (chain d v q).Distinct := by
  induction q with
  | nil => trivial
  | cons k ks ih =>
    cases ks with
    | nil => exact ⟨List.not_mem_nil, trivial, trivial⟩
    | cons k' ks => exact ⟨List.not_mem_nil, ih, trivial⟩

section Paths
variable [DecidableEq κ]

/-- The value at a path. -/
def look (d : α) : Forest κ α → List κ → α
  | _, [] => d
  | nil, _ => d
  | cons k v children next, t :: ts =>
    if k = t then if ts = [] then v else children.look d ts else next.look d (t :: ts)

/-- There is a node at the path. -/
def Has : Forest κ α → List κ → Prop
  | _, [] => False
  | nil, _ => False
  | cons k _ children next, t :: ts => if k = t then ts = [] ∨ children.Has ts else next.Has (t :: ts)

/-- The value at a path is changed; what is missing of the path is made first. -/
def adjust (d : α) (f : α → α) : Forest κ α → List κ → Forest κ α
  | F, [] => F
  | nil, t :: ts => chain d (f d) (t :: ts)
  | cons k v children next, t :: ts =>
    if k = t then if ts = [] then cons k (f v) children next else cons k v (children.adjust d f ts) next
    else cons k v children (next.adjust d f (t :: ts))

/-- The trees below the first root with a key. -/
def childrenOf (t : κ) : Forest κ α → Forest κ α
  | nil => nil
  | cons k _ children next => if k = t then children else next.childrenOf t

/-- The trees below the first root with a key are changed. -/
def under (t : κ) (g : Forest κ α → Forest κ α) : Forest κ α → Forest κ α
  | nil => nil
  | cons k v children next => if k = t then cons k v (g children) next else cons k v children (next.under t g)

variable [DecidableEq α]

/-- A node, left out when nothing is below it and its value is `d`. -/
def node (d : α) (k : κ) (v : α) (children next : Forest κ α) : Forest κ α :=
  if children = nil ∧ v = d then next else cons k v children next

/-- The value at a path is changed, and on the way back the nodes in which nothing is left are taken out. -/
def prune (d : α) (f : α → α) : Forest κ α → List κ → Forest κ α
  | F, [] => F
  | nil, _ => nil
  | cons k v children next, t :: ts =>
    if k = t then node d k (if ts = [] then f v else v) (children.prune d f ts) next
    else cons k v children (next.prune d f (t :: ts))

/-- Every value is changed, and the nodes in which nothing is left are taken out. -/
def clear (d : α) (f : α → α) : Forest κ α → Forest κ α
  | nil => nil
  | cons k v children next => node d k (f v) (children.clear d f) (next.clear d f)

/-! ## Looking up -/

variable {F C : Forest κ α} {d v w : α} {f : α → α} {k t : κ} {p q ts : List κ}

omit [DecidableEq α]

/-- There is nothing at the empty path. -/
@[simp] lemma look_nil_path (F : Forest κ α) : F.look d [] = d := by
  cases F <;> rfl

/-- Nor in the empty forest. -/
@[simp] lemma look_nil (d : α) (p : List κ) : (nil : Forest κ α).look d p = d := by
  cases p <;> rfl

/-- Nor below a root that is not there. -/
lemma look_of_notMem_keys (h : t ∉ F.keys) (ts : List κ) : F.look d (t :: ts) = d := by
  induction F with
  | nil => rfl
  | cons k v children next _ ih =>
    rw [keys, List.mem_cons, not_or] at h
    rw [look, if_neg (Ne.symm h.1)]
    exact ih h.2

/-- The value of the first root. -/
@[simp] lemma look_root (d : α) (k : κ) (v : α) (C F : Forest κ α) : (cons k v C F).look d [k] = v := by
  rw [look, if_pos rfl, if_pos rfl]

/-- What is below the first root. -/
lemma look_child (hts : ts ≠ []) : (cons k v C F).look d (k :: ts) = C.look d ts := by
  rw [look, if_pos rfl, if_neg hts]

/-- What is below the others. -/
lemma look_next (hk : k ≠ t) : (cons k v C F).look d (t :: ts) = F.look d (t :: ts) := by
  rw [look, if_neg hk]

/-- Two forests that look the same at the root, below it and after it look the same. -/
lemma look_ext {g : List κ → α} (nil_path : g [] = d) (root : g [k] = v)
    (child : ∀ ts, ts ≠ [] → g (k :: ts) = C.look d ts)
    (next : ∀ t ts, k ≠ t → g (t :: ts) = F.look d (t :: ts)) : (cons k v C F).look d = g := by
  funext p
  cases p with
  | nil => rw [look_nil_path, nil_path]
  | cons t ts =>
    by_cases hk : k = t
    · subst hk
      by_cases hts : ts = []
      · rw [hts, look_root, root]
      · rw [look_child hts, child ts hts]
    · rw [look_next hk, next t ts hk]

/-- Changing the value of the first root. -/
lemma look_cons_value (d : α) (k : κ) (v w : α) (C F : Forest κ α) :
    (cons k w C F).look d = Function.update ((cons k v C F).look d) [k] w := by
  refine look_ext ?_ ?_ ?_ ?_
  · rw [Function.update_of_ne (by simp), look_nil_path]
  · rw [Function.update_self]
  · intro ts hts
    rw [Function.update_of_ne (by simpa using hts), look_child hts]
  · intro t ts hk
    rw [Function.update_of_ne (by simpa using fun e => absurd e.symm hk), look_next hk]

/-- Changing one value below it. -/
lemma look_cons_children {G : Forest κ α} (hts : ts ≠ []) (h : G.look d = Function.update (C.look d) ts w) :
    (cons k v G F).look d = Function.update ((cons k v C F).look d) (k :: ts) w := by
  refine look_ext ?_ ?_ ?_ ?_
  · rw [Function.update_of_ne (by simp), look_nil_path]
  · rw [Function.update_of_ne (by simpa using hts), look_root]
  · intro us hus
    rw [h, Function.update_apply, Function.update_apply, look_child hus]
    simp
  · intro t us hk
    rw [Function.update_of_ne (by simpa using fun e => absurd e.symm hk), look_next hk]

/-- Changing one value below the others. -/
lemma look_cons_next {G : Forest κ α} (hk : k ≠ t)
    (h : G.look d = Function.update (F.look d) (t :: ts) w) :
    (cons k v C G).look d = Function.update ((cons k v C F).look d) (t :: ts) w := by
  refine look_ext ?_ ?_ ?_ ?_
  · rw [Function.update_of_ne (by simp), look_nil_path]
  · rw [Function.update_of_ne (by simpa using fun e => absurd e hk), look_root]
  · intro us hus
    rw [Function.update_of_ne (by simpa using fun e => absurd e hk), look_child hus]
  · intro u us hu
    rw [h, Function.update_apply, Function.update_apply, look_next hu]

/-- A node in which nothing is left does not show. -/
lemma look_cons_empty (fresh : k ∉ F.keys) : (cons k d nil F).look d = F.look d := by
  refine look_ext (look_nil_path F) (look_of_notMem_keys fresh []) (fun ts _ => ?_) fun _ _ _ => rfl
  rw [look_of_notMem_keys fresh, look_nil]

/-- A chain has one value. -/
lemma look_chain (d v : α) (hq : q ≠ []) :
    (chain d v q).look d = Function.update (fun _ => d) q v := by
  have empty : ∀ k : κ, (cons k d nil nil).look d = fun _ => d := by
    intro k
    funext p
    rw [look_cons_empty List.not_mem_nil, look_nil]
  induction q with
  | nil => exact absurd rfl hq
  | cons k ks ih =>
    cases ks with
    | nil => rw [chain, look_cons_value d k d, empty]
    | cons k' ks =>
      have below : (chain d v (k' :: ks)).look d = Function.update ((nil : Forest κ α).look d) (k' :: ks) v := by
        rw [ih (List.cons_ne_nil _ _)]
        congr 1
        funext p
        rw [look_nil]
      rw [chain, look_cons_children (List.cons_ne_nil _ _) below, empty]
      exact List.cons_ne_nil _ _

/-! ## Going down a path -/

/-- Changing the value at a path changes nothing at the others. -/
theorem look_adjust (d : α) (f : α → α) (F : Forest κ α) {q : List κ} (hq : q ≠ []) :
    (F.adjust d f q).look d = Function.update (F.look d) q (f (F.look d q)) := by
  induction F generalizing q with
  | nil =>
    cases q with
    | nil => exact absurd rfl hq
    | cons t ts =>
      rw [adjust, look_chain d _ hq, look_nil]
      congr 1
      funext p
      rw [look_nil]
  | cons k v children next ihc ihn =>
    cases q with
    | nil => exact absurd rfl hq
    | cons t ts =>
      rw [adjust]
      by_cases hk : k = t
      · subst hk
        rw [if_pos rfl]
        by_cases hts : ts = []
        · rw [if_pos hts, hts, look_root, look_cons_value]
        · rw [if_neg hts, look_child hts]
          exact look_cons_children hts (ihc hts)
      · rw [if_neg hk, look_next hk]
        exact look_cons_next hk (ihn hq)

/-- The roots after a change. -/
lemma mem_keys_adjust (h : k ∈ (F.adjust d f (t :: ts)).keys) : k ∈ F.keys ∨ k = t := by
  induction F with
  | nil =>
    rw [adjust, keys_chain, List.mem_singleton] at h
    exact .inr h
  | cons k' v children next _ ih =>
    rw [adjust] at h
    split at h
    · split at h <;> exact .inl h
    · rw [keys, List.mem_cons] at h ⊢
      rcases h with rfl | h
      · exact .inl (.inl rfl)
      · exact (ih h).imp_left .inr

/-- Siblings stay distinct. -/
lemma distinct_adjust (h : F.Distinct) (q : List κ) : (F.adjust d f q).Distinct := by
  induction F generalizing q with
  | nil =>
    cases q with
    | nil => trivial
    | cons t ts => exact distinct_chain d (f d) (t :: ts)
  | cons k v children next ihc ihn =>
    obtain ⟨fresh, hc, hn⟩ := h
    cases q with
    | nil => exact ⟨fresh, hc, hn⟩
    | cons t ts =>
      rw [adjust]
      by_cases hk : k = t
      · rw [if_pos hk]
        by_cases hts : ts = []
        · rw [if_pos hts]
          exact ⟨fresh, hc, hn⟩
        · rw [if_neg hts]
          exact ⟨fresh, ihc hc ts, hn⟩
      · rw [if_neg hk]
        exact ⟨fun old => (mem_keys_adjust old).elim fresh hk, hc, ihn hn (t :: ts)⟩

/-! ## Pruning -/

section Prune
variable [DecidableEq α]

/-- Leaving out an empty node does not show. -/
lemma look_node (fresh : k ∉ F.keys) : (node d k v C F).look d = (cons k v C F).look d := by
  rw [node]
  split
  · next gone =>
    obtain ⟨rfl, rfl⟩ := gone
    exact (look_cons_empty fresh).symm
  · rfl

/-- It adds no root. -/
lemma mem_keys_node (h : t ∈ (node d k v C F).keys) : t = k ∨ t ∈ F.keys := by
  rw [node] at h
  split at h
  · exact .inr h
  · exact List.mem_cons.mp h

/-- Siblings stay distinct. -/
lemma distinct_node (h : (cons k v C F).Distinct) : (node d k v C F).Distinct := by
  rw [node]
  split
  · exact h.2.2
  · exact h

/-- Pruning adds no root. -/
lemma mem_keys_prune (h : k ∈ (F.prune d f q).keys) : k ∈ F.keys := by
  induction F with
  | nil =>
    cases q with
    | nil => exact h
    | cons t ts => exact h
  | cons k' v children next _ ih =>
    cases q with
    | nil => exact h
    | cons t ts =>
      rw [prune] at h
      split at h
      · exact List.mem_cons.mpr (mem_keys_node h)
      · rw [keys, List.mem_cons] at h ⊢
        exact h.imp_right ih

/-- Siblings stay distinct. -/
lemma distinct_prune (h : F.Distinct) (q : List κ) : (F.prune d f q).Distinct := by
  induction F generalizing q with
  | nil => cases q <;> trivial
  | cons k v children next ihc ihn =>
    obtain ⟨fresh, hc, hn⟩ := h
    cases q with
    | nil => exact ⟨fresh, hc, hn⟩
    | cons t ts =>
      rw [prune]
      split
      · exact distinct_node ⟨fresh, ihc hc ts, hn⟩
      · exact ⟨fun old => fresh (mem_keys_prune old), hc, ihn hn (t :: ts)⟩

/-- Taking out nodes in which nothing is left does not show. -/
theorem look_prune (h : F.Distinct) (hf : f d = d) (q : List κ) :
    (F.prune d f q).look d = Function.update (F.look d) q (f (F.look d q)) := by
  induction F generalizing q with
  | nil =>
    have unchanged : ∀ q : List κ, (nil : Forest κ α).prune d f q = nil := by
      intro q
      cases q <;> rfl
    rw [unchanged, look_nil, hf]
    exact (Function.update_eq_self_iff.mpr (look_nil d q).symm).symm
  | cons k v children next ihc ihn =>
    obtain ⟨fresh, hc, hn⟩ := h
    cases q with
    | nil =>
      rw [prune, look_nil_path, hf]
      exact (Function.update_eq_self_iff.mpr (look_nil_path _).symm).symm
    | cons t ts =>
      rw [prune]
      by_cases hk : k = t
      · subst hk
        rw [if_pos rfl, look_node fresh]
        by_cases hts : ts = []
        · have same : ∀ C : Forest κ α, C.prune d f [] = C := fun C => by cases C <;> rfl
          rw [if_pos hts, hts, same, look_root, look_cons_value]
        · rw [if_neg hts, look_child hts]
          exact look_cons_children hts (ihc hc ts)
      · rw [if_neg hk, look_next hk]
        exact look_cons_next hk (ihn hn (t :: ts))

/-- Clearing adds no root. -/
lemma mem_keys_clear (h : k ∈ (F.clear d f).keys) : k ∈ F.keys := by
  induction F with
  | nil => exact h
  | cons k' v children next _ ih =>
    rw [clear] at h
    exact List.mem_cons.mpr ((mem_keys_node h).imp_right ih)

/-- Siblings stay distinct. -/
lemma distinct_clear (h : F.Distinct) : (F.clear d f).Distinct := by
  induction F with
  | nil => trivial
  | cons k v children next ihc ihn =>
    obtain ⟨fresh, hc, hn⟩ := h
    exact distinct_node ⟨fun old => fresh (mem_keys_clear old), ihc hc, ihn hn⟩

/-- Clearing a forest is mapping its values. -/
theorem look_clear (h : F.Distinct) (hf : f d = d) (p : List κ) :
    (F.clear d f).look d p = f (F.look d p) := by
  induction F generalizing p with
  | nil => rw [clear, look_nil, hf]
  | cons k v children next ihc ihn =>
    obtain ⟨fresh, hc, hn⟩ := h
    rw [clear, look_node fun old => fresh (mem_keys_clear old)]
    refine congrFun (look_ext (g := fun p => f ((cons k v children next).look d p)) ?_ ?_ ?_ ?_) p
    · rw [look_nil_path, hf]
    · rw [look_root]
    · intro ts hts
      rw [look_child hts, ihc hc]
    · intro t ts hk
      rw [look_next hk, ihn hn]

end Prune

/-! ## Below one root -/

/-- The roots stay when what is below one changes. -/
lemma keys_under (t : κ) (g : Forest κ α → Forest κ α) (F : Forest κ α) : (F.under t g).keys = F.keys := by
  induction F with
  | nil => rfl
  | cons k v children next _ ih =>
    rw [under]
    split
    · rfl
    · rw [keys, keys, ih]

/-- Nothing may change. -/
lemma under_id (t : κ) (F : Forest κ α) : F.under t id = F := by
  induction F with
  | nil => rfl
  | cons k v children next _ ih =>
    rw [under, ih, id, ite_self]

/-- Nothing does below a root that is not there. -/
lemma under_of_notMem_keys (h : t ∉ F.keys) (g : Forest κ α → Forest κ α) : F.under t g = F := by
  induction F with
  | nil => rfl
  | cons k v children next _ ih =>
    rw [keys, List.mem_cons, not_or] at h
    rw [under, if_neg (Ne.symm h.1), ih h.2]

/-- Siblings below a root are distinct. -/
lemma distinct_childrenOf (h : F.Distinct) (t : κ) : (F.childrenOf t).Distinct := by
  induction F with
  | nil => trivial
  | cons k v children next _ ih =>
    rw [childrenOf]
    split
    · exact h.2.1
    · exact ih h.2.2

/-- They stay so if what is put there is. -/
lemma distinct_under {g : Forest κ α → Forest κ α} (h : F.Distinct) (hg : (g (F.childrenOf t)).Distinct) :
    (F.under t g).Distinct := by
  induction F with
  | nil => trivial
  | cons k v children next _ ih =>
    obtain ⟨fresh, hc, hn⟩ := h
    rw [childrenOf] at hg
    rw [under]
    split
    · next same =>
      rw [if_pos same] at hg
      exact ⟨fresh, hg, hn⟩
    · next other =>
      rw [if_neg other] at hg
      exact ⟨by rwa [keys_under], hc, ih hn hg⟩

/-- What is below a root. -/
lemma look_childrenOf (hts : ts ≠ []) : (F.childrenOf t).look d ts = F.look d (t :: ts) := by
  induction F with
  | nil => rw [childrenOf, look_nil, look_nil]
  | cons k v children next _ ih =>
    rw [childrenOf]
    split
    · next same => rw [same, look_child hts]
    · next other => rw [look_next other, ih]

/-- A change of one value below a root is a change of one value. -/
theorem look_under {g : Forest κ α → Forest κ α} (ht : t ∈ F.keys) (hts : ts ≠ [])
    (hg : (g (F.childrenOf t)).look d = Function.update ((F.childrenOf t).look d) ts w) :
    (F.under t g).look d = Function.update (F.look d) (t :: ts) w := by
  induction F with
  | nil => cases ht
  | cons k v children next _ ih =>
    rw [childrenOf] at hg
    rw [under]
    by_cases hk : k = t
    · subst hk
      rw [if_pos rfl] at hg ⊢
      exact look_cons_children hts hg
    · rw [if_neg hk] at hg ⊢
      exact look_cons_next hk (ih ((List.mem_cons.mp ht).resolve_left (Ne.symm hk)) hg)

/-- A chain has a node at its end. -/
lemma has_chain (d v : α) {q : List κ} (hq : q ≠ []) : (chain d v q).Has q := by
  induction q with
  | nil => exact absurd rfl hq
  | cons k ks ih =>
    cases ks with
    | nil =>
      rw [chain, Has, if_pos rfl]
      exact .inl rfl
    | cons k' ks =>
      rw [chain, Has, if_pos rfl]
      · exact .inr (ih (List.cons_ne_nil _ _))
      · exact List.cons_ne_nil _ _

/-- Going down a path to change its value makes the node. -/
lemma has_adjust (d : α) (f : α → α) (F : Forest κ α) {q : List κ} (hq : q ≠ []) : (F.adjust d f q).Has q := by
  induction F generalizing q with
  | nil =>
    cases q with
    | nil => exact absurd rfl hq
    | cons t ts => exact has_chain d (f d) hq
  | cons k v children next ihc ihn =>
    cases q with
    | nil => exact absurd rfl hq
    | cons t ts =>
      rw [adjust]
      by_cases hk : k = t
      · rw [if_pos hk]
        by_cases hts : ts = []
        · rw [if_pos hts, Has, if_pos hk]
          exact .inl hts
        · rw [if_neg hts, Has, if_pos hk]
          exact .inr (ihc hts)
      · rw [if_neg hk, Has, if_neg hk]
        exact ihn hq

/-! ## Nodes -/

omit [DecidableEq κ] in
/-- A path begins with a root. -/
lemma mem_keys_of_mem_entries (h : (t :: ts, v) ∈ F.entries) : t ∈ F.keys := by
  induction F with
  | nil => cases h
  | cons k w children next _ ih =>
    rw [entries, List.mem_append, List.mem_map, List.mem_cons] at h
    rcases h with ⟨⟨p, u⟩, -, e⟩ | e | later
    · cases e
      exact List.mem_cons_self
    · cases e
      exact List.mem_cons_self
    · exact List.mem_cons_of_mem _ (ih later)

omit [DecidableEq κ] in
/-- It is not empty. -/
lemma ne_nil_of_mem_entries (h : (p, v) ∈ F.entries) : p ≠ [] := by
  induction F with
  | nil => cases h
  | cons k w children next _ ih =>
    rw [entries, List.mem_append, List.mem_map, List.mem_cons] at h
    rcases h with ⟨⟨p', u⟩, -, e⟩ | e | later
    · cases e
      exact List.cons_ne_nil _ _
    · cases e
      exact List.cons_ne_nil _ _
    · exact ih later

/-- The value in the list of nodes is the value at the path. -/
theorem look_of_mem_entries (h : F.Distinct) (hp : (p, v) ∈ F.entries) (d : α) : F.look d p = v := by
  induction F generalizing p with
  | nil => cases hp
  | cons k w children next ihc ihn =>
    obtain ⟨fresh, hc, hn⟩ := h
    rw [entries, List.mem_append, List.mem_map, List.mem_cons] at hp
    rcases hp with ⟨⟨p', u⟩, inside, e⟩ | e | later
    · cases e
      rw [id, look_child (ne_nil_of_mem_entries inside)]
      exact ihc hc inside
    · cases e
      rw [look_root]
    · cases p with
      | nil => exact absurd rfl (ne_nil_of_mem_entries later)
      | cons t ts =>
        have other : k ≠ t := fun same => fresh (same ▸ mem_keys_of_mem_entries later)
        rw [look_next other]
        exact ihn hn later

/-- A value other than `d` is that of a node. -/
theorem mem_entries_of_look (h : F.look d p ≠ d) : (p, F.look d p) ∈ F.entries := by
  induction F generalizing p with
  | nil => exact absurd (look_nil d p) h
  | cons k w children next ihc ihn =>
    cases p with
    | nil => exact absurd (look_nil_path _) h
    | cons t ts =>
      rw [entries, List.mem_append, List.mem_map, List.mem_cons]
      by_cases hk : k = t
      · subst hk
        by_cases hts : ts = []
        · rw [hts, look_root]
          exact .inr (.inl rfl)
        · rw [look_child hts] at h ⊢
          exact .inl ⟨_, ihc h, rfl⟩
      · rw [look_next hk] at h ⊢
        exact .inr (.inr (ihn h))

omit [DecidableEq κ] in
/-- There is one node at a path. -/
theorem nodup_entries (h : F.Distinct) : (F.entries.map Prod.fst).Nodup := by
  induction F with
  | nil => exact List.nodup_nil
  | cons k w children next ihc ihn =>
    obtain ⟨fresh, hc, hn⟩ := h
    have inside : (children.entries.map (Prod.map (List.cons k) id)).map Prod.fst =
        (children.entries.map Prod.fst).map (List.cons k) := by
      rw [List.map_map, List.map_map]
      rfl
    rw [entries, List.map_append, List.map_cons, inside, List.nodup_append, List.nodup_cons]
    refine ⟨(ihc hc).map List.cons_injective, ⟨fun later => ?_, ihn hn⟩, ?_⟩
    · obtain ⟨⟨p, u⟩, he, e⟩ := List.mem_map.mp later
      cases e
      exact fresh (mem_keys_of_mem_entries he)
    · intro p hp p' hp' same
      obtain ⟨q, hq, rfl⟩ := List.mem_map.mp hp
      obtain ⟨⟨q, u⟩, he, rfl⟩ := List.mem_map.mp hq
      rcases List.mem_cons.mp hp' with e | later
      · rw [← same] at e
        cases e
        exact ne_nil_of_mem_entries he rfl
      · obtain ⟨⟨p'', u'⟩, he', e⟩ := List.mem_map.mp later
        cases e.trans same.symm
        exact fresh (mem_keys_of_mem_entries he')

omit [DecidableEq κ] in
/-- Among the nodes below a root, a choice by path is a choice by the rest of the path. -/
lemma filter_below (k : κ) (C : Forest κ α) (P Q : List κ → Prop) [DecidablePred P] [DecidablePred Q]
    (may : Prop) [Decidable may] (h : ∀ p, p ≠ [] → (P (k :: p) ↔ may ∧ Q p)) :
    (C.entries.map (Prod.map (List.cons k) id)).filter (fun e => P e.1) =
      if may then (C.entries.filter fun e => Q e.1).map (Prod.map (List.cons k) id) else [] := by
  rw [List.filter_map]
  have each : ∀ e ∈ C.entries,
      ((fun e : List κ × α => decide (P e.1)) ∘ Prod.map (List.cons k) id) e = decide (may ∧ Q e.1) := by
    rintro ⟨p, v⟩ he
    simp only [Function.comp_apply, Prod.map_apply, h p (ne_nil_of_mem_entries he)]
  rw [List.filter_congr each]
  split
  · next yes => simp [yes]
  · next no => simp [no]

/-! ## Keys without nodes below -/

section Leafy
variable {leaf : κ}

omit [DecidableEq κ] in
/-- In a chain only the last node is without children. -/
lemma leafy_chain (d v : α) {q : List κ} (h : leaf ∉ q.dropLast) : (chain d v q).Leafy leaf := by
  induction q with
  | nil => trivial
  | cons k ks ih =>
    cases ks with
    | nil => exact ⟨fun _ => rfl, trivial, trivial⟩
    | cons k' ks =>
      rw [List.dropLast_cons_of_ne_nil (List.cons_ne_nil _ _), List.mem_cons, not_or] at h
      exact ⟨fun e => absurd e.symm h.1, ih h.2, trivial⟩

/-- Nothing is put below a leaf. -/
lemma leafy_adjust (h : F.Leafy leaf) (hq : leaf ∉ q.dropLast) : (F.adjust d f q).Leafy leaf := by
  induction F generalizing q with
  | nil =>
    cases q with
    | nil => trivial
    | cons t ts => exact leafy_chain d (f d) hq
  | cons k v children next ihc ihn =>
    cases q with
    | nil => exact h
    | cons t ts =>
      rw [adjust]
      split
      · next hk =>
        split
        · exact h
        · next hts =>
          rw [List.dropLast_cons_of_ne_nil hts, List.mem_cons, not_or] at hq
          exact ⟨fun e => absurd (hk ▸ e).symm hq.1, ihc h.2.1 hq.2, h.2.2⟩
      · exact ⟨h.1, h.2.1, ihn h.2.2 hq⟩

/-- A node that is left out is no matter. -/
lemma leafy_node [DecidableEq α] (h : (cons k v C F).Leafy leaf) : (node d k v C F).Leafy leaf := by
  rw [node]
  split
  · exact h.2.2
  · exact h

/-- Pruning puts nothing below a leaf. -/
lemma leafy_prune [DecidableEq α] (h : F.Leafy leaf) (q : List κ) : (F.prune d f q).Leafy leaf := by
  induction F generalizing q with
  | nil => cases q <;> trivial
  | cons k v children next ihc ihn =>
    cases q with
    | nil => exact h
    | cons t ts =>
      rw [prune]
      split
      · refine leafy_node ⟨fun e => ?_, ihc h.2.1 ts, h.2.2⟩
        rw [h.1 e]
        cases ts <;> rfl
      · exact ⟨h.1, h.2.1, ihn h.2.2 (t :: ts)⟩

/-- Neither does clearing. -/
lemma leafy_clear [DecidableEq α] (h : F.Leafy leaf) : (F.clear d f).Leafy leaf := by
  induction F with
  | nil => trivial
  | cons k v children next ihc ihn =>
    refine leafy_node ⟨fun e => ?_, ihc h.2.1, ihn h.2.2⟩
    rw [h.1 e]
    rfl

/-- The trees below a root. -/
lemma leafy_childrenOf (h : F.Leafy leaf) (t : κ) : (F.childrenOf t).Leafy leaf := by
  induction F with
  | nil => trivial
  | cons k v children next _ ih =>
    rw [childrenOf]
    split
    · exact h.2.1
    · exact ih h.2.2

/-- And when these are changed. -/
lemma leafy_under {g : Forest κ α → Forest κ α} (h : F.Leafy leaf) (ht : t ≠ leaf)
    (hg : (g (F.childrenOf t)).Leafy leaf) : (F.under t g).Leafy leaf := by
  induction F with
  | nil => trivial
  | cons k v children next _ ih =>
    rw [childrenOf] at hg
    rw [under]
    split
    · next same =>
      rw [if_pos same] at hg
      exact ⟨fun e => absurd (same ▸ e) ht, hg, h.2.2⟩
    · next other =>
      rw [if_neg other] at hg
      exact ⟨h.1, h.2.1, ih h.2.2 hg⟩

end Leafy

end Paths

end Forest

end Powmon.Lib
