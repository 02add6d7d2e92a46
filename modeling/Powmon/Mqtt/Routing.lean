import Powmon.Mqtt.Subscriptions

/-!
# Who gets a message

The tree of `Subscriptions` stands for a table (`Table`): for each filter the clients with their quality of
service, and for each topic the message that is retained. Requests change the tree as they change the table
(`shows_serveAll`), although nodes are made and taken out on the way, and the search of the tree finds what
a scan of the table would: `serve_publish`. What is found is handed to `mqtt3_db_message_insert`, for each
subscription.
-/

namespace Powmon.Mqtt
open Lib Lib.Forest

variable {κ : Type*} [DecidableEq κ]

/-! ## Searching the tree -/

section Search
variable {F C : Subhier κ} {upgrade sr : Bool} {p : Publish} {tokens more : List Bytes} {token k : Bytes}

/-- What a node has for the subscribers. -/
def Hier.sends (upgrade : Bool) (p : Publish) (h : Hier κ) : List (Sent κ) := (subsProcess upgrade p false h).2

omit [DecidableEq κ] in
/-- A node stays as it is unless the message is retained there. -/
lemma subsProcess_still (upgrade : Bool) (h : Hier κ) (still : ¬ (p.retain ∧ sr)) :
    (subsProcess upgrade p sr h).1 = h := by
  rw [subsProcess, if_neg still]

omit [DecidableEq κ] in
/-- The same where the search ends or goes on. -/
lemma process_still (h : Hier κ) (more : List Bytes) (still : ¬ (p.retain ∧ sr)) :
    (if more = [] then subsProcess upgrade p sr h else (h, [])).1 = h := by
  split
  · exact subsProcess_still upgrade h still
  · rfl

/-- What the search sends is what the nodes that cover the tokens have. -/
theorem subSearch_sent (leafy : F.Leafy hash) (wild : hash ∉ tokens) :
    (subSearch upgrade p F tokens sr).2 =
      (F.entries.filter fun e => Covers e.1 tokens).flatMap fun e => e.2.sends upgrade p := by
  induction F generalizing tokens sr with
  | nil => rfl
  | cons k h children next ihc ihn =>
    obtain ⟨leaf, lc, ln⟩ := leafy
    have after : (subSearch upgrade p next tokens sr).2 = _ := ihn ln wild
    rw [entries, List.filter_append, List.flatMap_append]
    cases tokens with
    | nil =>
      have below := filter_below k children (Covers · []) (Covers · []) False fun p hp => by
        simp [Covers, hp]
      rw [below, if_neg id, List.flatMap_nil, List.nil_append, subSearch]
      dsimp only
      by_cases multi : k = hash
      · rw [if_pos ⟨multi, leaf multi⟩, List.filter_cons_of_pos (by simp [Covers, multi]),
          List.flatMap_cons, ← after]
        rfl
      · rw [if_neg fun c => multi c.1, List.filter_cons_of_neg (by simp [Covers, multi]), after]
    | cons token more =>
      rw [List.mem_cons, not_or] at wild
      rw [subSearch]
      dsimp only
      have below := filter_below k children (Covers · (token :: more)) (Covers · more)
        (k = token ∨ k = plus) fun p hp => by simp [Covers, hp]
      by_cases single : k = token ∨ k = plus
      · have other : k ≠ hash := by
          rintro rfl
          exact single.elim wild.1 (by decide)
        have own : (if more = [] then subsProcess upgrade p (if k = plus then false else sr) h else (h, [])).2 =
            if more = [] then h.sends upgrade p else [] := by
          split <;> rfl
        rw [if_pos single, below, if_pos single, List.flatMap_map, own, ihc lc wild.2, after, List.append_assoc]
        refine congrArg₂ _ rfl ?_
        by_cases last : more = []
        · rw [if_pos last, List.filter_cons_of_pos (by simpa [Covers, last] using .inr single),
            List.flatMap_cons]
        · rw [if_neg last, List.filter_cons_of_neg (by simp [Covers, last, other]), List.nil_append]
      · rw [if_neg single, below, if_neg single, List.flatMap_nil, List.nil_append]
        by_cases multi : k = hash
        · rw [if_pos ⟨multi, leaf multi⟩, List.filter_cons_of_pos (by simp [Covers, multi]),
            List.flatMap_cons, ← after]
          rfl
        · rw [if_neg fun c => multi c.1,
            List.filter_cons_of_neg (by simp [Covers, multi, not_or.mp single]), after]

/-- A search that retains nothing leaves the tree as it is. -/
lemma subSearch_still (still : ¬ (p.retain ∧ sr)) : (subSearch upgrade p F tokens sr).1 = F := by
  induction F generalizing tokens sr with
  | nil => rfl
  | cons k h children next ihc ihn =>
    have hash_still : (subsProcess upgrade p false h).1 = h := subsProcess_still upgrade h (by simp)
    cases tokens with
    | nil =>
      rw [subSearch]
      dsimp only
      split
      · rw [ihn still, hash_still]
      · rw [ihn still]
    | cons token more =>
      rw [subSearch]
      dsimp only
      split
      · have below : ¬ (p.retain ∧ (if k = plus then false else sr) = true) := by
          split
          · simp
          · exact still
        rw [ihn still, ihc below, process_still h more below]
      · split
        · rw [ihn still, hash_still]
        · rw [ihn still]

/-- Nothing is retained below the topic. -/
lemma subSearch_end (F : Subhier κ) : (subSearch upgrade p F [] sr).1 = F := by
  induction F with
  | nil => rfl
  | cons k h children next _ ihn =>
    rw [subSearch]
    dsimp only
    split
    · rw [ihn, subsProcess_still upgrade h (by simp)]
    · rw [ihn]

/-- Nothing is retained on a way that begins elsewhere. -/
lemma subSearch_elsewhere (h : token ∉ F.keys) : (subSearch upgrade p F (token :: more) sr).1 = F := by
  induction F generalizing sr with
  | nil => rfl
  | cons k h' children next _ ihn =>
    rw [keys, List.mem_cons, not_or] at h
    rw [subSearch]
    dsimp only
    split
    · next single =>
      have wild : k = plus := single.resolve_left (Ne.symm h.1)
      have below : ¬ (p.retain ∧ (if k = plus then false else sr) = true) := by simp [wild]
      rw [ihn h.2, subSearch_still below, process_still h' more below]
    · split
      · rw [ihn h.2, subsProcess_still upgrade h' (by simp)]
      · rw [ihn h.2]

/-- What `_subs_process` retains. -/
def Hier.retain (p : Publish) (h : Hier κ) : Hier κ :=
  { h with retained := if p.payload.length ≠ 0 then some p else none }

/-- A search that retains changes the node of the topic only. -/
lemma subSearch_retains (retain : p.retain = true) (distinct : F.Distinct) (wild : plus ∉ tokens)
    (has : F.Has tokens) :
    (subSearch upgrade p F tokens true).1 = F.adjust .new (Hier.retain p) tokens := by
  induction F generalizing tokens with
  | nil => cases tokens <;> exact has.elim
  | cons k h children next ihc ihn =>
    obtain ⟨fresh, dc, dn⟩ := distinct
    cases tokens with
    | nil => exact has.elim
    | cons token more =>
      rw [List.mem_cons, not_or] at wild
      rw [Has] at has
      rw [subSearch, adjust]
      dsimp only
      by_cases here : k = token
      · subst here
        rw [if_pos rfl] at has
        rw [if_pos (.inl rfl), if_pos rfl, if_neg (Ne.symm wild.1), subSearch_elsewhere fresh]
        have kept : (subsProcess upgrade p true h).1 = h.retain p := if_pos ⟨retain, rfl⟩
        by_cases last : more = []
        · rw [if_pos last, if_pos last, last, subSearch_end, kept]
        · rw [if_neg last, if_neg last, ihc dc wild.2 (has.resolve_left last)]
      · rw [if_neg here] at has
        rw [if_neg here, ihn dn (by rw [List.mem_cons, not_or]; exact wild) has]
        split
        · next single =>
          have below : ¬ (p.retain ∧ (if k = plus then false else true) = true) := by
            simp [single.resolve_left here]
          rw [subSearch_still below, process_still h more below]
        · split
          · rw [subsProcess_still upgrade h (by simp)]
          · rfl

/-- What is done below the root of a topic: `_sub_add` when the message is to be retained, then the
search. -/
def queueBelow (upgrade : Bool) (p : Publish) (tokens : List Bytes) (C : Subhier κ) : Subhier κ × List (Sent κ) :=
  subSearch upgrade p (if p.retain then subAdd none 0 tokens C else C) tokens true

/-- There is no root for the topic. -/
lemma queueLoop_elsewhere (h : token ∉ F.keys) : queueLoop upgrade p (token :: more) F = (F, []) := by
  induction F with
  | nil => rfl
  | cons k h' children next _ ihn =>
    rw [keys, List.mem_cons, not_or] at h
    rw [queueLoop, ihn h.2]
    dsimp only
    rw [if_neg (by simpa using h.1)]

/-- There is one root for a topic. -/
lemma queueLoop_eq (distinct : F.Distinct) :
    (queueLoop upgrade p (token :: more) F).1 =
        F.under token (fun C => (queueBelow upgrade p (token :: more) C).1) ∧
      (queueLoop upgrade p (token :: more) F).2 =
        if token ∈ F.keys then (queueBelow upgrade p (token :: more) (F.childrenOf token)).2 else [] := by
  induction F with
  | nil => exact ⟨rfl, rfl⟩
  | cons k h children next _ ihn =>
    obtain ⟨fresh, -, dn⟩ := distinct
    rw [queueLoop, under, childrenOf, keys]
    by_cases here : k = token
    · subst here
      rw [queueLoop_elsewhere fresh, if_pos rfl, if_pos rfl, if_pos List.mem_cons_self]
      dsimp only
      rw [if_pos (List.head?_cons ..)]
      exact ⟨rfl, List.append_nil _⟩
    · rw [if_neg here, if_neg here]
      dsimp only
      rw [if_neg (by simpa using Ne.symm here), (ihn dn).1, (ihn dn).2]
      refine ⟨rfl, if_congr ?_ rfl rfl⟩
      rw [List.mem_cons, or_iff_right (Ne.symm here)]

end Search

/-! ## What the tree stands for -/

section Table
variable {F : Subhier κ} {sub topic : Bytes} {c : κ} {q : Nat}

/-- The subscriptions of a filter, the retained messages of the topics, and the roots there are. -/
structure Table (κ : Type*) where
  subs : Bytes → κ → Option Nat
  retained : Bytes → Option Publish
  known : List Bytes

namespace Table

/-- The table of `mqtt3_db_open`. -/
def opened : Table κ := ⟨fun _ _ => none, fun _ => none, [[], [0x24, 0x53, 0x59, 0x53]]⟩

/-- A client subscribes, or changes its quality of service. -/
def subscribe (c : κ) (t : Table κ) (sub : Bytes × Nat) : Table κ :=
  { t with subs := Function.update t.subs sub.1 (Function.update (t.subs sub.1) c (some sub.2)),
           known := rootToken sub.1 :: t.known }

/-- A client unsubscribes. -/
def unsubscribe (c : κ) (t : Table κ) (sub : Bytes) : Table κ :=
  { t with subs := Function.update t.subs sub (Function.update (t.subs sub) c none) }

/-- A clean session ends. -/
def clean (c : κ) (t : Table κ) : Table κ := { t with subs := fun sub => Function.update (t.subs sub) c none }

/-- A message is retained below the roots there are; one without payload takes the retained one away. -/
def retain (p : Publish) (t : Table κ) : Table κ :=
  if p.retain ∧ rootToken p.topic ∈ t.known then
    { t with retained := Function.update t.retained p.topic (if p.payload.length ≠ 0 then some p else none) }
  else t

/-- The broker goes on after this filter. -/
def Accepts (sub : Bytes) : Prop := sub.length ≠ 0 ∧ topicWildcardPosCheck sub = .success

instance (sub : Bytes) : Decidable (Accepts sub) := inferInstanceAs (Decidable (_ ∧ _))

/-- What a request that has been read does. -/
def handle (t : Table κ) : Request κ → Table κ
  | .subscribe c subs => (subs.takeWhile fun s => Accepts s.1 ∧ s.2 ≤ 2).foldl (subscribe c) t
  | .unsubscribe c subs => (subs.takeWhile fun s => Accepts s).foldl (unsubscribe c) t
  | .publish p =>
    if p.topic.length = 0 ∨ topicWildcardLenCheck p.topic ≠ .success then t else t.retain p
  | .clean c => t.clean c

/-- What a request does. -/
def serve (t : Table κ) (r : Request κ) : Table κ := t.handle r.read

end Table

/-- The tree stands for the table. -/
structure Shows (F : Subhier κ) (t : Table κ) : Prop where
  distinct : F.Distinct
  leafy : F.Leafy hash
  roots : ∀ k, k ∈ F.keys ↔ k ∈ t.known
  subs : ∀ sub c q, ⟨c, q⟩ ∈ (F.look .new (path sub)).subs ↔ t.subs sub c = some q
  once : ∀ sub, ((F.look .new (path sub)).subs.map Leaf.context).Nodup
  retained : ∀ topic, (F.look .new (path topic)).retained = t.retained topic
  only : ∀ p, F.look .new p ≠ .new → ∃ sub, p = path sub

/-- The clients of a node after one has subscribed. -/
lemma contexts_addLeaf (c : κ) (q : Nat) (ls : List (Leaf κ)) :
    (addLeaf c q ls).map Leaf.context =
      if c ∈ ls.map Leaf.context then ls.map Leaf.context else ls.map Leaf.context ++ [c] := by
  induction ls with
  | nil => rfl
  | cons l ls ih =>
    rw [addLeaf]
    by_cases same : l.context = c
    · rw [if_pos same, List.map_cons, List.map_cons, if_pos (by simp [same])]
    · rw [if_neg same, List.map_cons, ih, List.map_cons]
      by_cases old : c ∈ ls.map Leaf.context
      · rw [if_pos old, if_pos (List.mem_cons_of_mem _ old)]
      · rw [if_neg old, if_neg (by rw [List.mem_cons, not_or]; exact ⟨Ne.symm same, old⟩), List.cons_append]

/-- Each is there once. -/
lemma nodup_addLeaf {ls : List (Leaf κ)} (h : (ls.map Leaf.context).Nodup) (c : κ) (q : Nat) :
    ((addLeaf c q ls).map Leaf.context).Nodup := by
  rw [contexts_addLeaf]
  split
  · exact h
  · next new =>
    rw [← List.concat_eq_append]
    exact h.concat new

/-- The leaves after a client has subscribed. -/
lemma mem_addLeaf {ls : List (Leaf κ)} (h : (ls.map Leaf.context).Nodup) (c c' : κ) (q q' : Nat) :
    ⟨c', q'⟩ ∈ addLeaf c q ls ↔ if c' = c then q' = q else ⟨c', q'⟩ ∈ ls := by
  induction ls with
  | nil =>
    rw [addLeaf, List.mem_singleton, Leaf.mk.injEq]
    split <;> simp_all
  | cons l ls ih =>
    rw [List.map_cons, List.nodup_cons] at h
    rw [addLeaf]
    by_cases same : l.context = c
    · have gone : ∀ q', ⟨c, q'⟩ ∉ ls := fun q' hl => h.1 (same ▸ List.mem_map_of_mem hl)
      rw [if_pos same, List.mem_cons, Leaf.mk.injEq, same]
      split
      · next e =>
        subst e
        simp [gone]
      · next ne =>
        rw [List.mem_cons]
        refine or_congr ⟨fun e => absurd e.1 ne, ?_⟩ Iff.rfl
        rintro rfl
        exact absurd same ne
    · rw [if_neg same, List.mem_cons, ih h.2]
      split
      · next e =>
        subst e
        refine or_iff_right ?_
        rintro rfl
        exact same rfl
      · rw [List.mem_cons]

/-- And after one has unsubscribed. -/
lemma mem_eraseP_leaf {ls : List (Leaf κ)} (h : (ls.map Leaf.context).Nodup) (c c' : κ) (q' : Nat) :
    ⟨c', q'⟩ ∈ ls.eraseP (fun l => l.context = c) ↔ c' ≠ c ∧ ⟨c', q'⟩ ∈ ls := by
  induction ls with
  | nil => simp
  | cons l ls ih =>
    rw [List.map_cons, List.nodup_cons] at h
    by_cases same : l.context = c
    · have gone : ∀ q', ⟨c, q'⟩ ∉ ls := fun q' hl => h.1 (same ▸ List.mem_map_of_mem hl)
      rw [List.eraseP_cons_of_pos (by simpa using same), List.mem_cons]
      constructor
      · intro inside
        refine ⟨?_, .inr inside⟩
        rintro rfl
        exact gone q' inside
      · rintro ⟨other, rfl | inside⟩
        · exact absurd same other
        · exact inside
    · rw [List.eraseP_cons_of_neg (by simpa using same), List.mem_cons, ih h.2, List.mem_cons]
      constructor
      · rintro (rfl | ⟨other, inside⟩)
        · exact ⟨same, .inl rfl⟩
        · exact ⟨other, .inr inside⟩
      · rintro ⟨other, inside⟩
        exact inside.imp_right fun inside => ⟨other, inside⟩

omit [DecidableEq κ] in
/-- A change of one node of the tree is a change of one entry of the table. -/
lemma Shows.update {t : Table κ} {G : Subhier κ} {h : Hier κ} {s : κ → Option Nat} {r : Option Publish}
    {known : List Bytes} (shows : Shows F t) (distinct : G.Distinct) (leafy : G.Leafy hash)
    (roots : ∀ k, k ∈ G.keys ↔ k ∈ known)
    (look : G.look .new = Function.update (F.look .new) (path sub) h)
    (subs : ∀ c q, ⟨c, q⟩ ∈ h.subs ↔ s c = some q) (once : (h.subs.map Leaf.context).Nodup)
    (retained : h.retained = r) :
    Shows G ⟨Function.update t.subs sub s, Function.update t.retained sub r, known⟩ where
  distinct := distinct
  leafy := leafy
  roots := roots
  subs sub' c q := by
    dsimp only
    by_cases same : sub' = sub
    · rw [same, look, Function.update_self, Function.update_self]
      exact subs c q
    · rw [look, Function.update_of_ne (path_injective.ne same), Function.update_of_ne same]
      exact shows.subs sub' c q
  once sub' := by
    rw [look, Function.update_apply]
    split
    · exact once
    · exact shows.once sub'
  retained topic := by
    dsimp only
    by_cases same : topic = sub
    · rw [same, look, Function.update_self, Function.update_self]
      exact retained
    · rw [look, Function.update_of_ne (path_injective.ne same), Function.update_of_ne same]
      exact shows.retained topic
  only p hp := by
    rw [look, Function.update_apply] at hp
    split at hp
    · next e => exact ⟨sub, e⟩
    · exact shows.only p hp

/-! ## The operations -/

omit [DecidableEq κ] in
/-- The empty tree. -/
lemma shows_open : Shows (dbOpen : Subhier κ) .opened := by
  have empty : ∀ p, (dbOpen : Subhier κ).look .new p = .new := by
    intro p
    rw [dbOpen, look_cons_empty (by simp [keys]), look_cons_empty List.not_mem_nil, look_nil]
  refine ⟨⟨by simp [keys], trivial, List.not_mem_nil, trivial, trivial⟩,
    ⟨fun _ => rfl, trivial, fun _ => rfl, trivial, trivial⟩, fun k => Iff.rfl, fun sub c q => ?_,
    fun sub => ?_, fun topic => ?_, fun p hp => absurd (empty p) hp⟩
  · rw [empty]
    exact iff_of_false List.not_mem_nil (Option.some_ne_none q).symm
  · rw [empty]
    exact List.nodup_nil
  · rw [empty]
    rfl

/-- The root of a topic is its first token. -/
lemma path_tail_ne_nil {token : Bytes} {more : List Bytes} (e : subTopicTokenise sub = token :: more) :
    path sub = token :: token :: more := by
  rw [path, rootToken, e, List.headD_cons]

/-- `mqtt3_sub_add`. -/
theorem shows_add {t : Table κ} (shows : Shows F t) (ok : topicWildcardPosCheck sub = .success) (c : κ)
    (q : Nat) : Shows (mqtt3SubAdd c sub q F) (t.subscribe c (sub, q)) := by
  obtain ⟨more, e⟩ := tokenise_cons sub
  have p_eq := path_tail_ne_nil e
  have last := hash_last ok
  rw [p_eq, List.dropLast_cons_of_ne_nil (List.cons_ne_nil _ _), List.mem_cons, not_or] at last
  have same : t.subscribe c (sub, q) =
      ⟨Function.update t.subs sub (Function.update (t.subs sub) c (some q)),
        Function.update t.retained sub (t.retained sub), rootToken sub :: t.known⟩ := by
    rw [Function.update_eq_self]
    rfl
  rw [same]
  have subs : ∀ c' q', ⟨c', q'⟩ ∈ addLeaf c q (F.look .new (path sub)).subs ↔
      Function.update (t.subs sub) c (some q) c' = some q' := by
    intro c' q'
    rw [mem_addLeaf (shows.once sub), Function.update_apply]
    split
    · rw [Option.some_inj, eq_comm]
    · exact shows.subs sub c' q'
  have change : ∀ C : Subhier κ, (subAdd (some c) q (rootToken sub :: more) C).look .new =
      Function.update (C.look .new) (rootToken sub :: more)
        { C.look .new (rootToken sub :: more) with
            subs := addLeaf c q (C.look .new (rootToken sub :: more)).subs } :=
    fun C => look_adjust _ _ C (List.cons_ne_nil _ _)
  rw [mqtt3SubAdd, e]
  dsimp only
  split
  · next known =>
    refine shows.update (distinct_under shows.distinct (distinct_adjust (distinct_childrenOf shows.distinct _) _))
      (leafy_under shows.leafy (rootToken_ne_hash sub) (leafy_adjust (leafy_childrenOf shows.leafy _) last.2))
      (fun k => ?_) (h := { F.look .new (path sub) with subs := addLeaf c q (F.look .new (path sub)).subs })
      ?_ subs (nodup_addLeaf (shows.once sub) c q) (shows.retained sub)
    · rw [keys_under, shows.roots, List.mem_cons, iff_or_self]
      rintro rfl
      exact (shows.roots _).mp known
    · rw [p_eq]
      refine look_under known (List.cons_ne_nil _ _) ?_
      rw [change, look_childrenOf (List.cons_ne_nil _ _)]
  · next new =>
    have empty : F.look .new (path sub) = .new := look_of_notMem_keys new _
    refine shows.update ⟨new, distinct_adjust (F := .nil) trivial _, shows.distinct⟩
      ⟨fun root => absurd root (rootToken_ne_hash sub), leafy_adjust (F := .nil) trivial last.2, shows.leafy⟩
      (fun k => ?_) (h := { F.look .new (path sub) with subs := addLeaf c q (F.look .new (path sub)).subs })
      ?_ subs (nodup_addLeaf (shows.once sub) c q) (shows.retained sub)
    · rw [keys, List.mem_cons, shows.roots, List.mem_cons]
    · have below := look_cons_children (k := rootToken sub) (v := .new) (F := F) (List.cons_ne_nil _ _)
        (change .nil)
      rw [below, p_eq, look_nil, ← p_eq, empty]
      congr 1
      exact look_cons_empty new

/-- `mqtt3_sub_remove`. -/
theorem shows_remove {t : Table κ} (shows : Shows F t) (sub : Bytes) (c : κ) :
    Shows (mqtt3SubRemove c sub F) (t.unsubscribe c sub) := by
  obtain ⟨more, e⟩ := tokenise_cons sub
  have p_eq := path_tail_ne_nil e
  have same : t.unsubscribe c sub =
      ⟨Function.update t.subs sub (Function.update (t.subs sub) c none),
        Function.update t.retained sub (t.retained sub), t.known⟩ := by
    rw [Function.update_eq_self]
    rfl
  rw [same, mqtt3SubRemove, e]
  dsimp only
  have change : (subRemove c (rootToken sub :: more) (F.childrenOf (rootToken sub))).look .new =
      Function.update ((F.childrenOf (rootToken sub)).look .new) (rootToken sub :: more)
        { F.look .new (path sub) with
            subs := (F.look .new (path sub)).subs.eraseP fun leaf => leaf.context = c } := by
    rw [subRemove, look_prune (distinct_childrenOf shows.distinct _) rfl, look_childrenOf (List.cons_ne_nil _ _),
      ← p_eq]
  refine shows.update (distinct_under shows.distinct (distinct_prune (distinct_childrenOf shows.distinct _) _))
    (leafy_under shows.leafy (rootToken_ne_hash sub) (leafy_prune (leafy_childrenOf shows.leafy _) _))
    (fun k => by rw [keys_under, shows.roots])
    (h := { F.look .new (path sub) with
              subs := (F.look .new (path sub)).subs.eraseP fun leaf => leaf.context = c })
    ?_ (fun c' q' => ?_) (List.Nodup.sublist (List.eraseP_sublist.map _) (shows.once sub)) (shows.retained sub)
  · by_cases known : rootToken sub ∈ F.keys
    · rw [p_eq]
      exact look_under known (List.cons_ne_nil _ _) (change.trans (by rw [p_eq]))
    · have empty : F.look .new (path sub) = .new := look_of_notMem_keys known _
      rw [under_of_notMem_keys known]
      refine (Function.update_eq_self_iff.mpr ?_).symm
      rw [empty]
      rfl
  · rw [mem_eraseP_leaf (shows.once sub), Function.update_apply]
    split
    · next e => exact iff_of_false (fun h => h.1 e) (Option.some_ne_none q').symm
    · next other => rw [and_iff_right other, shows.subs]

/-- The roots stay. -/
lemma keys_subsCleanSession (c : κ) (F : Subhier κ) : (subsCleanSession c F).keys = F.keys := by
  induction F with
  | nil => rfl
  | cons k h children next _ ih => rw [subsCleanSession, keys, keys, ih]

/-- Siblings stay distinct. -/
lemma distinct_subsCleanSession (h : F.Distinct) (c : κ) : (subsCleanSession c F).Distinct := by
  induction F with
  | nil => trivial
  | cons k h' children next _ ih =>
    exact ⟨by rw [keys_subsCleanSession]; exact h.1, distinct_clear h.2.1, ih h.2.2⟩

/-- Nothing is put below a multi-level wildcard. -/
lemma leafy_subsCleanSession (h : F.Leafy hash) (c : κ) : (subsCleanSession c F).Leafy hash := by
  induction F with
  | nil => trivial
  | cons k h' children next _ ih =>
    refine ⟨fun e => ?_, leafy_clear h.2.1, ih h.2.2⟩
    rw [h.1 e]
    rfl

/-- The client is taken out of every node. -/
lemma look_subsCleanSession (h : F.Distinct) (c : κ) (p : List Bytes) :
    (subsCleanSession c F).look .new p = (F.look .new p).clean c := by
  induction F generalizing p with
  | nil =>
    rw [subsCleanSession, look_nil]
    rfl
  | cons k h' children next _ ih =>
    refine congrFun (look_ext (g := fun p => ((cons k h' children next).look .new p).clean c) ?_ ?_ ?_ ?_) p
    · rw [look_nil_path]
      rfl
    · rw [look_root]
    · intro ts hts
      rw [look_child hts, look_clear h.2.1 rfl]
    · intro t ts hk
      rw [look_next hk, ih h.2.2]

/-- `mqtt3_subs_clean_session`. -/
theorem shows_clean {t : Table κ} (shows : Shows F t) (c : κ) : Shows (subsCleanSession c F) (t.clean c) where
  distinct := distinct_subsCleanSession shows.distinct c
  leafy := leafy_subsCleanSession shows.leafy c
  roots k := by
    rw [keys_subsCleanSession]
    exact shows.roots k
  subs sub c' q' := by
    rw [look_subsCleanSession shows.distinct, Hier.clean, List.mem_filter, shows.subs]
    change _ ↔ Function.update (t.subs sub) c none c' = some q'
    rw [Function.update_apply]
    split
    · next e => simp [e]
    · next other => simp [other]
  once sub := by
    rw [look_subsCleanSession shows.distinct]
    exact List.Nodup.sublist (List.filter_sublist.map _) (shows.once sub)
  retained topic := by
    rw [look_subsCleanSession shows.distinct]
    exact shows.retained topic
  only p hp := by
    rw [look_subsCleanSession shows.distinct] at hp
    refine shows.only p fun empty => hp ?_
    rw [empty]
    rfl

/-- Making the nodes of a topic does not show. -/
lemma look_subAdd_none {tokens : List Bytes} (some_tokens : tokens ≠ []) (C : Subhier κ) :
    (subAdd none 0 tokens C).look .new = C.look .new := by
  rw [subAdd, look_adjust _ _ C some_tokens]
  exact Function.update_eq_self _ _

/-- A message that is not retained leaves the tree as it is. -/
lemma queueBelow_still {upgrade : Bool} {p : Publish} (still : p.retain = false) (tokens : List Bytes) :
    (fun C : Subhier κ => (queueBelow upgrade p tokens C).1) = id := by
  funext C
  rw [queueBelow, still, if_neg Bool.false_ne_true, subSearch_still (by simp [still])]
  rfl

/-- One that is changes the node of its topic. -/
lemma queueBelow_retains {upgrade : Bool} {p : Publish} {C : Subhier κ} {tokens : List Bytes}
    (retain : p.retain = true) (distinct : C.Distinct) (wild : plus ∉ tokens) (some_tokens : tokens ≠ []) :
    (queueBelow upgrade p tokens C).1 = (subAdd none 0 tokens C).adjust .new (Hier.retain p) tokens := by
  rw [queueBelow, if_pos retain]
  exact subSearch_retains retain (distinct_adjust distinct _) wild (has_adjust _ _ C some_tokens)

/-- `mqtt3_db_messages_queue`. -/
theorem shows_queue {t : Table κ} (shows : Shows F t) (upgrade : Bool) {p : Publish}
    (ok : topicWildcardLenCheck p.topic = .success) :
    Shows (dbMessagesQueue upgrade p F).1 (t.retain p) := by
  obtain ⟨more, e⟩ := tokenise_cons p.topic
  have p_eq := path_tail_ne_nil e
  obtain ⟨single, multi⟩ := plain_topic ok
  rw [e] at single multi
  rw [dbMessagesQueue, e, (queueLoop_eq shows.distinct).1, Table.retain]
  by_cases retain : p.retain = true
  swap
  · rw [if_neg fun h => retain h.1, queueBelow_still (by simpa using retain), under_id]
    exact shows
  by_cases known : rootToken p.topic ∈ F.keys
  swap
  · rw [if_neg fun h => known ((shows.roots _).mpr h.2), under_of_notMem_keys known]
    exact shows
  rw [if_pos ⟨retain, (shows.roots _).mp known⟩]
  have same : ∀ r, ({ t with retained := Function.update t.retained p.topic r } : Table κ) =
      ⟨Function.update t.subs p.topic (t.subs p.topic), Function.update t.retained p.topic r, t.known⟩ := by
    intro r
    rw [Function.update_eq_self]
  have below : (queueBelow upgrade p (rootToken p.topic :: more) (F.childrenOf (rootToken p.topic))).1 = _ :=
    queueBelow_retains retain (distinct_childrenOf shows.distinct _) single (List.cons_ne_nil _ _)
  have last : hash ∉ (rootToken p.topic :: more).dropLast := fun inside =>
    multi (List.mem_of_mem_dropLast inside)
  rw [same]
  refine shows.update (h := Hier.retain p (F.look Hier.new (path p.topic)))
    (distinct_under shows.distinct ?_) (leafy_under shows.leafy (rootToken_ne_hash _) ?_)
    (fun k => by rw [keys_under, shows.roots]) ?_ (shows.subs p.topic) (shows.once p.topic) rfl
  · rw [below]
    exact distinct_adjust (distinct_adjust (distinct_childrenOf shows.distinct _) _) _
  · rw [below]
    exact leafy_adjust (leafy_adjust (leafy_childrenOf shows.leafy _) last) last
  · rw [p_eq]
    refine look_under known (List.cons_ne_nil _ _) ?_
    rw [below, look_adjust _ _ _ (List.cons_ne_nil _ _), look_subAdd_none (List.cons_ne_nil _ _),
      look_childrenOf (List.cons_ne_nil _ _)]

/-! ## Runs -/

/-- `mqtt3_handle_subscribe`. -/
lemma shows_subscribe {t : Table κ} (shows : Shows F t) (c : κ) (subs : List (Bytes × Nat)) :
    Shows (handleSubscribe c subs F).1 (t.handle (.subscribe c subs)) := by
  rw [Table.handle]
  induction subs generalizing F t with
  | nil => exact shows
  | cons s rest ih =>
    obtain ⟨sub, q⟩ := s
    rw [handleSubscribe]
    split
    · next empty =>
      rw [List.takeWhile_cons_of_neg (by simp [Table.Accepts, empty])]
      exact shows
    · next some_sub =>
      split
      · next bad =>
        rw [List.takeWhile_cons_of_neg (by simp [Table.Accepts, bad])]
        exact shows
      · next ok =>
        split
        · next high =>
          rw [List.takeWhile_cons_of_neg (by simp [high])]
          exact shows
        · next low =>
          rw [List.takeWhile_cons_of_pos (by simp_all [Table.Accepts]), List.foldl_cons]
          exact ih (shows_add shows (not_not.mp ok) c q)

/-- `mqtt3_handle_unsubscribe`. -/
lemma shows_unsubscribe {t : Table κ} (shows : Shows F t) (c : κ) (subs : List Bytes) :
    Shows (handleUnsubscribe c subs F).1 (t.handle (.unsubscribe c subs)) := by
  rw [Table.handle]
  induction subs generalizing F t with
  | nil => exact shows
  | cons sub rest ih =>
    rw [handleUnsubscribe]
    split
    · next empty =>
      rw [List.takeWhile_cons_of_neg (by simp [Table.Accepts, empty])]
      exact shows
    · next some_sub =>
      split
      · next bad =>
        rw [List.takeWhile_cons_of_neg (by simp [Table.Accepts, bad])]
        exact shows
      · next ok =>
        rw [List.takeWhile_cons_of_pos (by simp_all [Table.Accepts]), List.foldl_cons]
        exact ih (shows_remove shows sub c)

/-- Every request changes the tree as it changes the table. -/
theorem shows_handle {t : Table κ} (shows : Shows F t) (upgrade : Bool) (r : Request κ) :
    Shows (handle upgrade F r).1 (t.handle r) := by
  cases r with
  | subscribe c subs => exact shows_subscribe shows c subs
  | unsubscribe c subs => exact shows_unsubscribe shows c subs
  | publish p =>
    rw [handle, Table.handle]
    split
    · exact shows
    · next ok =>
      rw [not_or, not_not] at ok
      exact shows_queue shows upgrade ok.2
  | clean c => exact shows_clean shows c

/-- So the tree stands for the table after any requests. -/
theorem shows_serveAll (upgrade : Bool) (requests : List (Request κ)) :
    Shows (serveAll upgrade dbOpen requests) (requests.foldl Table.serve .opened) := by
  rw [serveAll]
  have any : ∀ (F : Subhier κ) (t : Table κ), Shows F t →
      Shows (requests.foldl (fun root r => (serve upgrade root r).1) F) (requests.foldl Table.serve t) := by
    induction requests with
    | nil => exact fun F t shows => shows
    | cons r rest ih => exact fun F t shows => ih _ _ (shows_handle shows upgrade r.read)
  exact any _ _ shows_open

/-! ## Who gets a message -/

/-- The subscriptions that a search below a root finds. -/
lemma Shows.searched {t : Table κ} (shows : Shows F t) {root : Bytes} {C : Subhier κ} (distinct : C.Distinct)
    (leafy : C.Leafy hash) (look : ∀ ts, ts ≠ [] → C.look .new ts = F.look .new (root :: ts))
    {tokens : List Bytes} (wild : hash ∉ tokens) (upgrade sr : Bool) (p : Publish) :
    ∃ found : List (Bytes × κ × Nat), found.Nodup ∧
      (∀ sub c q, (sub, c, q) ∈ found ↔
        t.subs sub c = some q ∧ rootToken sub = root ∧ Covers (subTopicTokenise sub) tokens) ∧
      (subSearch upgrade p C tokens sr).2 =
        found.map fun x => ⟨x.2.1, if upgrade then x.2.2 else min p.qos x.2.2, false, p⟩ := by
  have at_node : ∀ {ts : List Bytes} {h : Hier κ}, (ts, h) ∈ C.entries → F.look .new (root :: ts) = h := by
    intro ts h he
    rw [← look ts (ne_nil_of_mem_entries he), look_of_mem_entries distinct he]
  -- a node with subscriptions is that of a filter
  have filter_of : ∀ {ts : List Bytes} {h : Hier κ}, (ts, h) ∈ C.entries → h.subs ≠ [] →
      ∃ sub, path sub = root :: ts ∧ Function.invFun path (root :: ts) = sub := by
    intro ts h he some_leaf
    obtain ⟨sub, e⟩ := shows.only (root :: ts) (by
      rw [at_node he]
      rintro rfl
      exact some_leaf rfl)
    exact ⟨sub, e.symm, by rw [e, Function.leftInverse_invFun path_injective]⟩
  refine ⟨(C.entries.filter fun e => Covers e.1 tokens).flatMap fun e =>
    e.2.subs.map fun leaf => (Function.invFun path (root :: e.1), leaf.context, leaf.qos), ?_, ?_, ?_⟩
  · rw [List.nodup_flatMap]
    constructor
    · rintro ⟨ts, h⟩ he
      have inside := (List.mem_filter.mp he).1
      by_cases empty : h.subs = []
      · simp [empty]
      obtain ⟨sub, e, -⟩ := filter_of inside empty
      have once := shows.once sub
      rw [e, at_node inside] at once
      refine List.Nodup.of_map (fun x => x.2.1) ?_
      rwa [List.map_map]
    · have apart := List.pairwise_map.mp (nodup_entries distinct)
      refine (apart.sublist List.filter_sublist).imp_of_mem ?_
      rintro ⟨ts, h⟩ ⟨ts', h'⟩ he he' ne x hx hx'
      obtain ⟨leaf, hl, rfl⟩ := List.mem_map.mp hx
      obtain ⟨leaf', hl', same⟩ := List.mem_map.mp hx'
      obtain ⟨sub, e, inv⟩ := filter_of (List.mem_filter.mp he).1 (List.ne_nil_of_mem hl)
      obtain ⟨sub', e', inv'⟩ := filter_of (List.mem_filter.mp he').1 (List.ne_nil_of_mem hl')
      rw [inv, inv', Prod.mk.injEq] at same
      rw [← same.1, e'] at e
      exact ne (List.cons.inj e).2.symm
  · intro sub c q
    rw [List.mem_flatMap]
    constructor
    · rintro ⟨⟨ts, h⟩, he, hx⟩
      obtain ⟨inside, covers⟩ := List.mem_filter.mp he
      obtain ⟨⟨c', q'⟩, hl, e⟩ := List.mem_map.mp hx
      obtain ⟨sub', e', inv⟩ := filter_of inside (List.ne_nil_of_mem hl)
      rw [inv] at e
      cases e
      rw [path, List.cons.injEq] at e'
      refine ⟨(shows.subs _ _ _).mp ?_, e'.1, ?_⟩
      · rw [path, e'.1, e'.2, at_node inside]
        exact hl
      · rw [e'.2]
        exact of_decide_eq_true covers
    · rintro ⟨subscribed, rfl, covers⟩
      have inside := (shows.subs sub c q).mpr subscribed
      have there := look (subTopicTokenise sub) (tokenise_ne_nil sub)
      rw [path, ← there] at inside
      have node := mem_entries_of_look (F := C) (d := .new) (p := subTopicTokenise sub) fun empty => by
        rw [empty] at inside
        cases inside
      refine ⟨_, List.mem_filter.mpr ⟨node, decide_eq_true covers⟩,
        List.mem_map.mpr ⟨⟨c, q⟩, inside, ?_⟩⟩
      rw [Prod.mk.injEq]
      exact ⟨Function.leftInverse_invFun path_injective sub, rfl⟩
  · rw [subSearch_sent leafy wild, List.map_flatMap]
    refine List.flatMap_congr fun e _ => ?_
    rw [Hier.sends, subsProcess, List.map_map]
    refine List.map_congr_left fun leaf _ => ?_
    rw [Function.comp_apply, Sent.mk.injEq]
    refine ⟨rfl, if_congr Iff.rfl rfl ?_, rfl, rfl⟩
    dsimp only
    rw [min_def]
    split <;> split <;> omega

/-- The messages that go out for a topic are one for each subscription that matches it. -/
theorem Shows.routed {t : Table κ} (shows : Shows F t) (upgrade : Bool) {p : Publish}
    (ok : topicWildcardLenCheck p.topic = .success) :
    ∃ found : List (Bytes × κ × Nat), found.Nodup ∧
      (∀ sub c q, (sub, c, q) ∈ found ↔ t.subs sub c = some q ∧ Matches sub p.topic) ∧
      (dbMessagesQueue upgrade p F).2 =
        found.map fun x => ⟨x.2.1, if upgrade then x.2.2 else min p.qos x.2.2, false, p⟩ := by
  obtain ⟨more, e⟩ := tokenise_cons p.topic
  obtain ⟨-, wild⟩ := plain_topic ok
  simp only [matches_iff]
  rw [dbMessagesQueue, (by rw [e] : queueLoop upgrade p (subTopicTokenise p.topic) F =
    queueLoop upgrade p (rootToken p.topic :: more) F), (queueLoop_eq shows.distinct).2, ← e]
  by_cases known : rootToken p.topic ∈ F.keys
  swap
  · refine ⟨[], List.nodup_nil, fun sub c q => ?_, by rw [if_neg known]; rfl⟩
    refine iff_of_false List.not_mem_nil fun h => ?_
    have inside := (shows.subs sub c q).mpr h.1
    rw [path, h.2.1, look_of_notMem_keys known] at inside
    cases inside
  rw [if_pos known, queueBelow]
  have last : hash ∉ (subTopicTokenise p.topic).dropLast := fun inside =>
    wild (List.mem_of_mem_dropLast inside)
  by_cases retain : p.retain = true
  · rw [if_pos retain]
    refine shows.searched (distinct_adjust (distinct_childrenOf shows.distinct _) _)
      (leafy_adjust (leafy_childrenOf shows.leafy _) last) (fun ts hts => ?_) wild upgrade true p
    exact (congrFun (look_subAdd_none (tokenise_ne_nil p.topic) _) ts).trans (look_childrenOf hts)
  · rw [if_neg retain]
    exact shows.searched (distinct_childrenOf shows.distinct _) (leafy_childrenOf shows.leafy _)
      (fun ts hts => look_childrenOf hts) wild upgrade true p

/-- A publication that the checks let through. -/
lemma serve_plain (upgrade : Bool) (F : Subhier κ) {p : Publish} (some_topic : cBytes p.topic ≠ [])
    (ok : topicWildcardLenCheck (cBytes p.topic) = .success) :
    serve upgrade F (.publish p) = dbMessagesQueue upgrade p.read F := by
  rw [serve, Request.read, handle, if_neg]
  rw [not_or, not_not]
  exact ⟨mt List.length_eq_zero_iff.mp some_topic, ok⟩

/-- After any requests, a message is handed to `mqtt3_db_message_insert` once for each subscription that
matches its topic, with the smaller quality of service, and for nobody else. -/
theorem serve_publish (upgrade : Bool) (requests : List (Request κ)) {p : Publish}
    (some_topic : cBytes p.topic ≠ []) (ok : topicWildcardLenCheck (cBytes p.topic) = .success) :
    let t := requests.foldl Table.serve (.opened : Table κ)
    ∃ found : List (Bytes × κ × Nat), found.Nodup ∧
      (∀ sub c q, (sub, c, q) ∈ found ↔ t.subs sub c = some q ∧ Matches sub (cBytes p.topic)) ∧
      (serve upgrade (serveAll upgrade dbOpen requests) (.publish p)).2 =
        found.map fun x => ⟨x.2.1, if upgrade then x.2.2 else min p.qos x.2.2, false, p.read⟩ := by
  rw [serve_plain upgrade _ some_topic ok]
  exact (shows_serveAll upgrade requests).routed upgrade (p := p.read) ok

/-- Two filters of one client, and one of another that has gone; the first filter and the topic go on after
a NUL. -/
theorem serve_publish_overlap :
    let requests : List (Request Nat) :=
      [.subscribe 0 [([0x61, 0x2F, 0x23, 0x00, 0x78], 0), ([0x2B, 0x2F, 0x62], 1)],
        .subscribe 1 [([0x23], 2)], .clean 1]
    let p : Publish := ⟨false, 2, false, [0x61, 0x2F, 0x62, 0x00, 0x2B], 0, []⟩
    ∃ found : List (Bytes × Nat × Nat), found.Nodup ∧
      (∀ sub c q, (sub, c, q) ∈ found ↔
        (requests.foldl Table.serve .opened).subs sub c = some q ∧ Matches sub (cBytes p.topic)) ∧
      (serve false (serveAll false dbOpen requests) (.publish p)).2 =
        found.map fun x => ⟨x.2.1, if false then x.2.2 else min p.qos x.2.2, false, p.read⟩ := by
  intro requests p
  exact serve_publish false requests (List.cons_ne_nil _ _) (by decide +kernel)

end Table

end Powmon.Mqtt
