import Powmon.Mqtt.Routing

/-!
# Retained messages for new subscribers

`_retain_search` looks for the retained messages that match a new filter. It goes through the same tree with
the roles of filter and topic exchanged, and finds nothing that does not match (`retainSearch_subperm`). A
filter that ends in a multi-level wildcard also matches the topic one level above it, which the search comes
to by its flag: it finds the message there only when the node has a child or is the last of its siblings.
`serve_subscribe` is what is left of the specification.
-/

namespace Powmon.Mqtt
open Lib Lib.Forest

variable {κ : Type*} [DecidableEq κ]

section Search
variable {F : Subhier κ} {c : κ} {q level : Nat} {tokens ts : List Bytes} {h : Hier κ}

/-- What a node has for a new subscriber. -/
def Hier.own (c : κ) (q : Nat) (h : Hier κ) : List (Sent κ) := (h.retained.map (retainProcess c q)).toList

/-- The search returns -1 at the multi-level wildcard, if there is a node. -/
lemma retainSearch_flag (h : (retainSearch c q F tokens level).1 = true) : tokens = [hash] ∧ F ≠ .nil := by
  induction F with
  | nil => cases h
  | cons k h' children next _ ihn =>
    refine ⟨?_, fun e => by cases e⟩
    cases tokens with
    | nil =>
      rw [retainSearch] at h
      exact (ihn h).1
    | cons token more =>
      rw [retainSearch] at h
      dsimp only at h
      split at h
      · next e => rw [e.1, e.2]
      · split at h
        · split at h
          · exact (ihn h).1
          · exact (ihn h).1
        · exact (ihn h).1

/-- And it does so if there is one. -/
lemma retainSearch_flag_of (h : F ≠ .nil) : (retainSearch c q F [hash] level).1 = true := by
  cases F with
  | nil => exact absurd rfl h
  | cons k h' children next =>
    rw [retainSearch]
    dsimp only
    rw [if_pos ⟨rfl, rfl⟩]

/-- What the filter stands for. -/
def Filtered (c : κ) (q : Nat) (tokens : List Bytes) (entries : List (List Bytes × Hier κ)) : List (Sent κ) :=
  (entries.filter fun e => Covers tokens e.1).flatMap fun e => e.2.own c q

omit [DecidableEq κ] in
/-- Node by node. -/
lemma filtered_append (es es' : List (List Bytes × Hier κ)) :
    Filtered c q tokens (es ++ es') = Filtered c q tokens es ++ Filtered c q tokens es' := by
  rw [Filtered, List.filter_append, List.flatMap_append]
  rfl

omit [DecidableEq κ] in
/-- A node that the filter is for. -/
lemma filtered_cons_of_pos (covers : Covers tokens ts) (es : List (List Bytes × Hier κ)) :
    Filtered c q tokens ((ts, h) :: es) = h.own c q ++ Filtered c q tokens es := by
  rw [Filtered, List.filter_cons_of_pos (by simpa using covers), List.flatMap_cons]
  rfl

omit [DecidableEq κ] in
/-- A node that it is not for. -/
lemma filtered_cons_of_neg (covers : ¬ Covers tokens ts) (es : List (List Bytes × Hier κ)) :
    Filtered c q tokens ((ts, h) :: es) = Filtered c q tokens es := by
  rw [Filtered, List.filter_cons_of_neg (by simpa using covers)]
  rfl

omit [DecidableEq κ] in
/-- More nodes have more. -/
lemma filtered_sublist_cons (e : List Bytes × Hier κ) (es : List (List Bytes × Hier κ)) :
    (Filtered c q tokens es).Sublist (Filtered c q tokens (e :: es)) := by
  obtain ⟨ts, h⟩ := e
  by_cases covers : Covers tokens ts
  · rw [filtered_cons_of_pos covers]
    exact List.sublist_append_right _ _
  · rw [filtered_cons_of_neg covers]

omit [DecidableEq κ] in
/-- The nodes below a root. -/
lemma filtered_below (k : Bytes) (C : Subhier κ) (more : List Bytes) (may : Prop) [Decidable may]
    (h : ∀ p, p ≠ [] → (Covers tokens (k :: p) ↔ may ∧ Covers more p)) :
    Filtered c q tokens (C.entries.map (Prod.map (List.cons k) id)) =
      if may then Filtered c q more C.entries else [] := by
  rw [Filtered, filter_below k C (Covers tokens) (Covers more) may h]
  split
  · rw [List.flatMap_map]
    rfl
  · rfl

/-- A level that is not the multi-level wildcard stands for one level. -/
lemma covers_cons {token t : Bytes} {more : List Bytes} (multi : ¬ (token = hash ∧ more = [])) :
    Covers (token :: more) (t :: ts) ↔ (token = t ∨ token = plus) ∧ Covers more ts :=
  or_iff_right multi

/-- What is found is what the filter is for, without repetition. -/
theorem retainSearch_subperm (F : Subhier κ) (last : hash ∉ tokens.dropLast) (some_tokens : tokens ≠ [])
    (level : Nat) : (retainSearch c q F tokens level).2.Subperm (Filtered c q tokens F.entries) := by
  induction F generalizing tokens level with
  | nil => exact List.nil_subperm
  | cons k h children next ihc ihn =>
    cases tokens with
    | nil => exact absurd rfl some_tokens
    | cons token more =>
      have after := ihn last some_tokens level
      rw [entries, filtered_append, retainSearch]
      dsimp only
      by_cases multi : token = hash ∧ more = []
      · obtain ⟨rfl, rfl⟩ := multi
        rw [if_pos ⟨rfl, rfl⟩, filtered_below k children [hash] True fun p _ =>
          iff_of_true (covers_hash _) ⟨trivial, covers_hash p⟩, if_pos trivial,
          filtered_cons_of_pos (covers_hash _), ← List.append_assoc]
        refine List.Subperm.append ?_ after
        exact List.perm_append_comm.subperm.trans
          ((ihc last some_tokens (level + 1)).append (List.Subperm.refl _))
      rw [if_neg multi, filtered_below k children more (token = k ∨ token = plus) fun p _ => covers_cons multi]
      by_cases here : k ≠ plus ∧ (k = token ∨ token = plus)
      swap
      · rw [if_neg here]
        exact (after.trans (filtered_sublist_cons _ _).subperm).trans (List.sublist_append_right _ _).subperm
      have single : token = k ∨ token = plus := here.2.imp_left Eq.symm
      rw [if_pos here, if_pos single]
      by_cases below : more = []
      · subst below
        rw [if_neg (by simp), filtered_cons_of_pos ((covers_cons multi).mpr ⟨single, rfl⟩)]
        exact (List.sublist_append_right _ _).subperm.trans
          (List.Subperm.append (List.Subperm.refl _) (List.Subperm.append (List.Subperm.refl _) after))
      rw [if_pos below]
      rw [List.dropLast_cons_of_ne_nil below, List.mem_cons, not_or] at last
      have deeper := ihc last.2 below (level + 1)
      dsimp only
      rw [List.append_assoc]
      refine List.Subperm.append deeper ?_
      split
      · next found =>
        have multi' : more = [hash] := by
          rcases found with flag | ⟨-, first, -⟩
          · exact (retainSearch_flag flag).1
          · obtain ⟨rest, e⟩ := List.head?_eq_some_iff.mp first
            by_cases some_rest : rest = []
            · rw [e, some_rest]
            · rw [e, List.dropLast_cons_of_ne_nil some_rest] at last
              exact absurd List.mem_cons_self last.2
        rw [filtered_cons_of_pos ((covers_cons multi).mpr ⟨single, multi' ▸ ⟨rfl, rfl⟩⟩)]
        exact List.Subperm.append (List.Subperm.refl _) after
      · exact after.trans (filtered_sublist_cons _ _).subperm

/-- What is found further on is found. -/
lemma retainSearch_next {next : Subhier κ} {sent : Sent κ} (k : Bytes) (h : Hier κ) (children : Subhier κ)
    (later : sent ∈ (retainSearch c q next tokens level).2) :
    sent ∈ (retainSearch c q (.cons k h children next) tokens level).2 := by
  rw [retainSearch]
  cases tokens with
  | nil => exact later
  | cons token more =>
    dsimp only
    split
    · exact List.mem_append_right _ later
    · split
      · split
        · exact List.mem_append_right _ later
        · exact List.mem_append_right _ later
      · exact later

/-- A retained message at a topic of as many levels is found, and one at a topic above the multi-level
wildcard if there is a node below. -/
theorem retainSearch_finds {m : Publish} (some_tokens : tokens ≠ [])
    (retained : (F.look .new ts).retained = some m) (covers : Covers tokens ts) (wild : plus ∉ ts)
    (deep : tokens.length ≤ ts.length ∨ ∃ x, F.look .new (ts ++ [x]) ≠ .new) (level : Nat) :
    retainProcess c q m ∈ (retainSearch c q F tokens level).2 := by
  induction F generalizing tokens ts level with
  | nil =>
    rw [look_nil] at retained
    cases retained
  | cons k h children next ihc ihn =>
    cases tokens with
    | nil => exact absurd rfl some_tokens
    | cons token more =>
      cases ts with
      | nil =>
        rw [look_nil_path] at retained
        cases retained
      | cons t ts =>
        by_cases here : k = t
        swap
        · rw [look_next here] at retained
          refine retainSearch_next k h children (ihn some_tokens retained covers wild ?_ level)
          simpa only [List.cons_append, look_next here] using deep
        subst here
        rw [List.mem_cons, not_or] at wild
        rw [retainSearch]
        dsimp only
        have own : ts = [] → retainProcess c q m ∈ (h.retained.map (retainProcess c q)).toList := by
          rintro rfl
          rw [look_root] at retained
          rw [retained]
          exact List.mem_singleton_self _
        by_cases multi : token = hash ∧ more = []
        · obtain ⟨rfl, rfl⟩ := multi
          rw [if_pos ⟨rfl, rfl⟩]
          refine List.mem_append_left _ ?_
          by_cases end_ : ts = []
          · exact List.mem_append_left _ (own end_)
          · rw [look_child end_] at retained
            exact List.mem_append_right _ (ihc some_tokens retained (covers_hash ts) wild.2
              (.inl (List.length_pos_of_ne_nil end_)) (level + 1))
        obtain ⟨single, rest⟩ := (covers_cons multi).mp covers
        rw [if_neg multi, if_pos ⟨Ne.symm wild.1, single.imp_left Eq.symm⟩]
        by_cases last : more = []
        · subst last
          rw [if_neg (by simp)]
          exact List.mem_append_left _ (own rest)
        rw [if_pos last]
        dsimp only
        refine List.mem_append_left _ ?_
        by_cases end_ : ts = []
        · subst end_
          -- the topic is the one above the wildcard
          have above : more = [hash] := by
            cases more with
            | nil => exact absurd rfl last
            | cons f fs =>
              obtain ⟨rfl, rfl⟩ := rest
              rfl
          have child : children ≠ .nil := by
            rintro rfl
            rcases deep with long | ⟨x, hx⟩
            · rw [above] at long
              exact absurd long (by simp)
            · rw [List.singleton_append, look_child (List.cons_ne_nil _ _), look_nil] at hx
              exact hx rfl
          rw [above, if_pos (.inl (retainSearch_flag_of child))]
          exact List.mem_append_right _ (own rfl)
        · rw [look_child end_] at retained
          refine List.mem_append_left _ (ihc last retained rest wild.2 ?_ (level + 1))
          have some_end : ∀ x : Bytes, ts ++ [x] ≠ [] := fun x e => end_ (List.append_eq_nil_iff.mp e).1
          rw [List.length_cons, List.length_cons, Nat.add_le_add_iff_right] at deep
          simpa only [List.cons_append, look_child (some_end _)] using deep

/-- A filter of more levels is the topic with the multi-level wildcard below it. -/
lemma eq_append_hash {fs : List Bytes} (covers : Covers fs ts) (wild : plus ∉ fs)
    (long : ts.length < fs.length) : fs = ts ++ [hash] := by
  induction fs generalizing ts with
  | nil => exact absurd long (by simp)
  | cons f fs ih =>
    rw [List.mem_cons, not_or] at wild
    cases ts with
    | nil =>
      obtain ⟨rfl, rfl⟩ := covers
      rfl
    | cons t ts =>
      rw [List.length_cons, List.length_cons, Nat.add_lt_add_iff_right] at long
      rcases covers with ⟨-, rfl⟩ | ⟨rfl | e, rest⟩
      · exact absurd long (by simp)
      · rw [ih rest wild.2 long, List.cons_append]
      · exact absurd e.symm wild.1

end Search

/-! ## Retained messages in the table -/

section Retained
variable {F : Subhier κ} {sub topic : Bytes} {t : Table κ}

/-- What is retained for a topic has been published there. -/
def Table.Own (t : Table κ) : Prop :=
  ∀ topic m, t.retained topic = some m → m.topic = topic ∧ topicWildcardLenCheck topic = .success

/-- Subscribing leaves the retained messages. -/
lemma retained_subscribe (c : κ) (subs : List (Bytes × Nat)) (t : Table κ) :
    (subs.foldl (Table.subscribe c) t).retained = t.retained := by
  induction subs generalizing t with
  | nil => rfl
  | cons s rest ih => exact ih _

/-- So does unsubscribing. -/
lemma retained_unsubscribe (c : κ) (subs : List Bytes) (t : Table κ) :
    (subs.foldl (Table.unsubscribe c) t).retained = t.retained := by
  induction subs generalizing t with
  | nil => rfl
  | cons s rest ih => exact ih _

/-- Every request keeps it so. -/
lemma own_handle (own : t.Own) (r : Request κ) : (t.handle r).Own := by
  cases r with
  | subscribe c subs =>
    intro topic m h
    rw [Table.handle, retained_subscribe] at h
    exact own topic m h
  | unsubscribe c subs =>
    intro topic m h
    rw [Table.handle, retained_unsubscribe] at h
    exact own topic m h
  | clean c => exact own
  | publish p =>
    rw [Table.handle]
    split
    · exact own
    · next ok =>
      rw [not_or, not_not] at ok
      rw [Table.retain]
      split
      · intro topic m h
        dsimp only at h
        rw [Function.update_apply] at h
        split at h
        · next same =>
          split at h
          · cases h
            exact ⟨same.symm, same ▸ ok.2⟩
          · cases h
        · exact own topic m h
      · exact own

/-- And any number of them. -/
lemma own_serveAll (requests : List (Request κ)) (own : t.Own) : (requests.foldl Table.serve t).Own := by
  induction requests generalizing t with
  | nil => exact own
  | cons r rest ih => exact ih (own_handle own r.read)

omit [DecidableEq κ] in
/-- At first nothing is retained. -/
lemma own_opened : (Table.opened : Table κ).Own := by
  intro topic m h
  cases h

/-- A topic of more levels has more tokens. -/
lemma tokens_length (same : Hidden sub ↔ Hidden topic)
    (h : (levels sub).length ≤ (levels topic).length) :
    (subTopicTokenise sub).length ≤ (subTopicTokenise topic).length := by
  rw [subTopicTokenise_eq, subTopicTokenise_eq, List.length_append, List.length_append, if_congr same rfl rfl]
  exact Nat.add_le_add_left h _

/-- The token in front of the levels is no wildcard. -/
lemma plus_notMem_tokens (h : plus ∉ levels sub) : plus ∉ subTopicTokenise sub := by
  rw [subTopicTokenise_eq, List.mem_append, not_or]
  refine ⟨?_, h⟩
  split <;> simp [plus]

omit [DecidableEq κ] in
/-- A node with a retained message is that of its topic. -/
lemma Shows.topic_of (shows : Shows F t) (own : t.Own) {root : Bytes} {ts : List Bytes} {h : Hier κ}
    {m : Publish} (he : (ts, h) ∈ (F.childrenOf root).entries) (hm : h.retained = some m) :
    path m.topic = root :: ts ∧ t.retained m.topic = some m := by
  have here : F.look .new (root :: ts) = h := by
    rw [← look_childrenOf (ne_nil_of_mem_entries he),
      look_of_mem_entries (distinct_childrenOf shows.distinct root) he]
  have some_node : F.look .new (root :: ts) ≠ .new := by
    rw [here]
    rintro rfl
    cases hm
  obtain ⟨topic, e⟩ := shows.only _ some_node
  have retained := shows.retained topic
  rw [← e, here, hm] at retained
  obtain ⟨rfl, -⟩ := own topic m retained.symm
  exact ⟨e.symm, retained.symm⟩

omit [DecidableEq κ] in
/-- What the filter stands for are retained messages that it is for. -/
lemma Shows.mem_filtered (shows : Shows F t) (own : t.Own) {c : κ} {q : Nat} {s : Sent κ}
    (hs : s ∈ Filtered c q (subTopicTokenise sub) (F.childrenOf (rootToken sub)).entries) :
    ∃ m, s = retainProcess c q m ∧ t.retained m.topic = some m ∧ Matches sub m.topic := by
  obtain ⟨⟨ts, h⟩, he, hs⟩ := List.mem_flatMap.mp hs
  obtain ⟨inside, covers⟩ := List.mem_filter.mp he
  obtain ⟨m, hm, rfl⟩ := Option.map_eq_some_iff.mp (Option.mem_toList.mp hs)
  obtain ⟨there, retained⟩ := shows.topic_of own inside hm
  rw [path, List.cons.injEq] at there
  refine ⟨m, rfl, retained, (matches_iff _ _).mpr ⟨there.1.symm, ?_⟩⟩
  rw [there.2]
  exact of_decide_eq_true covers

omit [DecidableEq κ] in
/-- And none of them twice. -/
lemma Shows.nodup_filtered (shows : Shows F t) (own : t.Own) (c : κ) (q : Nat) (root : Bytes)
    (tokens : List Bytes) : ((Filtered c q tokens (F.childrenOf root).entries).map Sent.stored).Nodup := by
  have values : (Filtered c q tokens (F.childrenOf root).entries).map Sent.stored =
      ((F.childrenOf root).entries.filter fun e => Covers tokens e.1).flatMap fun e => e.2.retained.toList := by
    rw [Filtered, List.map_flatMap]
    refine List.flatMap_congr fun e _ => ?_
    rw [Hier.own]
    cases e.2.retained <;> rfl
  have apart := List.pairwise_map.mp (nodup_entries (distinct_childrenOf shows.distinct root))
  rw [values, List.nodup_flatMap]
  refine ⟨?_, (apart.sublist List.filter_sublist).imp_of_mem ?_⟩
  · rintro ⟨ts, h⟩ -
    cases h.retained <;> simp
  · rintro ⟨ts, h⟩ ⟨ts', h'⟩ he he' ne m hm hm'
    have there := (shows.topic_of own (List.mem_filter.mp he).1 (Option.mem_toList.mp hm)).1
    have there' := (shows.topic_of own (List.mem_filter.mp he').1 (Option.mem_toList.mp hm')).1
    exact ne (List.cons.inj (there.symm.trans there')).2

/-- The retained messages for a new subscriber: they match the filter, and those that do are found unless
the filter has a single-level wildcard and they are one level above its end. -/
theorem Shows.retained_found (shows : Shows F t) (own : t.Own) (ok : topicWildcardPosCheck sub = .success)
    {c : κ} {q : Nat} (subscribed : t.subs sub c = some q) :
    ∃ found : List Publish, found.Nodup ∧
      (∀ m ∈ found, t.retained m.topic = some m ∧ Matches sub m.topic) ∧
      (∀ topic m, t.retained topic = some m → Matches sub topic →
        (levels sub).length ≤ (levels topic).length ∨ plus ∉ levels sub → m ∈ found) ∧
      retainQueue c sub q F = found.map fun m => ⟨c, min m.qos q, true, m⟩ := by
  obtain ⟨more, e⟩ := tokenise_cons sub
  have last : hash ∉ (subTopicTokenise sub).dropLast := by
    have ok := hash_last ok
    rw [path, List.dropLast_cons_of_ne_nil (tokenise_ne_nil sub), List.mem_cons, not_or] at ok
    exact ok.2
  have look : ∀ ts, ts ≠ [] → (F.childrenOf (rootToken sub)).look .new ts = F.look .new (rootToken sub :: ts) :=
    fun ts hts => look_childrenOf hts
  have queue : retainQueue c sub q F =
      (retainSearch c q (F.childrenOf (rootToken sub)) (subTopicTokenise sub) 0).2 := by
    rw [retainQueue, e]
  have sub_perm := retainSearch_subperm (c := c) (q := q) (F.childrenOf (rootToken sub)) last
    (tokenise_ne_nil sub) 0
  rw [← queue] at sub_perm
  refine ⟨(retainQueue c sub q F).map Sent.stored, ?_, ?_, ?_, ?_⟩
  · obtain ⟨l, perm, within⟩ := sub_perm
    have nodup := shows.nodup_filtered own c q (rootToken sub) (subTopicTokenise sub)
    exact (perm.map Sent.stored).nodup_iff.mp (nodup.sublist (within.map _))
  · intro m hm
    obtain ⟨s, hs, rfl⟩ := List.mem_map.mp hm
    obtain ⟨m, rfl, retained, found⟩ := shows.mem_filtered own (sub_perm.subset hs)
    exact ⟨retained, found⟩
  · intro topic m retained found deep
    obtain ⟨root, covers⟩ := (matches_iff _ _).mp found
    have plain := (plain_topic (own topic m retained).2).1
    have there := shows.retained topic
    rw [retained, path, ← root, ← look _ (tokenise_ne_nil topic)] at there
    refine List.mem_map.mpr ⟨retainProcess c q m, ?_, rfl⟩
    rw [queue]
    refine retainSearch_finds (tokenise_ne_nil sub) there covers plain ?_ 0
    rw [or_iff_not_imp_left, not_le]
    intro long
    have single := deep.resolve_left fun le => absurd (tokens_length found.1 le) (not_le.mpr long)
    have above := eq_append_hash covers (plus_notMem_tokens single) long
    refine ⟨hash, ?_⟩
    rw [← above, look _ (tokenise_ne_nil sub)]
    intro empty
    have leaf := (shows.subs sub c q).mpr subscribed
    rw [path, empty] at leaf
    cases leaf
  · rw [List.map_map]
    refine (List.map_id _).symm.trans (List.map_congr_left fun s hs => ?_)
    obtain ⟨m, rfl, -⟩ := shows.mem_filtered own (sub_perm.subset hs)
    rw [id, Function.comp_apply, retainProcess, Sent.mk.injEq]
    refine ⟨rfl, ?_, rfl, rfl⟩
    dsimp only
    rw [min_def]
    split <;> split <;> omega

/-- When a client subscribes to a filter, the retained messages for it are handed to
`mqtt3_db_message_insert`. -/
theorem serve_subscribe (upgrade : Bool) (requests : List (Request κ)) (c : κ) {q : Nat}
    (accepts : Table.Accepts (cBytes sub)) (hq : q ≤ 2) :
    let t := requests.foldl Table.serve (.opened : Table κ)
    ∃ found : List Publish, found.Nodup ∧
      (∀ m ∈ found, t.retained m.topic = some m ∧ Matches (cBytes sub) m.topic) ∧
      (∀ topic m, t.retained topic = some m → Matches (cBytes sub) topic →
        (levels (cBytes sub)).length ≤ (levels topic).length ∨ plus ∉ levels (cBytes sub) → m ∈ found) ∧
      (serve upgrade (serveAll upgrade dbOpen requests) (.subscribe c [(sub, q)])).2 =
        found.map fun m => ⟨c, min m.qos q, true, m⟩ := by
  intro t
  have shows := shows_add (shows_serveAll upgrade requests) accepts.2 c q
  have own : (t.subscribe c (cBytes sub, q)).Own := own_serveAll requests own_opened
  have subscribed : (t.subscribe c (cBytes sub, q)).subs (cBytes sub) c = some q := by
    rw [Table.subscribe]
    dsimp only
    rw [Function.update_self, Function.update_self]
  have handed : (serve upgrade (serveAll upgrade dbOpen requests) (.subscribe c [(sub, q)])).2 =
      retainQueue c (cBytes sub) q (mqtt3SubAdd c (cBytes sub) q (serveAll upgrade dbOpen requests)) := by
    rw [serve, Request.read, List.map_singleton, Prod.map_apply, id, handle, handleSubscribe, if_neg accepts.1,
      if_neg (not_not.mpr accepts.2), if_neg (not_lt.mpr hq)]
    exact List.append_nil _
  rw [handed]
  exact shows.retained_found own accepts.2 subscribed

/-- Of two topics side by side. The one that is not the last is missed by `+/#`, which it matches. -/
theorem serve_subscribe_side :
    let message : UInt8 → Publish := fun x => ⟨false, 0, true, [x], 0, [x]⟩
    let requests : List (Request Nat) := [.publish (message 0x61), .publish (message 0x62)]
    Matches [0x2B, 0x2F, 0x23] [0x61] ∧
      (serve false (serveAll false dbOpen requests) (.subscribe 0 [([0x2B, 0x2F, 0x23], 0)])).2 = [] ∧
      ∃ found : List Publish, found.Nodup ∧
        (∀ m ∈ found, (requests.foldl Table.serve .opened).retained m.topic = some m ∧
          Matches (cBytes [0x2B]) m.topic) ∧
        (∀ topic m, (requests.foldl Table.serve .opened).retained topic = some m →
          Matches (cBytes [0x2B]) topic → (levels (cBytes [0x2B])).length ≤ (levels topic).length ∨
            plus ∉ levels (cBytes [0x2B]) → m ∈ found) ∧
        (serve false (serveAll false dbOpen requests) (.subscribe 0 [([0x2B], 0)])).2 =
          found.map fun m => ⟨0, min m.qos 0, true, m⟩ := by
  intro message requests
  exact ⟨by decide +kernel, by decide +kernel, serve_subscribe false requests 0 (by decide +kernel) (by decide)⟩

end Retained

end Powmon.Mqtt
