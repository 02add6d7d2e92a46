import Powmon.Mqtt.Queue
import Powmon.Lib.Forest

/-!
# The subscriptions of the broker

`subs.c`: the tree in which the broker keeps the subscriptions and the retained messages, what subscribing,
unsubscribing and the end of a session do to it, and how the subscribers of a topic are found in it.

C → Lean naming: `struct _mosquitto_subhier` is a root of a `Subhier`, a forest with the topic level as key
and the two other fields as value (`Hier`); `struct _mosquitto_subleaf` is `Leaf`, with the client for its
context, of which there is one for each client id (`mqtt3_handle_connect`). What is handed to
`mqtt3_db_message_insert` for a subscriber is a `Sent`; what that function keeps, queues or drops is not part
of this. The configuration is the default one: no bridges, no access control lists, no mount point.

The strings of a packet are C strings, which end at their first NUL (`cBytes`): a request is cut there when
it is read (`Request.read`), and the functions of `subs.c` are only called with what is left.

`Matches` says which topics a filter is for, level by level; `matches_iff` puts it in terms of the tokens of
the tree, `hash_last` and `plain_topic` are what the checks of filters and topics give.
-/

namespace Powmon.Mqtt
open Lib Lib.Forest

instance : LawfulBEq Bytes := inferInstance

/-- What parts the levels of a topic. -/
def slash : UInt8 := 0x2F

/-- What a topic of the broker itself begins with. -/
def dollar : UInt8 := 0x24

/-- The single-level wildcard. -/
def plus : Bytes := [0x2B]

/-- The multi-level wildcard. -/
def hash : Bytes := [0x23]

/-! ## Topics -/

/-- The loop of `_sub_topic_tokenise`, from the bytes of a token that it has passed. -/
def tokenLoop (token : Bytes) : Bytes → List Bytes
  | [] => [token]
  | c :: rest => if c = slash then token :: tokenLoop [] rest else tokenLoop (token ++ [c]) rest

/-- `_sub_topic_tokenise`, of a string without NUL. -/
def subTopicTokenise (subtopic : Bytes) : List Bytes :=
  (if subtopic.head? ≠ some dollar then [[]] else []) ++
    if subtopic.head? = some slash then [] :: tokenLoop [] subtopic.tail else tokenLoop [] subtopic

/-- The loop of `_mosquitto_topic_wildcard_pos_check`, after the byte `c`. -/
def posLoop (c : UInt8) : Bytes → Bool
  | [] => true
  | x :: rest =>
    if x = 0x2B then
      if (c ≠ 0 ∧ c ≠ slash) ∨ (rest.head? ≠ none ∧ rest.head? ≠ some slash) then false else posLoop x rest
    else if x = 0x23 then
      if (c ≠ 0 ∧ c ≠ slash) ∨ rest.head? ≠ none then false else posLoop x rest
    else posLoop x rest

/-- `_mosquitto_topic_wildcard_pos_check`. -/
def topicWildcardPosCheck (sub : Bytes) : Err :=
  if ¬ posLoop 0 sub then .inval else if sub.length > 65535 then .inval else .success

/-! ## The tree -/

variable {κ : Type*} [DecidableEq κ]

/-- `struct _mosquitto_subleaf`. -/
structure Leaf (κ : Type*) where
  context : κ
  qos : Nat
deriving DecidableEq

/-- What a node has besides its topic level and its children. -/
structure Hier (κ : Type*) where
  subs : List (Leaf κ)
  retained : Option Publish
deriving DecidableEq

/-- A new node. -/
def Hier.new : Hier κ := ⟨[], none⟩

/-- `struct _mosquitto_subhier`, with its siblings. -/
abbrev Subhier (κ : Type*) := Forest Bytes (Hier κ)

/-- A call of `mqtt3_db_message_insert` for a subscriber. -/
structure Sent (κ : Type*) where
  context : κ
  qos : Nat
  retain : Bool
  stored : Publish
deriving DecidableEq

/-- The children of `db->subs`, from `mqtt3_db_open`. -/
def dbOpen : Subhier κ := .cons [] .new .nil (.cons [0x24, 0x53, 0x59, 0x53] .new .nil .nil)

/-- The leaf of the context gets the quality of service, or there is a new leaf. -/
def addLeaf (context : κ) (qos : Nat) : List (Leaf κ) → List (Leaf κ)
  | [] => [⟨context, qos⟩]
  | leaf :: rest =>
    if leaf.context = context then { leaf with qos := qos } :: rest else leaf :: addLeaf context qos rest

/-- `_sub_add`, below a node; without a context it only makes the nodes. -/
def subAdd (context : Option κ) (qos : Nat) (tokens : List Bytes) (hier : Subhier κ) : Subhier κ :=
  hier.adjust .new (fun h => { h with subs := (context.map fun c => addLeaf c qos h.subs).getD h.subs }) tokens

/-- `_sub_remove`, below a node. -/
def subRemove (context : κ) (tokens : List Bytes) (hier : Subhier κ) : Subhier κ :=
  hier.prune .new (fun h => { h with subs := h.subs.eraseP fun leaf => leaf.context = context }) tokens

/-- The first loop of `_subs_clean_session`. -/
def Hier.clean (context : κ) (h : Hier κ) : Hier κ :=
  { h with subs := h.subs.filter fun leaf => leaf.context ≠ context }

/-- `_subs_process`. -/
def subsProcess (upgrade : Bool) (p : Publish) (setRetain : Bool) (h : Hier κ) : Hier κ × List (Sent κ) :=
  (if p.retain ∧ setRetain then { h with retained := if p.payload.length ≠ 0 then some p else none } else h,
    h.subs.map fun leaf =>
      ⟨leaf.context, if upgrade then leaf.qos else if p.qos > leaf.qos then leaf.qos else p.qos, false, p⟩)

/-- `_sub_search`. -/
def subSearch (upgrade : Bool) (p : Publish) :
    Subhier κ → List Bytes → Bool → Subhier κ × List (Sent κ)
  | .nil, _, _ => (.nil, [])
  | .cons topic h children next, tokens, setRetain =>
    let (next', after) := subSearch upgrade p next tokens setRetain
    match tokens with
    | [] =>
      if topic = hash ∧ children = .nil then
        let (h', own) := subsProcess upgrade p false h
        (.cons topic h' children next', own ++ after)
      else (.cons topic h children next', after)
    | token :: more =>
      if topic = token ∨ topic = plus then
        let sr := if topic = plus then false else setRetain
        let (children', deeper) := subSearch upgrade p children more sr
        let (h', own) := if more = [] then subsProcess upgrade p sr h else (h, [])
        (.cons topic h' children' next', deeper ++ own ++ after)
      else if topic = hash ∧ children = .nil then
        let (h', own) := subsProcess upgrade p false h
        (.cons topic h' children next', own ++ after)
      else (.cons topic h children next', after)

/-- `mqtt3_sub_add`. -/
def mqtt3SubAdd (context : κ) (sub : Bytes) (qos : Nat) (root : Subhier κ) : Subhier κ :=
  match subTopicTokenise sub with
  | [] => root
  | token :: more =>
    if token ∈ root.keys then root.under token (subAdd (some context) qos (token :: more))
    else .cons token .new (subAdd (some context) qos (token :: more) .nil) root

/-- `mqtt3_sub_remove`. -/
def mqtt3SubRemove (context : κ) (sub : Bytes) (root : Subhier κ) : Subhier κ :=
  match subTopicTokenise sub with
  | [] => root
  | token :: more => root.under token (subRemove context (token :: more))

/-- `mqtt3_subs_clean_session`. -/
def subsCleanSession (context : κ) : Subhier κ → Subhier κ
  | .nil => .nil
  | .cons topic h children next =>
    .cons topic (h.clean context) (children.clear .new (Hier.clean context)) (subsCleanSession context next)

/-- The loop of `mqtt3_db_messages_queue`. -/
def queueLoop (upgrade : Bool) (p : Publish) (tokens : List Bytes) :
    Subhier κ → Subhier κ × List (Sent κ)
  | .nil => (.nil, [])
  | .cons topic h children next =>
    let (next', after) := queueLoop upgrade p tokens next
    if tokens.head? = some topic then
      let children := if p.retain then subAdd none 0 tokens children else children
      let (children', sent) := subSearch upgrade p children tokens true
      (.cons topic h children' next', sent ++ after)
    else (.cons topic h children next', after)

/-- `mqtt3_db_messages_queue`. -/
def dbMessagesQueue (upgrade : Bool) (p : Publish) (root : Subhier κ) : Subhier κ × List (Sent κ) :=
  queueLoop upgrade p (subTopicTokenise p.topic) root

/-- `_retain_process`. -/
def retainProcess (context : κ) (subQos : Nat) (retained : Publish) : Sent κ :=
  ⟨context, if retained.qos > subQos then subQos else retained.qos, true, retained⟩

/-- `_retain_search`: whether it returns -1, and what is sent. -/
def retainSearch (context : κ) (subQos : Nat) : Subhier κ → List Bytes → Nat → Bool × List (Sent κ)
  | .nil, _, _ => (false, [])
  | .cons topic h children next, tokens, level =>
    let own := (h.retained.map (retainProcess context subQos)).toList
    let (flag, after) := retainSearch context subQos next tokens level
    match tokens with
    | [] => (flag, after)
    | token :: more =>
      if token = hash ∧ more = [] then
        (true, own ++ (retainSearch context subQos children tokens (level + 1)).2 ++ after)
      else if topic ≠ plus ∧ (topic = token ∨ token = plus) then
        if more ≠ [] then
          let (below, deeper) := retainSearch context subQos children more (level + 1)
          (flag, deeper ++ (if below ∨ (next = .nil ∧ more.head? = some hash ∧ level > 0) then own else []) ++
            after)
        else (flag, own ++ after)
      else (flag, after)

/-- `mqtt3_retain_queue`. -/
def retainQueue (context : κ) (sub : Bytes) (subQos : Nat) (root : Subhier κ) : List (Sent κ) :=
  match subTopicTokenise sub with
  | [] => []
  | token :: more => (retainSearch context subQos (root.childrenOf token) (token :: more) 0).2

/-! ## Requests -/

/-- The loop of `mqtt3_handle_subscribe`: the tree, the retained messages, and what is granted unless the
connection is closed. -/
def handleSubscribe (context : κ) :
    List (Bytes × Nat) → Subhier κ → Subhier κ × List (Sent κ) × Option (List Nat)
  | [], root => (root, [], some [])
  | (sub, qos) :: rest, root =>
    if sub.length = 0 then (root, [], none)
    else if topicWildcardPosCheck sub ≠ .success then (root, [], none)
    else if qos > 2 then (root, [], none)
    else
      let added := mqtt3SubAdd context sub qos root
      let (root', sent, granted) := handleSubscribe context rest added
      (root', retainQueue context sub qos added ++ sent, granted.map (List.cons qos))

/-- The loop of `mqtt3_handle_unsubscribe`. -/
def handleUnsubscribe (context : κ) : List Bytes → Subhier κ → Subhier κ × Bool
  | [], root => (root, true)
  | sub :: rest, root =>
    if sub.length = 0 then (root, false)
    else if topicWildcardPosCheck sub ≠ .success then (root, false)
    else handleUnsubscribe context rest (mqtt3SubRemove context sub root)

/-- What the clients ask for. -/
inductive Request (κ : Type*) where
  | subscribe (context : κ) (subs : List (Bytes × Nat))
  | unsubscribe (context : κ) (subs : List Bytes)
  | publish (p : Publish)
  | clean (context : κ)

/-- A publication as the broker stores it: with a C string for its topic. -/
def Publish.read (p : Publish) : Publish := { p with topic := cBytes p.topic }

/-- A request with the C strings that are read from it. -/
def Request.read : Request κ → Request κ
  | .subscribe context subs => .subscribe context (subs.map (Prod.map cBytes id))
  | .unsubscribe context subs => .unsubscribe context (subs.map cBytes)
  | .publish p => .publish p.read
  | .clean context => .clean context

/-- What the broker does with a request that it has read: the tree, and what it hands to
`mqtt3_db_message_insert`. -/
def handle (upgrade : Bool) (root : Subhier κ) : Request κ → Subhier κ × List (Sent κ)
  | .subscribe context subs =>
    let (root', sent, _) := handleSubscribe context subs root
    (root', sent)
  | .unsubscribe context subs => ((handleUnsubscribe context subs root).1, [])
  | .publish p =>
    if p.topic.length = 0 ∨ topicWildcardLenCheck p.topic ≠ .success then (root, [])
    else dbMessagesQueue upgrade p root
  | .clean context => (subsCleanSession context root, [])

/-- What the broker does with a request as it comes. -/
def serve (upgrade : Bool) (root : Subhier κ) (r : Request κ) : Subhier κ × List (Sent κ) :=
  handle upgrade root r.read

/-- The tree after some requests. -/
def serveAll (upgrade : Bool) (root : Subhier κ) (requests : List (Request κ)) : Subhier κ :=
  requests.foldl (fun root r => (serve upgrade root r).1) root

/-! ## Levels -/

section Levels
variable {sub sub' topic : Bytes} {fs ts : List Bytes}

/-- The levels of a topic. -/
def levels (topic : Bytes) : List Bytes := topic.splitOn slash

/-- Topics that begin with `$` are apart from the others. -/
def Hidden (topic : Bytes) : Prop := topic.head? = some dollar

instance (topic : Bytes) : Decidable (Hidden topic) := inferInstanceAs (Decidable (_ = _))

/-- What the levels of a filter stand for. -/
def Covers : List Bytes → List Bytes → Prop
  | [], ts => ts = []
  | f :: fs, [] => f = hash ∧ fs = []
  | f :: fs, t :: ts => (f = hash ∧ fs = []) ∨ ((f = t ∨ f = plus) ∧ Covers fs ts)

instance : ∀ fs ts, Decidable (Covers fs ts)
  | [], ts => inferInstanceAs (Decidable (ts = []))
  | f :: fs, [] => inferInstanceAs (Decidable (f = hash ∧ fs = []))
  | f :: fs, t :: ts =>
    have := instDecidableCovers fs ts
    inferInstanceAs (Decidable ((f = hash ∧ fs = []) ∨ ((f = t ∨ f = plus) ∧ Covers fs ts)))

/-- The multi-level wildcard is for everything. -/
lemma covers_hash (ts : List Bytes) : Covers [hash] ts := by
  cases ts with
  | nil => exact ⟨rfl, rfl⟩
  | cons t ts => exact Or.inl ⟨rfl, rfl⟩

/-- The filter is for the topic. -/
def Matches (filter topic : Bytes) : Prop :=
  (Hidden filter ↔ Hidden topic) ∧ Covers (levels filter) (levels topic)

instance (filter topic : Bytes) : Decidable (Matches filter topic) := inferInstanceAs (Decidable (_ ∧ _))

/-- The loop splits what is left. -/
lemma tokenLoop_eq (token s : Bytes) : tokenLoop token s = (s.splitOn slash).modifyHead (token ++ ·) := by
  induction s generalizing token with
  | nil => simp [tokenLoop]
  | cons c rest ih =>
    rw [tokenLoop, List.splitOn_cons_eq_if_modifyHead]
    by_cases sep : c = slash
    · rw [if_pos sep, if_pos (beq_iff_eq.mpr sep), ih]
      cases rest.splitOn slash <;> simp
    · rw [if_neg sep, if_neg (by simpa using sep), ih, List.modifyHead_modifyHead]
      congr 1
      funext l
      simp

/-- The tokens are the levels, with an empty one in front unless the topic is hidden. -/
lemma subTopicTokenise_eq (sub : Bytes) :
    subTopicTokenise sub = (if Hidden sub then [] else [[]]) ++ levels sub := by
  have loop : ∀ s : Bytes, tokenLoop [] s = levels s := by
    intro s
    rw [tokenLoop_eq, levels]
    cases s.splitOn slash <;> rfl
  rw [subTopicTokenise, ite_not]
  congr 1
  cases sub with
  | nil => exact loop []
  | cons c rest =>
    by_cases sep : c = slash
    · subst sep
      rw [List.head?_cons, if_pos rfl, List.tail_cons, loop, levels, levels, List.splitOn_cons_eq_if_modifyHead,
        if_pos (beq_self_eq_true _)]
    · rw [if_neg (by simpa using sep), loop]

/-- There is a level. -/
lemma levels_ne_nil (sub : Bytes) : levels sub ≠ [] := List.splitOn_ne_nil slash sub

/-- The first level of a hidden topic. -/
lemma levels_of_hidden (h : Hidden sub) : ∃ l ls, levels sub = (dollar :: l) :: ls := by
  cases sub with
  | nil => cases h
  | cons c rest =>
    obtain rfl : c = dollar := Option.some.inj h
    rw [levels, List.splitOn_cons_eq_if_modifyHead, if_neg (by decide)]
    obtain ⟨l, ls, e⟩ := List.exists_cons_of_ne_nil (List.splitOn_ne_nil slash rest)
    exact ⟨l, ls, by rw [e, List.modifyHead_cons]⟩

/-- The first token, and the key of the root under which a topic is found. -/
def rootToken (sub : Bytes) : Bytes := (subTopicTokenise sub).headD []

/-- There is a token. -/
lemma tokenise_ne_nil (sub : Bytes) : subTopicTokenise sub ≠ [] := by
  rw [subTopicTokenise_eq]
  exact fun e => levels_ne_nil sub (List.append_eq_nil_iff.mp e).2

/-- The first token is the root. -/
lemma tokenise_cons (sub : Bytes) : ∃ more, subTopicTokenise sub = rootToken sub :: more := by
  obtain ⟨token, more, e⟩ := List.exists_cons_of_ne_nil (tokenise_ne_nil sub)
  exact ⟨more, by rw [rootToken, e, List.headD_cons]⟩

/-- The tokens of a hidden topic. -/
lemma tokenise_hidden (h : Hidden sub) : subTopicTokenise sub = levels sub := by
  rw [subTopicTokenise_eq, if_pos h, List.nil_append]

/-- The tokens of any other. -/
lemma tokenise_shown (h : ¬ Hidden sub) : subTopicTokenise sub = [] :: levels sub := by
  rw [subTopicTokenise_eq, if_neg h, List.singleton_append]

/-- The root of a hidden topic. -/
lemma rootToken_hidden (h : Hidden sub) : ∃ l, rootToken sub = dollar :: l := by
  obtain ⟨l, ls, e⟩ := levels_of_hidden h
  exact ⟨l, by rw [rootToken, tokenise_hidden h, e, List.headD_cons]⟩

/-- The root of any other. -/
lemma rootToken_shown (h : ¬ Hidden sub) : rootToken sub = [] := by
  rw [rootToken, tokenise_shown h, List.headD_cons]

/-- The root tells which it is. -/
lemma hidden_iff_of_rootToken (h : rootToken sub = rootToken sub') : Hidden sub ↔ Hidden sub' := by
  by_cases hs : Hidden sub <;> by_cases hs' : Hidden sub'
  · exact iff_of_true hs hs'
  · obtain ⟨l, e⟩ := rootToken_hidden hs
    rw [e, rootToken_shown hs'] at h
    cases h
  · obtain ⟨l, e⟩ := rootToken_hidden hs'
    rw [e, rootToken_shown hs] at h
    cases h
  · exact iff_of_false hs hs'

/-- It is no wildcard. -/
lemma rootToken_ne_hash (sub : Bytes) : rootToken sub ≠ hash := by
  by_cases hs : Hidden sub
  · obtain ⟨l, e⟩ := rootToken_hidden hs
    rw [e]
    exact fun same => absurd (List.cons.inj same).1 (by decide)
  · rw [rootToken_shown hs]
    exact (List.cons_ne_nil _ _).symm

/-- Where a topic is in the tree. -/
def path (sub : Bytes) : List Bytes := rootToken sub :: subTopicTokenise sub

/-- No two topics are at the same place. -/
theorem path_injective : Function.Injective path := by
  intro sub sub' h
  obtain ⟨root, tokens⟩ := List.cons.inj h
  rw [subTopicTokenise_eq, subTopicTokenise_eq, if_congr (hidden_iff_of_rootToken root) rfl rfl,
    List.append_right_inj] at tokens
  have join : ∀ s : Bytes, [slash].intercalate (levels s) = s := fun s => List.intercalate_splitOn slash
  calc sub = [slash].intercalate (levels sub) := (join sub).symm
    _ = [slash].intercalate (levels sub') := by rw [tokens]
    _ = sub' := join sub'

/-- Filters are matched with topics token by token, below the same root. -/
theorem matches_iff (sub topic : Bytes) :
    Matches sub topic ↔
      rootToken sub = rootToken topic ∧ Covers (subTopicTokenise sub) (subTopicTokenise topic) := by
  by_cases same : Hidden sub ↔ Hidden topic
  swap
  · exact iff_of_false (fun h => same h.1) fun h => same (hidden_iff_of_rootToken h.1)
  rw [Matches, and_iff_right same]
  by_cases hs : Hidden sub
  · have ht := same.mp hs
    rw [tokenise_hidden hs, tokenise_hidden ht, iff_and_self]
    intro covers
    obtain ⟨l, ls, e⟩ := levels_of_hidden hs
    obtain ⟨l', ls', e'⟩ := levels_of_hidden ht
    rw [e, e', Covers] at covers
    rw [rootToken, rootToken, tokenise_hidden hs, tokenise_hidden ht, e, e', List.headD_cons, List.headD_cons]
    rcases covers with ⟨e, -⟩ | ⟨e | e, -⟩
    · exact absurd (List.cons.inj e).1 (by decide)
    · exact e
    · exact absurd (List.cons.inj e).1 (by decide)
  · have ht := mt same.mpr hs
    rw [tokenise_shown hs, tokenise_shown ht, rootToken_shown hs, rootToken_shown ht, Covers]
    simp [hash]

/-! ## Wildcards -/

/-- The bytes of a level are bytes of the topic. -/
lemma mem_of_mem_levels {l : Bytes} {x : UInt8} (hl : l ∈ levels sub) (hx : x ∈ l) : x ∈ sub := by
  induction sub generalizing l with
  | nil =>
    rw [levels, List.splitOn_nil, List.mem_singleton] at hl
    exact hl ▸ hx
  | cons c rest ih =>
    rw [levels, List.splitOn_cons_eq_if_modifyHead] at hl
    split at hl
    · rcases List.mem_cons.mp hl with rfl | hl
      · cases hx
      · exact List.mem_cons_of_mem _ (ih hl hx)
    · obtain ⟨l₀, ls, e⟩ := List.exists_cons_of_ne_nil (List.splitOn_ne_nil slash rest)
      rw [e, List.modifyHead_cons, List.mem_cons] at hl
      rcases hl with rfl | hl
      · rcases List.mem_cons.mp hx with rfl | hx
        · exact List.mem_cons_self
        · exact List.mem_cons_of_mem _ (ih (by rw [levels, e]; exact List.mem_cons_self) hx)
      · exact List.mem_cons_of_mem _ (ih (by rw [levels, e]; exact List.mem_cons_of_mem _ hl) hx)

/-- The last byte is in the last level. -/
lemma mem_dropLast_of_levels {l : Bytes} {x : UInt8} (hl : l ∈ (levels sub).dropLast) (hx : x ∈ l) :
    x ∈ sub.dropLast := by
  induction sub generalizing l with
  | nil =>
    rw [levels, List.splitOn_nil] at hl
    cases hl
  | cons c rest ih =>
    obtain ⟨l₀, ls, e⟩ := List.exists_cons_of_ne_nil (List.splitOn_ne_nil slash rest)
    have more : ls ≠ [] → rest ≠ [] := by
      rintro some rfl
      rw [List.splitOn_nil] at e
      exact some (List.cons.inj e).2.symm
    rw [levels, List.splitOn_cons_eq_if_modifyHead, e] at hl
    rw [levels, e] at ih
    split at hl
    · rw [List.dropLast_cons_of_ne_nil (List.cons_ne_nil _ _), List.mem_cons] at hl
      rcases hl with rfl | hl
      · cases hx
      · have inside := ih hl hx
        rw [List.dropLast_cons_of_ne_nil (List.ne_nil_of_mem (List.mem_of_mem_dropLast inside))]
        exact List.mem_cons_of_mem _ inside
    · rw [List.modifyHead_cons] at hl
      by_cases last : ls = []
      · rw [last] at hl
        cases hl
      · rw [List.dropLast_cons_of_ne_nil last, List.mem_cons] at hl
        rw [List.dropLast_cons_of_ne_nil last] at ih
        rw [List.dropLast_cons_of_ne_nil (more last), List.mem_cons]
        rcases hl with rfl | hl
        · exact (List.mem_cons.mp hx).imp_right (ih List.mem_cons_self)
        · exact .inr (ih (List.mem_cons_of_mem _ hl) hx)

/-- A multi-level wildcard is the last byte. -/
lemma posLoop_hash {c : UInt8} (h : posLoop c sub = true) : (0x23 : UInt8) ∉ sub.dropLast := by
  induction sub generalizing c with
  | nil => exact List.not_mem_nil
  | cons x rest ih =>
    by_cases last : rest = []
    · rw [last]
      exact List.not_mem_nil
    rw [List.dropLast_cons_of_ne_nil last, List.mem_cons, not_or]
    have more : rest.head? ≠ none := mt List.head?_eq_none_iff.mp last
    rw [posLoop] at h
    split at h
    · next single =>
      split at h
      · cases h
      · exact ⟨by rw [single]; decide, ih h⟩
    · split at h
      · rw [if_pos (.inr more)] at h
        cases h
      · next other => exact ⟨fun e => other e.symm, ih h⟩

/-- In a filter that is let through, the multi-level wildcard is the last level. -/
lemma hash_last (h : topicWildcardPosCheck sub = .success) : hash ∉ (path sub).dropLast := by
  have loop : posLoop 0 sub = true := by
    rw [topicWildcardPosCheck] at h
    split at h
    · cases h
    · next ok => exact not_not.mp ok
  have apart : hash ∉ (levels sub).dropLast := fun inside =>
    posLoop_hash loop (mem_dropLast_of_levels inside (List.mem_singleton_self _))
  rw [path, List.dropLast_cons_of_ne_nil (tokenise_ne_nil sub), List.mem_cons, not_or]
  refine ⟨(rootToken_ne_hash sub).symm, ?_⟩
  by_cases hs : Hidden sub
  · rwa [tokenise_hidden hs]
  · rw [tokenise_shown hs, List.dropLast_cons_of_ne_nil (levels_ne_nil sub), List.mem_cons, not_or]
    exact ⟨List.cons_ne_nil _ _, apart⟩

/-- In a topic that is let through, no level is a wildcard. -/
lemma plain_topic (h : topicWildcardLenCheck topic = .success) :
    plus ∉ subTopicTokenise topic ∧ hash ∉ subTopicTokenise topic := by
  have plain : ∀ x ∈ topic, x ≠ 0x2B ∧ x ≠ 0x23 := by
    intro x hx
    rw [topicWildcardLenCheck] at h
    split at h
    · cases h
    · next none =>
      rw [List.any_eq_true, not_exists] at none
      simpa using none x ∘ And.intro hx
  have split : ∀ (x : UInt8), [x] ∈ subTopicTokenise topic → x ∈ topic := by
    intro x hx
    rw [subTopicTokenise_eq, List.mem_append] at hx
    rcases hx with marker | level
    · split at marker <;> simp at marker
    · exact mem_of_mem_levels level (List.mem_singleton_self x)
  exact ⟨fun wild => (plain _ (split _ wild)).1 rfl, fun wild => (plain _ (split _ wild)).2 rfl⟩

end Levels

end Powmon.Mqtt
