import Powmon.Mqtt.Queue

/-!
# From the client to the subscribers

The client of `Queue` and its connections to the broker: what is on its way in both directions, and what
the broker does with what it reads (`mqtt3_handle_publish` of `read_handle.c`, and the incoming messages of
`database.c`).

* `nothing_lost`: a message that the library has accepted for delivery with quality of service 1 has
  been handed to the subscribers or is still kept, whatever happens to the connections and in whatever
  order the threads run, as long as no message gets the number of one that is under way.

C → Lean naming: `struct mosquitto` of the broker is `Context`, with its incoming messages `msgs`, and
`handed` is what `mqtt3_db_messages_queue` has been called with: the stored message, for the subscribers
of its topic. That the packets come out of the bytes as they were put in is `publications_arrive`. The
daemon connects with a clean session and subscribes with quality of service 0, so none of the messages that
are counted against the limits is one that the broker sends to it.
-/

namespace Powmon.Mqtt
open Lib

/-! ## The broker -/

/-- The packets with which the broker answers. -/
inductive Answer where
  | puback (mid : Nat)
  | pubrec (mid : Nat)
  | pubcomp (mid : Nat)
deriving DecidableEq

/-- The number in an answer. -/
def Answer.mid : Answer → Nat
  | .puback mid | .pubrec mid | .pubcomp mid => mid

/-- `enum mosquitto_msg_state`, as far as incoming messages use it. -/
inductive InState where
  | queued
  | waitForPubrel
  | sendPubrec
deriving DecidableEq

/-- `struct mosquitto_client_msg` with what it refers to in the message store. -/
structure ClientMsg where
  stored : Publish
  state : InState
  timestamp : Nat
deriving DecidableEq

/-- `struct mosquitto` of the broker, with what has been handed to the subscribers. -/
structure Context where
  msgs : List ClientMsg
  handed : List Publish
deriving DecidableEq

/-- `max_inflight_messages`, as it is without a configuration. -/
def maxInflight : Nat := 20
/-- `max_queued_messages`. -/
def maxQueued : Nat := 100

/-- `mqtt3_db_message_store_find`. -/
def messageStoreFind (mid : Nat) (c : Context) : Option Publish :=
  (c.msgs.find? fun x => x.stored.mid = mid).map ClientMsg.stored

/-- `mqtt3_db_messages_queue`, which finds the subscribers of `p.topic`. -/
def messagesQueue (p stored : Publish) (c : Context) : Context :=
  { c with handed := c.handed ++ [{ stored with topic := p.topic, qos := p.qos, retain := p.retain }] }

/-- `mqtt3_db_message_insert`, for an incoming message of a client that is connected. -/
def messageInsert (now : Nat) (p : Publish) (c : Context) : Nat × Context :=
  if maxInflight = 0 ∨ c.msgs.length < maxInflight then
    (0, { c with msgs := c.msgs ++ [⟨p, .waitForPubrel, now⟩] })
  else if maxQueued = 0 ∨ c.msgs.length - maxInflight < maxQueued then
    (2, { c with msgs := c.msgs ++ [⟨p, .queued, now⟩] })
  else (2, c)

/-- `mqtt3_handle_publish`, without a result where it closes the connection. -/
def mqtt3HandlePublish (now : Nat) (p : Publish) (c : Context) : Option (Context × List Answer) :=
  if p.qos = 3 then none
  else if p.topic.length = 0 then none
  else if topicWildcardLenCheck p.topic ≠ .success then none
  else
    let found := if 0 < p.qos then messageStoreFind p.mid c else none
    let stored := found.getD { p with dup := false }
    match p.qos with
    | 0 => some (messagesQueue p stored c, [])
    | 1 => some (messagesQueue p stored c, [.puback p.mid])
    | _ =>
      let (res, c) := if found.isNone then messageInsert now stored c else (0, c)
      some (c, if res = 0 then [.pubrec p.mid] else [])

/-- The loop of `mqtt3_db_message_release`: the messages that are left, what is handed on, and what is
sent. -/
def releaseLoop (now mid : Nat) :
    Nat → Bool → List ClientMsg → List ClientMsg × List Publish × List Answer
  | _, _, [] => ([], [], [])
  | index, deleted, x :: rest =>
    let index := index + 1
    let freed := x.state = .queued ∧ index ≤ maxInflight
    let x := if freed then { x with state := .waitForPubrel, timestamp := now } else x
    let sent : List Answer := if freed then [.pubrec x.stored.mid] else []
    let found := x.stored.mid = mid
    let deleted := deleted ∨ found
    let kept := if found then [] else [x]
    let gone := if found then [x.stored] else []
    if index > maxInflight ∧ deleted then (kept ++ rest, gone, sent)
    else
      let (left, handed, more) := releaseLoop now mid index deleted rest
      (kept ++ left, gone ++ handed, sent ++ more)

/-- `_mosquitto_handle_pubrel`. -/
def mqtt3HandlePubrel (now mid : Nat) (c : Context) : Context × List Answer :=
  let (msgs, handed, sent) := releaseLoop now mid 0 false c.msgs
  ({ msgs := msgs, handed := c.handed ++ handed }, sent ++ [.pubcomp mid])

/-- What the broker does with a packet. -/
def Context.handle (now : Nat) (c : Context) : OutPacket → Option (Context × List Answer)
  | .publish p => mqtt3HandlePublish now p c
  | .pubrel mid _ => some (mqtt3HandlePubrel now mid c)

/-- The loop of `mqtt3_db_message_write` over the incoming messages. -/
def messageWrite : Nat → List ClientMsg → List ClientMsg × List Answer
  | _, [] => ([], [])
  | count, x :: rest =>
    let count := count + 1
    match x.state with
    | .waitForPubrel =>
      let (rest, sent) := messageWrite count rest
      (x :: rest, sent)
    | .sendPubrec =>
      let (rest, sent) := messageWrite count rest
      ({ x with state := .waitForPubrel } :: rest, .pubrec x.stored.mid :: sent)
    | .queued =>
      if maxInflight = 0 ∨ count < maxInflight then
        -- the state becomes `mosq_ms_send_pubrec`, and the loop comes to the same message again
        let (rest, sent) := messageWrite (count + 1) rest
        ({ x with state := .waitForPubrel } :: rest, .pubrec x.stored.mid :: sent)
      else
        let (rest, sent) := messageWrite count rest
        (x :: rest, sent)

/-- `mqtt3_db_message_timeout_check`. -/
def messageTimeoutCheck (now timeout : Nat) (c : Context) : Context :=
  { c with msgs := c.msgs.map fun x =>
      if x.timestamp + timeout < now ∧ x.state = .waitForPubrel then
        { x with state := .sendPubrec, timestamp := now }
      else x }

/-! ## The system -/

/-- The broker's end of the present connection. -/
inductive Link where
  | none
  | waiting
  | established
deriving DecidableEq

/-- `taken` counts the packets of the present connection that the broker has read, `old` are those of
earlier ones that it can still read, and `down` are its answers that the client has not read. -/
structure System where
  client : Mosq
  old : List OutPacket
  taken : Nat
  link : Link
  down : List Answer
  context : Context
deriving DecidableEq

/-- What happens at either end of the connection. -/
inductive Event where
  | publish (now : Nat) (topic payload : Bytes) (qos : ℤ) (retain : Bool)
  | retry (now : Nat)
  | close
  | reconnect (succeeds : Bool)
  | answer (now : Nat)
  | connect
  | take (now : Nat)
  | late (now i : Nat)
  | timeout (now timeout : Nat)
  | write

/-- The packets on their way to the broker. -/
def System.up (s : System) : List OutPacket := s.client.outPackets.drop s.taken

/-- What the client does with an answer. -/
def Answer.happening (now : Nat) : Answer → Happening
  | .puback mid | .pubcomp mid => .pubackcomp mid
  | .pubrec mid => .pubrec mid now

/-- One event. -/
def System.step (s : System) : Event → System
  | .publish now topic payload qos retain =>
    { s with client := s.client.step (.publish now topic payload qos retain) }
  | .retry now => { s with client := s.client.step (.retry now) }
  | .close => { s with client := s.client.step .close }
  | .reconnect succeeds =>
    { s with client := s.client.step (.reconnect succeeds), old := s.old ++ s.up, taken := 0, down := [],
             link := if succeeds then .waiting else .none }
  | .answer now =>
    match s.down with
    | [] => s
    | a :: rest =>
      if s.client.connected then { s with client := s.client.step (a.happening now), down := rest } else s
  -- `mqtt3_handle_connect` of a clean session: what belongs to an earlier connection is discarded
  | .connect =>
    if s.link = .waiting then
      { s with link := .established, old := [], context := { s.context with msgs := [] } }
    else s
  | .take now =>
    match s.up with
    | [] => s
    | p :: _ =>
      if s.link = .established then
        match s.context.handle now p with
        | none => { s with link := .none }
        | some (c, sent) => { s with context := c, taken := s.taken + 1, down := s.down ++ sent }
      else s
  | .late now i =>
    match s.old[i]? with
    | none => s
    | some p =>
      match s.context.handle now p with
      | none => s
      | some (c, _) => { s with context := c, old := s.old.eraseIdx i }
  | .timeout now timeout => { s with context := messageTimeoutCheck now timeout s.context }
  | .write =>
    if s.link = .established then
      let (msgs, sent) := messageWrite 0 s.context.msgs
      { s with context := { s.context with msgs := msgs }, down := s.down ++ sent }
    else s

/-- A run. -/
def System.run (s : System) (es : List Event) : System := es.foldl System.step s

/-- Before the first connection. -/
def System.start : System := ⟨mosquittoNew, [], 0, .none, [], ⟨[], []⟩⟩

/-- The message that an event adds to those that have been accepted. -/
def Event.accepted (s : System) : Event → List Publish
  | .publish now topic payload qos retain => queued s.client (.publish now topic payload qos retain)
  | _ => []

/-- The messages that have been accepted in a run. -/
def accepted : System → List Event → List Publish
  | _, [] => []
  | s, e :: es => e.accepted s ++ accepted (s.step e) es

/-- A run in two parts. -/
lemma accepted_append (s : System) (es es' : List Event) :
    accepted s (es ++ es') = accepted s es ++ accepted (s.run es) es' := by
  induction es generalizing s with
  | nil => rfl
  | cons e es ih =>
    rw [List.cons_append, accepted, accepted, ih, List.append_assoc]
    rfl

/-- The number of the message that a packet is about. -/
def OutPacket.number : OutPacket → Option Nat
  | .publish p => if 0 < p.qos then some p.mid else none
  | .pubrel mid _ => some mid

/-- The number of a message that is added is not that of one that is under way. -/
def Event.Fresh (s : System) (e : Event) : Prop :=
  ∀ new ∈ e.accepted s, (∀ x ∈ s.client.outMessages, x.publish.mid ≠ new.mid) ∧
    (∀ q ∈ s.up, q.number ≠ some new.mid) ∧ (∀ a ∈ s.down, a.mid ≠ new.mid) ∧
    ∀ x ∈ s.context.msgs, x.stored.mid ≠ new.mid

instance (s : System) (e : Event) : Decidable (e.Fresh s) := inferInstanceAs (Decidable (∀ _ ∈ _, _))

/-- No message of the run gets the number of one that is under way. -/
def Fresh : System → List Event → Prop
  | _, [] => True
  | s, e :: es => e.Fresh s ∧ Fresh (s.step e) es

instance Fresh.decidable : ∀ (s : System) (es : List Event), Decidable (Fresh s es)
  | _, [] => inferInstanceAs (Decidable True)
  | s, e :: es =>
    have := Fresh.decidable (s.step e) es
    inferInstanceAs (Decidable (_ ∧ _))

/-! ## Nothing is lost -/

/-- A packet that carries nothing but what has been accepted, or asks for no acknowledgement. -/
def Known (acc : List Publish) (q : OutPacket) : Prop :=
  ∃ p, q = .publish p ∧ (p.qos = 0 ∨ p.qos = 1 ∧ { p with dup := false } ∈ acc)

/-- What holds of the messages that are kept, of what is on its way and of the broker. -/
structure Sound (xs : List OutMessage) (ups olds : List OutPacket) (downs : List Answer) (c : Context)
    (acc : List Publish) : Prop where
  kept : ∀ x ∈ xs, x.publish.qos = 1 ∧ x.state ≠ .waitForPubcomp ∧ x.core ∈ acc
  one : ∀ x ∈ xs, ∀ y ∈ xs, x.core.mid = y.core.mid → x.core = y.core
  up : ∀ q ∈ ups, Known acc q
  old : ∀ q ∈ olds, Known acc q
  way : ∀ p, .publish p ∈ ups → 0 < p.qos → ∀ x ∈ xs, x.core.mid = p.mid →
    x.core = { p with dup := false }
  answers : ∀ a ∈ downs, ∃ mid, a = .puback mid ∧ ∀ x ∈ xs, x.core.mid = mid → x.core ∈ c.handed
  held : c.msgs = []
  handed : ∀ p ∈ c.handed, p.qos = 0 ∨ p ∈ acc
  safe : ∀ p ∈ acc, (∃ x ∈ xs, x.core = p) ∨ p ∈ c.handed

/-- The same messages, of which none has come to wait for a PUBCOMP. -/
structure Moved (xs ys : List OutMessage) : Prop where
  comes : ∀ y ∈ ys, ∃ x ∈ xs, y.core = x.core ∧ (y.state = .waitForPubcomp → x.state = .waitForPubcomp)
  stays : ∀ x ∈ xs, ∃ y ∈ ys, y.core = x.core

section Moved
variable {m : Mosq} {xs ys : List OutMessage} {x y : OutMessage}

/-- Nothing has moved. -/
lemma Moved.refl (xs : List OutMessage) : Moved xs xs :=
  ⟨fun y hy => ⟨y, hy, rfl, id⟩, fun x hx => ⟨x, hx, rfl⟩⟩

/-- A message in front of the others. -/
lemma Moved.cons (h : Moved xs ys) (core : y.core = x.core)
    (state : y.state = .waitForPubcomp → x.state = .waitForPubcomp) : Moved (x :: xs) (y :: ys) := by
  refine ⟨fun z hz => ?_, fun z hz => ?_⟩
  · rcases List.mem_cons.mp hz with rfl | old
    · exact ⟨x, List.mem_cons_self, core, state⟩
    · obtain ⟨w, hw, same⟩ := h.comes z old
      exact ⟨w, List.mem_cons_of_mem _ hw, same⟩
  · rcases List.mem_cons.mp hz with rfl | old
    · exact ⟨y, List.mem_cons_self, core⟩
    · obtain ⟨w, hw, same⟩ := h.stays z old
      exact ⟨w, List.mem_cons_of_mem _ hw, same⟩

/-- All messages at once. -/
lemma Moved.map (f : OutMessage → OutMessage) (xs : List OutMessage) (core : ∀ x, (f x).core = x.core)
    (state : ∀ x, (f x).state = .waitForPubcomp → x.state = .waitForPubcomp) : Moved xs (xs.map f) := by
  induction xs with
  | nil => exact .refl []
  | cons x xs ih => exact ih.cons (core x) (state x)

/-- A message that has just been sent is not released. -/
lemma awaited_ne_pubcomp (qos : Nat) : awaited qos ≠ .waitForPubcomp := by
  unfold awaited
  split <;> exact MsgState.noConfusion

/-- A message before and after the loop of a removal. -/
def Resent (x y : OutMessage) : Prop := y = x ∨ x.state = .invalid ∧ y = x.activate

/-- How many messages have been sent. -/
def active (xs : List OutMessage) : Nat := xs.countP fun x => x.state ≠ .invalid

/-- What the loop of a removal does: it sends some of the messages, and counts them, as long as there is
room. -/
structure Resends (m m' : Mosq) (xs ys : List OutMessage) : Prop where
  resent : List.Forall₂ Resent xs ys
  packets : ∃ extra, m'.outPackets = m.outPackets ++ extra ∧
    ∀ q ∈ extra, ∃ x ∈ xs, x.activate ∈ ys ∧ q = .publish x.publish
  counted : m'.inflightMessages + active xs = m.inflightMessages + active ys
  bounded : m.maxInflightMessages ≠ 0 →
    m'.inflightMessages ≤ max m.inflightMessages m.maxInflightMessages
  limit : m'.maxInflightMessages = m.maxInflightMessages

/-- A message takes a place unless it waits. -/
lemma active_cons (x : OutMessage) (xs : List OutMessage) :
    active (x :: xs) = active xs + if x.state ≠ .invalid then 1 else 0 := by
  simp [active, List.countP_cons]

/-- The loop may stop. -/
lemma Resends.stop (m : Mosq) (xs ys : List OutMessage) : Resends m { m with outMessages := ys } xs xs :=
  ⟨List.forall₂_same.mpr fun _ _ => .inl rfl,
    ⟨[], (List.append_nil _).symm, List.forall_mem_nil _⟩, rfl, fun _ => le_max_left _ _, rfl⟩

/-- It may leave a message as it is. -/
lemma Resends.skip {m m' : Mosq} (h : Resends m m' xs ys) (x : OutMessage) :
    Resends m m' (x :: xs) (x :: ys) := by
  obtain ⟨extra, e, only⟩ := h.packets
  refine ⟨.cons (.inl rfl) h.resent, ⟨extra, e, fun q hq => ?_⟩, ?_, h.bounded, h.limit⟩
  · obtain ⟨y, hy, sent, e'⟩ := only q hq
    exact ⟨y, List.mem_cons_of_mem _ hy, List.mem_cons_of_mem _ sent, e'⟩
  · have counted := h.counted
    rw [active_cons, active_cons]
    omega

/-- One message is sent, or would be if it fitted into a packet. -/
lemma Resends.send {m m₁ m' : Mosq} (h : Resends m₁ m' xs ys) {extra : List OutPacket}
    (state : x.state = .invalid) (room : m.HasRoom)
    (e : m₁ = { m with inflightMessages := m.inflightMessages + 1, outPackets := m.outPackets ++ extra })
    (only : ∀ q ∈ extra, q = .publish x.publish) : Resends m m' (x :: xs) (x.activate :: ys) := by
  subst e
  obtain ⟨more, packets, only'⟩ := h.packets
  refine ⟨.cons (.inr ⟨state, rfl⟩) h.resent, ⟨extra ++ more, ?_, fun q hq => ?_⟩, ?_, fun limit => ?_,
    h.limit⟩
  · rw [packets, List.append_assoc]
  · rcases List.mem_append.mp hq with hq | hq
    · exact ⟨x, List.mem_cons_self, List.mem_cons_self, only q hq⟩
    · obtain ⟨y, hy, sent, e'⟩ := only' q hq
      exact ⟨y, List.mem_cons_of_mem _ hy, List.mem_cons_of_mem _ sent, e'⟩
  · have counted := h.counted
    dsimp only at counted
    have sent : x.activate.state ≠ .invalid := awaited_ne _
    rw [active_cons, active_cons, if_neg (not_not.mpr state), if_pos sent]
    omega
  · have bounded := h.bounded limit
    have below : m.inflightMessages < m.maxInflightMessages := room.resolve_left limit
    dsimp only at bounded
    omega

/-- The loop that sends again. -/
lemma resendLoop_resends (pre xs : List OutMessage) (m : Mosq) :
    ∃ ys, (resendLoop pre xs m).2.outMessages = pre ++ ys ∧ Resends m (resendLoop pre xs m).2 xs ys := by
  induction xs generalizing pre m with
  | nil => exact ⟨[], by simp [resendLoop], .stop m [] pre⟩
  | cons x xs ih =>
    rw [resendLoop]
    split
    swap
    · exact ⟨x :: xs, rfl, .stop m _ _⟩
    next room =>
    split
    swap
    · obtain ⟨ys, messages, sends⟩ := ih (pre ++ [x]) m
      exact ⟨x :: ys, by rw [messages, List.append_assoc]; rfl, sends.skip x⟩
    next waits =>
    obtain ⟨extra, e, only⟩ :=
      sendPublish_eq { m with inflightMessages := m.inflightMessages + 1 } x.publish
    dsimp only
    split
    next m₁ sent =>
      rw [sent] at e
      obtain ⟨ys, messages, sends⟩ := ih (pre ++ [{ x with state := awaited x.publish.qos }]) m₁
      exact ⟨x.activate :: ys, by rw [messages, List.append_assoc]; rfl, sends.send waits.2 room e only⟩
    next rc m₁ _ sent =>
      rw [sent] at e
      exact ⟨x.activate :: xs, rfl, (Resends.stop m₁ xs _).send waits.2 room e only⟩

/-- What has been sent again has moved. -/
lemma moved_of_resent (h : List.Forall₂ Resent xs ys) : Moved xs ys := by
  induction h with
  | nil => exact .refl []
  | @cons x y xs ys same _ ih =>
    rcases same with rfl | ⟨-, rfl⟩
    · exact ih.cons rfl id
    · exact ih.cons rfl fun h => absurd h (awaited_ne_pubcomp _)

/-- What is reset for a new connection has moved. -/
lemma resetLoop_moved (max n : ℤ) (xs : List OutMessage) : Moved xs (resetLoop max n xs).2 := by
  induction xs generalizing n with
  | nil => exact .refl []
  | cons x xs ih =>
    rw [resetLoop]
    dsimp only
    generalize (if 0 < x.publish.qos then n + 1 else n) = n'
    refine (ih n').cons ?_ ?_
    · split
      · split <;> rfl
      · rfl
    · split
      · split
        · exact fun h => absurd h MsgState.noConfusion
        · exact id
      · exact fun h => absurd h MsgState.noConfusion

end Moved

section Sound
variable {xs ys : List OutMessage} {ups olds extra : List OutPacket} {downs sent : List Answer}
  {c c' : Context} {acc : List Publish} {x : OutMessage} {p : Publish} {q : OutPacket}

/-- More messages may have been accepted. -/
lemma Known.mono {acc' : List Publish} (h : Known acc q) (sub : acc ⊆ acc') : Known acc' q := by
  obtain ⟨p, e, zero | ⟨one, mem⟩⟩ := h
  · exact ⟨p, e, .inl zero⟩
  · exact ⟨p, e, .inr ⟨one, sub mem⟩⟩

/-- The client sends what it has kept, or what asks for no acknowledgement. -/
lemma Sound.sends (h : Sound xs ups olds downs c acc) (extra : List OutPacket)
    (only : ∀ q ∈ extra, ∃ p, q = .publish p ∧
      (p.qos = 0 ∨ ∃ x ∈ xs, x.core = { p with dup := false })) :
    Sound xs (ups ++ extra) olds downs c acc := by
  refine { h with up := fun q hq => ?_, way := fun p hp pos x hx mid => ?_ }
  · rcases List.mem_append.mp hq with old | new
    · exact h.up q old
    · obtain ⟨p, e, zero | ⟨x, hx, core⟩⟩ := only q new
      · exact ⟨p, e, .inl zero⟩
      · obtain ⟨one, -, mem⟩ := h.kept x hx
        exact ⟨p, e, .inr ⟨(congrArg Publish.qos core).symm.trans one, core ▸ mem⟩⟩
  · rcases List.mem_append.mp hp with old | new
    · exact h.way p old pos x hx mid
    · obtain ⟨p', ⟨⟩, zero | ⟨y, hy, core⟩⟩ := only _ new
      · omega
      · rw [← core]
        exact h.one x hx y hy (mid.trans (congrArg Publish.mid core).symm)

/-- The kept messages may move. -/
lemma Sound.moved (h : Sound xs ups olds downs c acc) (moved : Moved xs ys) :
    Sound ys ups olds downs c acc where
  kept y hy := by
    obtain ⟨x, hx, core, state⟩ := moved.comes y hy
    obtain ⟨one, waits, mem⟩ := h.kept x hx
    exact ⟨(congrArg Publish.qos core).trans one, fun e => waits (state e), core ▸ mem⟩
  one y hy z hz mid := by
    obtain ⟨x, hx, core, -⟩ := moved.comes y hy
    obtain ⟨w, hw, core', -⟩ := moved.comes z hz
    rw [core, core'] at mid ⊢
    exact h.one x hx w hw mid
  up := h.up
  old := h.old
  way p hp pos y hy mid := by
    obtain ⟨x, hx, core, -⟩ := moved.comes y hy
    rw [core] at mid ⊢
    exact h.way p hp pos x hx mid
  answers a ha := by
    obtain ⟨mid, e, safe⟩ := h.answers a ha
    refine ⟨mid, e, fun y hy same => ?_⟩
    obtain ⟨x, hx, core, -⟩ := moved.comes y hy
    rw [core] at same ⊢
    exact safe x hx same
  held := h.held
  handed := h.handed
  safe p hp := by
    rcases h.safe p hp with ⟨x, hx, core⟩ | handed
    · obtain ⟨y, hy, core'⟩ := moved.stays x hx
      exact .inl ⟨y, hy, core'.trans core⟩
    · exact .inr handed

/-- One more message, whose number nothing has that is under way. -/
lemma Sound.add (h : Sound xs ups olds downs c acc) (qos : x.publish.qos = 1)
    (state : x.state ≠ .waitForPubcomp) (kept : ∀ y ∈ xs, y.core.mid ≠ x.core.mid)
    (up : ∀ p, .publish p ∈ ups → 0 < p.qos → p.mid ≠ x.core.mid)
    (down : ∀ a ∈ downs, a.mid ≠ x.core.mid) :
    Sound (xs ++ [x]) ups olds downs c (acc ++ [x.core]) where
  kept y hy := by
    rcases List.mem_append.mp hy with old | new
    · obtain ⟨one, waits, mem⟩ := h.kept y old
      exact ⟨one, waits, List.mem_append_left _ mem⟩
    · rw [List.mem_singleton.mp new]
      exact ⟨qos, state, List.mem_append_right _ (List.mem_singleton_self _)⟩
  one y hy z hz mid := by
    rcases List.mem_append.mp hy with old | new
    · rcases List.mem_append.mp hz with old' | new'
      · exact h.one y old z old' mid
      · exact absurd (List.mem_singleton.mp new' ▸ mid) (kept y old)
    · rcases List.mem_append.mp hz with old' | new'
      · exact absurd (List.mem_singleton.mp new ▸ mid).symm (kept z old')
      · rw [List.mem_singleton.mp new, List.mem_singleton.mp new']
  up q hq := (h.up q hq).mono (List.subset_append_left _ _)
  old q hq := (h.old q hq).mono (List.subset_append_left _ _)
  way p hp pos y hy mid := by
    rcases List.mem_append.mp hy with old | new
    · exact h.way p hp pos y old mid
    · exact absurd (List.mem_singleton.mp new ▸ mid).symm (up p hp pos)
  answers a ha := by
    obtain ⟨mid, rfl, safe⟩ := h.answers a ha
    refine ⟨mid, rfl, fun y hy same => ?_⟩
    rcases List.mem_append.mp hy with old | new
    · exact safe y old same
    · exact absurd (List.mem_singleton.mp new ▸ same).symm (down _ ha)
  held := h.held
  handed p hp := (h.handed p hp).imp_right (List.mem_append_left _)
  safe p hp := by
    rcases List.mem_append.mp hp with old | new
    · exact (h.safe p old).imp_left fun ⟨y, hy, core⟩ => ⟨y, List.mem_append_left _ hy, core⟩
    · exact .inl ⟨x, List.mem_append_right _ (List.mem_singleton_self _), (List.mem_singleton.mp new).symm⟩

/-- What is acknowledged can go. -/
lemma Sound.remove {mid : Nat} (h : Sound xs ups olds (.puback mid :: downs) c acc)
    (ys : List OutMessage) (sub : ys ⊆ xs) (rest : ∀ x ∈ xs, x ∈ ys ∨ x.core.mid = mid) :
    Sound ys ups olds downs c acc where
  kept y hy := h.kept y (sub hy)
  one y hy z hz := h.one y (sub hy) z (sub hz)
  up := h.up
  old := h.old
  way p hp pos y hy := h.way p hp pos y (sub hy)
  answers a ha := by
    obtain ⟨mid', e, safe⟩ := h.answers a (List.mem_cons_of_mem _ ha)
    exact ⟨mid', e, fun y hy => safe y (sub hy)⟩
  held := h.held
  handed := h.handed
  safe p hp := by
    rcases h.safe p hp with ⟨x, hx, core⟩ | handed
    · rcases rest x hx with stays | goes
      · exact .inl ⟨x, stays, core⟩
      · obtain ⟨mid', ⟨⟩, safe⟩ := h.answers _ List.mem_cons_self
        exact .inr (core ▸ safe x hx goes)
    · exact .inr handed

/-- What the broker does with a packet where it holds nothing back. -/
lemma handle_known (held : c.msgs = []) (known : Known acc q) (now : Nat)
    (e : c.handle now q = some (c', sent)) :
    ∃ p, q = .publish p ∧ (p.qos = 0 ∨ p.qos = 1 ∧ { p with dup := false } ∈ acc) ∧
      c' = { c with handed := c.handed ++ [{ p with dup := false }] } ∧
      ∀ a ∈ sent, 0 < p.qos ∧ a = .puback p.mid := by
  obtain ⟨p, rfl, qos⟩ := known
  refine ⟨p, rfl, qos, ?_⟩
  have nothing : (if 0 < p.qos then messageStoreFind p.mid c else none) = none := by
    simp [messageStoreFind, held]
  rw [Context.handle, mqtt3HandlePublish] at e
  split at e
  · cases e
  split at e
  · cases e
  split at e
  · cases e
  dsimp only at e
  rw [nothing] at e
  rcases qos with zero | ⟨one, -⟩
  · rw [zero] at e
    cases e
    exact ⟨by simp [messagesQueue, zero], List.forall_mem_nil _⟩
  · rw [one] at e
    cases e
    exact ⟨by simp [messagesQueue, one], fun a ha => ⟨by rw [one]; decide, List.mem_singleton.mp ha⟩⟩

/-- What has been handed on stays so. -/
lemma Sound.hand (h : Sound xs ups olds downs c acc)
    (qos : p.qos = 0 ∨ p.qos = 1 ∧ { p with dup := false } ∈ acc) :
    Sound xs ups olds downs { c with handed := c.handed ++ [{ p with dup := false }] } acc where
  kept := h.kept
  one := h.one
  up := h.up
  old := h.old
  way := h.way
  answers a ha := by
    obtain ⟨mid, e, safe⟩ := h.answers a ha
    exact ⟨mid, e, fun x hx same => List.mem_append_left _ (safe x hx same)⟩
  held := h.held
  handed p' hp' := by
    rcases List.mem_append.mp hp' with old | new
    · exact h.handed p' old
    · rw [List.mem_singleton.mp new]
      exact qos.imp id And.right
  safe p hp := (h.safe p hp).imp_right (List.mem_append_left _)

/-- The broker reads a packet. -/
lemma Sound.take (h : Sound xs (q :: ups) olds downs c acc) (now : Nat)
    (e : c.handle now q = some (c', sent)) : Sound xs ups olds (downs ++ sent) c' acc := by
  obtain ⟨p, rfl, qos, rfl, answers⟩ := handle_known h.held (h.up q List.mem_cons_self) now e
  have handed := h.hand qos
  refine { handed with
    up := fun q hq => h.up q (List.mem_cons_of_mem _ hq)
    way := fun p hp => h.way p (List.mem_cons_of_mem _ hp)
    answers := fun a ha => ?_ }
  rcases List.mem_append.mp ha with old | new
  · exact handed.answers a old
  · obtain ⟨pos, rfl⟩ := answers a new
    refine ⟨p.mid, rfl, fun x hx same => List.mem_append_right _ ?_⟩
    rw [h.way p List.mem_cons_self pos x hx same]
    exact List.mem_singleton_self _

/-- It reads one of an earlier connection. -/
lemma Sound.late (h : Sound xs ups olds downs c acc) (hq : q ∈ olds) (now : Nat)
    (e : c.handle now q = some (c', sent)) (sub : extra ⊆ olds) : Sound xs ups extra downs c' acc := by
  obtain ⟨p, rfl, qos, rfl, -⟩ := handle_known h.held (h.old q hq) now e
  exact { h.hand qos with old := fun q hq => h.old q (sub hq) }

/-- The answers of the old connection are lost, but not its packets. -/
lemma Sound.reconnect (h : Sound xs ups olds downs c acc) : Sound xs [] (olds ++ ups) [] c acc :=
  { h with
    up := List.forall_mem_nil _
    old := fun q hq => (List.mem_append.mp hq).elim (h.old q) (h.up q)
    way := fun _ hp => absurd hp List.not_mem_nil
    answers := List.forall_mem_nil _ }

end Sound

/-- The invariant of the system. -/
def System.Sound (s : System) (acc : List Publish) : Prop :=
  Mqtt.Sound s.client.outMessages s.up s.old s.down s.context acc ∧
    s.taken ≤ s.client.outPackets.length

/-- An event in which nothing is published with a quality of service of 2. -/
def Event.Simple : Event → Prop
  | .publish _ _ _ qos _ => qos ≤ 1
  | _ => True

section System
variable {s : System} {acc : List Publish}

/-- What is sent comes after what is on its way. -/
lemma System.up_append {extra : List OutPacket} (h : s.taken ≤ s.client.outPackets.length) :
    (s.client.outPackets ++ extra).drop s.taken = s.up ++ extra :=
  List.drop_append_of_le_length h

/-- `mosquitto_publish`. -/
lemma sound_publish (h : s.Sound acc) (now : Nat) (topic payload : Bytes) {qos : ℤ} (retain : Bool)
    (once : qos ≤ 1) (fresh : Event.Fresh s (.publish now topic payload qos retain)) :
    (s.step (.publish now topic payload qos retain)).Sound
      (acc ++ queued s.client (.publish now topic payload qos retain)) := by
  obtain ⟨sound, le⟩ := h
  rcases mosquittoPublish_cases now topic payload qos retain s.client with
    ⟨new, mid, extra, e, only⟩ | ⟨p, new, -, dup, h'⟩
  · rw [new, List.append_nil, System.step, e]
    refine ⟨?_, le.trans (by simp)⟩
    have sends := sound.sends extra fun q hq => by
      obtain ⟨-, p, e, zero⟩ := only q hq
      exact ⟨p, e, .inl zero⟩
    rwa [← System.up_append le] at sends
  · obtain ⟨kept, unused, down, -⟩ :=
      fresh p (by rw [Event.accepted, new]; exact List.mem_singleton_self p)
    have up : ∀ p', .publish p' ∈ s.up → 0 < p'.qos → p'.mid ≠ p.mid := by
      intro p' hp' pos same
      refine unused _ hp' ?_
      rw [OutPacket.number, if_pos pos, same]
    have qos_one : p.qos = 1 := by
      rw [queued] at new
      split at new
      · cases new
        dsimp only
        omega
      · cases new
    have core : ∀ state, OutMessage.core ⟨p, state, now⟩ = p := fun state => by
      rw [OutMessage.core, ← dup]
    have added : ∀ state, state ≠ .waitForPubcomp →
        Sound (s.client.outMessages ++ [⟨p, state, now⟩]) s.up s.old s.down s.context (acc ++ [p]) := by
      intro state waits
      have add := sound.add (x := ⟨p, state, now⟩) qos_one waits (by rw [core]; exact kept)
        (by rw [core]; exact up) (by rw [core]; exact down)
      rwa [core] at add
    rw [new, System.step]
    rcases h' with ⟨-, extra, e, only⟩ | ⟨-, e⟩
    · rw [e]
      refine ⟨?_, le.trans (by simp)⟩
      have sends := (added _ (awaited_ne_pubcomp p.qos)).sends extra fun q hq =>
        ⟨p, only q hq, .inr ⟨_, List.mem_append_right _ (List.mem_singleton_self _), by
          rw [core, ← dup]⟩⟩
      rwa [← System.up_append le] at sends
    · rw [e]
      exact ⟨added _ MsgState.noConfusion, le⟩

/-- A retry. -/
lemma sound_retry (h : s.Sound acc) (now : Nat) : (s.step (.retry now)).Sound acc := by
  obtain ⟨sound, le⟩ := h
  rw [System.step, Mosq.step]
  split
  swap
  · exact ⟨sound, le⟩
  obtain ⟨extra, e, only⟩ := retryLoop_eq now [] s.client.outMessages s.client
  rw [messageRetryCheck, e]
  refine ⟨?_, le.trans (by simp)⟩
  have sends := sound.sends extra fun q hq => by
    obtain ⟨x, hx, sends⟩ := only q hq
    cases q with
    | publish p => exact ⟨p, rfl, .inr ⟨x, hx, sends.core.2⟩⟩
    | pubrel mid dup =>
      rw [OutMessage.Sends] at sends
      split at sends
      · exact sends.elim
      · cases sends
      · cases sends
      next state => exact absurd state (sound.kept x hx).2.1
  have moved := Moved.map (OutMessage.retried now s.client.messageRetry) s.client.outMessages
    (fun x => (x.retried_same now s.client.messageRetry).1)
    fun x h => (x.retried_same now s.client.messageRetry).2 ▸ h
  rw [← System.up_append le] at sends
  exact sends.moved moved

/-- The client reads an answer. -/
lemma sound_answer (h : s.Sound acc) (now : Nat) : (s.step (.answer now)).Sound acc := by
  obtain ⟨sound, le⟩ := h
  rw [System.step]
  split
  · exact ⟨sound, le⟩
  next a rest down =>
  split
  swap
  · exact ⟨sound, le⟩
  next connected =>
  rw [down] at sound
  obtain ⟨mid, rfl, -⟩ := sound.answers a List.mem_cons_self
  rw [Answer.happening, Mosq.step, if_pos connected, handlePubackcomp, messageRemove]
  cases found : s.client.outMessages.findIdx? fun x => x.publish.mid = mid with
  | none =>
    refine ⟨sound.remove _ (List.Subset.refl _) fun x hx => .inl hx, le⟩
  | some i =>
    obtain ⟨hi, is_it, -⟩ := List.findIdx?_eq_some_iff_getElem.mp found
    dsimp only
    obtain ⟨ys, messages, resends⟩ :=
      resendLoop_resends [] (s.client.outMessages.eraseIdx i) { s.client with
        inflightMessages := if (s.client.outMessages[i]?).any fun x => 0 < x.publish.qos then
          s.client.inflightMessages - 1 else s.client.inflightMessages }
    obtain ⟨extra, packets, only⟩ := resends.packets
    have removed := sound.remove (s.client.outMessages.eraseIdx i) List.eraseIdx_subset
      fun x hx => by
        obtain ⟨j, hj, rfl⟩ := List.getElem_of_mem hx
        by_cases same : j = i
        · subst same
          exact .inr (of_decide_eq_true is_it)
        · exact .inl (List.mem_eraseIdx_iff_getElem.mpr ⟨j, hj, same, rfl⟩)
    have sends := removed.sends extra fun q hq => by
      obtain ⟨x, hx, -, e⟩ := only q hq
      exact ⟨x.publish, e, .inr ⟨x, hx, rfl⟩⟩
    rw [← System.up_append le] at sends
    refine ⟨?_, ?_⟩
    · rw [System.up]
      dsimp only
      rw [messages, packets]
      exact sends.moved (moved_of_resent resends.resent)
    · dsimp only
      rw [packets]
      exact le.trans (by simp)

/-- The broker reads a packet. -/
lemma sound_take (h : s.Sound acc) (now : Nat) : (s.step (.take now)).Sound acc := by
  rw [System.step]
  cases up : s.up with
  | nil => exact h
  | cons q rest =>
    dsimp only
    split
    swap
    · exact h
    cases e : s.context.handle now q with
    | none => exact h
    | some r =>
      obtain ⟨sound, le⟩ := h
      rw [up] at sound
      refine ⟨?_, ?_⟩
      · have rest_eq : s.client.outPackets.drop (s.taken + 1) = rest := by
          rw [← List.drop_drop, ← System.up, up]
          rfl
        have taken := sound.take now e
        rwa [← rest_eq] at taken
      · have : 0 < s.up.length := by
          rw [up]
          exact Nat.succ_pos _
        rw [System.up, List.length_drop] at this
        dsimp only
        omega

/-- It reads one of an earlier connection. -/
lemma sound_late (h : s.Sound acc) (now i : Nat) : (s.step (.late now i)).Sound acc := by
  rw [System.step]
  cases old : s.old[i]? with
  | none => exact h
  | some q =>
    dsimp only
    cases e : s.context.handle now q with
    | none => exact h
    | some r => exact ⟨h.1.late (List.mem_of_getElem? old) now e List.eraseIdx_subset, h.2⟩

/-- One event. -/
lemma sound_step (h : s.Sound acc) {e : Event} (once : e.Simple) (fresh : e.Fresh s) :
    (s.step e).Sound (acc ++ e.accepted s) := by
  have quiet : (s.step e).Sound acc → e.accepted s = [] → (s.step e).Sound (acc ++ e.accepted s) := by
    intro h none
    rwa [none, List.append_nil]
  cases e with
  | publish now topic payload qos retain => exact sound_publish h now topic payload retain once fresh
  | retry now => exact quiet (sound_retry h now) rfl
  | answer now => exact quiet (sound_answer h now) rfl
  | close => exact quiet h rfl
  | reconnect succeeds =>
    exact quiet ⟨h.1.reconnect.moved (resetLoop_moved _ _ _), Nat.zero_le _⟩ rfl
  | connect =>
    refine quiet ?_ rfl
    rw [System.step]
    split
    · exact ⟨{ h.1 with old := List.forall_mem_nil _, held := rfl }, h.2⟩
    · exact h
  | take now => exact quiet (sound_take h now) rfl
  | late now i => exact quiet (sound_late h now i) rfl
  | timeout now timeout =>
    refine quiet ?_ rfl
    rw [System.step, messageTimeoutCheck, h.1.held]
    exact ⟨{ h.1 with held := rfl }, h.2⟩
  | write =>
    refine quiet ?_ rfl
    rw [System.step]
    split
    · rw [h.1.held, messageWrite]
      dsimp only
      rw [List.append_nil]
      exact ⟨{ h.1 with held := rfl }, h.2⟩
    · exact h

/-- A run. -/
lemma sound_run (h : s.Sound acc) {es : List Event} (once : ∀ e ∈ es, e.Simple) (fresh : Fresh s es) :
    (s.run es).Sound (acc ++ accepted s es) := by
  induction es generalizing s acc with
  | nil =>
    rw [accepted, List.append_nil]
    exact h
  | cons e es ih =>
    rw [accepted, ← List.append_assoc]
    exact ih (sound_step h (once e List.mem_cons_self) fresh.1)
      (fun e' he' => once e' (List.mem_cons_of_mem _ he')) fresh.2

/-- Before the first connection. -/
lemma sound_start : System.start.Sound [] :=
  ⟨⟨List.forall_mem_nil _, List.forall_mem_nil _, List.forall_mem_nil _, List.forall_mem_nil _,
    fun _ hp => absurd hp List.not_mem_nil, List.forall_mem_nil _, rfl, List.forall_mem_nil _,
    List.forall_mem_nil _⟩, le_rfl⟩

/-- Every message that the library has accepted with quality of service 1 is still kept or has been
handed to the subscribers, and nothing else is ever handed to them than what has been published. -/
theorem nothing_lost (es : List Event) (once : ∀ e ∈ es, e.Simple) (fresh : Fresh .start es) :
    let s := System.start.run es
    (∀ p ∈ accepted .start es, (∃ x ∈ s.client.outMessages, x.core = p) ∨ p ∈ s.context.handed) ∧
      ∀ p ∈ s.context.handed, p.qos = 0 ∨ p ∈ accepted .start es := by
  have sound := (sound_run sound_start once fresh).1
  rw [List.nil_append] at sound
  exact ⟨sound.safe, sound.handed⟩

/-- An acknowledgement that does not arrive: the message is sent again, and handed on twice. -/
theorem nothing_lost_twice :
    let es : List Event := [.reconnect true, .connect, .publish 0 [97] [120] 1 false, .take 0, .close,
      .reconnect true, .connect, .retry 30, .take 30, .answer 30, .publish 31 [97] [121] 1 false]
    ∀ p ∈ accepted .start es, (∃ x ∈ (System.start.run es).client.outMessages, x.core = p) ∨
      p ∈ (System.start.run es).context.handed := by
  intro es
  have once : ∀ e ∈ es, e.Simple := by
    simp [es, Event.Simple]
  exact (nothing_lost es once (by decide +kernel)).1

end System

/-! ## Messages that ask for an acknowledgement -/

/-- All publications that are on their way or have arrived ask for an acknowledgement. -/
structure System.Asks (s : System) : Prop where
  up : ∀ p, .publish p ∈ s.client.outPackets → 0 < p.qos
  old : ∀ p, .publish p ∈ s.old → 0 < p.qos
  handed : ∀ p ∈ s.context.handed, 0 < p.qos

/-- An event in which nothing is published with a quality of service of 0. -/
def Event.Asks : Event → Prop
  | .publish _ _ _ qos _ => qos ≠ 0
  | _ => True

section Asks
variable {s : System} {acc : List Publish} {q : OutPacket} {c : Context} {sent : List Answer}

/-- The client sends more. -/
lemma System.Asks.sends (h : s.Asks) {m : Mosq} {extra : List OutPacket}
    (e : m.outPackets = s.client.outPackets ++ extra) (only : ∀ p, .publish p ∈ extra → 0 < p.qos)
    (down : List Answer) : System.Asks { s with client := m, down := down } where
  up p hp := by
    dsimp only at hp
    rw [e] at hp
    exact (List.mem_append.mp hp).elim (h.up p) (only p)
  old := h.old
  handed := h.handed

/-- What the broker hands on has been in a packet. -/
lemma handed_asks (h : s.Asks) (sound : s.Sound acc) (known : Known acc q)
    (pos : ∀ p, q = .publish p → 0 < p.qos) (now : Nat) (e : s.context.handle now q = some (c, sent)) :
    ∀ p ∈ c.handed, 0 < p.qos := by
  obtain ⟨p, rfl, -, rfl, -⟩ := handle_known sound.1.held known now e
  intro p' hp'
  rcases List.mem_append.mp hp' with before | new
  · exact h.handed p' before
  · rw [List.mem_singleton.mp new]
    exact pos p rfl

/-- `mosquitto_publish`. -/
lemma asks_publish (h : s.Asks) (now : Nat) (topic payload : Bytes) {qos : ℤ} (retain : Bool)
    (asks : qos ≠ 0) : (s.step (.publish now topic payload qos retain)).Asks := by
  rcases mosquittoPublish_cases now topic payload qos retain s.client with
    ⟨-, mid, extra, e, only⟩ | ⟨p, new, -, -, ⟨-, extra, e, only⟩ | ⟨-, e⟩⟩
  · rw [System.step, e]
    exact h.sends rfl (fun p hp => absurd (only _ hp).1 asks) s.down
  · have pos : 0 < p.qos := by
      rw [queued] at new
      split at new
      next range =>
        cases new
        dsimp only
        omega
      · cases new
    rw [System.step, e]
    refine h.sends rfl (fun p' hp' => ?_) s.down
    cases only _ hp'
    exact pos
  · rw [System.step, e]
    exact ⟨h.up, h.old, h.handed⟩

/-- A retry. -/
lemma asks_retry (h : s.Asks) (sound : s.Sound acc) (now : Nat) : (s.step (.retry now)).Asks := by
  rw [System.step, Mosq.step]
  split
  swap
  · exact h
  obtain ⟨extra, e, only⟩ := retryLoop_eq now [] s.client.outMessages s.client
  rw [messageRetryCheck, e]
  refine h.sends rfl (fun p hp => ?_) s.down
  obtain ⟨x, hx, sends⟩ := only _ hp
  have one : x.core.qos = 1 := (sound.1.kept x hx).1
  rw [sends.core.2] at one
  exact one ▸ Nat.one_pos

/-- The client reads an answer. -/
lemma asks_answer (h : s.Asks) (sound : s.Sound acc) (now : Nat) : (s.step (.answer now)).Asks := by
  rw [System.step]
  split
  · exact h
  next a rest down =>
  split
  swap
  · exact h
  next connected =>
  have puback := sound.1.answers
  rw [down] at puback
  obtain ⟨mid, rfl, -⟩ := puback a List.mem_cons_self
  rw [Answer.happening, Mosq.step, if_pos connected, handlePubackcomp, messageRemove]
  split
  · exact h.sends (List.append_nil _).symm (fun p hp => absurd hp List.not_mem_nil) rest
  next i found =>
  obtain ⟨ys, -, resends⟩ :=
    resendLoop_resends [] (s.client.outMessages.eraseIdx i) { s.client with
      inflightMessages := if (s.client.outMessages[i]?).any fun x => 0 < x.publish.qos then
        s.client.inflightMessages - 1 else s.client.inflightMessages }
  obtain ⟨extra, packets, only⟩ := resends.packets
  refine h.sends packets (fun p hp => ?_) rest
  obtain ⟨x, hx, -, e⟩ := only _ hp
  cases e
  rw [(sound.1.kept x (List.eraseIdx_subset hx)).1]
  exact Nat.one_pos

/-- One event. -/
lemma asks_step (h : s.Asks) (sound : s.Sound acc) {e : Event} (asks : e.Asks) : (s.step e).Asks := by
  have up : ∀ p, .publish p ∈ s.up → 0 < p.qos := fun p hp => h.up p (List.mem_of_mem_drop hp)
  cases e with
  | publish now topic payload qos retain => exact asks_publish h now topic payload retain asks
  | retry now => exact asks_retry h sound now
  | answer now => exact asks_answer h sound now
  | close => exact ⟨h.up, h.old, h.handed⟩
  | reconnect succeeds =>
    refine ⟨fun p hp => absurd hp List.not_mem_nil, fun p hp => ?_, h.handed⟩
    exact (List.mem_append.mp hp).elim (h.old p) (up p)
  | connect =>
    rw [System.step]
    split
    · exact ⟨h.up, fun p hp => absurd hp List.not_mem_nil, h.handed⟩
    · exact h
  | take now =>
    rw [System.step]
    split
    · exact h
    next q rest packets =>
    split
    swap
    · exact h
    have first : q ∈ s.up := packets ▸ List.mem_cons_self
    cases e : s.context.handle now q with
    | none => exact ⟨h.up, h.old, h.handed⟩
    | some r =>
      refine ⟨h.up, h.old, ?_⟩
      exact handed_asks h sound (sound.1.up q first) (fun p hp => up p (hp ▸ first)) now e
  | late now i =>
    rw [System.step]
    cases old : s.old[i]? with
    | none => exact h
    | some q =>
      dsimp only
      have first : q ∈ s.old := List.mem_of_getElem? old
      cases e : s.context.handle now q with
      | none => exact h
      | some r =>
        refine ⟨h.up, fun p hp => h.old p (List.eraseIdx_subset hp), ?_⟩
        exact handed_asks h sound (sound.1.old q first) (fun p hp => h.old p (hp ▸ first)) now e
  | timeout now timeout => exact ⟨h.up, h.old, h.handed⟩
  | write =>
    rw [System.step]
    split
    · exact ⟨h.up, h.old, h.handed⟩
    · exact h

/-- Before the first connection. -/
lemma asks_start : System.start.Asks :=
  ⟨fun _ hp => absurd hp List.not_mem_nil, fun _ hp => absurd hp List.not_mem_nil, List.forall_mem_nil _⟩

/-- In a run in which all calls ask for an acknowledgement, so does what is handed to the subscribers. -/
lemma asks_run (h : s.Asks) (sound : s.Sound acc) {es : List Event} (once : ∀ e ∈ es, e.Simple)
    (asks : ∀ e ∈ es, e.Asks) (fresh : Fresh s es) : (s.run es).Asks := by
  induction es generalizing s acc with
  | nil => exact h
  | cons e es ih =>
    obtain ⟨here, later⟩ := List.forall_mem_cons.mp once
    obtain ⟨here', later'⟩ := List.forall_mem_cons.mp asks
    exact ih (asks_step h sound here') (sound_step sound here fresh.1) later later' fresh.2

end Asks

end Powmon.Mqtt
