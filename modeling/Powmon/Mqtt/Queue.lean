import Powmon.Lib.Window
import Powmon.Mqtt.Packet

/-!
# The outgoing messages of the client

The messages that the daemon publishes with acknowledgement are kept by the MQTT library until they are
acknowledged: `mosquitto_publish` of `mosquitto.c` appends them, at most `max_inflight_messages` are sent
before the first acknowledgements come (`messages_mosq.c`), and after a connection is lost the library
starts again with what it has kept.

`inflight_messages` is not always the number of messages that have been sent: a reconnection counts
every message that is kept, but lets only `max_inflight_messages - 1` of them be sent. The difference
stays for the whole connection.

* `follows_run`: on one connection the library is a `Window` over the messages that it has kept;
* `window_run`: how much of the window is in use, and what is sent first;
* `stalls`: where a connection starts with too many messages, it sends the first
  `max_inflight_messages - 1` of them and nothing else, however many acknowledgements come and however
  much is published.

C → Lean naming: `struct mosquitto` is `Mosq`, with the fields that these functions use; `sock` is
`connected`, and `outPackets` are the packets put on the present connection so far. A call, and the
handling of a packet, is one step.
-/

namespace Powmon.Mqtt
open Lib

/-! ## The code -/

/-- `enum mosquitto_msg_state`, as far as outgoing messages use it. -/
inductive MsgState where
  | invalid
  | waitForPuback
  | waitForPubrec
  | waitForPubcomp
deriving DecidableEq

/-- `struct mosquitto_message_all`. -/
structure OutMessage where
  publish : Publish
  state : MsgState
  timestamp : Nat
deriving DecidableEq

/-- What the client puts on the connection for a message. -/
inductive OutPacket where
  | publish (p : Publish)
  | pubrel (mid : Nat) (dup : Bool)
deriving DecidableEq

/-- The results of the functions. -/
inductive Err where
  | success
  | inval
  | noConn
  | payloadSize
  | notFound
deriving DecidableEq

/-- `struct mosquitto` of the client. -/
structure Mosq where
  outMessages : List OutMessage
  inflightMessages : ℤ
  maxInflightMessages : ℤ
  lastMid : Nat
  messageRetry : Nat
  connected : Bool
  outPackets : List OutPacket
deriving DecidableEq

/-- The comparison before a message is sent. -/
def Mosq.HasRoom (m : Mosq) : Prop :=
  m.maxInflightMessages = 0 ∨ m.inflightMessages < m.maxInflightMessages

instance (m : Mosq) : Decidable m.HasRoom := inferInstanceAs (Decidable (_ ∨ _))

/-- `_mosquitto_topic_wildcard_len_check`. -/
def topicWildcardLenCheck (topic : Bytes) : Err :=
  if topic.any fun c => c = 0x2B ∨ c = 0x23 then .inval
  else if topic.length > 65535 then .inval
  else .success

/-- `_mosquitto_mid_generate`, on a `uint16_t`. -/
def midGenerate (lastMid : Nat) : Nat :=
  let mid := (lastMid + 1) % 65536
  if mid = 0 then mid + 1 else mid

/-- `_mosquitto_send_publish`. -/
def sendPublish (m : Mosq) (p : Publish) : Err × Mosq :=
  if m.connected then
    match sendRealPublish p with
    | none => (.payloadSize, m)
    | some _ => (.success, { m with outPackets := m.outPackets ++ [.publish p] })
  else (.noConn, m)

/-- `_mosquitto_send_pubrel`. -/
def sendPubrel (m : Mosq) (mid : Nat) (dup : Bool) : Mosq :=
  { m with outPackets := m.outPackets ++ [.pubrel mid dup] }

/-- The state of a message that has been sent. -/
def awaited (qos : Nat) : MsgState := if qos = 1 then .waitForPuback else .waitForPubrec

/-- `mosquitto_publish`. -/
def mosquittoPublish (now : Nat) (topic payload : Bytes) (qos : ℤ) (retain : Bool) (m : Mosq) :
    Err × Mosq :=
  if qos < 0 ∨ qos > 2 then (.inval, m)
  else if topic.length = 0 then (.inval, m)
  else if payload.length > 268435455 then (.payloadSize, m)
  else if topicWildcardLenCheck topic ≠ .success then (.inval, m)
  else
    let m := { m with lastMid := midGenerate m.lastMid }
    let p : Publish := ⟨false, qos.toNat, retain, topic, m.lastMid, payload⟩
    if qos = 0 then sendPublish m p
    else if m.HasRoom then
      sendPublish { m with outMessages := m.outMessages ++ [⟨p, awaited p.qos, now⟩],
                           inflightMessages := m.inflightMessages + 1 } p
    else (.success, { m with outMessages := m.outMessages ++ [⟨p, .invalid, now⟩] })

/-- The second loop of `_mosquitto_message_remove`, after the messages `pre`. -/
def resendLoop (pre : List OutMessage) : List OutMessage → Mosq → Err × Mosq
  | [], m => (.success, { m with outMessages := pre })
  | cur :: next, m =>
    if m.HasRoom then
      if 0 < cur.publish.qos ∧ cur.state = .invalid then
        let cur := { cur with state := awaited cur.publish.qos }
        match sendPublish { m with inflightMessages := m.inflightMessages + 1 } cur.publish with
        | (.success, m) => resendLoop (pre ++ [cur]) next m
        | (rc, m) => (rc, { m with outMessages := pre ++ cur :: next })
      else resendLoop (pre ++ [cur]) next m
    else (.success, { m with outMessages := pre ++ cur :: next })

/-- `_mosquitto_message_remove`, for outgoing messages. -/
def messageRemove (mid : Nat) (m : Mosq) : Err × Mosq :=
  match m.outMessages.findIdx? fun x => x.publish.mid = mid with
  | none => (.notFound, m)
  | some i =>
    let counted := (m.outMessages[i]?).any fun x => 0 < x.publish.qos
    resendLoop [] (m.outMessages.eraseIdx i)
      { m with inflightMessages := if counted then m.inflightMessages - 1 else m.inflightMessages }

/-- `_mosquitto_handle_pubackcomp`, which does not look at what `_mosquitto_message_delete` returns
except for the callback. -/
def handlePubackcomp (mid : Nat) (m : Mosq) : Err × Mosq := (.success, (messageRemove mid m).2)

/-- `_mosquitto_message_out_update`. -/
def messageOutUpdate (mid : Nat) (state : MsgState) (now : Nat) (m : Mosq) : Err × Mosq :=
  match m.outMessages.findIdx? fun x => x.publish.mid = mid with
  | none => (.notFound, m)
  | some i =>
    let update (x : OutMessage) := { x with state := state, timestamp := now }
    (.success, { m with outMessages := m.outMessages.modify i update })

/-- `_mosquitto_handle_pubrec`. -/
def handlePubrec (mid now : Nat) (m : Mosq) : Err × Mosq :=
  match messageOutUpdate mid .waitForPubcomp now m with
  | (.success, m) => (.success, sendPubrel m mid false)
  | (rc, m) => (rc, m)

/-- The loop of `_mosquitto_message_retry_check_actual`, after the messages `pre`. -/
def retryLoop (now : Nat) (pre : List OutMessage) : List OutMessage → Mosq → Mosq
  | [], m => { m with outMessages := pre }
  | x :: next, m =>
    if x.timestamp + m.messageRetry < now then
      let again := { x with timestamp := now, publish := { x.publish with dup := true } }
      match x.state with
      | .waitForPuback | .waitForPubrec =>
        retryLoop now (pre ++ [again]) next (sendPublish m again.publish).2
      | .waitForPubcomp =>
        retryLoop now (pre ++ [again]) next (sendPubrel m again.publish.mid true)
      | .invalid => retryLoop now (pre ++ [x]) next m
    else retryLoop now (pre ++ [x]) next m

/-- `_mosquitto_message_retry_check`, for outgoing messages. -/
def messageRetryCheck (now : Nat) (m : Mosq) : Mosq := retryLoop now [] m.outMessages m

/-- The loop over the outgoing messages of `_mosquitto_messages_reconnect_reset`. -/
def resetLoop (max : ℤ) : ℤ → List OutMessage → ℤ × List OutMessage
  | inflight, [] => (inflight, [])
  | inflight, x :: next =>
    let inflight := if 0 < x.publish.qos then inflight + 1 else inflight
    let x := { x with timestamp := 0 }
    let x :=
      if max = 0 ∨ inflight < max then
        if x.publish.qos = 1 then { x with state := .waitForPuback } else x
      else { x with state := .invalid }
    let (inflight, next) := resetLoop max inflight next
    (inflight, x :: next)

/-- `_mosquitto_reconnect`, whose `_mosquitto_socket_connect` succeeds or not. -/
def reconnect (succeeds : Bool) (m : Mosq) : Mosq :=
  let (inflight, messages) := resetLoop m.maxInflightMessages 0 m.outMessages
  { m with outMessages := messages, inflightMessages := inflight, outPackets := [],
           connected := succeeds }

/-- What happens to a client: a call, a packet from the broker, the check for messages to be sent
again, the loss of the connection, and a new one. -/
inductive Happening where
  | publish (now : Nat) (topic payload : Bytes) (qos : ℤ) (retain : Bool)
  | pubackcomp (mid : Nat)
  | pubrec (mid now : Nat)
  | retry (now : Nat)
  | close
  | reconnect (succeeds : Bool)

/-- `mosquitto_loop_read` and `mosquitto_loop_misc` do nothing without a socket, and close it on an
error. -/
def Mosq.step (m : Mosq) : Happening → Mosq
  | .publish now topic payload qos retain => (mosquittoPublish now topic payload qos retain m).2
  | .pubackcomp mid => if m.connected then (handlePubackcomp mid m).2 else m
  | .pubrec mid now =>
    if m.connected then
      match handlePubrec mid now m with
      | (.success, m) => m
      | (_, m) => { m with connected := false }
    else m
  | .retry now => if m.connected then messageRetryCheck now m else m
  | .close => { m with connected := false }
  | .reconnect succeeds => reconnect succeeds m

/-- A run. -/
def Mosq.run (m : Mosq) (hs : List Happening) : Mosq := hs.foldl Mosq.step m

/-! ## What the functions do -/

/-- The message itself: what is sent again is the same but for the flag. -/
def OutMessage.core (x : OutMessage) : Publish := { x.publish with dup := false }

/-- A message that is kept until it is acknowledged, and fits into a packet. -/
structure OutMessage.Acked (most : Nat) (x : OutMessage) : Prop where
  pos : 0 < x.publish.qos
  most : x.publish.qos ≤ most
  fits : x.publish.topic.length + x.publish.payload.length + 4 < 128 ^ 4

/-- A message when it has been sent. -/
def OutMessage.activate (x : OutMessage) : OutMessage := { x with state := awaited x.publish.qos }

/-- A message that has been sent waits for an answer. -/
lemma awaited_ne (qos : Nat) : awaited qos ≠ .invalid := by
  unfold awaited
  split <;> decide

section Functions
variable {m : Mosq} {x : OutMessage} {p : Publish} {pre as is : List OutMessage} {k : ℤ} {most : Nat}

/-- Sending touches only what is on the connection. -/
lemma sendPublish_eq (m : Mosq) (p : Publish) :
    ∃ extra, (sendPublish m p).2 = { m with outPackets := m.outPackets ++ extra } ∧
      ∀ q ∈ extra, q = .publish p := by
  unfold sendPublish
  split
  · split
    · exact ⟨[], by rw [List.append_nil], nofun⟩
    · exact ⟨[.publish p], rfl, by simp⟩
  · exact ⟨[], by rw [List.append_nil], nofun⟩

/-- Such a message can be sent. -/
lemma OutMessage.Acked.sendPublish (h : x.Acked most) (hm : m.connected) :
    sendPublish m x.publish =
      (.success, { m with outPackets := m.outPackets ++ [.publish x.publish] }) := by
  have written : ∃ bytes, sendRealPublish x.publish = some bytes := by
    have size := h.fits
    rw [sendRealPublish]
    simp only [h.pos, if_true]
    exact ⟨_, by rw [packetAlloc_eq_some_iff.mpr ⟨by omega, rfl⟩]; rfl⟩
  obtain ⟨bytes, written⟩ := written
  rw [Mqtt.sendPublish, if_pos hm, written]

/-- The window is full. -/
lemma not_hasRoom_iff (hk : 0 < k) (hm : m.maxInflightMessages = k) :
    ¬ m.HasRoom ↔ k ≤ m.inflightMessages := by
  unfold Mosq.HasRoom
  omega

/-- The loop goes past the messages that have been sent. -/
lemma resendLoop_active (has : ∀ a ∈ as, a.state ≠ .invalid) (hroom : m.HasRoom) :
    resendLoop pre (as ++ is) m = resendLoop (pre ++ as) is m := by
  induction as generalizing pre with
  | nil => rw [List.append_nil, List.nil_append]
  | cons a as ih =>
    have sent : ¬ (0 < a.publish.qos ∧ a.state = .invalid) :=
      fun unsent => has a List.mem_cons_self unsent.2
    rw [List.cons_append, resendLoop, if_pos hroom, if_neg sent,
      ih fun a ha => has a (List.mem_cons_of_mem _ ha), List.append_assoc, List.singleton_append]

/-- Then nothing is sent. -/
lemma resendLoop_full (hroom : ¬ m.HasRoom) :
    resendLoop pre is m = (.success, { m with outMessages := pre ++ is }) := by
  cases is with
  | nil => rw [resendLoop, List.append_nil]
  | cons i is => rw [resendLoop, if_neg hroom]

/-- The loop sends the first of the messages that wait, as far as there is room. -/
lemma resendLoop_waiting (hk : 0 < k) (hm : m.maxInflightMessages = k) (hc : m.connected)
    (his : ∀ i ∈ is, i.Acked most ∧ i.state = .invalid) :
    resendLoop pre is m =
      let moved := is.take (k - m.inflightMessages).toNat
      (.success, { m with
        outMessages := pre ++ moved.map OutMessage.activate ++
          is.drop (k - m.inflightMessages).toNat
        inflightMessages := m.inflightMessages + moved.length
        outPackets := m.outPackets ++ moved.map fun i => .publish i.publish }) := by
  induction is generalizing pre m with
  | nil => simp [resendLoop]
  | cons i is ih =>
    obtain ⟨acked, unsent⟩ := his i List.mem_cons_self
    by_cases room : m.HasRoom
    · have some_room : ∃ r, (k - m.inflightMessages).toNat = r + 1 ∧
          (k - (m.inflightMessages + 1)).toNat = r := by
        rw [← not_not (a := m.HasRoom), not_hasRoom_iff hk hm] at room
        exact ⟨(k - (m.inflightMessages + 1)).toNat, by omega, rfl⟩
      obtain ⟨r, hr, hr'⟩ := some_room
      have sent := acked.sendPublish (m := { m with inflightMessages := m.inflightMessages + 1 }) hc
      have waits : 0 < i.publish.qos ∧ i.state = .invalid := ⟨acked.pos, unsent⟩
      rw [resendLoop, if_pos room, if_pos waits]
      dsimp only
      rw [sent]
      dsimp only
      rw [ih (by exact hm) (by exact hc) fun i hi => his i (List.mem_cons_of_mem _ hi)]
      dsimp only
      rw [hr, hr', List.take_succ_cons, List.drop_succ_cons]
      simp only [OutMessage.activate, List.map_cons, List.length_cons, List.append_assoc,
        List.cons_append, List.nil_append, Nat.cast_add, Nat.cast_one, Prod.mk.injEq, true_and,
        Mosq.mk.injEq, and_self, and_true]
      ring
    · rw [resendLoop_full room]
      have none_left : (k - m.inflightMessages).toNat = 0 := by
        rw [not_hasRoom_iff hk hm] at room
        omega
      simp [none_left]

/-- What the loop does to messages of which the first have been sent. -/
lemma resendLoop_eq (hk : 0 < k) (hm : m.maxInflightMessages = k) (hc : m.connected)
    (has : ∀ a ∈ as, a.state ≠ .invalid) (his : ∀ i ∈ is, i.Acked most ∧ i.state = .invalid) :
    (resendLoop [] (as ++ is) m).2 =
      let moved := is.take (k - m.inflightMessages).toNat
      { m with
        outMessages := (as ++ moved.map OutMessage.activate) ++
          is.drop (k - m.inflightMessages).toNat
        inflightMessages := m.inflightMessages + moved.length
        outPackets := m.outPackets ++ moved.map fun i => .publish i.publish } := by
  by_cases room : m.HasRoom
  · rw [resendLoop_active has room, List.nil_append, resendLoop_waiting hk hm hc his]
  · rw [resendLoop_full room]
    have none_left : (k - m.inflightMessages).toNat = 0 := by
      rw [not_hasRoom_iff hk hm] at room
      omega
    simp [none_left]

/-- What a check for messages to be sent again makes of a message. -/
def OutMessage.retried (now retry : Nat) (x : OutMessage) : OutMessage :=
  if x.timestamp + retry < now ∧ x.state ≠ .invalid then
    { x with timestamp := now, publish := { x.publish with dup := true } }
  else x

/-- The packets that the check puts on the connection for a message. -/
def OutMessage.Sends (x : OutMessage) (q : OutPacket) : Prop :=
  match x.state with
  | .invalid => False
  | .waitForPuback | .waitForPubrec => q = .publish { x.publish with dup := true }
  | .waitForPubcomp => q = .pubrel x.publish.mid true

/-- A publication is sent again as it was, but for the flag. -/
lemma OutMessage.Sends.core (h : x.Sends (.publish p)) :
    x.state ≠ .invalid ∧ x.core = { p with dup := false } := by
  rw [OutMessage.Sends] at h
  split at h
  · exact h.elim
  next state =>
    cases h
    exact ⟨by rw [state]; decide, rfl⟩
  next state =>
    cases h
    exact ⟨by rw [state]; decide, rfl⟩
  · cases h

/-- A retry, message by message. -/
lemma retryLoop_cons (now : Nat) (pre xs : List OutMessage) (x : OutMessage) (m : Mosq) :
    ∃ extra, retryLoop now pre (x :: xs) m =
        retryLoop now (pre ++ [x.retried now m.messageRetry]) xs
          { m with outPackets := m.outPackets ++ extra } ∧
      ∀ q ∈ extra, x.Sends q := by
  by_cases late : x.timestamp + m.messageRetry < now
  · have again : x.state ≠ .invalid → x.retried now m.messageRetry =
        { x with timestamp := now, publish := { x.publish with dup := true } } :=
      fun sent => if_pos ⟨late, sent⟩
    obtain ⟨extra, e, only⟩ := sendPublish_eq m { x.publish with dup := true }
    cases hx : x.state with
    | invalid =>
      refine ⟨[], ?_, nofun⟩
      rw [retryLoop, if_pos late, hx, OutMessage.retried, if_neg (by simp [hx]), List.append_nil]
    | waitForPuback =>
      refine ⟨extra, ?_, fun q hq => by rw [OutMessage.Sends, hx]; exact only q hq⟩
      rw [retryLoop, if_pos late, hx, again (by rw [hx]; decide)]
      dsimp only
      rw [e, hx]
    | waitForPubrec =>
      refine ⟨extra, ?_, fun q hq => by rw [OutMessage.Sends, hx]; exact only q hq⟩
      rw [retryLoop, if_pos late, hx, again (by rw [hx]; decide)]
      dsimp only
      rw [e, hx]
    | waitForPubcomp =>
      refine ⟨[.pubrel x.publish.mid true], ?_, fun q hq => ?_⟩
      · rw [retryLoop, if_pos late, hx, again (by rw [hx]; decide)]
        dsimp only
        rw [hx]
        rfl
      · rw [OutMessage.Sends, hx]
        exact List.mem_singleton.mp hq
  · refine ⟨[], ?_, nofun⟩
    rw [retryLoop, if_neg late, OutMessage.retried, if_neg (by simp [late]), List.append_nil]

/-- The check sends again what has been sent. -/
lemma retryLoop_eq (now : Nat) (pre xs : List OutMessage) (m : Mosq) :
    ∃ extra, retryLoop now pre xs m = { m with
        outMessages := pre ++ xs.map (OutMessage.retried now m.messageRetry)
        outPackets := m.outPackets ++ extra } ∧
      ∀ q ∈ extra, ∃ x ∈ xs, x.Sends q := by
  induction xs generalizing pre m with
  | nil => exact ⟨[], by simp [retryLoop], nofun⟩
  | cons x xs ih =>
    obtain ⟨one, e, only⟩ := retryLoop_cons now pre xs x m
    obtain ⟨more, e', only'⟩ := ih (pre ++ [x.retried now m.messageRetry])
      { m with outPackets := m.outPackets ++ one }
    refine ⟨one ++ more, ?_, fun q hq => ?_⟩
    · rw [e, e', List.map_cons]
      simp only [List.append_assoc, List.singleton_append]
    · rcases List.mem_append.mp hq with hq | hq
      · exact ⟨x, List.mem_cons_self, only q hq⟩
      · obtain ⟨y, hy, sends⟩ := only' q hq
        exact ⟨y, List.mem_cons_of_mem _ hy, sends⟩

/-- A reconnection counts all messages, and lets one less be sent than there is room for. -/
lemma resetLoop_eq (hk : 0 < k) {xs : List OutMessage} (h : ∀ x ∈ xs, x.Acked 1) (n : ℤ) :
    resetLoop k n xs = (n + xs.length,
      (xs.take (k - 1 - n).toNat).map (fun x => { x with timestamp := 0, state := .waitForPuback }) ++
        (xs.drop (k - 1 - n).toNat).map fun x => { x with timestamp := 0, state := .invalid }) := by
  induction xs generalizing n with
  | nil => simp [resetLoop]
  | cons x xs ih =>
    have acked := h x List.mem_cons_self
    have counted : (if 0 < x.publish.qos then n + 1 else n) = n + 1 := if_pos acked.pos
    have qos : x.publish.qos = 1 := Nat.le_antisymm acked.most acked.pos
    rw [resetLoop]
    dsimp only
    rw [counted, ih fun y hy => h y (List.mem_cons_of_mem _ hy)]
    dsimp only
    rw [if_pos qos]
    by_cases room : n + 1 < k
    · have first : (k - 1 - n).toNat = (k - 1 - (n + 1)).toNat + 1 := by omega
      rw [if_pos (.inr room), first, List.take_succ_cons, List.drop_succ_cons, List.length_cons,
        Nat.cast_add, Nat.cast_one, add_assoc, add_comm 1]
      rfl
    · have none_left : (k - 1 - n).toNat = 0 ∧ (k - 1 - (n + 1)).toNat = 0 := by omega
      rw [if_neg (by omega), none_left.1, none_left.2, List.length_cons, Nat.cast_add, Nat.cast_one,
        add_assoc, add_comm 1]
      rfl

end Functions

/-! ## One connection -/

/-- The calls of a client that publishes with a quality of service of at most `most`, and nothing too
long for a packet. -/
def Happening.Small (most : Nat) : Happening → Prop
  | .publish _ topic payload qos _ => qos ≤ most ∧ topic.length + payload.length + 4 < 128 ^ 4
  | _ => True

/-- The message that the broker means with `mid` has been sent. -/
def Mosq.Means (m : Mosq) (mid : Nat) : Prop :=
  ∀ x ∈ m.outMessages.find? fun x => x.publish.mid = mid, x.state ≠ .invalid

instance (m : Mosq) (mid : Nat) : Decidable (m.Means mid) := inferInstanceAs (Decidable (∀ _ ∈ _, _))

/-- What happens to it on one connection. -/
def Happening.Fair (most : Nat) (m : Mosq) (e : Happening) : Prop :=
  e.Small most ∧ match e with
    | .pubackcomp mid => m.Means mid
    | .pubrec mid _ => m.Means mid
    | .reconnect _ => False
    | _ => True

/-- Every acknowledgement of the run is fair. -/
def Fair (most : Nat) : Mosq → List Happening → Prop
  | _, [] => True
  | m, h :: hs => h.Fair most m ∧ Fair most (m.step h) hs

/-- The message that a call adds to those that are kept. -/
def queued (m : Mosq) : Happening → List Publish
  | .publish _ topic payload qos retain =>
    if (0 < qos ∧ qos ≤ 2) ∧ topic.length ≠ 0 ∧ payload.length ≤ 268435455 ∧
        topicWildcardLenCheck topic = .success then
      [⟨false, qos.toNat, retain, topic, midGenerate m.lastMid, payload⟩]
    else []
  | _ => []

/-- The messages that a run adds. -/
def allQueued : Mosq → List Happening → List Publish
  | _, [] => []
  | m, h :: hs => queued m h ++ allQueued (m.step h) hs

/-- The messages that have been sent stand in front of those that wait. -/
def Mosq.Shows (most : Nat) (m : Mosq) (w : Window Publish) : Prop :=
  ∃ as is, m.outMessages = as ++ is ∧ (∀ a ∈ as, a.Acked most ∧ a.state ≠ .invalid) ∧
    (∀ i ∈ is, i.Acked most ∧ i.state = .invalid) ∧
    w = ⟨as.map OutMessage.core, is.map OutMessage.core, m.inflightMessages⟩

/-- What is on the connection of the messages that are kept. -/
def Mosq.SentFrom (m : Mosq) (A : List Publish) : Prop :=
  ∀ p, .publish p ∈ m.outPackets → p.qos = 0 ∨ { p with dup := false } ∈ A

section Step
variable {m m' : Mosq} {w : Window Publish} {k : ℤ} {A : List Publish} {most : Nat}

/-- What `mosquitto_publish` does: it adds nothing to the messages, or one that it sends if there is
room. -/
lemma mosquittoPublish_cases (now : Nat) (topic payload : Bytes) (qos : ℤ) (retain : Bool) (m : Mosq) :
    let m' := m.step (.publish now topic payload qos retain)
    let new := queued m (.publish now topic payload qos retain)
    (new = [] ∧ ∃ mid extra, m' = { m with lastMid := mid, outPackets := m.outPackets ++ extra } ∧
      ∀ q ∈ extra, qos = 0 ∧ ∃ p, q = .publish p ∧ p.qos = 0) ∨
    ∃ p : Publish, new = [p] ∧ p.mid = midGenerate m.lastMid ∧ p.dup = false ∧
      ((m.HasRoom ∧ ∃ extra, m' = { m with
          lastMid := p.mid
          outMessages := m.outMessages ++ [⟨p, awaited p.qos, now⟩]
          inflightMessages := m.inflightMessages + 1
          outPackets := m.outPackets ++ extra } ∧ ∀ q ∈ extra, q = .publish p) ∨
        (¬ m.HasRoom ∧ m' = { m with
          lastMid := p.mid, outMessages := m.outMessages ++ [⟨p, .invalid, now⟩] })) := by
  dsimp only [Mosq.step, queued]
  have unchanged : m = { m with lastMid := m.lastMid, outPackets := m.outPackets ++ [] } := by
    rw [List.append_nil]
  unfold mosquittoPublish
  by_cases range : qos < 0 ∨ qos > 2
  · exact .inl ⟨if_neg (by omega), _, [], by rw [if_pos range]; exact unchanged, nofun⟩
  rw [if_neg range]
  by_cases empty : topic.length = 0
  · exact .inl ⟨if_neg (by simp [empty]), _, [], by rw [if_pos empty]; exact unchanged, nofun⟩
  rw [if_neg empty]
  by_cases long : payload.length > 268435455
  · exact .inl ⟨if_neg (by omega), _, [], by rw [if_pos long]; exact unchanged, nofun⟩
  rw [if_neg long]
  by_cases wild : topicWildcardLenCheck topic ≠ .success
  · exact .inl ⟨if_neg (by simp [wild]), _, [], by rw [if_pos wild]; exact unchanged, nofun⟩
  rw [if_neg wild]
  dsimp only
  have accepted : topic.length ≠ 0 ∧ payload.length ≤ 268435455 ∧
      topicWildcardLenCheck topic = .success := ⟨empty, not_lt.mp long, not_not.mp wild⟩
  by_cases zero : qos = 0
  · obtain ⟨extra, e, only⟩ := sendPublish_eq { m with lastMid := midGenerate m.lastMid }
      ⟨false, qos.toNat, retain, topic, midGenerate m.lastMid, payload⟩
    rw [if_pos zero]
    exact .inl ⟨if_neg (by simp [zero]), midGenerate m.lastMid, extra, e, fun q hq =>
      ⟨zero, _, only q hq, by simp [zero]⟩⟩
  · rw [if_neg zero, if_pos ⟨by omega, accepted⟩]
    refine .inr ⟨_, rfl, rfl, rfl, ?_⟩
    by_cases room : m.HasRoom
    · obtain ⟨extra, e, only⟩ := sendPublish_eq
        { m with lastMid := midGenerate m.lastMid
                 outMessages := m.outMessages ++
                   [⟨⟨false, qos.toNat, retain, topic, midGenerate m.lastMid, payload⟩,
                     awaited qos.toNat, now⟩]
                 inflightMessages := m.inflightMessages + 1 }
        ⟨false, qos.toNat, retain, topic, midGenerate m.lastMid, payload⟩
      refine .inl ⟨room, extra, (congrArg Prod.snd (if_pos ?_)).trans e, only⟩
      exact room
    · refine .inr ⟨room, (congrArg Prod.snd (if_neg ?_)).trans rfl⟩
      exact room

/-- A message that is added is such a message. -/
lemma acked_of_queued {now : Nat} {topic payload : Bytes} {qos : ℤ} {retain : Bool} {p : Publish}
    (small : Happening.Small most (.publish now topic payload qos retain))
    (new : queued m (.publish now topic payload qos retain) = [p]) (state : MsgState) :
    OutMessage.Acked most ⟨p, state, now⟩ := by
  obtain ⟨bound, fits⟩ := small
  rw [queued] at new
  split at new
  next h =>
    cases new
    exact ⟨by simp only; omega, by simp only; omega, fits⟩
  next => cases new

/-- What a step does in terms of the window: operations that add the message queued, while everything
that is put on the connection of the messages has been active. -/
def Follows (most : Nat) (k : ℤ) (w : Window Publish) (new : List Publish) (m m' : Mosq) : Prop :=
  ∃ ops, m'.Shows most (w.run k ops) ∧ Window.pushed ops = new ∧
    m'.maxInflightMessages = m.maxInflightMessages ∧
    ∀ A : List Publish, w.active ⊆ A → (w.run k ops).active ⊆ A → m.SentFrom A → m'.SentFrom A

/-- `mosquitto_publish`. -/
lemma follows_publish (hk : 0 < k) (hm : m.maxInflightMessages = k) (h : m.Shows most w)
    (full : w.Full k) (now : Nat) (topic payload : Bytes) {qos : ℤ} (retain : Bool)
    (small : Happening.Small most (.publish now topic payload qos retain)) :
    Follows most k w (queued m (.publish now topic payload qos retain)) m
      (m.step (.publish now topic payload qos retain)) := by
  obtain ⟨as, is, split, sent, unsent, rfl⟩ := h
  rcases mosquittoPublish_cases now topic payload qos retain m with
    ⟨new, mid, extra, e, only⟩ | ⟨p, new, -, dup, ⟨room, extra, e, only⟩ | ⟨room, e⟩⟩
  · rw [new, e]
    refine ⟨[], ⟨as, is, split, sent, unsent, rfl⟩, rfl, rfl, fun A _ _ from_ p hp => ?_⟩
    rcases List.mem_append.mp hp with old | more
    · exact from_ p old
    · obtain ⟨-, p', ⟨⟩, zero⟩ := only _ more
      exact .inl zero
  · -- the message is sent: nothing waits, or there would be no room
    have few : m.inflightMessages < k := by
      rw [← not_not (a := m.HasRoom), not_hasRoom_iff hk hm] at room
      omega
    have nothing : is = [] := by
      by_contra some_left
      have := full (by simpa using some_left)
      dsimp only at this
      omega
    subst nothing
    have core : OutMessage.core ⟨p, awaited p.qos, now⟩ = p := by rw [OutMessage.core, ← dup]
    have pushed : Window.run k [.push p] ⟨as.map OutMessage.core, [], m.inflightMessages⟩ =
        ⟨as.map OutMessage.core ++ [p], [], m.inflightMessages + 1⟩ := if_pos few
    have acked := acked_of_queued small new (awaited p.qos)
    rw [new, e]
    refine ⟨[.push _], ⟨as ++ [⟨p, awaited p.qos, now⟩], [], ?_, ?_, List.forall_mem_nil _,
      pushed.trans ?_⟩, rfl, rfl, ?_⟩
    · rw [split, List.append_nil, List.append_nil]
    · intro a ha
      rcases List.mem_append.mp ha with old | new
      · exact sent a old
      · rw [List.mem_singleton.mp new]
        exact ⟨acked, awaited_ne p.qos⟩
    · rw [List.map_append, List.map_singleton, core]
      rfl
    · intro A _ active from_ p' hp'
      rcases List.mem_append.mp hp' with old | more
      · exact from_ p' old
      · cases only _ more
        refine .inr (active ?_)
        rw [List.map_nil, pushed, ← dup]
        exact List.mem_append_right _ (List.mem_singleton_self _)
  · have many := (not_hasRoom_iff hk hm).mp room
    have core : OutMessage.core ⟨p, .invalid, now⟩ = p := by rw [OutMessage.core, ← dup]
    have pushed : Window.run k [.push p]
        ⟨as.map OutMessage.core, is.map OutMessage.core, m.inflightMessages⟩ =
        ⟨as.map OutMessage.core, is.map OutMessage.core ++ [p], m.inflightMessages⟩ :=
      if_neg (not_lt.mpr many)
    have acked := acked_of_queued small new .invalid
    rw [new, e]
    refine ⟨[.push _], ⟨as, is ++ [⟨p, .invalid, now⟩], ?_, sent, ?_, pushed.trans ?_⟩, rfl, rfl,
      fun A _ _ from_ => from_⟩
    · rw [split, List.append_assoc]
    · intro i hi
      rcases List.mem_append.mp hi with old | new
      · exact unsent i old
      · rw [List.mem_singleton.mp new]
        exact ⟨acked, rfl⟩
    · rw [List.map_append, List.map_singleton, core]

/-- Where the message that is meant stands. -/
lemma Mosq.Means.lt {mid i : Nat} {as is : List OutMessage} (means : m.Means mid)
    (split : m.outMessages = as ++ is) (unsent : ∀ x ∈ is, x.state = .invalid)
    (found : (m.outMessages.findIdx? fun x => x.publish.mid = mid) = some i) : i < as.length := by
  obtain ⟨hi, is_it, is_first⟩ := List.findIdx?_eq_some_iff_getElem.mp found
  by_contra late
  have first : m.outMessages[i] ∈ m.outMessages.find? fun x => x.publish.mid = mid :=
    List.find?_eq_some_iff_getElem.mpr ⟨is_it, i, hi, rfl, by simpa using is_first⟩
  have wait : m.outMessages[i] ∈ is := by
    simp only [split, List.getElem_append_right (not_lt.mp late)]
    exact List.getElem_mem _
  exact means _ first (unsent _ wait)

/-- An acknowledgement. -/
lemma follows_pubackcomp (hk : 0 < k) (hm : m.maxInflightMessages = k) (h : m.Shows most w)
    {mid : Nat} (means : m.Means mid) : Follows most k w [] m (m.step (.pubackcomp mid)) := by
  obtain ⟨as, is, split, sent, unsent, rfl⟩ := h
  have stays : Follows most k ⟨as.map OutMessage.core, is.map OutMessage.core, m.inflightMessages⟩ []
      m m :=
    ⟨[], ⟨as, is, split, sent, unsent, rfl⟩, rfl, rfl, fun A _ _ from_ => from_⟩
  rw [Mosq.step]
  split
  swap
  · exact stays
  next hc =>
  rw [handlePubackcomp, messageRemove]
  cases found : m.outMessages.findIdx? fun x => x.publish.mid = mid with
  | none => exact stays
  | some i =>
    have acked := means.lt split (fun x hx => (unsent x hx).2) found
    have counted : ((m.outMessages[i]?).any fun x => 0 < x.publish.qos) = true := by
      rw [split, List.getElem?_append_left acked, List.getElem?_eq_getElem acked, Option.any_some]
      exact decide_eq_true (sent _ (List.getElem_mem acked)).1.pos
    dsimp only
    rw [counted, if_pos rfl, split, List.eraseIdx_append_of_lt_length acked,
      resendLoop_eq hk (by exact hm) (by exact hc)
        (fun a ha => (sent a (List.mem_of_mem_eraseIdx ha)).2) unsent]
    dsimp only
    have done : Window.run k [.done i] ⟨as.map OutMessage.core, is.map OutMessage.core,
        m.inflightMessages⟩ =
        ⟨((as.eraseIdx i) ++ (is.take (k - (m.inflightMessages - 1)).toNat).map
            OutMessage.activate).map OutMessage.core,
          (is.drop (k - (m.inflightMessages - 1)).toNat).map OutMessage.core,
          m.inflightMessages - 1 + (is.take (k - (m.inflightMessages - 1)).toNat).length⟩ := by
      refine (if_pos (by rwa [List.length_map])).trans ?_
      simp only [Window.refill, List.map_append, List.map_map, List.map_take, List.map_drop,
        List.length_take, List.length_map, List.eraseIdx_map]
      rfl
    refine ⟨[.done i], ⟨_, _, rfl, ?_, ?_, done⟩, rfl, rfl, fun A _ active from_ p hp => ?_⟩
    · intro a ha
      rcases List.mem_append.mp ha with old | new
      · exact sent a (List.mem_of_mem_eraseIdx old)
      · obtain ⟨i, hi, rfl⟩ := List.mem_map.mp new
        obtain ⟨pos, most, fits⟩ := (unsent i (List.mem_of_mem_take hi)).1
        exact ⟨⟨pos, most, fits⟩, awaited_ne _⟩
    · exact fun i hi => unsent i (List.mem_of_mem_drop hi)
    · rcases List.mem_append.mp hp with old | more
      · exact from_ p old
      · obtain ⟨i, hi, ⟨⟩⟩ := List.mem_map.mp more
        refine .inr (active ?_)
        rw [done]
        exact List.mem_map.mpr ⟨i.activate, List.mem_append_right _ (List.mem_map_of_mem hi), rfl⟩

/-- The packet of an update is that of the message that is meant, which is the same but for the state. -/
lemma follows_pubrec (h : m.Shows most w) {mid : Nat} (means : m.Means mid) (now : Nat) :
    Follows most k w [] m (m.step (.pubrec mid now)) := by
  obtain ⟨as, is, split, sent, unsent, rfl⟩ := h
  rw [Mosq.step]
  split
  swap
  · exact ⟨[], ⟨as, is, split, sent, unsent, rfl⟩, rfl, rfl, fun A _ _ from_ => from_⟩
  rw [handlePubrec, messageOutUpdate]
  cases found : m.outMessages.findIdx? fun x => x.publish.mid = mid with
  | none => exact ⟨[], ⟨as, is, split, sent, unsent, rfl⟩, rfl, rfl, fun A _ _ from_ => from_⟩
  | some i =>
    have meant := means.lt split (fun x hx => (unsent x hx).2) found
    dsimp only
    have front : m.outMessages.modify i (fun x => { x with state := .waitForPubcomp, timestamp := now }) =
        as.modify i (fun x => { x with state := .waitForPubcomp, timestamp := now }) ++ is := by
      rw [split, List.modify_eq_take_cons_drop (by rw [List.length_append]; omega),
        List.modify_eq_take_cons_drop meant, List.take_append_of_le_length meant.le,
        List.drop_append_of_le_length meant, List.getElem_append_left meant]
      simp only [List.append_assoc, List.cons_append]
    refine ⟨[], ⟨_, is, front, ?_, unsent, ?_⟩, rfl, rfl, fun A _ _ from_ p hp => ?_⟩
    · intro a ha
      rw [List.modify_eq_take_cons_drop meant] at ha
      simp only [List.mem_append, List.mem_cons] at ha
      rcases ha with old | rfl | old
      · exact sent a (List.mem_of_mem_take old)
      · obtain ⟨pos, most, fits⟩ := (sent _ (List.getElem_mem meant)).1
        exact ⟨⟨pos, most, fits⟩, MsgState.noConfusion⟩
      · exact sent a (List.mem_of_mem_drop old)
    · have core : (as.modify i fun x => { x with state := .waitForPubcomp, timestamp := now }).map
          OutMessage.core = as.map OutMessage.core := by
        rw [List.modify_eq_take_cons_drop meant, List.map_append, List.map_cons]
        conv_rhs => rw [← List.take_append_drop i as, List.drop_eq_getElem_cons meant, List.map_append,
          List.map_cons]
        rfl
      rw [core]
      rfl
    · rcases List.mem_append.mp hp with old | more
      · exact from_ p old
      · cases List.mem_singleton.mp more

/-- A retry keeps the message and its state. -/
lemma OutMessage.retried_same (now retry : Nat) (x : OutMessage) :
    (x.retried now retry).core = x.core ∧ (x.retried now retry).state = x.state := by
  unfold OutMessage.retried
  split <;> exact ⟨rfl, rfl⟩

/-- It stays such a message. -/
lemma OutMessage.Acked.retried {x : OutMessage} (h : x.Acked most) (now retry : Nat) :
    (x.retried now retry).Acked most := by
  unfold OutMessage.retried
  split
  · exact ⟨h.pos, h.most, h.fits⟩
  · exact h

/-- A retry. -/
lemma follows_retry (h : m.Shows most w) (now : Nat) : Follows most k w [] m (m.step (.retry now)) := by
  obtain ⟨as, is, split, sent, unsent, rfl⟩ := h
  rw [Mosq.step]
  split
  swap
  · exact ⟨[], ⟨as, is, split, sent, unsent, rfl⟩, rfl, rfl, fun A _ _ from_ => from_⟩
  obtain ⟨extra, e, only⟩ := retryLoop_eq now [] m.outMessages m
  rw [messageRetryCheck, e]
  have same : ∀ xs : List OutMessage,
      (xs.map (OutMessage.retried now m.messageRetry)).map OutMessage.core =
        xs.map OutMessage.core := by
    intro xs
    rw [List.map_map]
    exact List.map_congr_left fun x _ => (x.retried_same now m.messageRetry).1
  refine ⟨[], ⟨as.map (OutMessage.retried now m.messageRetry),
    is.map (OutMessage.retried now m.messageRetry), ?_, ?_, ?_, ?_⟩, rfl, rfl, ?_⟩
  · rw [split, List.map_append]
    rfl
  · intro a ha
    obtain ⟨x, hx, rfl⟩ := List.mem_map.mp ha
    exact ⟨(sent x hx).1.retried now m.messageRetry,
      (x.retried_same now m.messageRetry).2.trans_ne (sent x hx).2⟩
  · intro i hi
    obtain ⟨x, hx, rfl⟩ := List.mem_map.mp hi
    exact ⟨(unsent x hx).1.retried now m.messageRetry,
      (x.retried_same now m.messageRetry).2.trans (unsent x hx).2⟩
  · rw [same, same]
    rfl
  · intro A active _ from_ p hp
    rcases List.mem_append.mp hp with old | more
    · exact from_ p old
    · obtain ⟨x, hx, sends⟩ := only _ more
      obtain ⟨state, core⟩ := sends.core
      refine .inr (active ?_)
      rw [split] at hx
      rcases List.mem_append.mp hx with ha | hi
      · exact List.mem_map.mpr ⟨x, ha, core⟩
      · exact absurd (unsent x hi).2 state

/-- Whatever happens on one connection is some operations of the window. -/
lemma follows_step (hk : 0 < k) (hm : m.maxInflightMessages = k) (h : m.Shows most w)
    (full : w.Full k) {e : Happening} (fair : e.Fair most m) :
    Follows most k w (queued m e) m (m.step e) := by
  cases e with
  | publish now topic payload qos retain =>
    exact follows_publish hk hm h full now topic payload retain fair.1
  | pubackcomp mid => exact follows_pubackcomp hk hm h fair.2
  | pubrec mid now => exact follows_pubrec h fair.2 now
  | retry now => exact follows_retry h now
  | close => exact ⟨[], h, rfl, rfl, fun A _ _ from_ => from_⟩
  | reconnect succeeds => exact fair.2.elim

/-- On one connection the library is a window over the messages it has kept. -/
lemma follows_run (hk : 0 < k) (hm : m.maxInflightMessages = k) (h : m.Shows most w)
    (full : w.Full k) {hs : List Happening} (fair : Fair most m hs) :
    ∃ ops, (m.run hs).Shows most (w.run k ops) ∧ Window.pushed ops = allQueued m hs ∧
      ∀ A : List Publish, (∀ ops', ops' <+: ops → (w.run k ops').active ⊆ A) → m.SentFrom A →
        (m.run hs).SentFrom A := by
  induction hs generalizing m w with
  | nil => exact ⟨[], h, rfl, fun A _ from_ => from_⟩
  | cons e hs ih =>
    obtain ⟨one, shows_, new, max, sent⟩ := follows_step hk hm h full fair.1
    obtain ⟨more, shows', new', sent'⟩ := ih (max.trans hm) shows_ (Window.full_run full one) fair.2
    refine ⟨one ++ more, ?_, ?_, fun A active from_ => ?_⟩
    · rw [Window.run_append]
      exact shows'
    · rw [allQueued, ← new, ← new', Window.pushed, List.filterMap_append]
      rfl
    · refine sent' A (fun ops' isPrefix => ?_) (sent A ?_ ?_ from_)
      · rw [← Window.run_append]
        exact active _ ((List.prefix_append_right_inj one).mpr isPrefix)
      · exact active [] (List.nil_prefix)
      · exact active one (List.prefix_append _ _)

end Step

/-! ## Any number of connections -/

/-- `mosquitto_new`. -/
def mosquittoNew : Mosq := ⟨[], 0, 20, 0, 20, false, []⟩

/-- What every history of small calls leaves. -/
structure Mosq.Keeps (most : Nat) (m : Mosq) (k : ℤ) : Prop where
  acked : ∀ x ∈ m.outMessages, x.Acked most
  limit : m.maxInflightMessages = k

section Connections
variable {m : Mosq} {k : ℤ} {pre xs : List OutMessage} {most : Nat}

/-- Sending keeps the size of the window. -/
lemma sendPublish_max (m : Mosq) (p : Publish) :
    (sendPublish m p).2.maxInflightMessages = m.maxInflightMessages := by
  obtain ⟨extra, e, -⟩ := sendPublish_eq m p
  rw [e]

/-- The loop that sends again. -/
lemma keeps_resendLoop (h : ∀ x ∈ pre ++ xs, x.Acked most) (hm : m.maxInflightMessages = k) :
    (resendLoop pre xs m).2.Keeps most k := by
  induction xs generalizing pre m with
  | nil => exact ⟨by simpa [resendLoop] using h, hm⟩
  | cons x xs ih =>
    have moved : ∀ x' : OutMessage, x'.publish = x.publish → ∀ y ∈ pre ++ x' :: xs, y.Acked most := by
      intro x' e y hy
      simp only [List.mem_append, List.mem_cons] at hy h
      rcases hy with hy | rfl | hy
      · exact h y (.inl hy)
      · obtain ⟨pos, most, fits⟩ := h x (.inr (.inl rfl))
        exact ⟨e ▸ pos, e ▸ most, e ▸ fits⟩
      · exact h y (.inr (.inr hy))
    have next : ∀ x' : OutMessage, x'.publish = x.publish → ∀ y ∈ pre ++ [x'] ++ xs, y.Acked most := by
      intro x' e
      rw [List.append_assoc, List.singleton_append]
      exact moved x' e
    have max := sendPublish_max { m with inflightMessages := m.inflightMessages + 1 } x.publish
    rw [resendLoop]
    split
    · split
      · dsimp only
        split
        next sent =>
          rw [sent] at max
          exact ih (next { x with state := awaited x.publish.qos } rfl) (max.trans hm)
        next sent =>
          rw [sent] at max
          exact ⟨moved { x with state := awaited x.publish.qos } rfl, max.trans hm⟩
      · exact ih (next x rfl) hm
    · exact ⟨moved x rfl, hm⟩

/-- The loop of a retry. -/
lemma keeps_retryLoop (h : ∀ x ∈ pre ++ xs, x.Acked most) (now : Nat) (hm : m.maxInflightMessages = k) :
    (retryLoop now pre xs m).Keeps most k := by
  induction xs generalizing pre m with
  | nil => exact ⟨by simpa [retryLoop] using h, hm⟩
  | cons x xs ih =>
    have next : ∀ x' : OutMessage, (x.Acked most → x'.Acked most) → ∀ y ∈ pre ++ [x'] ++ xs, y.Acked most := by
      intro x' e y hy
      simp only [List.mem_append, List.mem_cons, List.not_mem_nil, or_false] at hy h
      rcases hy with (hy | rfl) | hy
      · exact h y (.inl hy)
      · exact e (h x (.inr (.inl rfl)))
      · exact h y (.inr (.inr hy))
    have again : x.Acked most → OutMessage.Acked most ⟨{ x.publish with dup := true }, x.state, now⟩ :=
      fun h => ⟨h.pos, h.most, h.fits⟩
    have max := (sendPublish_max m { x.publish with dup := true }).trans hm
    rw [retryLoop]
    split
    · cases hx : x.state with
      | invalid => exact ih (next x id) hm
      | waitForPuback => exact ih (next _ (hx ▸ again)) max
      | waitForPubrec => exact ih (next _ (hx ▸ again)) max
      | waitForPubcomp => exact ih (next _ (hx ▸ again)) hm
    · exact ih (next x id) hm

/-- A new connection. -/
lemma keeps_reconnect (hk : 0 < k) (h : m.Keeps 1 k) (succeeds : Bool) :
    (reconnect succeeds m).Keeps 1 k := by
  refine ⟨?_, h.limit⟩
  rw [reconnect, h.limit, resetLoop_eq hk h.acked]
  intro x hx
  rcases List.mem_append.mp hx with hx | hx
  · obtain ⟨y, hy, rfl⟩ := List.mem_map.mp hx
    obtain ⟨pos, most, fits⟩ := h.acked y (List.mem_of_mem_take hy)
    exact ⟨pos, most, fits⟩
  · obtain ⟨y, hy, rfl⟩ := List.mem_map.mp hx
    obtain ⟨pos, most, fits⟩ := h.acked y (List.mem_of_mem_drop hy)
    exact ⟨pos, most, fits⟩

/-- A PUBREC. -/
lemma keeps_pubrec (h : m.Keeps 1 k) (mid now : Nat) : (handlePubrec mid now m).2.Keeps 1 k := by
  have updated : (messageOutUpdate mid .waitForPubcomp now m).2.Keeps 1 k := by
    rw [messageOutUpdate]
    split
    · exact h
    next i _ =>
    refine ⟨fun x hx => ?_, h.limit⟩
    obtain ⟨j, hj⟩ := List.mem_iff_getElem?.mp hx
    rw [List.getElem?_modify] at hj
    obtain ⟨y, hy, rfl⟩ := Option.map_eq_some_iff.mp hj
    obtain ⟨pos, most, fits⟩ := h.acked y (List.mem_of_getElem? hy)
    split <;> exact ⟨pos, most, fits⟩
  rw [handlePubrec]
  split
  next e =>
    rw [e] at updated
    exact ⟨updated.acked, updated.limit⟩
  next e =>
    rwa [e] at updated

/-- Whatever happens. -/
lemma keeps_step (hk : 0 < k) (h : m.Keeps 1 k) {e : Happening} (small : e.Small 1) :
    (m.step e).Keeps 1 k := by
  cases e with
  | publish now topic payload qos retain =>
    rcases mosquittoPublish_cases now topic payload qos retain m with
      ⟨-, mid, extra, e, -⟩ | ⟨p, new, -, -, h'⟩
    · rw [e]
      exact ⟨h.acked, h.limit⟩
    · have added : ∀ state, ∀ x ∈ m.outMessages ++ [⟨p, state, now⟩], x.Acked 1 := by
        intro state x hx
        rcases List.mem_append.mp hx with old | added
        · exact h.acked x old
        · rw [List.mem_singleton.mp added]
          exact acked_of_queued small new state
      rcases h' with ⟨-, extra, e, -⟩ | ⟨-, e⟩
      · rw [e]
        exact ⟨added _, h.limit⟩
      · rw [e]
        exact ⟨added _, h.limit⟩
  | pubackcomp mid =>
    rw [Mosq.step]
    split
    · rw [handlePubackcomp, messageRemove]
      split
      · exact h
      · exact keeps_resendLoop (fun x hx => h.acked x (List.mem_of_mem_eraseIdx hx)) h.limit
    · exact h
  | pubrec mid now =>
    have handled := keeps_pubrec h mid now
    rw [Mosq.step]
    split
    · split
      next e => rwa [e] at handled
      next e =>
        rw [e] at handled
        exact ⟨handled.acked, handled.limit⟩
    · exact h
  | retry now =>
    rw [Mosq.step]
    split
    · exact keeps_retryLoop h.acked now h.limit
    · exact h
  | close => exact ⟨h.acked, h.limit⟩
  | reconnect succeeds => exact keeps_reconnect hk h succeeds

/-- A client that makes small calls keeps messages with acknowledgement only. -/
lemma keeps_run (hk : 0 < k) (h : m.Keeps 1 k) {hs : List Happening} (small : ∀ e ∈ hs, e.Small 1) :
    (m.run hs).Keeps 1 k := by
  induction hs generalizing m with
  | nil => exact h
  | cons e hs ih =>
    exact ih (keeps_step hk h (small e List.mem_cons_self)) fun e' he' =>
      small e' (List.mem_cons_of_mem _ he')

/-- What a reconnection makes of the messages that are kept. -/
lemma shows_reconnect (hk : 0 < k) (h : m.Keeps 1 k) (succeeds : Bool) :
    (reconnect succeeds m).Shows 1
      ⟨(m.outMessages.map OutMessage.core).take (k - 1).toNat,
        (m.outMessages.map OutMessage.core).drop (k - 1).toNat, m.outMessages.length⟩ := by
  have reset := resetLoop_eq hk h.acked 0
  rw [sub_zero, zero_add] at reset
  rw [reconnect, h.limit, reset]
  refine ⟨_, _, rfl, ?_, ?_, ?_⟩
  · intro x hx
    obtain ⟨y, hy, rfl⟩ := List.mem_map.mp hx
    obtain ⟨pos, most, fits⟩ := h.acked y (List.mem_of_mem_take hy)
    exact ⟨⟨pos, most, fits⟩, MsgState.noConfusion⟩
  · intro x hx
    obtain ⟨y, hy, rfl⟩ := List.mem_map.mp hx
    obtain ⟨pos, most, fits⟩ := h.acked y (List.mem_of_mem_drop hy)
    exact ⟨⟨pos, most, fits⟩, rfl⟩
  · rw [List.map_map, List.map_map, List.map_take, List.map_drop]
    rfl

end Connections

section Main
variable {hs hs' : List Happening}

/-- The window with which a connection starts. -/
def connection (kept : List Publish) : Window Publish := ⟨kept.take 19, kept.drop 19, kept.length⟩

/-- How many messages wait for a place when a connection starts. -/
lemma connection_excess (kept : List Publish) :
    (connection kept).excess = (kept.length - 19 : Nat) := by
  simp only [Window.excess, connection, List.length_take]
  omega

/-- And they wait only if there is no place. -/
lemma connection_full (kept : List Publish) : (connection kept).Full 20 := by
  intro left
  have : 19 < kept.length := by simpa [connection, List.drop_eq_nil_iff] using left
  simp only [connection]
  omega

/-- A connection after any history, in terms of the window. -/
lemma connection_run (small : ∀ e ∈ hs, e.Small 1)
    (fair : Fair 1 (reconnect true (mosquittoNew.run hs)) hs') :
    let w := connection ((mosquittoNew.run hs).outMessages.map OutMessage.core)
    let first := reconnect true (mosquittoNew.run hs)
    ∃ ops, (first.run hs').Shows 1 (w.run 20 ops) ∧ Window.pushed ops = allQueued first hs' ∧
      ∀ A : List Publish, (∀ ops', ops' <+: ops → (w.run 20 ops').active ⊆ A) →
        (first.run hs').SentFrom A := by
  intro w first
  have keeps : (mosquittoNew.run hs).Keeps 1 20 :=
    keeps_run (by decide) ⟨List.forall_mem_nil _, rfl⟩ small
  have starts : first.Shows 1 w := by
    have length : (w.count : ℤ) = (mosquittoNew.run hs).outMessages.length :=
      congrArg Nat.cast (List.length_map _)
    have := shows_reconnect (by decide) keeps true
    rw [← length] at this
    exact this
  obtain ⟨ops, shows_, new, from_⟩ := follows_run (by decide)
    (keeps_reconnect (by decide) keeps true).limit starts (connection_full _) fair
  exact ⟨ops, shows_, new, fun A active => from_ A active nofun⟩

/-- A connection that starts with `n` messages kept: what is in flight, and what is counted; the
messages are sent in the order in which they were published. -/
theorem window_run (hs hs' : List Happening) (small : ∀ e ∈ hs, e.Small 1)
    (fair : Fair 1 (reconnect true (mosquittoNew.run hs)) hs') :
    let kept := (mosquittoNew.run hs).outMessages.map OutMessage.core
    let first := reconnect true (mosquittoNew.run hs)
    let now := first.run hs'
    ∃ as is, now.outMessages = as ++ is ∧ (∀ a ∈ as, a.state ≠ .invalid) ∧
      (∀ i ∈ is, i.state = .invalid) ∧
      now.inflightMessages = as.length + (kept.length - 19 : Nat) ∧
      (is ≠ [] → 20 ≤ now.inflightMessages) ∧
      ∃ started, kept.drop 19 ++ allQueued first hs' = started ++ is.map OutMessage.core ∧
        (as.map OutMessage.core).Sublist (kept.take 19 ++ started) := by
  intro kept first now
  obtain ⟨ops, ⟨as, is, split, sent, unsent, e⟩, new, -⟩ := connection_run small fair
  have excess := Window.excess_run 20 ops (connection kept)
  have waits := Window.full_run (connection_full kept) ops
  have order := Window.order_run (connection_full kept) ops
  rw [e] at waits order excess
  refine ⟨as, is, split, fun a ha => (sent a ha).2, fun i hi => (unsent i hi).2, ?_, fun left => ?_, ?_⟩
  · have counted : now.inflightMessages - (as.map OutMessage.core).length = (kept.length - 19 : Nat) :=
      excess.trans (connection_excess kept)
    rw [List.length_map] at counted
    omega
  · exact waits (by simpa using left)
  · rw [new] at order
    exact order

/-- With 21 messages two places are lost, and an acknowledgement does not start a message. -/
theorem window_run_many :
    let m := mosquittoNew.run (List.replicate 21 (.publish 0 [97] [120] 1 false))
    let now := (reconnect true m).run [.publish 5 [97] [121] 1 false, .pubackcomp 1, .retry 100]
    ∃ as is, now.outMessages = as ++ is ∧ now.inflightMessages = as.length + 2 ∧
      (is ≠ [] → 20 ≤ now.inflightMessages) := by
  obtain ⟨as, is, split, -, -, counted, full, -⟩ := window_run
    (List.replicate 21 (.publish 0 [97] [120] 1 false))
    [.publish 5 [97] [121] 1 false, .pubackcomp 1, .retry 100]
    (fun e he => by rw [List.eq_of_mem_replicate he]; exact ⟨by decide, by decide⟩)
    ⟨⟨⟨by decide, by decide⟩, trivial⟩, ⟨trivial, by decide +kernel⟩, ⟨trivial, trivial⟩, trivial⟩
  have lost : ((mosquittoNew.run (List.replicate 21 (.publish 0 [97] [120] 1 false))).outMessages.map
      OutMessage.core).length - 19 = 2 := by
    decide +kernel
  rw [lost] at counted
  exact ⟨as, is, split, counted, full⟩

/-- A connection that starts with 39 messages or more: only the first 19 of them are ever sent on it,
and everything published meanwhile waits, too. -/
theorem stalls (hs hs' : List Happening) (small : ∀ e ∈ hs, e.Small 1)
    (many : 39 ≤ (mosquittoNew.run hs).outMessages.length)
    (fair : Fair 1 (reconnect true (mosquittoNew.run hs)) hs') :
    let kept := (mosquittoNew.run hs).outMessages.map OutMessage.core
    let first := reconnect true (mosquittoNew.run hs)
    let now := first.run hs'
    now.SentFrom (kept.take 19) ∧
      ∃ as is, now.outMessages = as ++ is ∧ (as.map OutMessage.core).Sublist (kept.take 19) ∧
        is.map OutMessage.core = kept.drop 19 ++ allQueued first hs' ∧
        ∀ i ∈ is, i.state = .invalid := by
  intro kept first now
  obtain ⟨ops, ⟨as, is, split, sent, unsent, e⟩, new, from_⟩ := connection_run small fair
  have excess : 20 ≤ (connection kept).excess := by
    rw [connection_excess, List.length_map]
    omega
  obtain ⟨fewer, more⟩ := Window.stall excess ops
  rw [e] at fewer more
  refine ⟨from_ _ fun ops' _ => (Window.stall excess ops').1.subset,
    as, is, split, fewer, ?_, fun i hi => (unsent i hi).2⟩
  rw [← new]
  exact more

/-- Of 39 messages published without a connection, and one more, the last 21 stay where they are. -/
theorem stalls_many :
    let m := mosquittoNew.run (List.replicate 39 (.publish 0 [97] [120] 1 false))
    let now := (reconnect true m).run [.publish 5 [97] [121] 1 false, .pubackcomp 1, .retry 100]
    now.SentFrom ((m.outMessages.map OutMessage.core).take 19) ∧
      ∃ is, is <:+ now.outMessages ∧ is.length = 21 ∧ ∀ i ∈ is, i.state = .invalid := by
  obtain ⟨from_, as, is, split, -, left, unsent⟩ := stalls
    (List.replicate 39 (.publish 0 [97] [120] 1 false))
    [.publish 5 [97] [121] 1 false, .pubackcomp 1, .retry 100]
    (fun e he => by rw [List.eq_of_mem_replicate he]; exact ⟨by decide, by decide⟩)
    (by decide +kernel)
    ⟨⟨⟨by decide, by decide⟩, trivial⟩, ⟨trivial, by decide +kernel⟩, ⟨trivial, trivial⟩, trivial⟩
  refine ⟨from_, is, ⟨as, split.symm⟩, ?_, unsent⟩
  rw [← List.length_map OutMessage.core, left]
  decide +kernel

end Main

end Powmon.Mqtt
