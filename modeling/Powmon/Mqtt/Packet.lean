import Powmon.Lib.Resume

/-!
# Packets of the broker connection

What the MQTT library under `powmon/lib/mosquitto-1.3.5/lib` puts on the connection and takes off it:
the header with its remaining length (`_mosquitto_packet_alloc` of `util_mosq.c`), a publication
(`_mosquitto_send_real_publish` of `send_mosq.c`), the reader that goes on where the last bytes ended
(`_mosquitto_packet_read` of `net_mosq.c`) and what it hands a publication to
(`_mosquitto_handle_publish` of `read_handle.c`).

`publications_arrive`: however the connection cuts the bytes into pieces, the publications come back one
by one, in their order and with their fields, and nothing else does.

C → Lean naming: `in_packet` is `InPacket`; the bytes received of a payload are a list, whose length is
`pos`. An error that closes the connection is the outcome `none` or `stop`. Memory is always
available.
-/

namespace Powmon.Mqtt
open Lib

/-- What goes over a connection. -/
abbrev Bytes := List UInt8

/-! ## Writing -/

/-- The loop of `_mosquitto_packet_alloc`, with the number of bytes it can still store. -/
def remainingBytes : Nat → Nat → Bytes
  | 0, _ => []
  | room + 1, remainingLength =>
    let byte := UInt8.ofNat (remainingLength % 128)
    let remainingLength := remainingLength / 128
    if 0 < remainingLength then (byte ||| 0x80) :: remainingBytes room remainingLength else [byte]

/-- `_mosquitto_packet_alloc`: the fixed header. -/
def packetAlloc (command : UInt8) (remainingLength : Nat) : Option Bytes :=
  let remaining := remainingBytes 5 remainingLength
  if remaining.length = 5 then none else some (command :: remaining)

/-- `_mosquitto_write_uint16`. -/
def writeUint16 (word : Nat) : Bytes := [UInt8.ofNat (word / 256), UInt8.ofNat (word % 256)]

/-- `_mosquitto_write_string`, whose length is a `uint16_t`. -/
def writeString (s : Bytes) : Bytes :=
  let length := s.length % 65536
  writeUint16 length ++ s.take length

/-- A publication. -/
structure Publish where
  dup : Bool
  qos : Nat
  retain : Bool
  topic : Bytes
  mid : Nat
  payload : Bytes
deriving DecidableEq

/-- `PUBLISH | ((dup&0x1)<<3) | (qos<<1) | retain`. -/
def publishCommand (dup : Bool) (qos : Nat) (retain : Bool) : UInt8 :=
  (0x30 : UInt8) ||| (UInt8.ofNat dup.toNat <<< 3) ||| (UInt8.ofNat qos <<< 1) |||
    UInt8.ofNat retain.toNat

/-- The first byte of a publication. -/
def Publish.command (p : Publish) : UInt8 := publishCommand p.dup p.qos p.retain

/-- What stands behind the header. -/
def Publish.body (p : Publish) : Bytes :=
  writeString p.topic ++ (if 0 < p.qos then writeUint16 p.mid else []) ++ p.payload

/-- `_mosquitto_send_real_publish`. -/
def sendRealPublish (p : Publish) : Option Bytes :=
  let packetlen := 2 + p.topic.length + p.payload.length
  let packetlen := if 0 < p.qos then packetlen + 2 else packetlen
  (packetAlloc p.command packetlen).map (· ++ p.body)

/-! ## Reading -/

/-- `in_packet`. -/
structure InPacket where
  command : UInt8
  haveRemaining : Bool
  remainingCount : Nat
  remainingMult : Nat
  remainingLength : Nat
  payload : Bytes
  toProcess : Nat
deriving DecidableEq

/-- What `_mosquitto_packet_cleanup` leaves. -/
def InPacket.clean : InPacket := ⟨0, false, 0, 1, 0, [], 0⟩

/-- How a call of `_mosquitto_packet_read` ends: with too few bytes, with a packet (its command and its
payload) and what has arrived behind it, or with an error. -/
abbrev ReadResult := Reading InPacket (UInt8 × Bytes) UInt8

/-- The loop that receives the payload, and the end of the function. -/
def readPayload (st : InPacket) (avail : Bytes) : ReadResult :=
  if st.toProcess ≤ avail.length then
    .item (st.command, st.payload ++ avail.take st.toProcess) (avail.drop st.toProcess)
  else .again { st with payload := st.payload ++ avail, toProcess := st.toProcess - avail.length }

/-- The loop that receives the remaining length. -/
def readRemaining (st : InPacket) : Bytes → ReadResult
  | [] => .again st
  | byte :: avail =>
    let count := st.remainingCount + 1
    if 4 < count then .stop
    else
      let length := st.remainingLength + (byte &&& 127).toNat * st.remainingMult
      let st := { st with remainingCount := count, remainingLength := length,
                          remainingMult := st.remainingMult * 128 }
      if byte &&& 128 ≠ 0 then readRemaining st avail
      else readPayload { st with haveRemaining := true, toProcess := length } avail

/-- `_mosquitto_packet_read`, when the bytes `avail` have arrived. -/
def packetRead (st : InPacket) (avail : Bytes) : ReadResult :=
  if st.command = 0 then
    match avail with
    | [] => .again st
    | byte :: avail =>
      if st.haveRemaining then readPayload { st with command := byte } avail
      else readRemaining { st with command := byte } avail
  else if st.haveRemaining then readPayload st avail
  else readRemaining st avail

/-- `_mosquitto_read_uint16`, on what is left of the payload. -/
def readUint16 : Bytes → Option (Nat × Bytes)
  | msb :: lsb :: rest => some (msb.toNat * 256 + lsb.toNat, rest)
  | _ => none

/-- `_mosquitto_read_string`. -/
def readString (payload : Bytes) : Option (Bytes × Bytes) :=
  match readUint16 payload with
  | none => none
  | some (len, rest) => if rest.length < len then none else some (rest.take len, rest.drop len)

/-- The C string that is left of a string of a packet. -/
def cBytes (s : Bytes) : Bytes := s.takeWhile (· ≠ 0)

/-- The part of `_mosquitto_handle_publish` in front of the `switch`, and the error in it. The topic ends
at its first NUL. -/
def handlePublish (header : UInt8) (payload : Bytes) : Option Publish :=
  let dup := (header &&& 0x08) >>> 3
  let qos := (header &&& 0x06) >>> 1
  let retain := header &&& 0x01
  match readString payload with
  | none => none
  | some (topic, rest) =>
    let topic := cBytes topic
    if topic.length = 0 then none
    else
      match if 0 < qos then readUint16 rest else some (0, rest) with
      | none => none
      | some (mid, rest) =>
        if qos.toNat ≤ 2 then some ⟨dup ≠ 0, qos.toNat, retain ≠ 0, topic, mid, rest⟩ else none

/-! ## Bytes -/

section Bytes

/-- A string without NUL is read as it is. -/
lemma cBytes_eq_self {s : Bytes} (h : 0 ∉ s) : cBytes s = s := by
  rw [cBytes, List.takeWhile_eq_self_iff]
  exact fun c hc => decide_eq_true fun e => h (e ▸ hc)

/-- Small numbers are bytes. -/
lemma toNat_ofNat {n : Nat} (h : n < 256) : (UInt8.ofNat n).toNat = n := by
  simp [Nat.mod_eq_of_lt h]

/-- A byte of the remaining length gives its digit back, and tells whether another one follows. -/
lemma digit_last {n : Nat} (h : n < 128) :
    (UInt8.ofNat n &&& 127).toNat = n ∧ UInt8.ofNat n &&& 128 = 0 := by
  revert n
  decide

/-- And when another one does. -/
lemma digit_more {n : Nat} (h : n < 128) :
    ((UInt8.ofNat n ||| 0x80) &&& 127).toNat = n ∧ (UInt8.ofNat n ||| 0x80) &&& 128 ≠ 0 := by
  revert n
  decide

end Bytes

/-! ## The fixed header -/

/-- There is a byte. -/
lemma remainingBytes_ne_nil (room n : Nat) : remainingBytes (room + 1) n ≠ [] := by
  rw [remainingBytes]
  split <;> simp

/-- There are no more than allowed. -/
lemma length_remainingBytes_le (room n : Nat) : (remainingBytes room n).length ≤ room := by
  induction room generalizing n with
  | zero => rfl
  | succ room ih =>
    rw [remainingBytes]
    split
    · exact Nat.succ_le_succ (ih _)
    · exact Nat.succ_le_succ (Nat.zero_le room)

/-- The loop ends early if the digits run out. -/
lemma length_remainingBytes_lt_iff (k n : Nat) :
    (remainingBytes (k + 2) n).length < k + 2 ↔ n < 128 ^ (k + 1) := by
  induction k generalizing n with
  | zero =>
    by_cases h : 0 < n / 128
    · have long : ¬ n < 128 := by omega
      have more := List.length_pos_iff.mpr (remainingBytes_ne_nil 0 (n / 128))
      rw [remainingBytes, if_pos h, List.length_cons]
      exact iff_of_false (Nat.not_lt.mpr (Nat.succ_le_succ more)) long
    · have short : n < 128 := by omega
      simp [remainingBytes, h, short]
  | succ k ih =>
    have step := ih (n / 128)
    rw [remainingBytes]
    by_cases h : 0 < n / 128
    · rw [if_pos h, List.length_cons, Nat.succ_lt_succ_iff, step, Nat.div_lt_iff_lt_mul (by decide),
        ← pow_succ]
    · rw [if_neg h]
      have : n < 128 := by omega
      have : 128 ^ 1 ≤ 128 ^ (k + 1 + 1) := Nat.pow_le_pow_right (by decide) (by omega)
      simp only [List.length_singleton]
      omega

/-- A header can be written for every remaining length below 2^28. -/
lemma packetAlloc_eq_some_iff {command : UInt8} {n : Nat} {header : Bytes} :
    packetAlloc command n = some header ↔ n < 128 ^ 4 ∧ header = command :: remainingBytes 5 n := by
  have few : (remainingBytes 5 n).length < 5 ↔ n < 128 ^ 4 := length_remainingBytes_lt_iff 3 n
  have room := length_remainingBytes_le 5 n
  rw [packetAlloc]
  split
  · next h =>
    rw [h] at few
    simp only [lt_self_iff_false, false_iff] at few
    simp only [reduceCtorEq, few, false_and]
  · next h =>
    simp only [few.mp (by omega), true_and, Option.some.injEq, eq_comm]

/-- The bytes of the remaining length are read as what they were written for. -/
lemma readRemaining_remainingBytes {room n : Nat} (h : (remainingBytes room n).length < room)
    {st : InPacket} (hc : st.remainingCount + (remainingBytes room n).length ≤ 4) (avail : Bytes) :
    ∃ count mult, readRemaining st (remainingBytes room n ++ avail) =
      readPayload { st with remainingCount := count, remainingMult := mult,
                            remainingLength := st.remainingLength + n * st.remainingMult,
                            haveRemaining := true,
                            toProcess := st.remainingLength + n * st.remainingMult } avail := by
  induction room generalizing n st with
  | zero => cases h
  | succ room ih =>
    rw [remainingBytes] at h hc ⊢
    by_cases more : 0 < n / 128
    · rw [if_pos more] at h hc ⊢
      obtain ⟨value, again⟩ := digit_more (n := n % 128) (Nat.mod_lt n (by decide))
      rw [List.length_cons] at h hc
      have digits : st.remainingLength + n % 128 * st.remainingMult +
          n / 128 * (st.remainingMult * 128) = st.remainingLength + n * st.remainingMult := by
        conv_rhs => rw [← Nat.mod_add_div n 128]
        ring
      obtain ⟨count, mult, rest⟩ := @ih (n / 128) (by omega)
        { st with remainingCount := st.remainingCount + 1,
                  remainingLength := st.remainingLength + n % 128 * st.remainingMult,
                  remainingMult := st.remainingMult * 128 } (by dsimp only; omega)
      refine ⟨count, mult, ?_⟩
      rw [List.cons_append, readRemaining]
      dsimp only
      rw [if_neg (by omega), value, if_pos again, rest]
      simp only [digits]
    · rw [if_neg more] at h hc ⊢
      have small : n < 128 := by omega
      rw [Nat.mod_eq_of_lt small] at *
      obtain ⟨value, last⟩ := digit_last small
      rw [List.length_singleton] at hc
      refine ⟨st.remainingCount + 1, st.remainingMult * 128, ?_⟩
      rw [List.singleton_append, readRemaining]
      dsimp only
      rw [if_neg (by omega), value, last, if_neg (by decide)]

/-! ## Going on where the bytes ended -/

section Resume
variable {st st' : InPacket} {a b r : Bytes} {x : UInt8 × Bytes}

/-- A packet that is complete stays so when more arrives. -/
lemma readPayload_item (h : readPayload st a = .item x r) :
    readPayload st (a ++ b) = .item x (r ++ b) := by
  unfold readPayload at h ⊢
  split at h
  · next enough =>
    cases h
    rw [if_pos (by rw [List.length_append]; omega), List.take_append_of_le_length enough,
      List.drop_append_of_le_length enough]
  · cases h

/-- One that is not is read on from where it was left. -/
lemma readPayload_again (h : readPayload st a = .again st') :
    st'.haveRemaining = st.haveRemaining ∧ st'.command = st.command ∧
      readPayload st' b = readPayload st (a ++ b) := by
  unfold readPayload at h
  split at h
  · cases h
  · next few =>
    cases h
    refine ⟨rfl, rfl, ?_⟩
    have all : (a ++ b).length = a.length + b.length := List.length_append
    unfold readPayload
    by_cases enough : st.toProcess ≤ (a ++ b).length
    · rw [if_pos enough, if_pos (by dsimp only; omega)]
      have split : st.toProcess = a.length + (st.toProcess - a.length) := by omega
      dsimp only
      rw [List.append_assoc, split, List.take_length_add_append, List.drop_length_add_append,
        Nat.add_sub_cancel_left]
    · rw [if_neg enough, if_neg (by dsimp only; omega)]
      dsimp only
      rw [List.append_assoc, all, Nat.sub_sub]

/-- The payload is never refused. -/
lemma readPayload_ne_stop (st : InPacket) (a : Bytes) : readPayload st a ≠ .stop := by
  unfold readPayload
  split <;> simp

/-- The same from the remaining length on. -/
lemma readRemaining_item (h : readRemaining st a = .item x r) :
    readRemaining st (a ++ b) = .item x (r ++ b) := by
  induction a generalizing st with
  | nil => cases h
  | cons byte a ih =>
    rw [List.cons_append]
    simp only [readRemaining] at h ⊢
    split at h
    · cases h
    · next few =>
      rw [if_neg few]
      split at h
      · next more =>
        rw [if_pos more]
        exact ih h
      · next last =>
        rw [if_neg last]
        exact readPayload_item h

/-- A length that is refused stays so. -/
lemma readRemaining_stop (h : readRemaining st a = .stop) : readRemaining st (a ++ b) = .stop := by
  induction a generalizing st with
  | nil => cases h
  | cons byte a ih =>
    rw [List.cons_append]
    simp only [readRemaining] at h ⊢
    split at h
    · next many => rw [if_pos many]
    · next few =>
      rw [if_neg few]
      split at h
      · next more =>
        rw [if_pos more]
        exact ih h
      · exact absurd h (readPayload_ne_stop _ _)

/-- The two loops after the command byte. -/
def resume (st : InPacket) (avail : Bytes) : ReadResult :=
  if st.haveRemaining then readPayload st avail else readRemaining st avail

/-- And from wherever reading was left. -/
lemma resume_item (h : resume st a = .item x r) : resume st (a ++ b) = .item x (r ++ b) := by
  unfold resume at h ⊢
  split at h
  · next have_ =>
    rw [if_pos have_]
    exact readPayload_item h
  · next have_ =>
    rw [if_neg have_]
    exact readRemaining_item h

/-- What is refused stays so. -/
lemma resume_stop (h : resume st a = .stop) : resume st (a ++ b) = .stop := by
  unfold resume at h ⊢
  split at h
  · exact absurd h (readPayload_ne_stop _ _)
  · next have_ =>
    rw [if_neg have_]
    exact readRemaining_stop h

/-- A packet is read on from its length. -/
lemma readRemaining_again (hst : st.haveRemaining = false) (h : readRemaining st a = .again st') :
    st'.command = st.command ∧ resume st' b = readRemaining st (a ++ b) := by
  induction a generalizing st with
  | nil =>
    cases h
    exact ⟨rfl, if_neg (by rw [hst]; decide)⟩
  | cons byte a ih =>
    rw [List.cons_append]
    simp only [readRemaining] at h ⊢
    split at h
    · cases h
    · next few =>
      rw [if_neg few]
      split at h
      · next more =>
        rw [if_pos more]
        refine ih ?_ h
        exact hst
      · next last =>
        rw [if_neg last]
        obtain ⟨have_, command, rest⟩ := readPayload_again (b := b) h
        exact ⟨command, (if_pos have_).trans rest⟩

/-- Or from its payload. -/
lemma resume_again (h : resume st a = .again st') :
    st'.command = st.command ∧ resume st' b = resume st (a ++ b) := by
  unfold resume at h
  split at h
  · next have_ =>
    obtain ⟨have', command, rest⟩ := readPayload_again (b := b) h
    refine ⟨command, ?_⟩
    rw [resume, if_pos (have'.trans have_), resume, if_pos have_, rest]
  · next have_ =>
    obtain ⟨command, rest⟩ := readRemaining_again (b := b) (by simpa using have_) h
    refine ⟨command, ?_⟩
    rw [rest, resume, if_neg have_]

/-- The first byte is the command. -/
lemma packetRead_cons (byte : UInt8) (a : Bytes) :
    packetRead .clean (byte :: a) = resume { InPacket.clean with command := byte } a := rfl

/-- After it the packet is read on. -/
lemma packetRead_resume (h : st.command ≠ 0) (a : Bytes) : packetRead st a = resume st a := by
  rw [packetRead.eq_def, if_neg h, resume]

end Resume

/-! ## Packets -/

/-- A packet on the connection. -/
def frame (x : UInt8 × Bytes) : Bytes := x.1 :: (remainingBytes 5 x.2.length ++ x.2)

/-- The packets that can be written. A command of 0 is none of the protocol's, and is not seen to be
there by a reader that goes on. -/
def Sendable (x : UInt8 × Bytes) : Prop := x.1 ≠ 0 ∧ x.2.length < 128 ^ 4

/-- A packet is read as it was written. -/
lemma packetRead_frame {x : UInt8 × Bytes} (h : Sendable x) (rest : Bytes) :
    packetRead .clean (frame x ++ rest) = .item x rest := by
  have few : (remainingBytes 5 x.2.length).length < 5 := (length_remainingBytes_lt_iff 3 _).mpr h.2
  obtain ⟨count, mult, read⟩ := @readRemaining_remainingBytes 5 x.2.length few
    { InPacket.clean with command := x.1 } (by dsimp only [InPacket.clean]; omega) (x.2 ++ rest)
  rw [frame, List.cons_append, packetRead_cons, List.append_assoc]
  refine read.trans ?_
  have size : InPacket.clean.remainingLength + x.2.length * InPacket.clean.remainingMult =
      x.2.length := by simp [InPacket.clean]
  simp only [size, readPayload, List.length_append, Nat.le_add_right, if_true, List.take_left,
    List.drop_left]
  rfl

/-- The reader of the library goes on where the bytes ended, whatever the packets. -/
theorem packetRead_resumes : Resumes packetRead .clean frame Sendable where
  start := rfl
  item := by
    intro a b e r h
    cases a with
    | nil => cases h
    | cons byte a =>
      rw [packetRead_cons] at h
      exact (packetRead_cons byte (a ++ b)).trans (resume_item h)
  stop := by
    intro a b h
    cases a with
    | nil => cases h
    | cons byte a =>
      rw [packetRead_cons] at h
      exact (packetRead_cons byte (a ++ b)).trans (resume_stop h)
  again := by
    intro a s es h valid isPrefix b
    cases a with
    | nil =>
      cases h
      rfl
    | cons byte a =>
      obtain ⟨command, rest⟩ := resume_again (b := b) ((packetRead_cons byte a).symm.trans h)
      have known : byte ≠ 0 := by
        obtain ⟨r, e⟩ := isPrefix
        cases es with
        | nil => cases e
        | cons x es =>
          rw [List.flatMap_cons, frame, List.cons_append, List.cons_append, List.cons.injEq] at e
          exact e.1 ▸ (valid x List.mem_cons_self).1
      rw [packetRead_resume (by rw [command]; exact known), rest, List.cons_append, packetRead_cons]
  decode := packetRead_frame

/-! ## Publications -/

/-- What `mosquitto_publish` lets through: a topic of 1 to 65535 bytes, none of them NUL, a quality of
service up to 2 and a message id. -/
structure Publish.Ok (p : Publish) : Prop where
  some_topic : p.topic ≠ []
  plain : 0 ∉ p.topic
  short : p.topic.length < 65536
  qos : p.qos ≤ 2
  mid : p.mid < 65536

/-- What arrives of a publication: one without acknowledgement has no message id. -/
def Publish.arrives (p : Publish) : Publish := { p with mid := if 0 < p.qos then p.mid else 0 }

/-- A number is read as it was written. -/
lemma readUint16_writeUint16 {word : Nat} (h : word < 65536) (rest : Bytes) :
    readUint16 (writeUint16 word ++ rest) = some (word, rest) := by
  have high : (UInt8.ofNat (word / 256)).toNat = word / 256 := toNat_ofNat (by omega)
  have low : (UInt8.ofNat (word % 256)).toNat = word % 256 := toNat_ofNat (by omega)
  simp only [writeUint16, List.cons_append, List.nil_append, readUint16, high, low]
  rw [Nat.div_add_mod' word 256]

/-- So is a string. -/
lemma readString_writeString {s : Bytes} (h : s.length < 65536) (rest : Bytes) :
    readString (writeString s ++ rest) = some (s, rest) := by
  have length : s.length % 65536 = s.length := Nat.mod_eq_of_lt h
  rw [readString, writeString, length, List.take_length, List.append_assoc,
    readUint16_writeUint16 h]
  dsimp only
  rw [if_neg (by simp), List.take_left, List.drop_left]

/-- The flags of the header come back. -/
lemma publishCommand_flags : ∀ dup retain : Bool, ∀ qos < 3,
    publishCommand dup qos retain ≠ 0 ∧
      decide ((publishCommand dup qos retain &&& 0x08) >>> 3 ≠ 0) = dup ∧
      ((publishCommand dup qos retain &&& 0x06) >>> 1).toNat = qos ∧
      decide (publishCommand dup qos retain &&& 0x01 ≠ 0) = retain := by
  decide

/-- The flags of the first byte. -/
lemma Publish.flags {p : Publish} (h : p.qos ≤ 2) :
    p.command ≠ 0 ∧ decide ((p.command &&& 0x08) >>> 3 ≠ 0) = p.dup ∧
      ((p.command &&& 0x06) >>> 1).toNat = p.qos ∧ decide (p.command &&& 0x01 ≠ 0) = p.retain :=
  publishCommand_flags p.dup p.retain p.qos (Nat.lt_succ_of_le h)

/-- A publication is taken apart as it was put together. -/
lemma handlePublish_body {p : Publish} (h : p.Ok) :
    handlePublish p.command p.body = some p.arrives := by
  obtain ⟨-, dup, qos, retain⟩ := Publish.flags h.qos
  have whole : cBytes p.topic = p.topic := cBytes_eq_self h.plain
  have some_char : p.topic.length ≠ 0 := fun e => h.some_topic (List.eq_nil_of_length_eq_zero e)
  have positive : (0 : UInt8) < (p.command &&& 0x06) >>> 1 ↔ 0 < p.qos := by
    rw [UInt8.lt_iff_toNat_lt, qos]
    rfl
  rw [handlePublish, Publish.body, List.append_assoc, readString_writeString h.short]
  dsimp only
  rw [whole, if_neg some_char]
  simp only [positive, qos, h.qos, if_true, dup, retain]
  by_cases acked : 0 < p.qos
  · rw [if_pos acked, if_pos acked, readUint16_writeUint16 h.mid]
    simp only [Publish.arrives, acked, if_true]
  · rw [if_neg acked, if_neg acked, List.nil_append]
    simp only [Publish.arrives, acked, if_false]

/-- What is written for a publication is a packet. -/
lemma sendRealPublish_eq_some {p : Publish} (h : p.Ok) {bytes : Bytes}
    (sent : sendRealPublish p = some bytes) :
    Sendable (p.command, p.body) ∧ bytes = frame (p.command, p.body) := by
  have size : p.body.length =
      if 0 < p.qos then 2 + p.topic.length + p.payload.length + 2
      else 2 + p.topic.length + p.payload.length := by
    have length : p.topic.length % 65536 = p.topic.length := Nat.mod_eq_of_lt h.short
    rw [Publish.body, writeString, length, List.take_length]
    split <;> simp [writeUint16] <;> omega
  rw [sendRealPublish, ← size, Option.map_eq_some_iff] at sent
  obtain ⟨header, alloc, rfl⟩ := sent
  obtain ⟨small, rfl⟩ := packetAlloc_eq_some_iff.mp alloc
  exact ⟨⟨(Publish.flags h.qos).1, small⟩, rfl⟩

/-- However the connection cuts a stream of publications into pieces, and whenever the other side reads:
it stays connected, what it has been handed are the first of the publications as they were sent, and once
everything has arrived and been read it has been handed all of them. -/
theorem publications_arrive {ps : List Publish} (ok : ∀ p ∈ ps, p.Ok) {stream : List Bytes}
    (sent : ps.mapM sendRealPublish = some stream) {inputs : List (Input UInt8)}
    (arrival : arrived inputs <+: stream.flatten) :
    (receive packetRead .clean inputs).isOpen ∧
      (receive packetRead .clean inputs).received.map (fun x => handlePublish x.1 x.2) <+:
        ps.map (fun p => some p.arrives) ∧
      (arrived inputs = stream.flatten → (receive packetRead .clean inputs).buffer = [] →
        (receive packetRead .clean inputs).received.map (fun x => handlePublish x.1 x.2) =
          ps.map fun p => some p.arrives) := by
  have packets : stream = ps.map (fun p => frame (p.command, p.body)) ∧
      ∀ p ∈ ps, Sendable (p.command, p.body) := by
    clear arrival
    induction ps generalizing stream with
    | nil =>
      cases sent
      exact ⟨rfl, nofun⟩
    | cons p ps ih =>
      rw [List.mapM_cons] at sent
      obtain ⟨bytes, one, sent⟩ := Option.bind_eq_some_iff.mp sent
      obtain ⟨rest, more, sent⟩ := Option.bind_eq_some_iff.mp sent
      cases sent
      obtain ⟨sendable, rfl⟩ := sendRealPublish_eq_some (ok p List.mem_cons_self) one
      obtain ⟨rfl, others⟩ := ih (fun p hp => ok p (List.mem_cons_of_mem _ hp)) more
      exact ⟨rfl, List.forall_mem_cons.mpr ⟨sendable, others⟩⟩
  obtain ⟨rfl, sendable⟩ := packets
  have whole : (ps.map fun p => frame (p.command, p.body)).flatten =
      (ps.map fun p => (p.command, p.body)).flatMap frame := by
    rw [List.flatMap_map, List.flatMap_def]
  have handed : (ps.map fun p => (p.command, p.body)).map (fun x => handlePublish x.1 x.2) =
      ps.map fun p => some p.arrives := by
    rw [List.map_map]
    exact List.map_congr_left fun p hp => handlePublish_body (ok p hp)
  rw [whole] at arrival ⊢
  have valid : ∀ x ∈ ps.map fun p => (p.command, p.body), Sendable x := by simpa using sendable
  obtain ⟨isOpen, isPrefix, all⟩ := packetRead_resumes.received valid arrival
  refine ⟨isOpen, handed ▸ isPrefix.map _, fun h empty => ?_⟩
  rw [all h empty, handed]

/-- The publication of `x` under `a`, cut behind its third byte. -/
theorem publications_arrive_cut :
    (receive packetRead .clean [.arrive [0x32, 0x06, 0x00], .call,
      .arrive [0x01, 0x61, 0x00, 0x07, 0x78], .call]).received.map (fun x => handlePublish x.1 x.2) =
      [some ⟨false, 1, false, [0x61], 7, [0x78]⟩] := by
  have ok : ∀ p ∈ [(⟨false, 1, false, [0x61], 7, [0x78]⟩ : Publish)], p.Ok := by
    intro p hp
    rw [List.mem_singleton.mp hp]
    exact ⟨by decide, by decide, by decide, by decide, by decide⟩
  have sent : [(⟨false, 1, false, [0x61], 7, [0x78]⟩ : Publish)].mapM sendRealPublish =
      some [[0x32, 0x06, 0x00, 0x01, 0x61, 0x00, 0x07, 0x78]] := by
    decide
  exact (publications_arrive ok sent (List.prefix_refl _)).2.2 (by decide) (by decide)

end Powmon.Mqtt
