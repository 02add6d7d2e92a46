import Powmon.Mqtt.Delivery

/-!
# Quality of service 2

On one connection a message of quality of service 2 is handed to the subscribers exactly once: the broker
keeps it from the first PUBLISH to the PUBREL, and takes every PUBLISH with the same number meanwhile for
the same message. For this the client must not send a PUBLISH after the PUBREL, and must not give the
number to another message before everything that is about the first one has gone.

* `Once`: what holds of the messages that are kept, of the packets on their way and of what the broker
  holds back;
* `handed_once`: the messages that have been accepted are those that have been handed on, each once, and
  some of those that are still kept.
-/

namespace Powmon.Mqtt
open Lib

/-- The broker holds a message with the number. -/
def Held (hs : List ClientMsg) (mid : Nat) : Prop := mid ∈ hs.map fun h => h.stored.mid

instance (hs : List ClientMsg) (mid : Nat) : Decidable (Held hs mid) :=
  inferInstanceAs (Decidable (_ ∈ _))

/-- What an answer on its way says of the message that it is about. -/
def Answer.Fits (xs : List OutMessage) (hs : List ClientMsg) : Answer → Prop
  | .puback _ => False
  | .pubrec mid => ∀ x ∈ xs, x.core.mid = mid →
      x.state = .waitForPubcomp ∨ x.state = .waitForPubrec ∧ Held hs mid
  | .pubcomp mid => ∀ x ∈ xs, x.core.mid = mid → x.state = .waitForPubcomp ∧ ¬ Held hs mid

/-- What holds of the messages that are kept, of the packets on their way and of what the broker holds back.
-/
structure Once (xs : List OutMessage) (ups : List OutPacket) (downs : List Answer)
    (hs : List ClientMsg) : Prop where
  twice : ∀ x ∈ xs, x.publish.qos = 2 ∧ x.state ≠ .waitForPuback
  distinct : (xs.map fun x => x.core.mid).Nodup
  held : ∀ h ∈ hs, h.state ≠ .queued ∧ ∃ x ∈ xs, x.core = h.stored ∧ x.state ≠ .invalid
  heldDistinct : (hs.map fun h => h.stored.mid).Nodup
  publishes : ∀ p, .publish p ∈ ups → ∃ x ∈ xs, x.core = { p with dup := false } ∧
    (x.state = .waitForPubrec ∨ x.state = .waitForPubcomp ∧ Held hs p.mid)
  pubrels : ∀ mid dup, .pubrel mid dup ∈ ups → ∀ x ∈ xs, x.core.mid = mid → x.state = .waitForPubcomp
  order : ups.Pairwise fun a b => ∀ mid dup p, a = .pubrel mid dup → b = .publish p → p.mid ≠ mid
  answers : ∀ a ∈ downs, a.Fits xs hs

/-- A message that has not been handed to the subscribers. -/
def Undelivered (hs : List ClientMsg) (x : OutMessage) : Prop :=
  x.state ≠ .waitForPubcomp ∨ Held hs x.core.mid

instance (hs : List ClientMsg) (x : OutMessage) : Decidable (Undelivered hs x) :=
  inferInstanceAs (Decidable (_ ∨ _))

/-- Those of the kept messages that have not been handed to the subscribers. -/
def undelivered (hs : List ClientMsg) (xs : List OutMessage) : List Publish :=
  (xs.filter fun x => Undelivered hs x).map OutMessage.core

section Once
variable {xs ys l₁ l₂ : List OutMessage} {ups rest extra : List OutPacket} {downs sent : List Answer}
  {hs hs' : List ClientMsg} {x y : OutMessage} {p : Publish} {mid : Nat}

/-- There is one message with a number. -/
lemma Once.unique (h : Once xs ups downs hs) (hx : x ∈ xs) (hy : y ∈ xs)
    (same : x.core.mid = y.core.mid) : x = y :=
  List.inj_on_of_nodup_map h.distinct hx hy same

/-! ### The client -/

/-- Message by message. -/
lemma undelivered_append (hs : List ClientMsg) (xs ys : List OutMessage) :
    undelivered hs (xs ++ ys) = undelivered hs xs ++ undelivered hs ys := by
  rw [undelivered, List.filter_append, List.map_append]
  rfl

/-- One more message. -/
lemma Once.add (h : Once xs ups downs hs) (qos : x.publish.qos = 2)
    (state : x.state = .invalid ∨ x.state = .waitForPubrec) (kept : ∀ y ∈ xs, y.core.mid ≠ x.core.mid)
    (up : ∀ q ∈ ups, q.number ≠ some x.core.mid) (down : ∀ a ∈ downs, a.mid ≠ x.core.mid) :
    Once (xs ++ [x]) ups downs hs where
  twice y hy := by
    rcases List.mem_append.mp hy with old | new
    · exact h.twice y old
    · rw [List.mem_singleton.mp new]
      refine ⟨qos, ?_⟩
      rcases state with state | state <;> rw [state] <;> exact MsgState.noConfusion
  distinct := by
    rw [List.map_append, List.nodup_append]
    refine ⟨h.distinct, List.nodup_singleton _, fun a ha b hb => ?_⟩
    obtain ⟨y, hy, rfl⟩ := List.mem_map.mp ha
    rw [List.map_singleton, List.mem_singleton] at hb
    rw [hb]
    exact kept y hy
  held k hk := by
    obtain ⟨waits, y, hy, same⟩ := h.held k hk
    exact ⟨waits, y, List.mem_append_left _ hy, same⟩
  heldDistinct := h.heldDistinct
  publishes p hp := by
    obtain ⟨y, hy, same⟩ := h.publishes p hp
    exact ⟨y, List.mem_append_left _ hy, same⟩
  pubrels mid dup hq y hy same := by
    rcases List.mem_append.mp hy with old | new
    · exact h.pubrels mid dup hq y old same
    · rw [List.mem_singleton.mp new] at same
      exact absurd (congrArg some same.symm) (up _ hq)
  order := h.order
  answers a ha := by
    have fits := h.answers a ha
    have other := down a ha
    cases a with
    | puback mid => exact fits
    | pubrec mid =>
      intro y hy same
      rcases List.mem_append.mp hy with old | new
      · exact fits y old same
      · rw [List.mem_singleton.mp new] at same
        exact absurd same.symm other
    | pubcomp mid =>
      intro y hy same
      rcases List.mem_append.mp hy with old | new
      · exact fits y old same
      · rw [List.mem_singleton.mp new] at same
        exact absurd same.symm other

/-- A new message has still to be handed on. -/
lemma undelivered_add (hs : List ClientMsg) (xs : List OutMessage)
    (state : x.state = .invalid ∨ x.state = .waitForPubrec) :
    undelivered hs (xs ++ [x]) = undelivered hs xs ++ [x.core] := by
  have waits : Undelivered hs x := by
    refine .inl ?_
    rcases state with state | state <;> rw [state] <;> exact MsgState.noConfusion
  rw [undelivered_append]
  simp [undelivered, waits]

/-- What the client may put on the connection. -/
def MaySend (xs : List OutMessage) : OutPacket → Prop
  | .publish p => ∃ x ∈ xs, x.core = { p with dup := false } ∧ x.state = .waitForPubrec
  | .pubrel mid _ => ∀ x ∈ xs, x.core.mid = mid → x.state = .waitForPubcomp

/-- One more packet from the client. -/
lemma Once.send {q : OutPacket} (h : Once xs ups downs hs) (may : MaySend xs q) :
    Once xs (ups ++ [q]) downs hs := by
  refine { h with
    publishes := fun p hp => ?_, pubrels := fun mid dup hq => ?_, order := ?_ }
  · rcases List.mem_append.mp hp with old | new
    · exact h.publishes p old
    · rw [← List.mem_singleton.mp new] at may
      obtain ⟨x, hx, core, state⟩ := may
      exact ⟨x, hx, core, .inl state⟩
  · rcases List.mem_append.mp hq with old | new
    · exact h.pubrels mid dup old
    · rw [← List.mem_singleton.mp new] at may
      exact may
  · refine List.pairwise_append.mpr ⟨h.order, List.pairwise_singleton _ _, fun a ha b hb => ?_⟩
    rintro mid dup p rfl rfl same
    rw [← List.mem_singleton.mp hb] at may
    obtain ⟨x, hx, core, state⟩ := may
    have released := h.pubrels mid dup ha x hx ((congrArg Publish.mid core).trans same)
    rw [state] at released
    cases released

/-- And any number of them. -/
lemma Once.sends (h : Once xs ups downs hs) (extra : List OutPacket) (may : ∀ q ∈ extra, MaySend xs q) :
    Once xs (ups ++ extra) downs hs := by
  induction extra generalizing ups with
  | nil => rwa [List.append_nil]
  | cons q extra ih =>
    rw [← List.singleton_append, ← List.append_assoc]
    exact ih (h.send (may q List.mem_cons_self)) fun q' hq' => may q' (List.mem_cons_of_mem _ hq')

/-- A message of which one more step has been made. -/
def Further (hs : List ClientMsg) (x y : OutMessage) : Prop :=
  y.core = x.core ∧ (y.state = x.state ∨ x.state = .invalid ∧ y.state = .waitForPubrec ∨
    x.state = .waitForPubrec ∧ Held hs x.core.mid ∧ y.state = .waitForPubcomp)

/-- A message may stay as it is. -/
lemma Further.refl (hs : List ClientMsg) (x : OutMessage) : Further hs x x := ⟨rfl, .inl rfl⟩

/-- A message that has been released stays so. -/
lemma Further.of_pubcomp (h : Further hs x y) (state : x.state = .waitForPubcomp) :
    y.state = .waitForPubcomp := by
  rcases h.2 with same | ⟨other, -⟩ | ⟨other, -⟩
  · exact same.trans state
  · rw [state] at other
    cases other
  · rw [state] at other
    cases other

/-- One whose PUBREC is awaited may be released, but only while the broker holds it. -/
lemma Further.of_pubrec (h : Further hs x y) (state : x.state = .waitForPubrec) :
    y.state = .waitForPubrec ∨ y.state = .waitForPubcomp ∧ Held hs x.core.mid := by
  rcases h.2 with same | ⟨other, -⟩ | ⟨-, held, next⟩
  · exact .inl (same.trans state)
  · rw [state] at other
    cases other
  · exact .inr ⟨next, held⟩

/-- Either way it still has to be handed on, or not. -/
lemma Further.undelivered_iff (h : Further hs x y) : Undelivered hs y ↔ Undelivered hs x := by
  obtain ⟨core, steps⟩ := h
  rw [Undelivered, Undelivered, core]
  rcases steps with same | ⟨unsent, waits⟩ | ⟨waits, held, -⟩
  · rw [same]
  · rw [unsent, waits]
    simp
  · exact ⟨fun _ => .inr held, fun _ => .inr held⟩

/-- What is related member by member has its partners. -/
lemma mem_of_forall₂ {α β : Type*} {R : α → β → Prop} {xs : List α} {ys : List β} (h : List.Forall₂ R xs ys) :
    (∀ y ∈ ys, ∃ x ∈ xs, R x y) ∧ ∀ x ∈ xs, ∃ y ∈ ys, R x y := by
  induction h with
  | nil => exact ⟨List.forall_mem_nil _, List.forall_mem_nil _⟩
  | @cons x y xs ys r _ ih =>
    refine ⟨List.forall_mem_cons.mpr ⟨⟨x, List.mem_cons_self, r⟩, fun z hz => ?_⟩,
      List.forall_mem_cons.mpr ⟨⟨y, List.mem_cons_self, r⟩, fun z hz => ?_⟩⟩
    · obtain ⟨w, hw, r'⟩ := ih.1 z hz
      exact ⟨w, List.mem_cons_of_mem _ hw, r'⟩
    · obtain ⟨w, hw, r'⟩ := ih.2 z hz
      exact ⟨w, List.mem_cons_of_mem _ hw, r'⟩

/-- The same for all messages. -/
lemma undelivered_further (h : List.Forall₂ (Further hs) xs ys) :
    undelivered hs ys = undelivered hs xs := by
  induction h with
  | nil => rfl
  | @cons x y xs ys r _ ih =>
    rw [undelivered, undelivered] at ih ⊢
    by_cases waits : Undelivered hs x
    · rw [List.filter_cons_of_pos (by simpa using r.undelivered_iff.mpr waits),
        List.filter_cons_of_pos (by simpa using waits), List.map_cons, List.map_cons, ih, r.1]
    · rw [List.filter_cons_of_neg (by simpa using mt r.undelivered_iff.mp waits),
        List.filter_cons_of_neg (by simpa using waits), ih]

/-- The invariant goes along. -/
lemma Once.further (h : Once xs ups downs hs) (steps : List.Forall₂ (Further hs) xs ys) :
    Once ys ups downs hs where
  twice y hy := by
    obtain ⟨x, hx, core, step⟩ := (mem_of_forall₂ steps).1 y hy
    obtain ⟨qos, state⟩ := h.twice x hx
    refine ⟨(congrArg Publish.qos core).trans qos, ?_⟩
    rcases step with same | ⟨-, next⟩ | ⟨-, -, next⟩
    · rwa [same]
    · rw [next]
      exact MsgState.noConfusion
    · rw [next]
      exact MsgState.noConfusion
  distinct := by
    have same : ys.map (fun y => y.core.mid) = xs.map fun x => x.core.mid := by
      clear h
      induction steps with
      | nil => rfl
      | cons r _ ih => rw [List.map_cons, List.map_cons, ih, r.1]
    rw [same]
    exact h.distinct
  held k hk := by
    obtain ⟨waits, x, hx, core, state⟩ := h.held k hk
    obtain ⟨y, hy, core', step⟩ := (mem_of_forall₂ steps).2 x hx
    refine ⟨waits, y, hy, core'.trans core, ?_⟩
    rcases step with same | ⟨unsent, -⟩ | ⟨-, -, next⟩
    · rwa [same]
    · exact absurd unsent state
    · rw [next]
      exact MsgState.noConfusion
  heldDistinct := h.heldDistinct
  publishes p hp := by
    obtain ⟨x, hx, core, state⟩ := h.publishes p hp
    obtain ⟨y, hy, step⟩ := (mem_of_forall₂ steps).2 x hx
    refine ⟨y, hy, step.1.trans core, ?_⟩
    rcases state with waits | ⟨released, held⟩
    · have same : x.core.mid = p.mid := by rw [core]
      rw [← same]
      exact step.of_pubrec waits
    · exact .inr ⟨step.of_pubcomp released, held⟩
  pubrels mid dup hq y hy same := by
    obtain ⟨x, hx, step⟩ := (mem_of_forall₂ steps).1 y hy
    rw [step.1] at same
    exact step.of_pubcomp (h.pubrels mid dup hq x hx same)
  order := h.order
  answers a ha := by
    have fits := h.answers a ha
    cases a with
    | puback mid => exact fits
    | pubrec mid =>
      intro y hy same
      obtain ⟨x, hx, step⟩ := (mem_of_forall₂ steps).1 y hy
      rw [step.1] at same
      rcases fits x hx same with released | ⟨waits, held⟩
      · exact .inl (step.of_pubcomp released)
      · exact (step.of_pubrec waits).symm.imp And.left fun state => ⟨state, held⟩
    | pubcomp mid =>
      intro y hy same
      obtain ⟨x, hx, step⟩ := (mem_of_forall₂ steps).1 y hy
      rw [step.1] at same
      exact ⟨step.of_pubcomp (fits x hx same).1, (fits x hx same).2⟩

/-- A message that has been handed to the subscribers can go. -/
lemma Once.remove (h : Once (l₁ ++ x :: l₂) ups downs hs) (released : x.state = .waitForPubcomp)
    (free : ¬ Held hs x.core.mid) : Once (l₁ ++ l₂) ups downs hs := by
  have sub : ∀ y ∈ l₁ ++ l₂, y ∈ l₁ ++ x :: l₂ := by
    intro y hy
    rcases List.mem_append.mp hy with hy | hy
    · exact List.mem_append_left _ hy
    · exact List.mem_append_right _ (List.mem_cons_of_mem _ hy)
  have rest : ∀ y ∈ l₁ ++ x :: l₂, y ≠ x → y ∈ l₁ ++ l₂ := by
    intro y hy other
    simp only [List.mem_append, List.mem_cons] at hy ⊢
    rcases hy with hy | hy | hy
    · exact .inl hy
    · exact absurd hy other
    · exact .inr hy
  refine ⟨fun y hy => h.twice y (sub y hy), ?_, fun k hk => ?_, h.heldDistinct, fun p hp => ?_,
    fun mid dup hq y hy => h.pubrels mid dup hq y (sub y hy), h.order, fun a ha => ?_⟩
  · refine h.distinct.sublist (List.Sublist.map _ ?_)
    exact (List.Sublist.refl l₁).append (List.sublist_cons_self x l₂)
  · obtain ⟨waits, y, hy, core, state⟩ := h.held k hk
    refine ⟨waits, y, rest y hy ?_, core, state⟩
    rintro rfl
    exact free (List.mem_map.mpr ⟨k, hk, (congrArg Publish.mid core).symm⟩)
  · obtain ⟨y, hy, core, state⟩ := h.publishes p hp
    refine ⟨y, rest y hy ?_, core, state⟩
    rintro rfl
    rcases state with waits | ⟨-, held⟩
    · rw [released] at waits
      cases waits
    · exact free (congrArg Publish.mid core ▸ held)
  · have fits := h.answers a ha
    cases a with
    | puback mid => exact fits
    | pubrec mid => exact fun y hy => fits y (sub y hy)
    | pubcomp mid => exact fun y hy => fits y (sub y hy)

/-- A message that has been handed on may be forgotten. -/
lemma undelivered_remove (released : x.state = .waitForPubcomp) (free : ¬ Held hs x.core.mid) :
    undelivered hs (l₁ ++ x :: l₂) = undelivered hs (l₁ ++ l₂) := by
  have done : ¬ Undelivered hs x := by
    rw [Undelivered, not_or, not_not]
    exact ⟨released, free⟩
  have skip : undelivered hs (x :: l₂) = undelivered hs l₂ := by
    rw [undelivered, List.filter_cons_of_neg (by simpa using done)]
    rfl
  rw [undelivered_append, undelivered_append, skip]

/-- An answer that is read, or lost. -/
lemma Once.read {a : Answer} (h : Once xs ups (a :: downs) hs) : Once xs ups downs hs :=
  { h with answers := fun b hb => h.answers b (List.mem_cons_of_mem _ hb) }

/-! ### The broker -/

/-- A PUBLISH of a message that the broker holds already. -/
lemma Once.again (h : Once xs (.publish p :: rest) downs hs) (held : Held hs p.mid) :
    Once xs rest (downs ++ [.pubrec p.mid]) hs := by
  obtain ⟨x, hx, core, state⟩ := h.publishes p List.mem_cons_self
  refine { h with
    publishes := fun p' hp' => h.publishes p' (List.mem_cons_of_mem _ hp')
    pubrels := fun mid dup hq => h.pubrels mid dup (List.mem_cons_of_mem _ hq)
    order := h.order.of_cons
    answers := fun a ha => ?_ }
  rcases List.mem_append.mp ha with old | new
  · exact h.answers a old
  · rw [List.mem_singleton.mp new]
    intro y hy same
    have e := h.unique hy hx (same.trans (by rw [core]))
    rw [e]
    exact state.symm.imp And.left fun waits => ⟨waits, held⟩

/-- The first PUBLISH of a message. -/
lemma Once.insert (h : Once xs (.publish p :: rest) downs hs) (free : ¬ Held hs p.mid) (now : Nat) :
    Once xs rest (downs ++ [.pubrec p.mid]) (hs ++ [⟨{ p with dup := false }, .waitForPubrel, now⟩]) := by
  obtain ⟨x, hx, core, state⟩ := h.publishes p List.mem_cons_self
  have mid : x.core.mid = p.mid := by rw [core]
  have waits : x.state = .waitForPubrec := state.resolve_right fun h => free h.2
  have more : ∀ m, Held (hs ++ [⟨{ p with dup := false }, .waitForPubrel, now⟩]) m ↔
      Held hs m ∨ m = p.mid := by
    intro m
    simp [Held]
  refine ⟨h.twice, h.distinct, fun k hk => ?_, ?_, fun p' hp' => ?_,
    fun mid dup hq => h.pubrels mid dup (List.mem_cons_of_mem _ hq), h.order.of_cons, fun a ha => ?_⟩
  · rcases List.mem_append.mp hk with old | new
    · exact h.held k old
    · rw [List.mem_singleton.mp new]
      refine ⟨InState.noConfusion, x, hx, core, ?_⟩
      rw [waits]
      exact MsgState.noConfusion
  · rw [List.map_append, List.nodup_append]
    refine ⟨h.heldDistinct, List.nodup_singleton _, fun a ha b hb e => free ?_⟩
    rw [List.map_singleton, List.mem_singleton] at hb
    rw [e, hb] at ha
    exact ha
  · obtain ⟨y, hy, core', state'⟩ := h.publishes p' (List.mem_cons_of_mem _ hp')
    exact ⟨y, hy, core', state'.imp_right fun ⟨released, held⟩ => ⟨released, (more _).mpr (.inl held)⟩⟩
  · rcases List.mem_append.mp ha with old | new
    · have fits := h.answers a old
      cases a with
      | puback m => exact fits
      | pubrec m =>
        exact fun y hy same => (fits y hy same).imp_right fun ⟨state, held⟩ =>
          ⟨state, (more m).mpr (.inl held)⟩
      | pubcomp m =>
        intro y hy same
        obtain ⟨released, free'⟩ := fits y hy same
        refine ⟨released, fun held => ?_⟩
        rcases (more m).mp held with held | e
        · exact free' held
        · rw [h.unique hy hx (by rw [same, e, mid]), waits] at released
          cases released
    · rw [List.mem_singleton.mp new]
      intro y hy same
      rw [h.unique hy hx (same.trans mid.symm)]
      exact .inr ⟨waits, (more _).mpr (.inr rfl)⟩

/-- A message that the broker holds back has still to be handed on. -/
lemma undelivered_insert (h : Once xs (.publish p :: rest) downs hs) (free : ¬ Held hs p.mid)
    (now : Nat) :
    undelivered (hs ++ [⟨{ p with dup := false }, .waitForPubrel, now⟩]) xs = undelivered hs xs := by
  obtain ⟨x, hx, core, state⟩ := h.publishes p List.mem_cons_self
  have mid : x.core.mid = p.mid := by rw [core]
  have waits : x.state = .waitForPubrec := state.resolve_right fun h => free h.2
  refine congrArg _ (List.filter_congr fun y hy => ?_)
  rw [decide_eq_decide, Undelivered, Undelivered]
  have more : Held (hs ++ [⟨{ p with dup := false }, .waitForPubrel, now⟩]) y.core.mid ↔
      Held hs y.core.mid ∨ y.core.mid = p.mid := by
    simp [Held]
  rw [more, ← or_assoc]
  refine or_iff_left_of_imp fun same => .inl ?_
  rw [h.unique hy hx (same.trans mid.symm), waits]
  exact MsgState.noConfusion

/-- A PUBREL of a message that has been handed on already. -/
lemma Once.repeated {dup : Bool} (h : Once xs (.pubrel mid dup :: rest) downs hs)
    (free : ¬ Held hs mid) : Once xs rest (downs ++ [.pubcomp mid]) hs := by
  refine { h with
    publishes := fun p' hp' => h.publishes p' (List.mem_cons_of_mem _ hp')
    pubrels := fun mid dup hq => h.pubrels mid dup (List.mem_cons_of_mem _ hq)
    order := h.order.of_cons
    answers := fun a ha => ?_ }
  rcases List.mem_append.mp ha with old | new
  · exact h.answers a old
  · rw [List.mem_singleton.mp new]
    exact fun y hy same => ⟨h.pubrels mid dup List.mem_cons_self y hy same, free⟩

section Release
variable {h₁ h₂ : List ClientMsg} {k : ClientMsg}

/-- The numbers that the broker holds. -/
lemma held_middle {m : Nat} : Held (h₁ ++ k :: h₂) m ↔ Held (h₁ ++ h₂) m ∨ m = k.stored.mid := by
  simp only [Held, List.map_append, List.map_cons, List.mem_append, List.mem_cons]
  tauto

/-- No number is held twice. -/
lemma Once.free (h : Once xs ups downs (h₁ ++ k :: h₂)) : ¬ Held (h₁ ++ h₂) k.stored.mid := by
  have distinct := h.heldDistinct
  rw [List.map_append, List.map_cons] at distinct
  rw [Held, List.map_append]
  exact (List.nodup_middle.mp distinct).notMem

/-- The PUBREL on which a message is handed to the subscribers. -/
lemma Once.release {dup : Bool} (h : Once xs (.pubrel k.stored.mid dup :: rest) downs (h₁ ++ k :: h₂)) :
    Once xs rest (downs ++ [.pubcomp k.stored.mid]) (h₁ ++ h₂) := by
  have sub : ∀ j ∈ h₁ ++ h₂, j ∈ h₁ ++ k :: h₂ := by
    intro j hj
    rcases List.mem_append.mp hj with hj | hj
    · exact List.mem_append_left _ hj
    · exact List.mem_append_right _ (List.mem_cons_of_mem _ hj)
  have released := h.pubrels k.stored.mid dup List.mem_cons_self
  refine ⟨h.twice, h.distinct, fun j hj => h.held j (sub j hj), ?_, fun p hp => ?_,
    fun mid dup hq => h.pubrels mid dup (List.mem_cons_of_mem _ hq), h.order.of_cons, fun a ha => ?_⟩
  · refine h.heldDistinct.sublist (List.Sublist.map _ ?_)
    exact (List.Sublist.refl h₁).append (List.sublist_cons_self k h₂)
  · obtain ⟨x, hx, core, state⟩ := h.publishes p (List.mem_cons_of_mem _ hp)
    refine ⟨x, hx, core, state.imp_right fun ⟨released, held⟩ => ⟨released, ?_⟩⟩
    -- a PUBLISH does not come after the PUBREL
    have other := List.rel_of_pairwise_cons h.order hp k.stored.mid dup p rfl rfl
    exact (held_middle.mp held).resolve_right other
  · rcases List.mem_append.mp ha with old | new
    · have fits := h.answers a old
      cases a with
      | puback m => exact fits
      | pubrec m =>
        intro y hy same
        rcases fits y hy same with state | ⟨state, held⟩
        · exact .inl state
        · rcases held_middle.mp held with held | e
          · exact .inr ⟨state, held⟩
          · exact .inl (released y hy (same.trans e))
      | pubcomp m =>
        exact fun y hy same => ⟨(fits y hy same).1, fun held =>
          (fits y hy same).2 (held_middle.mpr (.inl held))⟩
    · rw [List.mem_singleton.mp new]
      exact fun y hy same => ⟨released y hy same, h.free⟩

/-- A message that is released is handed on. -/
lemma undelivered_release {dup : Bool}
    (h : Once xs (.pubrel k.stored.mid dup :: rest) downs (h₁ ++ k :: h₂)) :
    (undelivered (h₁ ++ k :: h₂) xs).Perm (k.stored :: undelivered (h₁ ++ h₂) xs) := by
  obtain ⟨-, x, hx, core, -⟩ := h.held k (List.mem_append_right _ List.mem_cons_self)
  have mid : x.core.mid = k.stored.mid := by rw [core]
  have released := h.pubrels k.stored.mid dup List.mem_cons_self x hx mid
  obtain ⟨l₁, l₂, rfl⟩ := List.append_of_mem hx
  have distinct := h.distinct
  rw [List.map_append, List.map_cons] at distinct
  have others : ∀ l : List OutMessage, (∀ y ∈ l, y.core.mid ≠ x.core.mid) →
      undelivered (h₁ ++ k :: h₂) l = undelivered (h₁ ++ h₂) l := by
    intro l other
    refine congrArg _ (List.filter_congr fun y hy => ?_)
    rw [decide_eq_decide, Undelivered, Undelivered, held_middle]
    simp only [mid ▸ other y hy, or_false]
  have apart := (List.nodup_middle.mp distinct).notMem
  rw [List.mem_append, not_or] at apart
  have first := others l₁ fun y hy e => apart.1 (List.mem_map.mpr ⟨y, hy, e⟩)
  have last := others l₂ fun y hy e => apart.2 (List.mem_map.mpr ⟨y, hy, e⟩)
  have now : undelivered (h₁ ++ k :: h₂) (x :: l₂) = x.core :: undelivered (h₁ ++ k :: h₂) l₂ := by
    have waits : Undelivered (h₁ ++ k :: h₂) x := .inr (held_middle.mpr (.inr mid))
    rw [undelivered, List.filter_cons_of_pos (by simpa using waits), List.map_cons]
    rfl
  have gone : undelivered (h₁ ++ h₂) (l₁ ++ x :: l₂) = undelivered (h₁ ++ h₂) (l₁ ++ l₂) :=
    undelivered_remove released (mid ▸ h.free)
  rw [gone, undelivered_append, undelivered_append, now, first, last, core]
  exact List.perm_middle

end Release

/-- Only the stored messages count. -/
lemma held_congr (same : hs'.map ClientMsg.stored = hs.map ClientMsg.stored) (m : Nat) :
    Held hs' m ↔ Held hs m := by
  have mids : ∀ l : List ClientMsg,
      l.map (fun k => k.stored.mid) = (l.map ClientMsg.stored).map Publish.mid := fun l => by
    rw [List.map_map]
    rfl
  rw [Held, Held, mids, mids, same]

/-- And for what is still to be handed on. -/
lemma undelivered_congr (same : hs'.map ClientMsg.stored = hs.map ClientMsg.stored)
    (xs : List OutMessage) : undelivered hs' xs = undelivered hs xs := by
  refine congrArg _ (List.filter_congr fun y _ => ?_)
  rw [decide_eq_decide, Undelivered, Undelivered, held_congr same]

/-- The broker changes the states in which it holds the messages. -/
lemma Once.restate (h : Once xs ups downs hs)
    (same : hs'.map ClientMsg.stored = hs.map ClientMsg.stored) (states : ∀ k ∈ hs', k.state ≠ .queued) :
    Once xs ups downs hs' := by
  have mids : ∀ l : List ClientMsg,
      l.map (fun k => k.stored.mid) = (l.map ClientMsg.stored).map Publish.mid := fun l => by
    rw [List.map_map]
    rfl
  refine { h with
    held := fun k hk => ⟨states k hk, ?_⟩, heldDistinct := ?_, publishes := fun p hp => ?_,
    answers := fun a ha => ?_ }
  · have mem : k.stored ∈ hs.map ClientMsg.stored := same ▸ List.mem_map_of_mem hk
    obtain ⟨j, hj, e⟩ := List.mem_map.mp mem
    rw [← e]
    exact (h.held j hj).2
  · rw [mids, same, ← mids]
    exact h.heldDistinct
  · obtain ⟨x, hx, core, state⟩ := h.publishes p hp
    exact ⟨x, hx, core, state.imp_right fun ⟨state, held⟩ => ⟨state, (held_congr same _).mpr held⟩⟩
  · have fits := h.answers a ha
    cases a with
    | puback m => exact fits
    | pubrec m =>
      exact fun y hy e => (fits y hy e).imp_right fun ⟨state, held⟩ =>
        ⟨state, (held_congr same m).mpr held⟩
    | pubcomp m =>
      exact fun y hy e => ⟨(fits y hy e).1, fun held => (fits y hy e).2 ((held_congr same m).mp held)⟩

/-- The broker sends a PUBREC again. -/
lemma Once.pubrecs (h : Once xs ups downs hs)
    (only : ∀ a ∈ sent, ∃ k ∈ hs, a = .pubrec k.stored.mid) : Once xs ups (downs ++ sent) hs := by
  refine { h with answers := fun a ha => ?_ }
  rcases List.mem_append.mp ha with old | new
  · exact h.answers a old
  · obtain ⟨k, hk, rfl⟩ := only a new
    obtain ⟨-, x, hx, core, sent⟩ := h.held k hk
    intro y hy same
    rw [h.unique hy hx (same.trans (by rw [core]))]
    cases state : x.state with
    | invalid => exact absurd state sent
    | waitForPuback => exact absurd state (h.twice x hx).2
    | waitForPubrec => exact .inr ⟨rfl, List.mem_map_of_mem hk⟩
    | waitForPubcomp => exact .inl rfl

/-- A PUBREL for a number that is not held does nothing. -/
lemma releaseLoop_none (now : Nat) (states : ∀ k ∈ hs, k.state ≠ .queued)
    (other : ∀ k ∈ hs, k.stored.mid ≠ mid) (index : Nat) (deleted : Bool) :
    releaseLoop now mid index deleted hs = (hs, [], []) := by
  induction hs generalizing index deleted with
  | nil => rfl
  | cons k hs ih =>
    have freed : ¬ (k.state = .queued ∧ index + 1 ≤ maxInflight) :=
      fun h => states k List.mem_cons_self h.1
    have found : ¬ k.stored.mid = mid := other k List.mem_cons_self
    have rest := ih (fun j hj => states j (List.mem_cons_of_mem _ hj))
      (fun j hj => other j (List.mem_cons_of_mem _ hj))
    rw [releaseLoop]
    simp only [if_neg freed, if_neg found]
    split
    · rfl
    · rw [rest]
      rfl

/-- The loop takes the message out that has the number. -/
lemma releaseLoop_found {h₁ h₂ : List ClientMsg} {k : ClientMsg} (now : Nat)
    (states : ∀ j ∈ h₁ ++ k :: h₂, j.state ≠ .queued)
    (distinct : ((h₁ ++ k :: h₂).map fun j => j.stored.mid).Nodup) (index : Nat) :
    releaseLoop now k.stored.mid index false (h₁ ++ k :: h₂) = (h₁ ++ h₂, [k.stored], []) := by
  induction h₁ generalizing index with
  | nil =>
    have freed : ¬ (k.state = .queued ∧ index + 1 ≤ maxInflight) :=
      fun h => states k List.mem_cons_self h.1
    have rest := @releaseLoop_none h₂ k.stored.mid now
      (fun j hj => states j (List.mem_cons_of_mem _ hj)) fun j hj e =>
        (List.nodup_cons.mp distinct).1 (List.mem_map.mpr ⟨j, hj, e⟩)
    rw [List.nil_append, releaseLoop]
    simp only [if_neg freed, if_true]
    split
    · rfl
    · rw [rest]
      rfl
  | cons j h₁ ih =>
    have freed : ¬ (j.state = .queued ∧ index + 1 ≤ maxInflight) :=
      fun h => states j List.mem_cons_self h.1
    obtain ⟨apart, distinct⟩ := List.nodup_cons.mp distinct
    have found : ¬ j.stored.mid = k.stored.mid := fun e =>
      apart (List.mem_map.mpr ⟨k, List.mem_append_right _ List.mem_cons_self, e.symm⟩)
    rw [List.cons_append, releaseLoop]
    simp only [if_neg freed, found, or_false, Bool.false_eq_true, and_false, if_false, decide_false]
    rw [ih (fun i hi => states i (List.mem_cons_of_mem _ hi)) distinct]
    rfl

/-- What `mqtt3_db_message_write` does where no message is queued. -/
lemma messageWrite_spec (states : ∀ k ∈ hs, k.state ≠ .queued) (count : Nat) :
    (messageWrite count hs).1.map ClientMsg.stored = hs.map ClientMsg.stored ∧
      (∀ k ∈ (messageWrite count hs).1, k.state ≠ .queued) ∧
      ∀ a ∈ (messageWrite count hs).2, ∃ k ∈ hs, a = .pubrec k.stored.mid := by
  induction hs generalizing count with
  | nil => exact ⟨rfl, List.forall_mem_nil _, List.forall_mem_nil _⟩
  | cons k hs ih =>
    obtain ⟨same, states', only⟩ := ih (fun j hj => states j (List.mem_cons_of_mem _ hj)) (count + 1)
    have only' : ∀ a ∈ (messageWrite (count + 1) hs).2, ∃ j ∈ k :: hs, a = .pubrec j.stored.mid := by
      intro a ha
      obtain ⟨j, hj, e⟩ := only a ha
      exact ⟨j, List.mem_cons_of_mem _ hj, e⟩
    cases state : k.state with
    | queued => exact absurd state (states k List.mem_cons_self)
    | waitForPubrel =>
      simp only [messageWrite, state, List.map_cons]
      refine ⟨by rw [same], List.forall_mem_cons.mpr ⟨?_, states'⟩, only'⟩
      rw [state]
      exact InState.noConfusion
    | sendPubrec =>
      simp only [messageWrite, state, List.map_cons]
      exact ⟨by rw [same], List.forall_mem_cons.mpr ⟨InState.noConfusion, states'⟩,
        List.forall_mem_cons.mpr ⟨⟨k, List.mem_cons_self, rfl⟩, only'⟩⟩

/-- The client sends no more than the broker may hold. -/
lemma Once.room (h : Once xs (.publish p :: rest) downs hs) (free : ¬ Held hs p.mid) :
    hs.length < active xs := by
  obtain ⟨x, hx, core, state⟩ := h.publishes p List.mem_cons_self
  have sub : p.mid :: hs.map (fun k => k.stored.mid) ⊆
      (xs.filter fun x => x.state ≠ .invalid).map fun x => x.core.mid := by
    refine List.cons_subset.mpr ⟨List.mem_map.mpr ⟨x, List.mem_filter.mpr ⟨hx, ?_⟩, by rw [core]⟩,
      fun m hm => ?_⟩
    · rcases state with state | ⟨state, -⟩ <;> rw [state] <;> rfl
    · obtain ⟨k, hk, rfl⟩ := List.mem_map.mp hm
      obtain ⟨-, y, hy, core', sent⟩ := h.held k hk
      exact List.mem_map.mpr ⟨y, List.mem_filter.mpr ⟨hy, by simpa using sent⟩, by rw [core']⟩
  have le := (List.subperm_of_subset (List.nodup_cons.mpr ⟨free, h.heldDistinct⟩) sub).length_le
  rw [List.length_cons, List.length_map, List.length_map, ← List.countP_eq_length_filter] at le
  exact le

end Once

/-! ## The system -/

/-- What holds of the system on the one connection. -/
structure System.Exact (s : System) (acc : List Publish) : Prop where
  once : Once s.client.outMessages s.up s.down s.context.msgs
  all : (s.context.handed ++ undelivered s.context.msgs s.client.outMessages).Perm acc
  taken : s.taken ≤ s.client.outPackets.length
  counted : s.client.inflightMessages = active s.client.outMessages
  bounded : s.client.inflightMessages ≤ 20
  limit : s.client.maxInflightMessages = 20
  old : s.old = []
  empty : s.link = .waiting → s.context.msgs = []

/-- An event on one connection of a client that publishes with quality of service 2. -/
def Event.Twice : Event → Prop
  | .publish _ _ _ qos _ => qos = 2
  | .reconnect _ => False
  | _ => True

section Exact
variable {s : System} {acc : List Publish}

/-- The messages that take a place in the window. -/
lemma active_append (xs ys : List OutMessage) : active (xs ++ ys) = active xs + active ys :=
  List.countP_append

/-- A retry takes no other place. -/
lemma active_retried (now retry : Nat) (xs : List OutMessage) :
    active (xs.map (OutMessage.retried now retry)) = active xs := by
  rw [active, List.countP_map]
  refine List.countP_congr fun x _ => ?_
  simp only [Function.comp, (x.retried_same now retry).2]

/-- A PUBREC is awaited. -/
lemma awaited_two {qos : Nat} (h : qos = 2) : awaited qos = .waitForPubrec := by
  rw [h]
  rfl

/-- `mosquitto_publish`. -/
lemma exact_publish (h : s.Exact acc) (now : Nat) (topic payload : Bytes) {qos : ℤ} (retain : Bool)
    (two : qos = 2) (fresh : Event.Fresh s (.publish now topic payload qos retain)) :
    (s.step (.publish now topic payload qos retain)).Exact
      (acc ++ queued s.client (.publish now topic payload qos retain)) := by
  rcases mosquittoPublish_cases now topic payload qos retain s.client with
    ⟨new, mid, extra, e, only⟩ | ⟨p, new, -, dup, h'⟩
  · have nothing : extra = [] := List.eq_nil_iff_forall_not_mem.mpr fun q hq => by
      have := (only q hq).1
      omega
    rw [nothing, List.append_nil] at e
    rw [new, List.append_nil, System.step, e]
    exact { h with once := h.once }
  · obtain ⟨kept, unused, down, -⟩ :=
      fresh p (by rw [Event.accepted, new]; exact List.mem_singleton_self p)
    have qos_two : p.qos = 2 := by
      rw [queued] at new
      split at new
      · cases new
        rw [two]
        rfl
      · cases new
    have core : ∀ state, OutMessage.core ⟨p, state, now⟩ = p := fun state => by
      rw [OutMessage.core, ← dup]
    have added : ∀ state, state = .invalid ∨ state = .waitForPubrec →
        Once (s.client.outMessages ++ [⟨p, state, now⟩]) s.up s.down s.context.msgs ∧
        (s.context.handed ++ undelivered s.context.msgs (s.client.outMessages ++ [⟨p, state, now⟩])).Perm
          (acc ++ [p]) := by
      intro state waits
      refine ⟨h.once.add qos_two waits (by rw [core]; exact kept) (by rw [core]; exact unused)
        (by rw [core]; exact down), ?_⟩
      rw [undelivered_add _ _ waits, core, ← List.append_assoc]
      exact h.all.append_right [p]
    rw [new, System.step]
    rcases h' with ⟨room, extra, e, only⟩ | ⟨-, e⟩
    · rw [e]
      have waits := awaited_two qos_two
      obtain ⟨once, all⟩ := added _ (.inr waits)
      have sends := once.sends extra fun q hq => by
        rw [only q hq]
        exact ⟨_, List.mem_append_right _ (List.mem_singleton_self _), by rw [core, ← dup], waits⟩
      have below : s.client.inflightMessages < 20 := by
        have := room.resolve_left (by rw [h.limit]; decide)
        rwa [h.limit] at this
      refine ⟨?_, all, h.taken.trans (by simp), ?_, by dsimp only; omega, h.limit, h.old, h.empty⟩
      · rwa [← System.up_append h.taken] at sends
      · have sent : (⟨p, awaited p.qos, now⟩ : OutMessage).state ≠ .invalid := awaited_ne _
        dsimp only
        rw [active_append, active_cons, if_pos sent, h.counted]
        rfl
    · rw [e]
      obtain ⟨once, all⟩ := added .invalid (.inl rfl)
      refine ⟨once, all, h.taken, ?_, h.bounded, h.limit, h.old, h.empty⟩
      dsimp only
      rw [active_append, h.counted]
      rfl

/-- A retry. -/
lemma exact_retry (h : s.Exact acc) (now : Nat) : (s.step (.retry now)).Exact acc := by
  rw [System.step, Mosq.step]
  split
  swap
  · exact h
  obtain ⟨extra, e, only⟩ := retryLoop_eq now [] s.client.outMessages s.client
  rw [messageRetryCheck, e]
  have further : List.Forall₂ (Further s.context.msgs) s.client.outMessages
      (s.client.outMessages.map (OutMessage.retried now s.client.messageRetry)) :=
    List.forall₂_map_right_iff.mpr (List.forall₂_same.mpr fun x _ =>
      ⟨(x.retried_same now s.client.messageRetry).1, .inl (x.retried_same now s.client.messageRetry).2⟩)
  have may : ∀ q ∈ extra, MaySend s.client.outMessages q := by
    intro q hq
    obtain ⟨x, hx, sends⟩ := only q hq
    rw [OutMessage.Sends] at sends
    cases state : x.state with
    | invalid =>
      rw [state] at sends
      exact sends.elim
    | waitForPuback => exact absurd state (h.once.twice x hx).2
    | waitForPubrec =>
      rw [state] at sends
      rw [sends]
      exact ⟨x, hx, rfl, state⟩
    | waitForPubcomp =>
      rw [state] at sends
      rw [sends]
      intro y hy same
      rw [h.once.unique hy hx same]
      exact state
  have sends := h.once.sends _ may
  rw [← System.up_append h.taken] at sends
  refine ⟨sends.further further, ?_, h.taken.trans (by simp), ?_, h.bounded, h.limit, h.old, h.empty⟩
  · exact (undelivered_further further).symm ▸ h.all
  · exact (active_retried now s.client.messageRetry s.client.outMessages).symm ▸ h.counted

/-- One message goes on, the others stay. -/
lemma further_middle {hs : List ClientMsg} {x y : OutMessage} (h : Further hs x y)
    (l₁ l₂ : List OutMessage) : List.Forall₂ (Further hs) (l₁ ++ x :: l₂) (l₁ ++ y :: l₂) := by
  induction l₁ with
  | nil => exact .cons h (List.forall₂_same.mpr fun z _ => .refl hs z)
  | cons z l₁ ih => exact .cons (.refl hs z) ih

/-- Sending again is a way of going on. -/
lemma further_of_resent {xs ys : List OutMessage} (hs : List ClientMsg)
    (twice : ∀ x ∈ xs, x.publish.qos = 2) (h : List.Forall₂ Resent xs ys) :
    List.Forall₂ (Further hs) xs ys := by
  induction h with
  | nil => exact .nil
  | @cons x y xs ys same _ ih =>
    refine .cons ?_ (ih fun z hz => twice z (List.mem_cons_of_mem _ hz))
    rcases same with rfl | ⟨unsent, rfl⟩
    · exact .refl hs y
    · exact ⟨rfl, .inr (.inl ⟨unsent, awaited_two (twice x List.mem_cons_self)⟩)⟩

/-- The message that an answer is about. -/
lemma found_split {xs : List OutMessage} {mid i : Nat}
    (found : (xs.findIdx? fun x => x.publish.mid = mid) = some i) :
    ∃ l₁ x l₂, xs = l₁ ++ x :: l₂ ∧ l₁.length = i ∧ x.core.mid = mid := by
  obtain ⟨hi, is_it, -⟩ := List.findIdx?_eq_some_iff_getElem.mp found
  refine ⟨xs.take i, xs[i], xs.drop (i + 1), ?_, ?_, of_decide_eq_true is_it⟩
  · rw [← List.drop_eq_getElem_cons hi, List.take_append_drop]
  · rw [List.length_take, min_eq_left hi.le]

/-- A PUBREC at the client. -/
lemma exact_pubrec {mid : Nat} {rest : List Answer} (h : s.Exact acc) (now : Nat)
    (down : s.down = .pubrec mid :: rest) (connected : s.client.connected) :
    System.Exact { s with client := s.client.step (.pubrec mid now), down := rest } acc := by
  have once := h.once
  rw [down] at once
  rw [Mosq.step, if_pos connected, handlePubrec, messageOutUpdate]
  cases found : s.client.outMessages.findIdx? fun x => x.publish.mid = mid with
  | none => exact { h with once := once.read }
  | some i =>
    obtain ⟨l₁, x, l₂, split, rfl, same⟩ := found_split found
    have hx : x ∈ s.client.outMessages := by
      rw [split]
      exact List.mem_append_right _ List.mem_cons_self
    have modified : s.client.outMessages.modify l₁.length
        (fun x => { x with state := .waitForPubcomp, timestamp := now }) =
        l₁ ++ { x with state := .waitForPubcomp, timestamp := now } :: l₂ := by
      rw [split, List.modify_eq_take_cons_drop (by simp)]
      simp
    have step : Further s.context.msgs x { x with state := .waitForPubcomp, timestamp := now } := by
      refine ⟨rfl, ?_⟩
      rcases once.answers _ List.mem_cons_self x hx same with released | ⟨waits, held⟩
      · exact .inl released.symm
      · exact .inr (.inr ⟨waits, same ▸ held, rfl⟩)
    have steps := further_middle step l₁ l₂
    rw [← split, ← modified] at steps
    have further := once.read.further steps
    have sends := further.send (q := .pubrel mid false) fun y hy same' => by
      have mem : { x with state := .waitForPubcomp, timestamp := now } ∈
          s.client.outMessages.modify l₁.length
            fun x => { x with state := .waitForPubcomp, timestamp := now } := by
        rw [modified]
        exact List.mem_append_right _ List.mem_cons_self
      rw [further.unique hy mem (same'.trans same.symm)]
    rw [← System.up_append h.taken] at sends
    refine ⟨sends, ?_, h.taken.trans (by simp [sendPubrel]), ?_, h.bounded, h.limit, h.old, h.empty⟩
    · exact (undelivered_further steps).symm ▸ h.all
    · have sent : x.state ≠ .invalid := by
        rcases once.answers _ List.mem_cons_self x hx same with state | ⟨state, -⟩ <;> rw [state] <;>
          exact MsgState.noConfusion
      have counted : active (l₁ ++ { x with state := .waitForPubcomp, timestamp := now } :: l₂) =
          active s.client.outMessages := by
        rw [split, active_append, active_append, active_cons, active_cons, if_pos sent]
        rfl
      rw [← modified] at counted
      exact h.counted.trans (congrArg Nat.cast counted.symm)

/-- A PUBCOMP at the client. -/
lemma exact_pubcomp {mid : Nat} {rest : List Answer} (h : s.Exact acc)
    (down : s.down = .pubcomp mid :: rest) (connected : s.client.connected) :
    System.Exact { s with client := s.client.step (.pubackcomp mid), down := rest } acc := by
  have once := h.once
  rw [down] at once
  rw [Mosq.step, if_pos connected, handlePubackcomp, messageRemove]
  cases found : s.client.outMessages.findIdx? fun x => x.publish.mid = mid with
  | none => exact { h with once := once.read }
  | some i =>
    obtain ⟨l₁, x, l₂, split, rfl, same⟩ := found_split found
    have hx : x ∈ s.client.outMessages := by
      rw [split]
      exact List.mem_append_right _ List.mem_cons_self
    obtain ⟨released, free⟩ := once.answers _ List.mem_cons_self x hx same
    have counted : ((s.client.outMessages[l₁.length]?).any fun x => 0 < x.publish.qos) = true := by
      rw [split, List.getElem?_append_right le_rfl, Nat.sub_self, List.getElem?_cons_zero,
        Option.any_some, (h.once.twice x hx).1]
      rfl
    have erased : s.client.outMessages.eraseIdx l₁.length = l₁ ++ l₂ := by
      rw [split, List.eraseIdx_append_of_length_le le_rfl, Nat.sub_self]
      rfl
    have removed := once.read
    rw [split] at removed
    replace removed := removed.remove released (same ▸ free)
    dsimp only
    rw [counted, if_pos rfl, erased]
    obtain ⟨ys, messages, resends⟩ := resendLoop_resends [] (l₁ ++ l₂)
      { s.client with inflightMessages := s.client.inflightMessages - 1 }
    rw [List.nil_append] at messages
    have steps := further_of_resent s.context.msgs (fun y hy => (removed.twice y hy).1) resends.resent
    obtain ⟨extra, packets, only⟩ := resends.packets
    have sends := (removed.further steps).sends extra fun q hq => by
      obtain ⟨y, hy, sent, e⟩ := only q hq
      rw [e]
      exact ⟨_, sent, rfl, awaited_two (removed.twice y hy).1⟩
    rw [← System.up_append h.taken] at sends
    have sent : x.state ≠ .invalid := by
      rw [released]
      exact MsgState.noConfusion
    have one_less : active s.client.outMessages = active (l₁ ++ l₂) + 1 := by
      rw [split, active_append, active_append, active_cons, if_pos sent]
      rfl
    have before := h.counted
    have after := resends.counted
    dsimp only at after
    refine ⟨?_, ?_, ?_, ?_, ?_, ?_, h.old, h.empty⟩
    · rw [System.up]
      dsimp only
      rw [messages, packets]
      exact sends
    · dsimp only
      rw [messages, undelivered_further steps, ← undelivered_remove released (same ▸ free), ← split]
      exact h.all
    · dsimp only
      rw [packets]
      exact h.taken.trans (by simp)
    · dsimp only
      rw [messages]
      omega
    · have bounded := resends.bounded (by dsimp only; rw [h.limit]; decide)
      have := h.bounded
      have limit := h.limit
      dsimp only at bounded ⊢
      omega
    · exact resends.limit.trans h.limit

/-- What the broker does with a PUBLISH. -/
lemma handle_publish_two {c c' : Context} {sent : List Answer} {p : Publish} (now : Nat)
    (two : p.qos = 2) (e : mqtt3HandlePublish now p c = some (c', sent)) :
    (Held c.msgs p.mid ∧ c' = c ∧ sent = [.pubrec p.mid]) ∨
      (¬ Held c.msgs p.mid ∧ (c.msgs.length < maxInflight → sent = [.pubrec p.mid] ∧
        c' = { c with msgs := c.msgs ++ [⟨{ p with dup := false }, .waitForPubrel, now⟩] })) := by
  obtain ⟨dup, qos, retain, topic, mid, payload⟩ := p
  obtain rfl : qos = 2 := two
  rw [mqtt3HandlePublish] at e
  split at e
  · cases e
  split at e
  · cases e
  split at e
  · cases e
  have asked : (if 0 < 2 then messageStoreFind mid c else none) = messageStoreFind mid c :=
    if_pos (by decide)
  dsimp only at e
  rw [asked, messageStoreFind] at e
  cases found : c.msgs.find? fun x => x.stored.mid = mid with
  | some k =>
    have held : Held c.msgs mid :=
      List.mem_map.mpr ⟨k, List.mem_of_find?_eq_some found, by simpa using List.find?_some found⟩
    rw [found] at e
    cases e
    exact .inl ⟨held, rfl, rfl⟩
  | none =>
    have free : ¬ Held c.msgs mid := by
      intro held
      obtain ⟨k, hk, same⟩ := List.mem_map.mp held
      exact absurd (decide_eq_true same) (List.find?_eq_none.mp found k hk)
    refine .inr ⟨free, fun room => ?_⟩
    have inserted : messageInsert now ⟨false, 2, retain, topic, mid, payload⟩ c =
        (0, { c with msgs := c.msgs ++ [⟨⟨false, 2, retain, topic, mid, payload⟩, .waitForPubrel, now⟩] }) :=
      if_pos (.inr room)
    rw [found] at e
    dsimp only [Option.map_none, Option.getD_none, Option.isNone_none] at e
    simp only [if_true, inserted] at e
    cases e
    exact ⟨rfl, rfl⟩

/-- The broker reads a packet. -/
lemma exact_take (h : s.Exact acc) (now : Nat) : (s.step (.take now)).Exact acc := by
  rw [System.step]
  cases up : s.up with
  | nil => exact h
  | cons q rest =>
    dsimp only
    split
    swap
    · exact h
    next established =>
    have rest_eq : s.client.outPackets.drop (s.taken + 1) = rest := by
      rw [← List.drop_drop, ← System.up, up]
      rfl
    have taken : s.taken + 1 ≤ s.client.outPackets.length := by
      have : 0 < s.up.length := by
        rw [up]
        exact Nat.succ_pos _
      rw [System.up, List.length_drop] at this
      omega
    have once := h.once
    rw [up] at once
    have waiting : s.link ≠ .waiting := by
      rw [established]
      exact Link.noConfusion
    cases e : s.context.handle now q with
    | none => exact { h with once := h.once, empty := fun link => by cases link }
    | some r =>
      obtain ⟨c', sent⟩ := r
      -- what is left to show of the packet that has been read
      have done : Once s.client.outMessages rest (s.down ++ sent) c'.msgs →
          (c'.handed ++ undelivered c'.msgs s.client.outMessages).Perm acc →
          System.Exact { s with context := c', taken := s.taken + 1, down := s.down ++ sent } acc :=
        fun once all => ⟨by rwa [← rest_eq] at once, all, taken, h.counted, h.bounded, h.limit, h.old,
          fun link => absurd link waiting⟩
      dsimp only
      cases q with
      | publish p =>
        obtain ⟨x, hx, core, -⟩ := once.publishes p List.mem_cons_self
        have two : p.qos = 2 := by
          rw [← (once.twice x hx).1]
          exact (congrArg Publish.qos core).symm
        rcases handle_publish_two now two e with ⟨held, rfl, rfl⟩ | ⟨free, inserts⟩
        · exact done (once.again held) h.all
        · have room := once.room free
          have counted := h.counted
          have bounded := h.bounded
          obtain ⟨rfl, rfl⟩ := inserts (by rw [maxInflight]; omega)
          refine done (once.insert free now) ?_
          rw [undelivered_insert once free now]
          exact h.all
      | pubrel mid dup =>
        have states := fun k hk => (once.held k hk).1
        rw [Context.handle, mqtt3HandlePubrel] at e
        by_cases held : Held s.context.msgs mid
        · obtain ⟨k, hk, rfl⟩ := List.mem_map.mp held
          obtain ⟨h₁, h₂, split⟩ := List.append_of_mem hk
          have all := h.all
          have distinct := once.heldDistinct
          rw [split] at e once states distinct all
          rw [releaseLoop_found now states distinct 0] at e
          cases e
          refine done once.release ?_
          refine List.Perm.trans ?_ all
          rw [List.append_assoc]
          exact (undelivered_release once).symm.append_left _
        · have other : ∀ k ∈ s.context.msgs, k.stored.mid ≠ mid := fun k hk e =>
            held (List.mem_map.mpr ⟨k, hk, e⟩)
          rw [releaseLoop_none now states other 0 false] at e
          cases e
          refine done (once.repeated held) ?_
          rw [List.append_nil]
          exact h.all

/-- The client reads an answer. -/
lemma exact_answer (h : s.Exact acc) (now : Nat) : (s.step (.answer now)).Exact acc := by
  rw [System.step]
  cases down : s.down with
  | nil => exact h
  | cons a rest =>
    dsimp only
    split
    swap
    · exact h
    next connected =>
    cases a with
    | puback mid =>
      have fits := h.once.answers (.puback mid) (by rw [down]; exact List.mem_cons_self)
      exact fits.elim
    | pubrec mid => exact exact_pubrec h now down connected
    | pubcomp mid => exact exact_pubcomp h down connected

/-- The CONNACK. -/
lemma exact_connect (h : s.Exact acc) : (s.step .connect).Exact acc := by
  rw [System.step]
  split
  · next waiting =>
    have empty := h.empty waiting
    refine ⟨?_, ?_, h.taken, h.counted, h.bounded, h.limit, rfl, fun _ => rfl⟩
    · have once := h.once
      rwa [empty] at once
    · have all := h.all
      rwa [empty] at all
  · exact h

/-- The timeout of the broker. -/
lemma exact_timeout (h : s.Exact acc) (now timeout : Nat) : (s.step (.timeout now timeout)).Exact acc := by
  have same : (messageTimeoutCheck now timeout s.context).msgs.map ClientMsg.stored =
      s.context.msgs.map ClientMsg.stored := by
    rw [messageTimeoutCheck, List.map_map]
    refine List.map_congr_left fun k _ => ?_
    rw [Function.comp_apply]
    split <;> rfl
  have states : ∀ k ∈ (messageTimeoutCheck now timeout s.context).msgs, k.state ≠ .queued := by
    intro k hk
    obtain ⟨j, hj, rfl⟩ := List.mem_map.mp hk
    split
    · exact InState.noConfusion
    · exact (h.once.held j hj).1
  refine ⟨h.once.restate same states, ?_, h.taken, h.counted, h.bounded, h.limit, h.old, fun link => ?_⟩
  · exact (undelivered_congr same _).symm ▸ h.all
  · have empty := h.empty link
    rw [System.step, messageTimeoutCheck]
    dsimp only
    rw [empty]
    rfl

/-- A packet is written. -/
lemma exact_write (h : s.Exact acc) : (s.step .write).Exact acc := by
  rw [System.step]
  split
  · next established =>
    obtain ⟨same, states, only⟩ := messageWrite_spec (fun k hk => (h.once.held k hk).1) 0
    have once := (h.once.pubrecs only).restate same states
    refine ⟨once, ?_, h.taken, h.counted, h.bounded, h.limit, h.old, fun link => ?_⟩
    · exact (undelivered_congr same _).symm ▸ h.all
    · have waiting : s.link = .waiting := link
      rw [established] at waiting
      cases waiting
  · exact h

/-- One event. -/
lemma exact_step (h : s.Exact acc) {e : Event} (twice : e.Twice) (fresh : e.Fresh s) :
    (s.step e).Exact (acc ++ e.accepted s) := by
  have quiet : (s.step e).Exact acc → e.accepted s = [] → (s.step e).Exact (acc ++ e.accepted s) := by
    intro h none
    rwa [none, List.append_nil]
  cases e with
  | publish now topic payload qos retain => exact exact_publish h now topic payload retain twice fresh
  | retry now => exact quiet (exact_retry h now) rfl
  | close => exact quiet { h with once := h.once } rfl
  | reconnect succeeds => exact twice.elim
  | answer now => exact quiet (exact_answer h now) rfl
  | connect => exact quiet (exact_connect h) rfl
  | take now => exact quiet (exact_take h now) rfl
  | late now i =>
    refine quiet ?_ rfl
    rw [System.step, h.old]
    exact h
  | timeout now timeout => exact quiet (exact_timeout h now timeout) rfl
  | write => exact quiet (exact_write h) rfl

/-- A run. -/
lemma exact_run (h : s.Exact acc) {es : List Event} (twice : ∀ e ∈ es, e.Twice) (fresh : Fresh s es) :
    (s.run es).Exact (acc ++ accepted s es) := by
  induction es generalizing s acc with
  | nil =>
    rw [accepted, List.append_nil]
    exact h
  | cons e es ih =>
    rw [accepted, ← List.append_assoc]
    exact ih (exact_step h (twice e List.mem_cons_self) fresh.1)
      (fun e' he' => twice e' (List.mem_cons_of_mem _ he')) fresh.2

/-- The first connection has been made. -/
def System.connected : System := System.start.step (.reconnect true)

/-- The first connection. -/
lemma exact_connected : System.connected.Exact [] :=
  ⟨⟨List.forall_mem_nil _, List.nodup_nil, List.forall_mem_nil _, List.nodup_nil,
    fun _ hp => absurd hp List.not_mem_nil, fun _ _ hq => absurd hq List.not_mem_nil, .nil,
    List.forall_mem_nil _⟩, .nil, le_rfl, rfl, by decide, rfl, rfl, fun _ => rfl⟩

/-- On the first connection every message that has been accepted with quality of service 2 is handed to the
subscribers once, or not yet: then it is still kept. -/
theorem handed_once (es : List Event) (twice : ∀ e ∈ es, e.Twice) (fresh : Fresh .connected es) :
    let s := System.connected.run es
    ∃ waiting, waiting.Sublist (s.client.outMessages.map OutMessage.core) ∧
      (s.context.handed ++ waiting).Perm (accepted .connected es) := by
  have run := (exact_run exact_connected twice fresh).all
  rw [List.nil_append] at run
  exact ⟨_, List.Sublist.map _ List.filter_sublist, run⟩

/-- Two PUBLISH and two PUBREL packets for one message. -/
theorem handed_once_again :
    let es : List Event := [.connect, .publish 0 [97] [120] 2 false, .retry 30, .take 30, .take 30,
      .answer 31, .answer 31, .take 31, .take 31, .answer 32, .publish 33 [97] [121] 2 false]
    ∃ waiting, waiting.Sublist ((System.connected.run es).client.outMessages.map OutMessage.core) ∧
      ((System.connected.run es).context.handed ++ waiting).Perm (accepted .connected es) := by
  intro es
  have twice : ∀ e ∈ es, e.Twice := by
    simp [es, Event.Twice]
  exact handed_once es twice (by decide +kernel)

end Exact

end Powmon.Mqtt
