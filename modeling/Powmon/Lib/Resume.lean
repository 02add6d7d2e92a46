import Mathlib

/-!
# Readers that go on where the bytes ended

A reader takes items off a stream of which it only ever has what has arrived so far. If the bytes end
inside an item it keeps a state, and goes on from it in the next call. `Resumes` is what such a reader
has to satisfy, beside an encoding of the items, and `Resumes.received` what follows for every order of
arrivals and calls: the items come back one by one, none of them twice and none before it is complete.
-/

namespace Powmon.Lib

/-- How a call of a reader ends. -/
inductive Reading (σ ε β : Type*) where
  | again (s : σ)
  | item (e : ε) (rest : List β)
  | stop

section Resume
variable {σ ε β : Type*}

/-- What happens to a reader: bytes arrive behind those that it has not taken, or it is called. -/
inductive Input (β : Type*) where
  | arrive (bs : List β)
  | call

/-- A reader with the bytes that it has not taken, and the items it has handed out. -/
structure Receiver (σ ε β : Type*) where
  st : σ
  buffer : List β
  received : List ε
  isOpen : Bool

variable (read : σ → List β → Reading σ ε β) (init : σ)

def Receiver.step (r : Receiver σ ε β) : Input β → Receiver σ ε β
  | .arrive bs => { r with buffer := r.buffer ++ bs }
  | .call =>
    if r.isOpen then
      match read r.st r.buffer with
      | .again s => { r with st := s, buffer := [] }
      | .item e rest => ⟨init, rest, r.received ++ [e], true⟩
      | .stop => { r with isOpen := false }
    else r

/-- Everything that arrives. -/
def arrived (inputs : List (Input β)) : List β :=
  inputs.flatMap fun
    | .arrive bs => bs
    | .call => []

/-- The reader after some inputs. -/
def receive (inputs : List (Input β)) : Receiver σ ε β :=
  inputs.foldl (Receiver.step read init) ⟨init, [], [], true⟩

/-- A reader that goes on where the bytes ended, and takes apart what `encode` puts together for the
items that are `Valid`. -/
structure Resumes (encode : ε → List β) (Valid : ε → Prop) : Prop where
  start : read init [] = .again init
  /-- What arrives behind an item is not touched. -/
  item : ∀ {a b e r}, read init a = .item e r → read init (a ++ b) = .item e (r ++ b)
  stop : ∀ {a b}, read init a = .stop → read init (a ++ b) = .stop
  /-- The state stands for the bytes that were taken. -/
  again : ∀ {a s es}, read init a = .again s → (∀ e ∈ es, Valid e) → a <+: List.flatMap encode es →
    ∀ b, read s b = read init (a ++ b)
  decode : ∀ {e}, Valid e → ∀ rest, read init (encode e ++ rest) = .item e rest

variable {read init} {encode : ε → List β} {Valid : ε → Prop}

/-- The items handed out, the bytes taken since then, those in the buffer and those still to come are
the stream. -/
def Receiver.At (read : σ → List β → Reading σ ε β) (init : σ) (encode : ε → List β) (es : List ε)
    (r : Receiver σ ε β) (coming : List β) : Prop :=
  r.isOpen ∧ ∃ left taken, r.received ++ left = es ∧ read init taken = .again r.st ∧
    taken ++ (r.buffer ++ coming) = left.flatMap encode

variable {es : List ε} {r : Receiver σ ε β} {coming : List β}

/-- A call keeps to the stream. -/
lemma Resumes.call (h : Resumes read init encode Valid) (valid : ∀ e ∈ es, Valid e)
    (at_ : r.At read init encode es coming) :
    (r.step read init .call).At read init encode es coming := by
  obtain ⟨isOpen, left, taken, split, state, stream⟩ := at_
  have validLeft : ∀ e ∈ left, Valid e := fun e he => valid e (split ▸ List.mem_append_right _ he)
  have resumed := h.again state validLeft ⟨_, stream⟩ r.buffer
  rw [Receiver.step, if_pos isOpen]
  cases hr : read r.st r.buffer with
  | again s =>
    refine ⟨isOpen, left, taken ++ r.buffer, split, ?_, ?_⟩
    · rw [← resumed, hr]
    · rw [List.append_assoc, List.nil_append, stream]
  | item e rest =>
    -- with everything that is still to come, the call would have handed out the same item
    have whole := h.item (b := coming) (resumed.symm.trans hr)
    rw [List.append_assoc, stream] at whole
    cases left with
    | nil => cases h.start.symm.trans whole
    | cons x left =>
      rw [List.flatMap_cons, h.decode (validLeft x List.mem_cons_self), Reading.item.injEq] at whole
      obtain ⟨rfl, tail⟩ := whole
      refine ⟨rfl, left, [], ?_, h.start, tail.symm⟩
      rw [List.append_assoc, List.singleton_append, split]
  | stop =>
    have whole := h.stop (b := coming) (resumed.symm.trans hr)
    rw [List.append_assoc, stream] at whole
    cases left with
    | nil => cases h.start.symm.trans whole
    | cons x left =>
      rw [List.flatMap_cons, h.decode (validLeft x List.mem_cons_self)] at whole
      cases whole

lemma Receiver.At.arrive {bs : List β} (at_ : r.At read init encode es (bs ++ coming)) :
    (r.step read init (.arrive bs)).At read init encode es coming := by
  obtain ⟨isOpen, left, taken, split, state, stream⟩ := at_
  refine ⟨isOpen, left, taken, split, state, ?_⟩
  rw [← stream]
  simp only [Receiver.step, List.append_assoc]

lemma Resumes.run (h : Resumes read init encode Valid) (valid : ∀ e ∈ es, Valid e)
    {inputs : List (Input β)} (at_ : r.At read init encode es (arrived inputs ++ coming)) :
    (inputs.foldl (Receiver.step read init) r).At read init encode es coming := by
  induction inputs generalizing r with
  | nil => exact at_
  | cons i inputs ih =>
    cases i with
    | arrive bs =>
      refine ih (Receiver.At.arrive ?_)
      rwa [arrived, List.flatMap_cons, List.append_assoc] at at_
    | call => exact ih (h.call valid at_)

/-- Of a stream of items those that are complete come back, in their order and once each, whatever pieces
it arrives in and whenever the reader is called. If it all has arrived and the reader has taken it, so
have all of them. -/
lemma Resumes.received (h : Resumes read init encode Valid) (valid : ∀ e ∈ es, Valid e)
    {inputs : List (Input β)} (stream : arrived inputs <+: es.flatMap encode) :
    (receive read init inputs).isOpen ∧ (receive read init inputs).received <+: es ∧
      (arrived inputs = es.flatMap encode → (receive read init inputs).buffer = [] →
        (receive read init inputs).received = es) := by
  obtain ⟨coming, whole⟩ := stream
  have start : Receiver.At read init encode es ⟨init, [], [], true⟩ (arrived inputs ++ coming) :=
    ⟨rfl, es, [], rfl, h.start, whole⟩
  obtain ⟨isOpen, left, taken, split, state, rest⟩ := h.run valid start
  refine ⟨isOpen, ⟨left, split⟩, fun all empty => ?_⟩
  obtain rfl : coming = [] := by simpa [all] using whole
  change (receive read init inputs).received ++ left = es at split
  change taken ++ ((receive read init inputs).buffer ++ []) = left.flatMap encode at rest
  rw [empty, List.append_nil, List.append_nil] at rest
  cases left with
  | nil => rwa [List.append_nil] at split
  | cons x left =>
    rw [rest, List.flatMap_cons, h.decode (valid x (split ▸ by simp))] at state
    cases state

end Resume

end Powmon.Lib
