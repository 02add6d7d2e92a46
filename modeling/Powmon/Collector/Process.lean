import Powmon.Lib.Text

/-!
# The collector

`mqttOnMessage` and `sendToDB` of `powmon/process.py`, a Python 2 program: a message is split into
topic levels and payload items, the last item is the timestamp, and the first three characters of the
device level decide which point is written.

Python → Lean naming: `float(s)`, `int(s)` and `int(x)` of a float are `pyFloat`, `pyInt` and
`truncInt`; `x[i]` is `item x i`; `y[-1]` is `lastItem y`; the exceptions these raise are `PyExc`. The
part of `sendToDB` that builds `json_body` is `jsonBody`; the three field tables are `cpuFields`,
`gpuFields` and `coreFields`. `json_body` is what `sendToDB` hands to `write_points`, whose own
exceptions it catches, so an exception of `sendToDB` is one of the conversions before it.
-/

namespace Powmon.Collector
open Lib

/-! ## Python -/

/-- The exceptions the conversions raise. -/
inductive PyExc where
  | indexError
  | valueError
  | overflowError
deriving DecidableEq

/-- `float(s)`. -/
def pyFloat (s : Text) : Except PyExc Fl :=
  let (neg, t) := scanSign (strip s)
  match scanDecimal t with
  | some (x, []) => .ok (binary64.round neg x)
  | _ =>
    let w := t.map Char.toLower
    if w = "inf".toList ∨ w = "infinity".toList then .ok (.inf neg)
    else if w = "nan".toList then .ok (.nan neg)
    else .error .valueError

/-- `int(s)`. -/
def pyInt (s : Text) : Except PyExc ℤ :=
  let (neg, t) := scanSign (strip s)
  match scanDigits t with
  | (c :: ds, []) => .ok (if neg then -(digitsVal (c :: ds) : ℤ) else digitsVal (c :: ds))
  | _ => .error .valueError

/-- `int(x)` of a float. -/
def truncInt : Fl → Except PyExc ℤ
  | .nan _ => .error .valueError
  | .inf _ => .error .overflowError
  | .fin neg x => .ok (if neg then -(⌊x⌋₊ : ℤ) else ⌊x⌋₊)

/-- `x[i]`. -/
def item (x : List Text) (i : Nat) : Except PyExc Text :=
  match x[i]? with
  | some a => .ok a
  | none => .error .indexError

/-- `x[-1]`. -/
def lastItem (x : List Text) : Except PyExc Text :=
  match x.getLast? with
  | some a => .ok a
  | none => .error .indexError

/-! ## Points -/

/-- The value of a field. -/
inductive Value where
  | int (z : ℤ)
  | float (x : Fl)
deriving DecidableEq

/-- An entry of `json_body`. -/
structure Point where
  measurement : Text
  time : ℤ
  node : Text
  device : Text
  fields : List (Text × Value)
deriving DecidableEq

/-- The conversion a field table applies to a payload item. -/
inductive Conv where
  | int
  | float
deriving DecidableEq

/-- The conversion of an item. -/
def Conv.apply : Conv → Text → Except PyExc Value
  | .int, s => return .int (← pyInt s)
  | .float, s => return .float (← pyFloat s)

/-- A `fields` dictionary: the name of each field, the index of its payload item and its
conversion. -/
def cpuFields : List (Text × Nat × Conv) :=
  [("cpu_temp".toList, 0, .int), ("nomfreq_MHz".toList, 1, .float), ("uclk_MHz".toList, 2, .float),
    ("pow_dram".toList, 3, .float), ("pow_pkg".toList, 4, .float)]

/-- The fields of a `gpu` message. -/
def gpuFields : List (Text × Nat × Conv) :=
  [("gpu_pow".toList, 0, .float), ("gpu_utl".toList, 1, .float), ("mem_utl".toList, 2, .float),
    ("gpuclk_MHz".toList, 3, .float), ("memclk_MHz".toList, 4, .float)]

def coreFields : List (Text × Nat × Conv) :=
  [("core_temp".toList, 0, .int), ("CPI".toList, 1, .float), ("IPS".toList, 2, .float),
    ("Load".toList, 3, .float), ("mclk_MHz".toList, 4, .float), ("rclk_MHz".toList, 5, .float)]

/-- The values of a field table, converted in the order of the table. -/
def readFields (y : List Text) (table : List (Text × Nat × Conv)) :
    Except PyExc (List (Text × Value)) :=
  table.mapM fun (name, i, conv) => do return (name, ← conv.apply (← item y i))

/-- The assignment of `json_body` in one of the three `if`s. -/
def onePoint (measurement : Text) (table : List (Text × Nat × Conv)) (timestamp : ℤ)
    (node device : Text) (y : List Text) : Except PyExc (List Point) := do
  return [⟨measurement, timestamp * 1000000000, node, device, ← readFields y table⟩]

/-- `json_body` after the three `if`s on `device[0:3]`. -/
def jsonBody (timestamp : ℤ) (node device : Text) (y : List Text) : Except PyExc (List Point) := do
  let body := []
  let body ←
    if device.take 3 = "cpu".toList then onePoint "cpu".toList cpuFields timestamp node device y
    else pure body
  let body ←
    if device.take 3 = "gpu".toList then onePoint "gpu".toList gpuFields timestamp node device y
    else pure body
  if device.take 3 = "cor".toList then onePoint "core".toList coreFields timestamp node device y
  else pure body

/-- `sendToDB`, up to the call of `write_points`. -/
def sendToDB (topic payload : Text) : Except PyExc (List Point) := do
  let x := topic.splitOn '/'
  let y := payload.splitOn ';'
  let node ← item x 1
  let device ← item x 2
  let timestamp ← lastItem y
  let timestamp ← truncInt (← pyFloat timestamp)
  jsonBody timestamp node device y

/-- `mqttOnMessage` with a database that accepts the points `accepts` says, and what the database
holds. Without a connection the message is dropped; a refused write is logged. -/
def mqttOnMessage (dbConn : Option (List Point → Bool)) (topic payload : Text)
    (store : List Point) : Except PyExc (List Point) :=
  match dbConn with
  | some accepts => do
    let body ← sendToDB topic payload
    return if accepts body then store ++ body else store
  | none => pure store

/-- The three `if`s are exclusive. -/
lemma jsonBody_eq (z : ℤ) (node dev : Text) (y : List Text) :
    jsonBody z node dev y =
      if dev.take 3 = "cpu".toList then onePoint "cpu".toList cpuFields z node dev y
      else if dev.take 3 = "gpu".toList then onePoint "gpu".toList gpuFields z node dev y
      else if dev.take 3 = "cor".toList then onePoint "core".toList coreFields z node dev y
      else .ok [] := by
  have h1 : "cpu".toList ≠ "gpu".toList := by decide
  have h2 : "cpu".toList ≠ "cor".toList := by decide
  have h3 : "gpu".toList ≠ "cor".toList := by decide
  unfold jsonBody
  by_cases hc : dev.take 3 = "cpu".toList
  · simp only [hc, h1, h2, if_true, if_false, bind_pure]
  · by_cases hg : dev.take 3 = "gpu".toList
    · simp only [hg, Ne.symm h1, h3, if_true, if_false, pure_bind, bind_pure]
    · simp only [hc, hg, if_false, pure_bind]
      rfl

/-- What building the point gives. -/
lemma onePoint_ok {measurement : Text} {table : List (Text × Nat × Conv)} {z : ℤ}
    {node dev : Text} {y : List Text} {vs : List (Text × Value)} (h : readFields y table = .ok vs) :
    onePoint measurement table z node dev y =
      .ok [⟨measurement, z * 1000000000, node, dev, vs⟩] := by
  rw [onePoint, h]
  rfl

/-- The points carry the node and the device they were built for. -/
lemma jsonBody_tags {z : ℤ} {node dev : Text} {y : List Text} {pt : Point}
    (h : jsonBody z node dev y = .ok [pt]) : pt.node = node ∧ pt.device = dev := by
  have one : ∀ measurement table, onePoint measurement table z node dev y = .ok [pt] →
      pt.node = node ∧ pt.device = dev := by
    intro measurement table h
    cases hf : readFields y table with
    | error e =>
      rw [onePoint, hf] at h
      cases h
    | ok vs =>
      rw [onePoint_ok hf] at h
      cases h
      exact ⟨rfl, rfl⟩
  rw [jsonBody_eq] at h
  split_ifs at h
  · exact one _ _ h
  · exact one _ _ h
  · exact one _ _ h
  · cases h

/-- If each entry of each table can be read, so can the message, whatever its device. -/
lemma jsonBody_total {y : List Text}
    (h : ∀ table ∈ [cpuFields, gpuFields, coreFields], ∃ vs, readFields y table = .ok vs) (z : ℤ)
    (node dev : Text) : ∃ body, jsonBody z node dev y = .ok body := by
  have one : ∀ measurement, ∀ table ∈ [cpuFields, gpuFields, coreFields],
      ∃ body, onePoint measurement table z node dev y = .ok body := by
    intro measurement table ht
    obtain ⟨vs, hvs⟩ := h table ht
    exact ⟨_, onePoint_ok hvs⟩
  rw [jsonBody_eq]
  split_ifs
  · exact one _ cpuFields (by simp)
  · exact one _ gpuFields (by simp)
  · exact one _ coreFields (by simp)
  · exact ⟨[], rfl⟩

/-- A field table is read entry by entry. -/
lemma readFields_cons {y : List Text} {name s : Text} {i : Nat} {conv : Conv} {v : Value}
    {table : List (Text × Nat × Conv)} {vs : List (Text × Value)} (hi : y[i]? = some s)
    (hv : conv.apply s = .ok v) (hr : readFields y table = .ok vs) :
    readFields y ((name, i, conv) :: table) = .ok ((name, v) :: vs) := by
  have head : (do return (name, ← conv.apply (← item y i))) = Except.ok (ε := PyExc) (name, v) := by
    rw [item, hi]
    show (conv.apply s >>= fun v => pure (name, v)) = _
    rw [hv]
    rfl
  have e : readFields y ((name, i, conv) :: table) = (do
      let a ← (do return (name, ← conv.apply (← item y i)))
      return a :: (← readFields y table)) := List.mapM_cons
  rw [e, head, hr]
  rfl

/-! ## Conversions of printed numbers -/

/-- A text without a sign. -/
lemma scanSign_of_head {t : Text} (h : ∀ c ∈ t.head?, c ≠ '-' ∧ c ≠ '+') :
    scanSign t = (false, t) := by
  cases t with
  | nil => rfl
  | cons c t =>
    obtain ⟨h1, h2⟩ := h c rfl
    unfold scanSign
    split
    · next e => exact absurd (List.cons.inj e).1 h1
    · next e => exact absurd (List.cons.inj e).1 h2
    · rfl

/-- The sign that is printed is read. -/
lemma scanSign_fmtSign {neg : Bool} {t : Text} (h : ∀ c ∈ t.head?, c ≠ '-' ∧ c ≠ '+') :
    scanSign (fmtSign neg ++ t) = (neg, t) := by
  cases neg with
  | false => exact scanSign_of_head h
  | true => rfl

/-- A text that starts with a digit has no sign. -/
lemma ne_sign_of_isDigit {c : Char} (h : c.isDigit) : c ≠ '-' ∧ c ≠ '+' := by
  constructor
  · rintro rfl
    cases h
  · rintro rfl
    cases h

/-- A printed number begins with a digit. -/
lemma head_fmtNat {n : Nat} {r : Text} {c : Char} (h : c ∈ (fmtNat n ++ r).head?) : c.isDigit := by
  obtain ⟨d, ds, e⟩ := List.exists_cons_of_ne_nil (fmtNat_ne_nil n)
  rw [e, List.cons_append, List.head?_cons, Option.mem_some_iff] at h
  subst h
  exact isDigit_fmtNat (e ▸ List.mem_cons_self)

/-- The value a reader gives to a number printed with `d` decimals: the `double` nearest to the
printed decimal, or the printed `nan` or `inf`. -/
def printed (d : Nat) : Fl → Fl
  | .nan neg => .nan neg
  | .inf neg => .inf neg
  | .fin neg x => binary64.round neg (decimal d (toFixed d x))

/-- A printed number with a fraction is read as the double that is closest to it. -/
lemma pyFloat_signed {neg : Bool} {d n : Nat} (hd : 0 < d) :
    pyFloat (fmtSign neg ++ fixedDigits d n) = .ok (binary64.round neg (decimal d n)) := by
  have hs : strip (fmtSign neg ++ fixedDigits d n) = fmtSign neg ++ fixedDigits d n := by
    refine strip_of_isNumChar fun c hc => ?_
    exact (List.mem_append.mp hc).elim isNumChar_fmtSign isNumChar_fixedDigits
  have hg : scanSign (fmtSign neg ++ fixedDigits d n) = (neg, fixedDigits d n) :=
    scanSign_fmtSign fun c hc => ne_sign_of_isDigit (head_fmtNat hc)
  simp only [pyFloat, hs, hg, scanDecimal_fixedDigits hd]

/-- `float` reads back what `%.df` printed. -/
lemma pyFloat_fmtFixed {d : Nat} (hd : 0 < d) (x : Fl) :
    pyFloat (fmtFixed d x) = .ok (printed d x) := by
  have word : ∀ w : Text, w = "nan".toList ∨ w = "inf".toList → ∀ neg,
      strip (fmtSign neg ++ w) = fmtSign neg ++ w ∧ scanSign (fmtSign neg ++ w) = (neg, w) := by
    rintro w (rfl | rfl) neg <;> cases neg <;> exact ⟨rfl, rfl⟩
  cases x with
  | nan neg =>
    obtain ⟨hs, hg⟩ := word _ (.inl rfl) neg
    simp only [pyFloat, fmtFixed, hs, hg]
    rfl
  | inf neg =>
    obtain ⟨hs, hg⟩ := word _ (.inr rfl) neg
    simp only [pyFloat, fmtFixed, hs, hg]
    rfl
  | fin neg x => exact pyFloat_signed hd

/-- A digit text is an integer literal and a float literal. -/
lemma scanDigits_fmtNat (n : Nat) : scanDigits (fmtNat n) = (fmtNat n, []) := by
  have := scanDigits_append (r := []) (fun _ => isDigit_fmtNat (n := n)) (by simp)
  rwa [List.append_nil] at this

lemma fmtInt_eq (z : ℤ) : fmtInt z = fmtSign (z < 0) ++ fmtNat z.natAbs := by
  cases z with
  | ofNat n => simp [fmtInt, fmtSign]
  | negSucc n =>
    have : Int.negSucc n < 0 := Int.negSucc_lt_zero n
    simp [fmtInt, fmtSign, this]

/-- A printed integer is taken apart into sign and digits. -/
lemma strip_scan_fmtInt (z : ℤ) :
    scanSign (strip (fmtInt z)) = (decide (z < 0), fmtNat z.natAbs) := by
  rw [strip_of_isNumChar fun _ => isNumChar_fmtInt, fmtInt_eq]
  refine scanSign_fmtSign fun c hc => ne_sign_of_isDigit ?_
  exact head_fmtNat (r := []) (by rwa [List.append_nil])

/-- `int` reads back what `%d` printed. -/
lemma pyInt_fmtInt (z : ℤ) : pyInt (fmtInt z) = .ok z := by
  obtain ⟨c, ds, e⟩ := List.exists_cons_of_ne_nil (fmtNat_ne_nil z.natAbs)
  have hd : scanDigits (fmtNat z.natAbs) = (c :: ds, []) := by rw [scanDigits_fmtNat, e]
  have hv : digitsVal (c :: ds) = z.natAbs := by rw [← e, digitsVal_fmtNat]
  simp only [pyInt, strip_scan_fmtInt, hd, hv]
  by_cases hz : z < 0
  · simp [hz, abs_of_neg hz]
  · simp [hz, abs_of_nonneg (not_lt.mp hz)]

/-- And so does `float`. -/
lemma pyFloat_fmtInt (z : ℤ) : ∃ x, pyFloat (fmtInt z) = .ok x := by
  have h : scanDecimal (fmtNat z.natAbs) = some ((z.natAbs : ℚ≥0), []) := by
    simp [scanDecimal, scanDigits_fmtNat, scanFraction, scanExponent, fmtNat_ne_nil]
  refine ⟨binary64.round (z < 0) z.natAbs, ?_⟩
  simp only [pyFloat, strip_scan_fmtInt, h]

end Powmon.Collector
