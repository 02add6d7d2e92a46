import Powmon.Lib.Scan
import Powmon.Monitor.State

/-!
# Detection of the CPU model

`detect_cpu_model` of `powmon/bin/sensor_read_lib.c`: a loop over the lines of `/proc/cpuinfo`, a
switch that turns an unknown model into `-1`, and the two fields that a known model sets. The daemon
goes on only if the function returns a model (`selectModel_accepts_iff`).
-/

namespace Powmon.Monitor
open Lib

/-- The key of the line that is looked for. -/
def modelKey : Text := "model".toList

/-- The body of the loop over the lines. A line without a number leaves the variable as it is. -/
def modelLine (model : ℤ) (buffer : Text) : ℤ :=
  let result := cString buffer
  if modelKey.isPrefixOf result then (scanIntAfter 2 result).getD model else model

/-- The models with DRAM power readings. -/
def dramModels : List ℤ := [sandybridgeEp, ivybridgeEp, haswellEp, haswell, broadwell]

/-- The switch and what follows it: the model returned, and the fields set. -/
def selectModel (model : ℤ) (s : SysData) : ℤ × SysData :=
  let model := if model ∈ knownModels then model else -1
  if 0 < model then
    let s := { s with cpuModel := model }
    (model, if model ∈ dramModels then { s with dramSupp := 1 } else s)
  else (model, s)

/-- `detect_cpu_model`; it leaves the process if `/proc/cpuinfo` cannot be opened. -/
def detectCpuModel (file : Option Text) (s : SysData) : Option (ℤ × SysData) :=
  file.map fun text => selectModel ((lines bufsiz text).foldl modelLine (-1)) s

/-- The model numbers are positive. -/
lemma knownModels_pos {model : ℤ} (h : model ∈ knownModels) : 0 < model := by
  have all : ∀ m ∈ knownModels, 0 < m := by decide
  exact all model h

/-- A known model is stored with its flags. -/
lemma selectModel_known {model : ℤ} (h : model ∈ knownModels) (s : SysData) :
    selectModel model s = (model,
      if model ∈ dramModels then { s with cpuModel := model, dramSupp := 1 }
      else { s with cpuModel := model }) := by
  simp only [selectModel, if_pos h, if_pos (knownModels_pos h)]

/-- Any other one is refused. -/
lemma selectModel_unknown {model : ℤ} (h : model ∉ knownModels) (s : SysData) :
    selectModel model s = (-1, s) := by
  simp [selectModel, if_neg h]

/-- The daemon accepts the models its switch names. -/
lemma selectModel_accepts_iff (model : ℤ) (s : SysData) :
    0 ≤ (selectModel model s).1 ↔ model ∈ knownModels := by
  by_cases h : model ∈ knownModels
  · rw [selectModel_known h]
    simp [h, (knownModels_pos h).le]
  · rw [selectModel_unknown h]
    simp [h]

/-- The topology is not touched. -/
lemma selectModel_topology (model : ℤ) (s : SysData) :
    (selectModel model s).2.ncpu = s.ncpu ∧ (selectModel model s).2.ncore = s.ncore ∧
      (selectModel model s).2.extraCounters = s.extraCounters := by
  unfold selectModel
  dsimp only
  split_ifs <;> exact ⟨rfl, rfl, rfl⟩

end Powmon.Monitor
