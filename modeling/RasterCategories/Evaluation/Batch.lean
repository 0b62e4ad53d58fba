import RasterCategories.Evaluation.Value
/-!
# Conversion of arrays by a legend

A batch converts a window of a source array into a window of a destination array, one run of values with
the same owner at a time. Every value is classified before anything is written. The destination may be
the memory that holds the source: the runs are then taken from the end if the destination starts after
the source, so that no value is overwritten before it is read.

* `Legend.evaluateInto`: into an array of the caller.
* `Legend.evaluateNew`: into a new array.
* `Legend.behaviour`: what a legend does as a transform.
-/

namespace RasterCategories

/-- Which values are converted, and where the results go. -/
structure Window where
  /-- The index of the first value in the source. -/
  sourceOffset : Int
  /-- The index of the first result in the destination. -/
  targetOffset : Int
  /-- The number of values, up to the end of the source if absent. -/
  count : Option Int
deriving DecidableEq

namespace Window

/-- The whole source, from the start of the destination on. -/
def whole : Window := ⟨0, 0, none⟩

/-- The number of values asked for. -/
def length (w : Window) (sourceSize : Nat) : Int := w.count.getD (sourceSize - w.sourceOffset)

/-- The first index and the number of the values to read, checked against the source. -/
def checkSource (w : Window) (sourceSize : Nat) : Except Error (Nat × Nat) :=
  let count := w.length sourceSize
  if count < 0 ∨ w.sourceOffset < 0 ∨ (sourceSize : Int) < w.sourceOffset + count then
    .error (.sourceRange w.sourceOffset (w.sourceOffset + count) sourceSize)
  else .ok (w.sourceOffset.toNat, count.toNat)

/-- The first index to write, checked against a destination. -/
def checkTarget (w : Window) (count targetSize : Nat) : Except Error Nat :=
  if w.targetOffset < 0 ∨ (targetSize : Int) < w.targetOffset + count then
    .error (.destinationRange w.targetOffset (w.targetOffset + count) targetSize)
  else .ok w.targetOffset.toNat

/-- Whether the window takes in the whole source and starts where its results start. -/
def IsWhole (w : Window) (sourceSize : Nat) : Prop :=
  w.sourceOffset = 0 ∧ w.targetOffset = 0 ∧ w.length sourceSize = sourceSize

instance (w : Window) (sourceSize : Nat) : Decidable (w.IsWhole sourceSize) :=
  inferInstanceAs (Decidable (_ ∧ _))

end Window

/-- An array of the caller that receives results. -/
structure Target where
  /-- The memory that holds the array. -/
  memory : Cells
  /-- The index in the memory where the array starts. -/
  start : Nat
  /-- The number of cells of the array. -/
  size : Nat
  /-- Whether the array takes only some cells of a larger one, at regular distances. -/
  strided : Bool
  /-- The index in the memory where the source starts, if it lies in the same memory. -/
  sourceStart : Option Nat
deriving DecidableEq

/-- Whether the cells of the array follow each other without gaps. -/
def Target.isContiguous (t : Target) : Bool := !t.strided || t.size ≤ 1

/-- A batch whose windows were checked. -/
structure Transfer where
  /-- The values to convert, as they are before anything is written. -/
  samples : List Binary64
  /-- The index in the memory of the destination where the samples lie, if they are read from there. -/
  live : Option Nat
  /-- The index in the memory where the first result goes. -/
  target : Nat
deriving DecidableEq

namespace Transfer

/-- Checks a batch into an array of the caller: first the source window, then the layout of the
destination, then its window. Values narrower than a number are read from a copy. -/
def plan (source : Elements) (target : Target) (w : Window) : Except Error Transfer := do
  let (start, count) ← w.checkSource source.size
  unless target.isContiguous do throw .destinationLayout
  let offset ← w.checkTarget count target.size
  let live :=
    match target.memory.width with
    | .double => target.sourceStart.map (· + start)
    | .single => none
  return ⟨(source.toDoubles.drop start).take count, live, target.start + offset⟩

/-- Whether the destination overlaps the values to read and starts after them. -/
def backward (b : Transfer) : Bool :=
  b.live.any fun start => start < b.target ∧ b.target < start + b.samples.length

/-- The values of a run: those in the memory as it is now, or those of a copy. -/
def read (b : Transfer) (memory : Cells) (r : Run) : List Binary64 :=
  match b.live with
  | some start => (memory.slice (start + r.start) (r.stop - r.start)).toDoubles
  | none => (b.samples.drop r.start).take (r.stop - r.start)

/-- Writes the results of a run. -/
def write (b : Transfer) (memory : Cells) (r : Run) (results : Cells) : Cells :=
  memory.store (b.target + r.start) results

end Transfer

namespace Legend

/-- Converts the values of one run. -/
def evaluateRun (l : Legend Behaviour) (position : Nat) (xs : List Binary64) : Eval Cells :=
  match l.categories[position]? with
  | none => throw .position
  | some category => do
    let converted ← category.forward.applyAll xs
    let side := category.converseSide
    if l.table.top?.isSome && side.interval.isSome then return converted.clip side.low side.high
    else return converted

/-- Converts runs one after the other. A failure leaves the memory as the runs before it made it. -/
def evaluateRuns (l : Legend Behaviour) (b : Transfer) :
    List Run → Cells → StateM Hints (Except Error Unit × Cells)
  | [], memory => return (.ok (), memory)
  | r :: rs, memory => do
    match ← (l.evaluateRun r.position (b.read memory r)).run with
    | .error e => return (.error e, memory)
    | .ok results => l.evaluateRuns b rs (b.write memory r results)

/-- Converts a checked batch, and remembers the owner of the run converted last. -/
def perform (l : Legend Behaviour) (b : Transfer) (memory : Cells) :
    StateM Hints (Except Error Unit × Cells) := do
  let hints ← get
  match l.table.runs l.config.tryLastFirst hints b.samples b.backward with
  | .error e => return (.error e, memory)
  | .ok runs =>
    let ordered := if b.backward then runs.reverse else runs
    let (outcome, memory) ← l.evaluateRuns b ordered memory
    match outcome, ordered.getLast? with
    | .ok (), some r =>
      modify fun hints => hints.remember l.table r.position
      return (.ok (), memory)
    | _, _ => return (outcome, memory)

/-- Converts a window of the source into an array of the caller, and gives the memory of that array
afterwards, also if the conversion fails. -/
def evaluateInto (l : Legend Behaviour) (source : Elements) (target : Target) (w : Window) :
    StateM Hints (Except Error Unit × Cells) :=
  match Transfer.plan source target w with
  | .error e => return (.error e, target.memory)
  | .ok b =>
    if b.samples.isEmpty then return (.ok (), target.memory) else l.perform b target.memory

/-- Converts a window of the source into a new array of the configured width, which has room for the
offset of the results too. -/
def evaluateNew (l : Legend Behaviour) (source : Elements) (w : Window) : Eval Cells := do
  let (_, count) ← w.checkSource source.size
  let size := count + w.targetOffset
  if size < 0 then throw .negativeSize
  let memory := Cells.zeros l.config.outputWidth size.toNat
  let (outcome, memory) ← l.evaluateInto source ⟨memory, 0, size.toNat, false, none⟩ w
  match outcome with
  | .ok () => return memory
  | .error e => throw e

/-- What a legend does as a transform. -/
def behaviour (l : Legend Behaviour) : Behaviour where
  apply := l.evaluate
  applyAll xs := l.evaluateNew (.real (.double xs)) .whole
  derivative := l.evaluateSlope

end Legend

end RasterCategories
