import RasterCategories.Evaluation.Batch
import RasterCategories.Proofs.Search.Runs
/-!
# Evaluation without hints

A legend whose search table is ordered converts as if there were no hints: one value by its search, an array
by the runs that the search finds. What the conversions give is stated here once more as plain functions,
and from any hints the conversions give the same, whether or not a batch first tries the last owner.

* `Legend.pureValue`, `Legend.pureSlope`, `Legend.pureInto` and `Legend.pureNew`: the plain functions.
* `Legend.evaluate_yields`, `Legend.evaluateSlope_yields`, `Legend.evaluateInto_yields` and
  `Legend.evaluateNew_yields`: the conversions give the same from any hints.
-/

namespace RasterCategories

/-- No hint changes what the behaviour gives. -/
structure Behaviour.IgnoresHints (b : Behaviour) : Prop where
  apply : ∀ x, (b.apply x).IgnoresHints
  applyAll : ∀ xs, (b.applyAll xs).IgnoresHints
  derivative : ∀ x, (b.derivative x).IgnoresHints

namespace Legend

/-! ### Plain functions -/

section Plain

variable (l : Legend Behaviour)

/-- The category that the search finds for a value. -/
def pureOwner (x : Binary64) : Except Error (Category Behaviour) := do
  let position ← (l.table.owner? x).elim (.error (.noCategory x)) .ok
  match l.categories[position]? with
  | some category => .ok category
  | none => .error (.noCategory x)

/-- The conversion of one value. -/
def pureValue (x : Binary64) : Except Error Binary64 := do
  let category ← l.pureOwner x
  let converted ← (category.forward.apply x).fresh
  let result :=
    if l.table.top?.isSome then category.converseSide.confine converted else converted
  if l.config.verifyReturn && l.isPaired && !l.leadsBack category result then
    .error (.notReversible x result category.here)
  else .ok result

/-- The derivative of the conversion at a value. -/
def pureSlope (x : Binary64) : Except Error Binary64 := do
  let category ← l.pureOwner x
  (category.forward.derivative x).fresh

/-- The conversion of the values of one run. -/
def pureRun (position : Nat) (xs : List Binary64) : Except Error Cells :=
  match l.categories[position]? with
  | none => .error .position
  | some category => do
    let converted ← (category.forward.applyAll xs).fresh
    let side := category.converseSide
    if l.table.top?.isSome && side.interval.isSome then .ok (converted.clip side.low side.high)
    else .ok converted

/-- The conversion of runs one after the other. -/
def pureRuns (b : Transfer) : List Run → Cells → Except Error Unit × Cells
  | [], memory => (.ok (), memory)
  | r :: rs, memory =>
    match l.pureRun r.position (b.read memory r) with
    | .error e => (.error e, memory)
    | .ok results => pureRuns b rs (b.write memory r results)

/-- The conversion of a checked batch. -/
def purePerform (b : Transfer) (memory : Cells) : Except Error Unit × Cells :=
  match l.table.searchedRuns b.samples b.backward with
  | .error e => (.error e, memory)
  | .ok runs => l.pureRuns b (if b.backward then runs.reverse else runs) memory

/-- The conversion of a window into an array of the caller. -/
def pureInto (source : Elements) (target : Target) (w : Window) : Except Error Unit × Cells :=
  match Transfer.plan source target w with
  | .error e => (.error e, target.memory)
  | .ok b => if b.samples.isEmpty then (.ok (), target.memory) else l.purePerform b target.memory

/-- The conversion of a window into a new array. -/
def pureNew (source : Elements) (w : Window) : Except Error Cells := do
  let (_, count) ← w.checkSource source.size
  let size := count + w.targetOffset
  if size < 0 then .error .negativeSize
  else
    let memory := Cells.zeros l.config.outputWidth size.toNat
    match l.pureInto source ⟨memory, 0, size.toNat, false, none⟩ w with
    | (.ok (), memory) => .ok memory
    | (.error e, _) => .error e

end Plain

variable {l : Legend Behaviour}

/-! ### One value -/

theorem ownerOf_yields (ht : l.table.Ordered) (x : Binary64) :
    (l.ownerOf x).Yields (l.pureOwner x) := by
  refine (ht.resolve_yields x).bind fun i _ => ?_
  cases l.categories[i]? with
  | some c => exact Eval.yields_pure _
  | none => exact Eval.yields_throw _

/-- The owner of a value is a category of the legend. -/
theorem mem_of_pureOwner {x : Binary64} {c : Category Behaviour} (h : l.pureOwner x = .ok c) :
    c ∈ l.categories := by
  unfold pureOwner at h
  cases hp : l.table.owner? x with
  | none => rw [hp] at h; cases h
  | some i =>
    rw [hp] at h
    change (match l.categories[i]? with
      | some category => .ok category
      | none => .error (Error.noCategory x)) = Except.ok c at h
    split at h
    · next d hd =>
      obtain rfl := Except.ok.inj h
      exact List.mem_of_getElem? hd
    · cases h

/-- The category at the position that the search finds is the owner. -/
theorem pureOwner_of_owner? {x : Binary64} {i : Nat} {c : Category Behaviour}
    (howner : l.table.owner? x = some i) (hc : l.categories[i]? = some c) :
    l.pureOwner x = .ok c := by
  rw [pureOwner, howner]
  change (match l.categories[i]? with
    | some category => .ok category
    | none => .error (Error.noCategory x)) = Except.ok c
  rw [hc]

/-- The result of a category, confined to its interval if the legend extrapolates. -/
def settle (l : Legend Behaviour) (c : Category Behaviour) (y : Binary64) : Binary64 :=
  if l.table.top?.isSome then c.converseSide.confine y else y

/-- The conversion of a value by its owner. -/
theorem pureValue_of_owner? {x y : Binary64} {i : Nat} {c : Category Behaviour}
    (howner : l.table.owner? x = some i) (hc : l.categories[i]? = some c)
    (hy : (c.forward.apply x).fresh = .ok y) :
    l.pureValue x =
      if l.config.verifyReturn && l.isPaired && !l.leadsBack c (l.settle c y) then
        .error (.notReversible x (l.settle c y) c.here)
      else .ok (l.settle c y) := by
  unfold pureValue
  rw [pureOwner_of_owner? howner hc]
  change ((c.forward.apply x).fresh >>= _ : Except Error Binary64) = _
  rw [hy]
  rfl

/-- One value is converted in the same way from any hints. -/
theorem evaluate_yields (ht : l.table.Ordered)
    (hc : ∀ c ∈ l.categories, c.forward.IgnoresHints) (x : Binary64) :
    (l.evaluate x).Yields (l.pureValue x) := by
  -- The owner does not depend on the hints, and neither does what it converts by.
  refine (ownerOf_yields ht x).bind fun category howner => ?_
  have hmem := mem_of_pureOwner howner
  refine Eval.Yields.bind ((hc category hmem).apply x) fun converted _ => ?_
  dsimp only
  generalize (if l.table.top?.isSome then category.converseSide.confine converted else converted) =
    result
  split <;> exact fun _ => rfl

/-- The derivative at a value is the same from any hints. -/
theorem evaluateSlope_yields (ht : l.table.Ordered)
    (hc : ∀ c ∈ l.categories, c.forward.IgnoresHints) (x : Binary64) :
    (l.evaluateSlope x).Yields (l.pureSlope x) := by
  refine (ownerOf_yields ht x).bind fun category howner => ?_
  have hmem := mem_of_pureOwner howner
  exact (hc category hmem).derivative x

/-! ### Arrays -/

theorem evaluateRun_yields (hc : ∀ c ∈ l.categories, c.forward.IgnoresHints)
    (position : Nat) (xs : List Binary64) :
    (l.evaluateRun position xs).Yields (l.pureRun position xs) := by
  unfold evaluateRun pureRun
  cases hposition : l.categories[position]? with
  | none => exact Eval.yields_throw _
  | some c =>
    have hmem := List.mem_of_getElem? hposition
    refine Eval.Yields.bind ((hc c hmem).applyAll xs) fun converted _ => ?_
    dsimp only
    split <;> exact Eval.yields_pure _

/-- Runs are converted in the same way from any hints. -/
theorem evaluateRuns_yields (hc : ∀ c ∈ l.categories, c.forward.IgnoresHints) (b : Transfer)
    (rs : List Run) (memory : Cells) :
    Yields (l.evaluateRuns b rs memory) (l.pureRuns b rs memory) := by
  -- The next run reads from the memory that the last one left.
  induction rs generalizing memory with
  | nil => exact Yields.pure _
  | cons r rs ih =>
    rw [evaluateRuns, pureRuns]
    refine Yields.bind (evaluateRun_yields hc r.position (b.read memory r)) ?_
    cases l.pureRun r.position (b.read memory r) with
    | error e => exact Yields.pure _
    | ok results => exact ih _

/-- A batch is converted in the same way from any hints. -/
theorem perform_yields (ht : l.table.Ordered)
    (hc : ∀ c ∈ l.categories, c.forward.IgnoresHints) {b : Transfer} (hne : b.samples ≠ [])
    (memory : Cells) : Yields (l.perform b memory) (l.purePerform b memory) := by
  refine Yields.get_bind fun hints => ?_
  -- The hints decide at most how the runs are found, not which runs they are.
  rw [ht.runs_eq _ _ _ hne]
  unfold purePerform
  cases l.table.searchedRuns b.samples b.backward with
  | error e => exact Yields.pure _
  | ok runs =>
    dsimp only
    refine Yields.bind (evaluateRuns_yields hc b _ memory) ?_
    split
    · next hok _ => exact fun _ => Prod.ext hok.symm rfl
    · exact Yields.pure _

theorem evaluateInto_yields (ht : l.table.Ordered)
    (hc : ∀ c ∈ l.categories, c.forward.IgnoresHints) (source : Elements) (target : Target)
    (w : Window) : Yields (l.evaluateInto source target w) (l.pureInto source target w) := by
  unfold evaluateInto pureInto
  cases Transfer.plan source target w with
  | error e => exact Yields.pure _
  | ok b =>
    dsimp only
    split
    · exact Yields.pure _
    · next hne => exact perform_yields ht hc (mt List.isEmpty_iff.mpr hne) _

/-- An array is converted into a new one in the same way from any hints. -/
theorem evaluateNew_yields (ht : l.table.Ordered)
    (hc : ∀ c ∈ l.categories, c.forward.IgnoresHints) (source : Elements) (w : Window) :
    (l.evaluateNew source w).Yields (l.pureNew source w) := by
  refine (Eval.yields_lift _).bind fun ⟨start, count⟩ _ => ?_
  dsimp only
  split
  · exact Eval.yields_throw _
  · have hinto := fun target => evaluateInto_yields ht hc source target w
    generalize hp : l.pureInto source _ w = p
    have hp := hp ▸ Eval.yields_liftState (hinto _)
    refine Eval.Yields.bind (r := .ok p) (g := fun p =>
      match p with
      | (.ok (), memory) => .ok memory
      | (.error e, _) => .error e) hp ?_
    rintro ⟨outcome, memory⟩ -
    cases outcome with
    | ok _ => exact Eval.yields_pure _
    | error e => exact Eval.yields_throw _

end Legend

end RasterCategories
