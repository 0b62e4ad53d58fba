import RasterCategories.Evaluation.Batch
import RasterCategories.Transform.Basic
/-!
# The behaviour of transforms

The behaviour of a transform is found by recursion on its description. A legend inside a description is
first given the behaviours of its categories' transforms, and then behaves as legends do. This is put off
until a value arrives: each category describes two conversions, and a value needs one of them.

* `Transform.behaviour`: what a transform does.
* `Transform.behaviour_legend`: the behaviour of a legend, in terms of those of its transforms.
-/

namespace RasterCategories.Transform

mutual

/-- What a transform does. -/
def behaviour : Transform → Behaviour
  | .identity => .ofFunction id fun _ => .one
  | .linear p => .ofFunction p.eval fun _ => p.scale
  | .constant value _ => .ofFunction (fun _ => value) fun _ => .zero
  | .exponential p => .ofFunction p.eval p.slope
  | .logarithmic p => .ofFunction p.eval p.slope
  | .chain first second => first.behaviour.andThen second.behaviour
  | .legend l =>
    { apply := fun x => (legendBehaviours l).behaviour.apply x
      applyAll := fun xs => (legendBehaviours l).behaviour.applyAll xs
      derivative := fun x => (legendBehaviours l).behaviour.derivative x }
  | .supplied _ like => like.behaviour.elementwise

/-- A legend with the behaviours of its transforms. -/
def legendBehaviours : Legend Transform → Legend Behaviour
  | ⟨token, config, pairing, members, order⟩ =>
    ⟨token, config, pairing, memberBehaviours members, order⟩

/-- Categories with the behaviours of their transforms. -/
def memberBehaviours : List (Category Transform) → List (Category Behaviour)
  | [] => []
  | c :: cs => memberBehaviour c :: memberBehaviours cs

/-- A category with the behaviours of its transforms. -/
def memberBehaviour : Category Transform → Category Behaviour
  | ⟨origin, here, there, forward, back⟩ =>
    ⟨origin, here, there, forward.behaviour, back.behaviour⟩

end

theorem memberBehaviour_eq (c : Category Transform) : memberBehaviour c = c.map behaviour := by
  rcases c with ⟨origin, here, there, forward, back⟩
  rw [memberBehaviour, Category.map]

theorem memberBehaviours_eq (cs : List (Category Transform)) :
    memberBehaviours cs = cs.map (Category.map behaviour) := by
  induction cs with
  | nil => rw [memberBehaviours, List.map_nil]
  | cons c cs ih => rw [memberBehaviours, memberBehaviour_eq, ih, List.map_cons]

/-- The behaviours of a legend's transforms are taken category by category. -/
theorem legendBehaviours_eq (l : Legend Transform) : legendBehaviours l = l.map behaviour := by
  rcases l with ⟨token, config, pairing, members, order⟩
  rw [legendBehaviours, memberBehaviours_eq, Legend.map]

/-- A legend behaves as its categories do, each by its own transforms. -/
theorem behaviour_legend (l : Legend Transform) :
    (legend l).behaviour = (l.map behaviour).behaviour := by
  rw [behaviour, legendBehaviours_eq]

/-- Converts one value. -/
def apply (t : Transform) (x : Binary64) : Eval Binary64 := t.behaviour.apply x

/-- Converts the values of an array. -/
def applyAll (t : Transform) (xs : List Binary64) : Eval Cells := t.behaviour.applyAll xs

/-- The derivative at a value. -/
def derivative (t : Transform) (x : Binary64) : Eval Binary64 := t.behaviour.derivative x

end RasterCategories.Transform
