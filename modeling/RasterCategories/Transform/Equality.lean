import RasterCategories.Transform.Basic
/-!
# Equality of transforms

Two transforms are equal if they are of the same kind and have the same parameters, bit by bit. Legends
are compared by their categories in the domains in which they are seen, categories by name, kind, bounds
and transform.

* `Transform.same`, `Category.same` and `Legend.same`: the three tests.
-/

namespace RasterCategories

namespace Transform

mutual

/-- Whether a second transform is equal to the first. -/
def same : Transform → Transform → Bool
  | .identity => fun
    | .identity => true
    | _ => false
  | .linear p => fun
    | .linear q => p = q
    | _ => false
  | .constant v w => fun
    | .constant v' w' => v = v' ∧ w = w'
    | _ => false
  | .exponential p => fun
    | .exponential q => p = q
    | _ => false
  | .logarithmic p => fun
    | .logarithmic q => p = q
    | _ => false
  | .chain first second => fun
    | .chain f s => first.same f && second.same s
    | _ => false
  | .legend l => fun
    | .legend m => (legendTests l).sameBy (fun test t => test t) m
    | _ => false
  | .supplied mark _ => fun
    | .supplied mark' _ => mark = mark'
    | _ => false

/-- A legend with the equality tests of its transforms. -/
def legendTests : Legend Transform → Legend (Transform → Bool)
  | ⟨token, config, pairing, members, order⟩ => ⟨token, config, pairing, memberTests members, order⟩

/-- Categories with the equality tests of their transforms. -/
def memberTests : List (Category Transform) → List (Category (Transform → Bool))
  | [] => []
  | c :: cs => memberTest c :: memberTests cs

/-- A category with the equality tests of its transforms. -/
def memberTest : Category Transform → Category (Transform → Bool)
  | ⟨origin, here, there, forward, back⟩ => ⟨origin, here, there, forward.same, back.same⟩

end

theorem memberTest_eq (c : Category Transform) : memberTest c = c.map same := by
  rcases c with ⟨origin, here, there, forward, back⟩
  rw [memberTest, Category.map]

theorem memberTests_eq (cs : List (Category Transform)) :
    memberTests cs = cs.map (Category.map same) := by
  induction cs with
  | nil => rw [memberTests, List.map_nil]
  | cons c cs ih => rw [memberTests, memberTest_eq, ih, List.map_cons]

/-- The equality tests of a legend's transforms are taken category by category. -/
theorem legendTests_eq (l : Legend Transform) : legendTests l = l.map same := by
  rcases l with ⟨token, config, pairing, members, order⟩
  rw [legendTests, memberTests_eq, Legend.map]

end Transform

/-- Whether two categories have the same name, kind and bounds, and equal transforms. -/
def Category.same (c d : Category Transform) : Bool := c.sameBy Transform.same d

/-- Whether two legends have equal categories in the domains in which they are seen. -/
def Legend.same (l m : Legend Transform) : Bool := l.sameBy Transform.same m

end RasterCategories
