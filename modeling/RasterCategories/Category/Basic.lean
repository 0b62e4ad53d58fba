import RasterCategories.Category.Side
/-!
# Categories

A category is a named set of samples together with its conversion to real values and back. It is seen
from one domain; its converse is the same category seen from the other. The type of the conversions is a
parameter: descriptions of transforms when categories are declared, and their behaviour when values are
converted.

Two categories can agree in every property and still be two, and one category can be listed twice. So each
carries its origin, which every copy of a list keeps.

* `Origin`: what tells a category from all others.
* `Category.converse`: the view from the other domain.
-/

namespace RasterCategories

/-- Where a category was made. Two entries of lists are the same category if and only if they have the
same origin. -/
structure Origin where
  /-- The call that made the category; no two calls have the same number. -/
  token : Nat
  /-- The place among the categories that this call made. -/
  place : Nat
deriving DecidableEq

namespace Origin

/-- The origin of the only category that a call makes. -/
instance (token : Nat) : OfNat Origin token := ⟨⟨token, 0⟩⟩

end Origin

/-- A category seen from one of its two domains. -/
structure Category (τ : Type u) where
  /-- The origin, the same seen from both domains. -/
  origin : Origin
  /-- The side in this domain. -/
  here : Side
  /-- The side in the other domain, absent if the category converts nothing. -/
  there : Option Side
  /-- The conversion to the other domain. -/
  forward : τ
  /-- The conversion from the other domain. -/
  back : τ

namespace Category

variable {τ : Type u} {υ : Type v}

/-- Changes the conversions and keeps all else. -/
def map (f : τ → υ) (c : Category τ) : Category υ :=
  ⟨c.origin, c.here, c.there, f c.forward, f c.back⟩

/-- The category seen from the other domain. A category that converts nothing is its own converse. -/
def converse (c : Category τ) : Category τ :=
  match c.there with
  | none => c
  | some side => ⟨c.origin, side, some c.here, c.back, c.forward⟩

/-- The side in the other domain, which is the only side of a category that converts nothing. -/
def converseSide (c : Category τ) : Side := c.there.getD c.here

/-- Whether both sides are intervals of numbers. -/
def isQuantitative (c : Category τ) : Bool :=
  c.here.interval.isSome && c.converseSide.interval.isSome

/-- Whether two categories have the same name, kind and bounds, and conversions equal by the given
test. Two different categories may be equal in this way. -/
def sameBy (same : τ → υ → Bool) (c : Category τ) (d : Category υ) : Bool :=
  c.here.name == d.here.name && c.here.converted == d.here.converted
    && decide (c.here.low = d.here.low) && decide (c.here.high = d.here.high)
    && same c.forward d.forward

/-- The converse of the converse is the category itself. -/
theorem converse_converse (c : Category τ) : c.converse.converse = c := by
  rcases c with ⟨origin, here, _ | there, forward, back⟩ <;> rfl

/-- The converse has the sides in the other order. -/
theorem here_converse (c : Category τ) : c.converse.here = c.converseSide := by
  rcases c with ⟨origin, here, _ | there, forward, back⟩ <;> rfl

/-- The converse is the same category. -/
@[simp]
theorem origin_converse (c : Category τ) : c.converse.origin = c.origin := by
  rcases c with ⟨origin, here, _ | there, forward, back⟩ <;> rfl

theorem map_converse (f : τ → υ) (c : Category τ) : c.converse.map f = (c.map f).converse := by
  rcases c with ⟨origin, here, _ | there, forward, back⟩ <;> rfl

end Category

end RasterCategories
