import RasterCategories.Legend.Construction
/-!
# Builders of legends

A builder collects declarations. Ordinals are given when the categories are asked for: the background has
ordinal zero, and the qualitative categories follow in the order of their declaration, so equal
declarations give equal NaNs.

* `Builder.declare`: one declaration; one that fails changes nothing.
* `Builder.categories` and `Builder.build`: what the declarations give. Each call gives new qualitative
  categories, and the other ones as they were declared.
-/

namespace RasterCategories

/-- What a caller declares to a builder. -/
inductive Declaration
  /-- The background, in place of an earlier one. -/
  | background (name : String) (samples : Samples)
  /-- A qualitative category. -/
  | qualitative (name : String) (samples : Samples)
  /-- A quantitative category, converted by a scale and an offset, and then by another transform if one
  is given. -/
  | quantitative (origin : Origin) (name : String) (samples : Samples) (scale offset : Binary64)
      (units : Option String) (next : Option Transform)
  /-- A category made by the caller. -/
  | category (c : Category Transform)
  /-- Nothing, in place of everything declared before. -/
  | clear

/-- The declarations collected so far. -/
structure Builder where
  /-- The settings of the legends to build. -/
  config : Config
  /-- The name and the samples of the background. -/
  background : Option (String × Samples)
  /-- The names and the samples of the qualitative categories, in order. -/
  qualitative : List (String × Samples)
  /-- The quantitative categories and those of the caller, in order. -/
  quantitative : List (Category Transform)

namespace Builder

/-- A builder without declarations. -/
def empty (config : Config) : Builder := ⟨config, none, [], []⟩

/-- Adds a category that has no ordinal to be given. -/
def add (b : Builder) (c : Category Transform) : Builder :=
  { b with quantitative := b.quantitative ++ [c] }

/-- A quantitative category, converted by a scale and an offset, and then by another transform. -/
def measurement (origin : Origin) (name : String) (samples : Samples) (scale offset : Binary64)
    (units : Option String) (next : Option Transform) : Except Error (Category Transform) := do
  let linear ← Transform.linearOrIdentity scale offset
  Category.quantitative origin name samples (some (next.elim linear linear.andThen)) units

/-- The builder after a declaration. -/
def declare (b : Builder) : Declaration → Except Error Builder
  | .background name samples => .ok { b with background := some (name, samples) }
  | .qualitative name samples => .ok { b with qualitative := b.qualitative ++ [(name, samples)] }
  | .quantitative origin name samples scale offset units next =>
    (measurement origin name samples scale offset units next).map b.add
  | .category c => .ok (b.add c)
  | .clear => .ok (empty b.config)

/-- The declarations that take ordinals, in the order of the ordinals. -/
def ordinalDeclarations (b : Builder) : List (String × Samples) :=
  b.background.toList ++ b.qualitative

/-- The categories declared so far, with their ordinals. -/
def categories (b : Builder) (token : Nat) : Except Error (List (Category Transform)) := do
  let qualitative ← b.ordinalDeclarations.zipIdx.mapM fun ((name, samples), ordinal) =>
    Category.qualitative ⟨token, ordinal⟩ name samples ordinal
  return qualitative ++ b.quantitative

/-- The legend of the declared categories. -/
def build (b : Builder) (token : Nat) : Except Error (Legend Transform) := do
  let categories ← b.categories token
  Legend.ofCategories token b.config categories

/-- What building the legend reports. -/
def buildReports (b : Builder) : List String := Legend.plainReports b.config b.quantitative

end Builder

end RasterCategories
