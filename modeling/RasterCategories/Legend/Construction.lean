import RasterCategories.Category.Declaration
/-!
# Construction of legends

A legend takes categories in any order, sorts them and refuses overlaps. If any of them converts to an
interval of numbers, the legend of the real values is built with it and must be free of overlaps too.

* `Legend.plainCopies`: the categories that a legend takes for the given ones.
* `Legend.ofCategories`: the construction.
* `Legend.plainReports`: what it reports.
-/

namespace RasterCategories.Legend

/-- The first two neighbours of which the second does not start after the first in the total order. -/
def overlap? : List Side → Option (Side × Side)
  | first :: second :: rest =>
    if second.low.compare first.high = .gt then overlap? (second :: rest)
    else some (first, second)
  | _ => none

/-- Refuses overlapping neighbours. -/
def checkDisjoint (sides : List Side) : Except Error Unit :=
  match overlap? sides with
  | some (first, second) => .error (.overlap first second)
  | none => .ok ()

/-- The relation to the other domain that the categories of samples call for. -/
def pairingOf (members : List (Category Transform)) : Pairing :=
  if members.all fun c => c.converseSide.interval.isNone then .unpaired
  else if members.any fun c => c.there.isSome then .samples
  else .identity

/-- The given categories, of which converted ones are taken as plain. A converted category that is given
twice is taken as two plain ones. -/
def plainCopies (token : Nat) (categories : List (Category Transform)) : List (Category Transform) :=
  categories.mapIdx fun place c => c.asPlain ⟨token, place⟩

/-- The legend of the given categories, of which converted ones are taken as plain. -/
def ofCategories (token : Nat) (config : Config) (categories : List (Category Transform)) :
    Except Error (Legend Transform) := do
  let members := sortBy sortKey (plainCopies token categories)
  let legend := ofMembers token config (pairingOf members) members
  checkDisjoint legend.table.sides
  checkDisjoint legend.converse.table.sides
  return legend

/-- The reports on converted categories that a construction takes as plain, in the given order. -/
def plainReports (config : Config) (categories : List (Category Transform)) : List String :=
  if config.reportPlain then categories.filterMap Category.plainReport? else []

end RasterCategories.Legend
