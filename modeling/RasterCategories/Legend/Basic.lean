import RasterCategories.Category.Basic
import RasterCategories.Config
import RasterCategories.Search.Table
/-!
# Legends

A legend holds the categories of a raster, sorted by their least values. Legends come in pairs: a legend
of samples that convert to real values has a converse, which holds the same categories seen from the
domain of the real values. Both are one value here, which stores the categories of the samples and the
domain from which it is seen.

Legends with the same categories may still be two legends, each of which remembers its own last owner. So a
legend carries a token, which it has in common with its converse.

* `Legend.categories`: the categories in the domain of the legend, sorted.
* `Legend.converse`: the legend of the other domain.
* `Legend.table`: the search table.
* `Legend.categoryOf?`: the category that owns a value.
-/

namespace RasterCategories

/-- How a legend relates to the legend of the other domain. -/
inductive Pairing
  /-- The empty legend that stands for the absence of real values; it is its own converse. -/
  | empty
  /-- No category converts to an interval of numbers; the converse is the empty legend. -/
  | unpaired
  /-- No category converts anything; the legend is its own converse. -/
  | identity
  /-- The legend of the samples, whose converse holds the real values. -/
  | samples
  /-- The legend of the real values, whose converse holds the samples. -/
  | reals
deriving DecidableEq

/-- The categories of one domain, with their conversion to the other. -/
structure Legend (τ : Type u) where
  /-- The call that made the legend and its converse; no two calls have the same number. -/
  token : Nat
  /-- The settings, shared with the converse. -/
  config : Config
  /-- The relation to the legend of the other domain. -/
  pairing : Pairing
  /-- The categories of the samples, sorted by their least values, whatever the domain in which the
  legend is seen. -/
  members : List (Category τ)
  /-- The positions of these categories in the order of their real values, kept so that looking at the
  legend of the real values does not sort it again. -/
  realOrder : List Nat

namespace Legend

variable {τ : Type u} {υ : Type v}

/-- Changes the conversions and keeps all else. -/
def map (f : τ → υ) (l : Legend τ) : Legend υ :=
  ⟨l.token, l.config, l.pairing, l.members.map (Category.map f), l.realOrder⟩

/-- The legend without categories that is the converse of every legend without real values. It owns no
value, so its token does not matter. -/
def empty : Legend τ := ⟨0, .default, .empty, [], []⟩

/-- The least value of a category, by which categories are sorted. -/
def sortKey (c : Category τ) : Binary64 := c.here.low

/-- The converses of categories with the positions of the categories, sorted by their least values. -/
def sortedConverses (members : List (Category τ)) : List (Category τ × Nat) :=
  sortBy (fun entry => sortKey entry.1) ((members.map Category.converse).zipIdx)

/-- The legend of the given categories of samples, which are sorted by their least values. -/
def ofMembers (token : Nat) (config : Config) (pairing : Pairing) (members : List (Category τ)) :
    Legend τ :=
  ⟨token, config, pairing, members, (sortedConverses members).map Prod.snd⟩

/-- The categories of the legend, each with its position among those of the samples. -/
def placed (l : Legend τ) : List (Category τ × Nat) :=
  match l.pairing with
  | .reals =>
    let members := l.members.toArray
    l.realOrder.filterMap fun place => (members[place]?).map fun c => (c.converse, place)
  | _ => l.members.zipIdx

/-- The categories in the domain of the legend, sorted by their least values. -/
def categories (l : Legend τ) : List (Category τ) := l.placed.map Prod.fst

/-- The number of categories. -/
def size (l : Legend τ) : Nat := l.members.length

/-- The legend of the other domain. -/
def converse (l : Legend τ) : Legend τ :=
  match l.pairing with
  | .empty => l
  | .unpaired => empty
  | .identity => l
  | .samples => { l with pairing := .reals }
  | .reals => { l with pairing := .samples }

/-- Whether the legend is its own converse. -/
def isIdentity (l : Legend τ) : Bool :=
  match l.pairing with
  | .empty | .identity => true
  | .unpaired | .samples | .reals => false

/-- Whether the converse has categories that correspond to those of the legend. -/
def isPaired (l : Legend τ) : Bool :=
  match l.pairing with
  | .empty | .unpaired => false
  | .identity | .samples | .reals => true

/-- The written name of the relation to the legend of the other domain. -/
def kind (l : Legend τ) : String :=
  match l.pairing with
  | .empty | .unpaired => "no_quantitative"
  | .identity => "identity"
  | .samples | .reals => "distinct"

/-- The search table of the legend. Only legends of real values extrapolate. -/
def table (l : Legend τ) : SearchTable :=
  ⟨l.token, l.categories.map Category.here, decide (l.pairing = .reals)⟩

/-- The category that owns a value. -/
def categoryOf? (l : Legend τ) (x : Binary64) : Option (Category τ) :=
  (l.table.owner? x).bind fun i => l.categories[i]?

/-- The smallest interval that covers the intervals of all categories, if there are any. -/
def hull? (l : Legend τ) : Option Interval :=
  match l.categories.filterMap fun c => c.here.interval with
  | [] => none
  | r :: rs => some ((r :: rs).foldl Interval.hull r)

/-- Whether two legends have the same categories, with conversions compared by the given test. -/
def sameBy (same : τ → υ → Bool) (l : Legend τ) (m : Legend υ) : Bool :=
  l.categories.length == m.categories.length
    && (l.categories.zip m.categories).all fun pair => pair.1.sameBy same pair.2

/-- The written form: a heading, and a line with the label and the name of each category. -/
def text (l : Legend τ) : String :=
  let heading := "CategoryList(" ++ toString l.size ++ " categories, " ++ l.kind ++ ")"
  let lines := l.categories.map fun c =>
    let label := c.here.label
    "  " ++ label ++ String.ofList (List.replicate (24 - label.length) ' ') ++ " " ++ c.here.name
  "\n".intercalate (heading :: lines)

/-- The converse of the converse of a paired legend is the legend itself. -/
theorem converse_converse (l : Legend τ) (h : l.isPaired = true) : l.converse.converse = l := by
  rcases l with ⟨token, config, _ | _ | _ | _ | _, members, order⟩ <;> simp_all [isPaired, converse]

/-- Each converse is found again at its position. -/
theorem filterMap_sortedConverses (members : List (Category τ)) :
    ((sortedConverses members).map Prod.snd).filterMap
        (fun place => (members[place]?).map fun c => (c.converse, place))
      = sortedConverses members := by
  have found : ∀ entry ∈ sortedConverses members,
      (members[entry.2]?).map (fun c => (c.converse, entry.2)) = some entry := by
    intro entry hentry
    have h := (sortBy_perm _ _).mem_iff.mp hentry
    rw [List.mem_zipIdx_iff_getElem?, List.getElem?_map] at h
    obtain ⟨c, hc, hconverse⟩ := Option.map_eq_some_iff.mp h
    rw [hc, Option.map_some, hconverse]
  rw [List.filterMap_map]
  generalize sortedConverses members = entries at found
  induction entries with
  | nil => rfl
  | cons entry entries ih =>
    have head := found entry List.mem_cons_self
    have tail := ih fun e he => found e (List.mem_cons_of_mem _ he)
    rw [List.filterMap_cons, Function.comp_apply, head, tail]

/-- A legend of real values shows the converses of its members, sorted by their least values. -/
theorem placed_ofMembers_reals (token : Nat) (config : Config) (members : List (Category τ)) :
    (ofMembers token config .reals members).placed = sortedConverses members := by
  simpa [placed, ofMembers] using filterMap_sortedConverses members

/-- A legend of samples shows its categories as they are stored. -/
theorem categories_of_ne_reals (l : Legend τ) (h : l.pairing ≠ .reals) :
    l.categories = l.members := by
  have : l.placed = l.members.zipIdx := by
    unfold placed
    split
    · contradiction
    · rfl
  rw [categories, this]
  simp

end Legend

end RasterCategories
