import RasterCategories.Proofs.Category.Images
/-!
# Real values cover the converted samples

The interval of the real values of a measurement is computed from two images only, those of its least and of its
greatest sample. The conversion rounds twice, may overflow or vanish and may fall, but it never leaves the order
of the samples or the reverse of it, so no image of another sample lies outside.

* `Category.Covers`: the interval of the real values, and that it holds every image.
* `Category.covers_of_quantitative`: it does for every conversion by a scale and an offset.
-/

namespace RasterCategories.Category

variable {c : Category Transform} {origin : Origin} {name : String} {samples : Samples}
  {units : Option String} {p : Linear}

/-- The real values of a category are the closed interval between the values of a function at the two bounds of
the samples, the smaller first. The category converts by this function, every sample into the interval. -/
structure Covers (c : Category Transform) (f : Binary64 → Binary64) : Prop where
  low : c.converse.here.low = if f c.here.high < f c.here.low then f c.here.high else f c.here.low
  high : c.converse.here.high = if f c.here.high < f c.here.low then f c.here.low else f c.here.high
  ordered : c.converse.here.low ≤ c.converse.here.high
  interval : c.converse.here.interval
    = Interval.ofBounds? c.converse.here.low c.converse.here.high true true
  apply : ∀ x hints, ((c.forward.apply x).run hints).1 = .ok (f x)
  contains : ∀ x, c.here.contains x = true → c.converse.here.contains (f x) = true

/-- A scale and an offset convert as declared. They are no identity, so the category has real values of its
own. -/
theorem forward_of_linear (h : quantitative origin name samples (some (.linear p)) units = .ok c) :
    c.forward = .linear p ∧ ∃ side, convertedBy origin side (.linear p) units = .ok c := by
  obtain ⟨side, -, h⟩ := exists_of_bind_eq_ok h
  refine ⟨?_, side, h⟩
  obtain ⟨_, _, _, -, -, -, -, -, -, rfl⟩ := convertedBy_ok h
  rfl

/-- The real values of a measurement that is converted by a scale and an offset cover its samples. -/
theorem covers_of_quantitative (h : quantitative origin name samples (some (.linear p)) units = .ok c) :
    c.Covers p.eval := by
  have hsound := sound_of_quantitative h
  have himaged := (isOriginal_of_quantitative h).imaged
  obtain ⟨hforward, side, hside⟩ := forward_of_linear h
  have hcontains : ∀ x, c.here.contains x = true → c.converse.here.contains (p.eval x) = true := by
    intro x hx
    obtain ⟨y, hy, hcontains⟩ := contains_image hsound himaged (hforward ▸ .linear p) hx
    rw [hforward] at hy
    obtain rfl : p.eval x = y := Except.ok.inj hy
    rw [here_converse]
    exact hcontains
  obtain ⟨first, last, back, -, hfirst, hlast, hfirstnumber, hlastnumber, -, rfl⟩ := convertedBy_ok hside
  obtain rfl : p.eval side.low = first := Except.ok.inj hfirst
  obtain rfl : p.eval side.high = last := Except.ok.inj hlast
  have hordered : (if p.eval side.high < p.eval side.low then p.eval side.high else p.eval side.low) ≤
      if p.eval side.high < p.eval side.low then p.eval side.low else p.eval side.high := by
    split
    · next hlt => exact Binary64.le_of_lt hlt
    · next hlt => exact Binary64.le_of_not_lt hlastnumber hfirstnumber hlt
  exact ⟨rfl, rfl, hordered, if_neg (Bool.eq_false_iff.mp hordered.1), fun _ _ => rfl, hcontains⟩

/-- An interval without its lower bound. -/
def aboveZero : Interval := ⟨.zero, .ten, false, true, by decide +kernel⟩

/-- A height that falls as the packed number rises. -/
def heightOfPacked : Linear where
  scale := -.two
  offset := .one
  scale_ne_zero := by decide +kernel
  scale_finite := by decide +kernel
  offset_finite := Binary64.isFinite_one

/-- The heights of samples above zero and up to ten reach from minus nineteen to just one, the height of the
least sample, and the sample two has one of them. -/
theorem covers_of_quantitative_heights :
    ∃ c, quantitative 0 "Height" (.interval aboveZero) (some (.linear heightOfPacked)) none = .ok c
      ∧ c.Covers heightOfPacked.eval ∧ c.here.low = .ofPattern 1
      ∧ c.converse.here.low = .ofInt (-19) ∧ c.converse.here.high = .one
      ∧ c.here.contains .two = true ∧ c.converse.here.contains (.ofInt (-3)) = true := by
  have hchecked : (match quantitative 0 "Height" (.interval aboveZero) (some (.linear heightOfPacked)) none with
      | .ok c => decide (c.here.low = .ofPattern 1 ∧ c.converse.here.low = .ofInt (-19)
          ∧ c.converse.here.high = .one ∧ c.here.contains .two = true)
      | .error _ => false) = true := by
    decide +kernel
  split at hchecked
  · next c hc =>
    obtain ⟨hleast, hlow, hhigh, htwo⟩ := of_decide_eq_true hchecked
    have hcovers := covers_of_quantitative hc
    have himage := hcovers.contains .two htwo
    rw [show heightOfPacked.eval .two = .ofInt (-3) by decide +kernel] at himage
    exact ⟨c, hc, hcovers, hleast, hlow, hhigh, htwo, himage⟩
  · cases hchecked

end RasterCategories.Category
