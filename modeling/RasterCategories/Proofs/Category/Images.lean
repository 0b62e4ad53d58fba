import RasterCategories.Proofs.Binary64.Monotone
import RasterCategories.Proofs.Legend.Built
/-!
# Images of samples

The side of the real values is computed from the images of the two bounds, in their order. A conversion by a
scale and an offset keeps or reverses the order although it rounds, so it takes every sample into that side.

* `Category.Imaged`: how the side of the real values is computed.
* `Category.contains_image`: the converted samples lie in it.
-/

namespace RasterCategories

/-! ### Values between two bounds -/

/-- A value lies between two others in either order, or all three are the same. -/
def Binary64.Between (first y last : Binary64) : Prop :=
  (first ≤ y ∧ y ≤ last) ∨ (last ≤ y ∧ y ≤ first) ∨ (y = first ∧ last = first)

/-- A side contains what lies between two values if these, in their order, are its bounds. -/
theorem Side.contains_of_between {s : Side} {first y last : Binary64}
    (hlow : s.low = if last < first then last else first)
    (hhigh : s.high = if last < first then first else last) (h : Binary64.Between first y last) :
    s.contains y = true := by
  unfold contains
  rw [decide_eq_true_eq, hlow, hhigh]
  rcases h with ⟨hfirst, hlast⟩ | ⟨hlast, hfirst⟩ | ⟨rfl, rfl⟩
  · have hlt : ¬ last < first := fun hlt =>
      absurd (Binary64.le_trans hfirst hlast).2.2 (Int.not_le.mpr hlt.2.2)
    rw [if_neg hlt, if_neg hlt]
    exact Or.inl ⟨hfirst, hlast⟩
  · split
    · exact Or.inl ⟨hlast, hfirst⟩
    -- Bounds that are not below each other are the same number.
    · next hlt =>
      have hle := Binary64.le_of_not_lt hlast.1 hfirst.2.1 hlt
      exact Or.inl ⟨Binary64.le_trans hle hlast, Binary64.le_trans hfirst hle⟩
  · right
    split <;> rfl

/-- A conversion by a scale and an offset never fails, and takes what lies between two bounds into what lies
between their images. -/
theorem Transform.IsAffine.exists_function {t : Transform} (h : t.IsAffine) :
    ∃ f : Binary64 → Binary64, (∀ x, (t.apply x).fresh = .ok (f x)) ∧
      ∀ {low x high : Binary64}, low ≤ x → x ≤ high → Binary64.Between (f low) (f x) (f high) := by
  cases h with
  | identity => exact ⟨id, fun _ => rfl, fun hlow hhigh => Or.inl ⟨hlow, hhigh⟩⟩
  | linear p =>
    refine ⟨p.eval, fun _ => rfl, fun hlow hhigh => ?_⟩
    rcases p.eval_between hlow hhigh with hbetween | hbetween
    · exact Or.inl hbetween
    · exact Or.inr (Or.inl hbetween)
  | constant v w => exact ⟨fun _ => v, fun _ => rfl, fun _ _ => Or.inr (Or.inr ⟨rfl, rfl⟩)⟩

namespace Category

variable {c : Category Transform} {x : Binary64}

/-- The bounds of the real values are the images of the bounds of the samples, the smaller first. A category
without real values of its own converts nothing. -/
structure Imaged (c : Category Transform) : Prop where
  alone : c.there = none → c.forward = .identity
  bounds : ∀ s, c.there = some s → ∃ first last,
    (c.forward.apply c.here.low).fresh = .ok first ∧ (c.forward.apply c.here.high).fresh = .ok last
      ∧ s.low = (if last < first then last else first)
      ∧ s.high = if last < first then first else last

/-- The other side of a category of samples is computed from its bounds. -/
theorem IsOriginal.imaged (h : c.IsOriginal) : c.Imaged := by
  cases h with
  | plain =>
    refine ⟨fun _ => rfl, ?_⟩
    rintro _ ⟨⟩
  | qualitative h =>
    obtain ⟨side, nan, -, -, -, -, rfl⟩ := qualitative_ok h
    refine ⟨by rintro ⟨⟩, ?_⟩
    rintro s ⟨⟩
    exact ⟨nan, nan, rfl, rfl, (ite_self _).symm, (ite_self _).symm⟩
  | convertedBy _ _ h =>
    obtain ⟨first, last, back, -, hfirst, hlast, -, -, -, rfl⟩ := convertedBy_ok h
    refine ⟨by rintro ⟨⟩, ?_⟩
    rintro s ⟨⟩
    exact ⟨first, last, hfirst, hlast, rfl, rfl⟩

/-- What a sample is converted to lies in the side of the real values. -/
theorem contains_image (hc : c.Sound) (himaged : c.Imaged) (haffine : c.forward.IsAffine)
    (hx : c.here.contains x = true) :
    ∃ y, (c.forward.apply x).fresh = .ok y ∧ c.converseSide.contains y = true := by
  obtain ⟨f, hf, hbetween⟩ := haffine.exists_function
  refine ⟨f x, hf x, ?_⟩
  cases hthere : c.there with
  -- A category that converts nothing keeps the sample, which its only side contains.
  | none =>
    have hsame := hf x
    rw [himaged.alone hthere] at hsame
    rw [← Except.ok.inj hsame, converseSide, hthere]
    exact hx
  | some s =>
    obtain ⟨first, last, hfirst, hlast, hlow, hhigh⟩ := himaged.bounds s hthere
    obtain rfl := Except.ok.inj ((hf _).symm.trans hfirst)
    obtain rfl := Except.ok.inj ((hf _).symm.trans hlast)
    rw [converseSide, hthere]
    refine Side.contains_of_between hlow hhigh ?_
    rcases hc.here with ⟨hordered, -⟩ | ⟨hnan, hsame, -⟩
    · have hinside : c.here.low ≤ x ∧ x ≤ c.here.high := by
        rcases of_decide_eq_true hx with hinside | rfl
        · exact hinside
        · exact ⟨Binary64.le_refl hordered.1, hordered⟩
      exact hbetween hinside.1 hinside.2
    -- A side keyed by a NaN contains nothing else.
    · have hkey : x = c.here.low := by
        rcases of_decide_eq_true hx with hinside | hkey
        · rw [hinside.1.1] at hnan
          cases hnan
        · exact hkey
      rw [hsame, hkey]
      exact Or.inr (Or.inr ⟨rfl, rfl⟩)

end Category

end RasterCategories
