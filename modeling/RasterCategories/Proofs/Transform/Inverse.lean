import RasterCategories.Proofs.Binary64.Logarithm
import RasterCategories.Transform.Basic
/-!
# Inverses of transforms

The parameters of an inverse are computed with rounding and checked again, so not every transform that passed the
checks has an inverse. Constants and exponentials always have one. The inverse of a linear function needs a scale
that is not so small and an offset that is not so large that a quotient by the scale overflows, and the inverse of a
logarithm needs a power of its base that neither overflows nor vanishes. A chain has an inverse if all its parts have
one, and then the inverse is the chain of their inverses in reverse order.

* `Linear.HasInverse` and `Logarithmic.HasInverse`: the parameters for which the inverse is accepted.
* `Transform.hasInverse_iff`: which transforms have an inverse.
* `Transform.IsAssembled`: the transforms that are chained from functions of one variable.
* `Transform.parts` and `Transform.IsElided`: the parts of a chain, and chains without identities.
* `Transform.inverse_of_isAssembled`: the inverse of a chain.
* `Transform.exists_inverse_error`: accepted transforms without an inverse.
-/

namespace RasterCategories

/-! ### Functions of one variable -/

section Parameters

open Binary64

namespace Linear

/-- Scales are accepted if they are finite and not zero, offsets if they are finite. -/
theorem exists_of_iff {scale offset : Binary64} : (∃ p, of scale offset = .ok p) ↔
    (scale.isZero = false ∧ scale.isFinite = true) ∧ offset.isFinite = true := by
  unfold of
  split_ifs with hscale hoffset
  · exact iff_of_true ⟨_, rfl⟩ ⟨hscale, hoffset⟩
  · exact iff_of_false nofun fun h => hoffset h.2
  · exact iff_of_false nofun fun h => hscale h.1

/-- The scale is greater than `2 ^ -1024`, and the offset divided by the scale is less than `2 ^ 1024 - 2 ^ 970`. -/
def HasInverse (p : Linear) : Prop :=
  2 ^ 50 < p.scale.magnitude ∧ 2 * p.offset.magnitude < (2 ^ 54 - 1) * (p.scale.magnitude * 2 ^ 971)

instance (p : Linear) : Decidable p.HasInverse := inferInstanceAs (Decidable (_ ∧ _))

theorem hasInverse_iff (p : Linear) : (∃ q, p.inverse = .ok q) ↔ p.HasInverse := by
  have hoffset : (-p.offset).isFinite = true := by
    rw [isFinite_neg]
    exact p.offset_finite
  unfold inverse HasInverse
  rw [exists_of_iff, isFinite_one_div_iff p.scale_finite p.scale_ne_zero,
    isFinite_div_iff hoffset p.scale_finite p.scale_ne_zero, magnitude_neg,
    and_iff_right (isZero_one_div p.scale_finite p.scale_ne_zero)]

end Linear

/-- The inverse of an exponential is always accepted, since logarithms to a base are finite. -/
theorem Exponential.exists_inverse (p : Exponential) : ∃ q, p.inverse = .ok q := by
  have hoffset : (if p.scale.EqualTo one then zero else -(p.scale.log / p.base.log)).isFinite = true := by
    split_ifs
    · decide
    · rw [isFinite_neg]
      exact isFinite_log_div p.scale_pos p.scale_finite p.isBase
  unfold Exponential.inverse Logarithmic.of
  exact ⟨_, by rw [dif_pos p.isBase, dif_pos hoffset]⟩

namespace Logarithmic

/-- The base to the power of the negated offset is a positive finite number. -/
def HasInverse (p : Logarithmic) : Prop :=
  zero < p.base.pow (-p.offset) ∧ (p.base.pow (-p.offset)).isFinite = true

instance (p : Logarithmic) : Decidable p.HasInverse := inferInstanceAs (Decidable (_ ∧ _))

theorem hasInverse_iff (p : Logarithmic) : (∃ q, p.inverse = .ok q) ↔ p.HasInverse := by
  unfold inverse HasInverse Exponential.of
  dsimp only
  -- A power that overflows is refused before the constructor sees it.
  split_ifs with hinfinite hbase hscale
  · refine iff_of_false nofun fun h => ?_
    rw [isInfinite_of_isFinite h.2] at hinfinite
    cases hinfinite
  · exact iff_of_true ⟨_, rfl⟩ hscale
  · exact iff_of_false nofun hscale
  · exact absurd p.isBase hbase

end Logarithmic

end Parameters

namespace Transform

variable {f g t u : Transform}

/-! ### Which transforms have an inverse -/

/-- All functions in the transform have inverses. Constants, exponentials and legends always do. -/
def HasInverse : Transform → Prop
  | .linear p => p.HasInverse
  | .logarithmic p => p.HasInverse
  | .chain first second => first.HasInverse ∧ second.HasInverse
  | .supplied _ like => like.HasInverse
  | _ => True

/-- A transform has an inverse if all functions in it have one. -/
theorem hasInverse_iff (t : Transform) : (∃ u, t.inverse = .ok u) ↔ t.HasInverse := by
  fun_induction Transform.inverse t with
  | case2 p => exact exists_map_iff.trans p.hasInverse_iff
  | case4 p => exact iff_of_true (exists_map_iff.mpr p.exists_inverse) trivial
  | case5 p => exact exists_map_iff.trans p.hasInverse_iff
  | case6 first second ihsecond ihfirst =>
    rw [exists_bind_iff, ihfirst, ihsecond]
    exact and_comm
  | case8 mark like ih => exact exists_map_iff.trans ih
  -- The identity, constants and legends compute no parameters.
  | _ => exact iff_of_true ⟨_, rfl⟩ trivial

/-! ### Chains -/

/-- Transforms that are chained from functions of one variable. -/
inductive IsAssembled : Transform → Prop
  | identity : IsAssembled .identity
  | linear (p : Linear) : IsAssembled (.linear p)
  | constant (value inverseValue : Binary64) : IsAssembled (.constant value inverseValue)
  | exponential (p : Exponential) : IsAssembled (.exponential p)
  | logarithmic (p : Logarithmic) : IsAssembled (.logarithmic p)
  | andThen {f g : Transform} (hf : f.IsAssembled) (hg : g.IsAssembled) : IsAssembled (f.andThen g)

/-- The parts of a chain in the order in which they convert, the identity being none. -/
def parts : Transform → List Transform
  | .identity => []
  | .chain first second => first.parts ++ second.parts
  | t => [t]

/-- No chain in the transform has a part that is known to convert nothing. -/
def IsElided : Transform → Prop
  | .chain first second =>
    first.isIdentity = false ∧ second.isIdentity = false ∧ first.IsElided ∧ second.IsElided
  | _ => True

/-- Two transforms are put together in one of three ways. -/
theorem andThen_cases (f g : Transform) : f.isIdentity = true ∧ f.andThen g = g
    ∨ g.isIdentity = true ∧ f.andThen g = f
    ∨ f.isIdentity = false ∧ g.isIdentity = false ∧ f.andThen g = .chain f g := by
  cases hf : f.isIdentity with
  | true => exact Or.inl ⟨rfl, andThen_of_isIdentity hf⟩
  | false =>
    cases hg : g.isIdentity with
    | true => exact Or.inr (Or.inl ⟨rfl, andThen_of_isIdentity_right hf hg⟩)
    | false => exact Or.inr (Or.inr ⟨rfl, rfl, andThen_eq_chain hf hg⟩)

/-- A single function is inverted to a single function. -/
theorem parts_map {α : Type} {a : Except Error α} {k : α → Transform} (hk : ∀ x, (k x).parts = [k x])
    (hparts : t.parts = [t]) (h : t.inverse = a.map k) :
    t.inverse.map parts = t.parts.reverse.mapM Transform.inverse := by
  rw [hparts, List.reverse_singleton, List.mapM_cons, h]
  cases a with
  | error e => rfl
  | ok x => exact congrArg Except.ok (hk x)

namespace IsAssembled

/-- Only the identity is known to convert nothing. -/
theorem eq_identity (ht : t.IsAssembled) (h : t.isIdentity = true) : t = .identity := by
  induction ht with
  | identity => rfl
  | @andThen f g _ _ ihf ihg =>
    rcases andThen_cases f g with ⟨-, heq⟩ | ⟨-, heq⟩ | ⟨-, -, heq⟩ <;> rw [heq] at h ⊢
    · exact ihg h
    · exact ihf h
    · cases h
  | _ => cases h

/-- Identities are left out on every level. -/
theorem isElided (ht : t.IsAssembled) : t.IsElided := by
  induction ht with
  | @andThen f g _ _ ihf ihg =>
    rcases andThen_cases f g with ⟨-, heq⟩ | ⟨-, heq⟩ | ⟨hf, hg, heq⟩ <;> rw [heq]
    · exact ihg
    · exact ihf
    · exact ⟨hf, hg, ihf, ihg⟩
  | _ => exact trivial

/-- An identity on the right is left out. -/
theorem andThen_identity (ht : t.IsAssembled) : t.andThen .identity = t := by
  cases h : t.isIdentity with
  | true => rw [ht.eq_identity h, identity_andThen]
  | false => exact andThen_of_isIdentity_right h rfl

theorem parts_andThen (hf : f.IsAssembled) (hg : g.IsAssembled) : (f.andThen g).parts = f.parts ++ g.parts := by
  rcases andThen_cases f g with ⟨h, heq⟩ | ⟨h, heq⟩ | ⟨-, -, heq⟩ <;> rw [heq]
  · rw [hf.eq_identity h, parts, List.nil_append]
  · rw [hg.eq_identity h, parts, List.append_nil]
  · rw [parts]

/-- Inverses are chained from functions of one variable too. -/
theorem inverse (ht : t.IsAssembled) (h : t.inverse = .ok u) : u.IsAssembled := by
  induction ht generalizing u with
  | @andThen f g _ _ ihf ihg =>
    rcases andThen_cases f g with ⟨-, heq⟩ | ⟨-, heq⟩ | ⟨-, -, heq⟩ <;> rw [heq] at h
    · exact ihg h
    · exact ihf h
    · rw [Transform.inverse] at h
      obtain ⟨v, hv, h⟩ := exists_of_bind_eq_ok h
      obtain ⟨u', hu, h⟩ := exists_of_bind_eq_ok h
      cases h
      exact .andThen (ihg hv) (ihf hu)
  | identity =>
    cases h
    exact .identity
  | constant =>
    cases h
    exact .constant _ _
  | linear p =>
    obtain ⟨q, rfl⟩ := eq_of_map_eq_ok h
    exact .linear q
  | exponential p =>
    obtain ⟨q, rfl⟩ := eq_of_map_eq_ok h
    exact .logarithmic q
  | logarithmic p =>
    obtain ⟨q, rfl⟩ := eq_of_map_eq_ok h
    exact .exponential q

/-- The inverse of a chain undoes the second transform first. A part that is left out of the chain has the identity
for its inverse, which is left out of the inverse. -/
theorem inverse_andThen (hf : f.IsAssembled) (hg : g.IsAssembled) : (f.andThen g).inverse = (do
    let undoSecond ← g.inverse
    let undoFirst ← f.inverse
    return undoSecond.andThen undoFirst) := by
  rcases andThen_cases f g with ⟨h, heq⟩ | ⟨h, heq⟩ | ⟨-, -, heq⟩ <;> rw [heq]
  · rw [hf.eq_identity h]
    cases hundo : g.inverse with
    | error e => rfl
    | ok v => exact congrArg Except.ok (hg.inverse hundo).andThen_identity.symm
  · rw [hg.eq_identity h]
    cases hundo : f.inverse with
    | error e => rfl
    | ok v => exact congrArg Except.ok (identity_andThen v).symm
  · rw [Transform.inverse]

/-- The parts of the inverse are the inverses of the parts in reverse order. -/
theorem parts_inverse (ht : t.IsAssembled) : t.inverse.map parts = t.parts.reverse.mapM Transform.inverse := by
  induction ht with
  | identity => rfl
  | @andThen f g hf hg ihf ihg =>
    rw [hf.inverse_andThen hg, hf.parts_andThen hg, List.reverse_append, List.mapM_append, ← ihf, ← ihg]
    -- The second transform is inverted first, so that its error is also the first to show.
    cases hundog : g.inverse with
    | error e => rfl
    | ok v =>
      cases hundof : f.inverse with
      | error e => rfl
      | ok u => exact congrArg Except.ok ((hg.inverse hundog).parts_andThen (hf.inverse hundof))
  | constant => rfl
  | linear p => exact parts_map (fun _ => rfl) rfl rfl
  | exponential p => exact parts_map (fun _ => rfl) rfl rfl
  | logarithmic p => exact parts_map (fun _ => rfl) rfl rfl

end IsAssembled

/-- A chain of functions has an inverse if all its functions have one. The inverse is the chain of their inverses in
reverse order, on every level of nesting and without identities. If there is none, the error is that of the last
function without an inverse. -/
theorem inverse_of_isAssembled (ht : t.IsAssembled) :
    ((∃ u, t.inverse = .ok u) ↔ t.HasInverse)
      ∧ t.inverse.map parts = t.parts.reverse.mapM inverse
      ∧ (∀ u, t.inverse = .ok u → u.IsAssembled ∧ u.IsElided)
      ∧ ∀ g : Transform, g.IsAssembled → (t.andThen g).inverse = (do
        let undoSecond ← g.inverse
        let undoFirst ← t.inverse
        return undoSecond.andThen undoFirst) :=
  ⟨hasInverse_iff t, ht.parts_inverse, fun _ hu => ⟨ht.inverse hu, (ht.inverse hu).isElided⟩,
    fun _ hg => ht.inverse_andThen hg⟩

/-- The exponent of a concentration. -/
def exponentOfPacked : Linear where
  scale := .ofDecimal false 15 (-3)
  offset := .ofInt (-2)
  scale_ne_zero := by decide +kernel
  scale_finite := by decide +kernel
  offset_finite := by decide +kernel

/-- Powers of ten. -/
def powerOfTen : Exponential where
  base := .ten
  scale := .one
  isBase := by decide +kernel
  scale_pos := by decide +kernel
  scale_finite := by decide +kernel

/-- A concentration that is packed on a logarithmic scale. -/
def concentrationOfPacked : Transform := (linear exponentOfPacked).andThen (.exponential powerOfTen)

/-- A concentration is packed by its logarithm and then by a linear function. -/
theorem inverse_of_isAssembled_concentration : concentrationOfPacked.IsAssembled ∧ concentrationOfPacked.HasInverse
    ∧ ∃ u p q, concentrationOfPacked.inverse = .ok u ∧ u.parts = [.logarithmic p, .linear q] ∧ u.IsElided := by
  have hassembled : concentrationOfPacked.IsAssembled := .andThen (.linear _) (.exponential _)
  have hlinear : exponentOfPacked.HasInverse := by decide +kernel
  obtain ⟨hiff, hparts, hinverse, -⟩ := inverse_of_isAssembled hassembled
  obtain ⟨u, hu⟩ := hiff.mpr ⟨hlinear, trivial⟩
  obtain ⟨p, hp⟩ := powerOfTen.exists_inverse
  obtain ⟨q, hq⟩ := exponentOfPacked.hasInverse_iff.mpr hlinear
  have hundo : concentrationOfPacked.parts.reverse.mapM inverse = .ok [.logarithmic p, .linear q] := by
    show [exponential powerOfTen, linear exponentOfPacked].mapM inverse = _
    rw [List.mapM_cons, List.mapM_cons, inverse, inverse, hp, hq]
    rfl
  rw [hu, hundo] at hparts
  exact ⟨hassembled, ⟨hlinear, trivial⟩, u, p, q, hu, Except.ok.inj hparts, (hinverse u hu).2⟩

/-- Parameters that were accepted and then give no accepted parameters for the inverse. -/
theorem exists_error {α β : Type} {made : Except Error α} {undo : α → Except Error β} {k : β → Transform} {e : Error}
    (hmade : made.isOk = true) (h : (made >>= undo) = .error e) : ∃ p, made = .ok p ∧ (undo p).map k = .error e := by
  obtain ⟨p, hp⟩ := exists_of_isOk hmade
  rw [hp] at h
  exact ⟨p, hp, congrArg (Except.map k) h⟩

/-- The scale may be so small that its reciprocal overflows, the offset so large that its quotient by the scale does,
and the offset of a logarithm so far from zero that the power of the base overflows or vanishes. -/
theorem exists_inverse_error :
    (∃ p, Linear.of (.ofPattern 1) .zero = .ok p ∧ (linear p).inverse = .error (.linearScale .infinity))
      ∧ (∃ p, Linear.of (.ofDecimal false 1 (-300)) (.ofDecimal false 1 10) = .ok p
        ∧ (linear p).inverse = .error (.linearOffset .negInfinity))
      ∧ (∃ p, Logarithmic.of .ten (.ofInt (-400)) = .ok p ∧ (logarithmic p).inverse = .error .powerOverflow)
      ∧ (∃ p, Logarithmic.of .ten (.ofInt 400) = .ok p
        ∧ (logarithmic p).inverse = .error (.exponentialScale .zero)) :=
  ⟨exists_error (by decide +kernel) (by decide +kernel), exists_error (by decide +kernel) (by decide +kernel),
    exists_error (by decide +kernel) (by decide +kernel), exists_error (by decide +kernel) (by decide +kernel)⟩

end Transform

end RasterCategories
