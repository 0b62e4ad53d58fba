import RasterCategories.Proofs.Evaluation.Built
/-!
# Single values and arrays agree

The conversion of an array gives what converting each of its values gives, bit for bit, and it is refused
exactly if one of the values is. This holds for chains and for legends with legends among their transforms, by
induction on the description. It takes that results pass from part to part at full width: a legend that is set
to allocate narrow arrays rounds them, and may do so in the last part only.

* `Transform.Gives`: the transforms for which this holds, with the width of their results.
* `Transform.applyAll_agrees`: arrays and single values agree.
* `Transform.applyAll_narrow`: a legend that rounds.
-/

namespace RasterCategories.Transform

/-- The transform converts arrays by results of full width, and stores the last ones at a width. No two
categories of a legend start at the same bits, and none verifies returns. -/
inductive Gives : Transform → Width → Prop
  /-- The function `x`. -/
  | identity : Gives .identity .double
  /-- A linear function. -/
  | linear (p : Linear) : Gives (.linear p) .double
  /-- A constant. -/
  | constant (value inverseValue : Binary64) : Gives (.constant value inverseValue) .double
  /-- A power. -/
  | exponential (p : Exponential) : Gives (.exponential p) .double
  /-- A logarithm. -/
  | logarithmic (p : Logarithmic) : Gives (.logarithmic p) .double
  /-- One transform after another. -/
  | chain {first second : Transform} {w : Width} (hfirst : Gives first .double) (hsecond : Gives second w) :
      Gives (.chain first second) w
  /-- A transform that a caller supplies. -/
  | supplied {mark : Mark} {like : Transform} (h : like.IsBuilt) : Gives (.supplied mark like) .double
  /-- A legend, of either domain. -/
  | legend {l : Legend Transform} (hl : l.IsBuilt) (hverify : l.config.verifyReturn = false)
      (hnodup : l.table.lows.Nodup) (hforward : ∀ c ∈ l.categories, Gives c.forward .double) :
      Gives (.legend l) l.config.outputWidth

theorem IsAffine.gives {t : Transform} (h : t.IsAffine) : t.Gives .double := by
  cases h with
  | identity => exact .identity
  | linear p => exact .linear p
  | constant v w => exact .constant v w

namespace Gives

variable {t : Transform} {w : Width}

theorem isBuilt (h : t.Gives w) : t.IsBuilt := by
  induction h with
  | identity => exact .identity
  | linear p => exact .linear p
  | constant v w => exact .constant v w
  | exponential p => exact .exponential p
  | logarithmic p => exact .logarithmic p
  | chain _ _ ihfirst ihsecond => exact .chain ihfirst ihsecond
  | supplied h => exact .supplied h
  | legend hl => exact hl

/-- Such a transform converts arrays value by value. -/
theorem pointwise (h : t.Gives w) : t.behaviour.Pointwise w := by
  induction h with
  | chain hfirst hsecond ihfirst ihsecond =>
    rw [behaviour]
    exact .andThen hfirst.isBuilt.regular.1 hsecond.isBuilt.regular.1 ihfirst ihsecond
  | supplied h =>
    rw [behaviour]
    exact .elementwise h.regular.1
  -- The categories of the legend convert value by value, and no two of them start at the same bits.
  | @legend l hl hverify hnodup _ ih =>
    have hconsistent : l.active.Consistent :=
      { ordered := hl.active_ordered
        nodup := by
          rw [Legend.active, Legend.table_map]
          exact hnodup
        verify := hverify
        sides := by
          intro c hc
          obtain ⟨d, hd, rfl⟩ := Legend.mem_categories_map _ _ hc
          exact (hl.sound.categories d hd).converseSide
        pointwise := by
          intro c hc
          obtain ⟨d, hd, rfl⟩ := Legend.mem_categories_map _ _ hc
          exact ih d hd }
    rw [Legend.behaviour_legend_eq]
    exact hconsistent.pointwise_behaviour hl.active_ignoresHints
  | _ =>
    rw [behaviour]
    exact .ofFunction _ _

end Gives

variable {t : Transform} {w : Width}

/-- The conversion of an array is refused exactly if that of one of its values is. Otherwise it gives as many
results as values, each with the bits that its value gives by itself, stored at the width of the transform. -/
theorem applyAll_agrees (h : t.Gives w) (xs : List Binary64) (hints other : Hints) :
    ((∃ e, ((t.applyAll xs).run hints).1 = .error e) ↔
        ∃ x ∈ xs, ∃ e, ((t.apply x).run other).1 = .error e)
      ∧ ∀ cells, ((t.applyAll xs).run hints).1 = .ok cells →
        ∃ ys, cells = .rounded w ys ∧
          List.Forall₂ (fun x y => ((t.apply x).run other).1 = .ok y) xs ys := by
  have hpointwise := h.pointwise
  obtain ⟨hi, -⟩ := h.isBuilt.regular
  have hone : ∀ x, ((t.apply x).run other).1 = (t.behaviour.apply x).fresh := fun x => hi.apply x other
  have hall : ((t.applyAll xs).run hints).1 = (t.behaviour.applyAll xs).fresh := hi.applyAll xs hints
  simp only [hone, hall]
  refine ⟨⟨fun ⟨e, he⟩ => ?_, fun ⟨x, hx, e, he⟩ => hpointwise.refused hx he⟩,
    fun cells hcells => ?_⟩
  -- Were every value accepted, the array would be.
  · rcases accepted_or_refused (fun x => (t.behaviour.apply x).fresh) xs with ⟨ys, hys⟩ | hrefused
    · rw [hpointwise.accepted hys] at he
      cases he
    · exact hrefused
  · obtain ⟨ys, hys, rfl⟩ := hpointwise.of_applyAll hcells
    exact ⟨ys, rfl, hys⟩

/-- Packed depths in meters, shifted once more, are converted in arrays as one by one. -/
theorem applyAll_agrees_depths : ∃ cs l, Legend.depthCategories = .ok cs
    ∧ Legend.ofCategories 0 .default cs = .ok l
    ∧ (chain (.legend l) (.linear Legend.metersOfPacked)).Gives .double
    ∧ ∀ (xs : List Binary64) (hints other : Hints),
      let t := chain (.legend l) (.linear Legend.metersOfPacked)
      ((∃ e, ((t.applyAll xs).run hints).1 = .error e) ↔
          ∃ x ∈ xs, ∃ e, ((t.apply x).run other).1 = .error e)
        ∧ ∀ cells, ((t.applyAll xs).run hints).1 = .ok cells →
          ∃ ys, cells = .rounded .double ys ∧
            List.Forall₂ (fun x y => ((t.apply x).run other).1 = .ok y) xs ys := by
  obtain ⟨cs, l, hcs, hdeclared, haffine, hl, hnodup⟩ := Legend.exists_depths
  have hbuilt := Legend.isBuilt_of_isAffine hdeclared haffine hl
  have hconfig := Legend.config_ofCategories hl
  have hforward : ∀ c ∈ l.categories, c.forward.Gives .double := fun c hc =>
    (Legend.isAffine_of_ofCategories haffine hl c hc).gives
  have hlegend := Gives.legend hbuilt (by rw [hconfig]; rfl) hnodup hforward
  rw [hconfig] at hlegend
  have hgives := Gives.chain hlegend (.linear Legend.metersOfPacked)
  exact ⟨cs, l, hcs, hl, hgives, applyAll_agrees hgives⟩

/-- The function `x / 10`, with a tenth rounded to a number. -/
def tenth : Linear where
  scale := .ofPattern 0x3FB999999999999A
  offset := .zero
  scale_ne_zero := by decide +kernel
  scale_finite := by decide +kernel
  offset_finite := by decide +kernel

/-- Depths in tenths of meters. -/
def tenthCategories : Except Error (List (Category Transform)) := do
  let depth ← Category.quantitative 1 "Depth" (.bounds [.zero, .ten]) (some (.linear tenth)) none
  return [depth]

/-- Set to allocate narrow arrays, the legend of these depths rounds the tenth that it gives for one. -/
theorem applyAll_narrow : ∃ cs l, tenthCategories = .ok cs ∧ (∀ c ∈ cs, Category.IsDeclared c)
    ∧ (∀ c ∈ cs, c.forward.IsAffine) ∧ Legend.ofCategories 0 { outputWidth := .single } cs = .ok l
    ∧ l.config.verifyReturn = false ∧ l.table.lows.Nodup
    ∧ (((legend l).apply .one).run .empty).1 = .ok tenth.scale
    ∧ (((legend l).applyAll [.one]).run .empty).1 = .ok (.single [tenth.scale.narrow])
    ∧ tenth.scale.narrow.widen ≠ tenth.scale := by
  have hpasses : Legend.passes 0 { outputWidth := .single } tenthCategories (fun _ l =>
      l.config.verifyReturn = false ∧ l.table.lows.Nodup
        ∧ (((legend l).apply .one).run .empty).1 = .ok tenth.scale
        ∧ (((legend l).applyAll [.one]).run .empty).1 = .ok (.single [tenth.scale.narrow])
        ∧ tenth.scale.narrow.widen ≠ tenth.scale) = true := by decide +kernel
  obtain ⟨cs, l, hcs, hl, hall⟩ := Legend.exists_of_passes hpasses
  obtain ⟨depth, hdepth, h⟩ := exists_of_bind_eq_ok hcs
  obtain rfl := Except.ok.inj h
  have hdeclared : ∀ c ∈ [depth], Category.IsDeclared c := by simpa using .quantitative hdepth
  have haffine : ∀ c ∈ [depth], c.forward.IsAffine := by
    simpa using Category.isAffine_of_quantitative hdepth (by rintro _ ⟨⟩; exact .linear _)
  exact ⟨_, l, hcs, hdeclared, haffine, hl, of_decide_eq_true hall⟩

end RasterCategories.Transform
