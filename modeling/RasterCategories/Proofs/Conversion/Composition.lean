import RasterCategories.Proofs.Conversion.Identity
/-!
# One transform after another

A chain leaves out a part that is known to convert nothing. The identity converts nothing and refuses nothing,
but a legend that is its own converse refuses the values that it does not know, and the empty legend refuses all
of them. Without that part the chain therefore accepts more than the two transforms do one after the other.
Where it is not for a refusal of this kind, the chain gives what they give. How three transforms are put
together never matters.

* `Transform.Knows`: the values that a part which converts nothing lets through.
* `Transform.apply_andThen_iff`: when a chain gives what its parts give.
* `Transform.apply_andThen_beyond`: two chains that accept what their parts refuse.
-/

namespace RasterCategories.Transform

variable {f g t : Transform} {x y : Binary64}

/-! ### Parts that convert nothing -/

/-- A legend knows the values that belong to one of its categories. Other transforms know all values. -/
def Knows (t : Transform) (x : Binary64) : Prop := ∀ l, t = .legend l → l.owner? x ≠ none

/-- From any hints a built transform gives what it gives from none. -/
theorem IsBuilt.run_apply (ht : t.IsBuilt) (x : Binary64) (hints : Hints) :
    ((t.apply x).run hints).1 = (t.apply x).fresh :=
  ht.regular.1.apply x hints

/-- A legend that is used as a transform converts values. -/
theorem apply_legend (l : Legend Transform) (x : Binary64) : (legend l).apply x = l.convert x := by
  rw [apply, Legend.behaviour_legend_eq]
  rfl

/-- A part that converts nothing is the identity or a legend. -/
theorem cases_of_isIdentity (h : t.isIdentity = true) :
    t = .identity ∨ ∃ l, t = .legend l ∧ l.isIdentity = true := by
  cases t with
  | identity => exact Or.inl rfl
  | legend l => exact Or.inr ⟨l, rfl, h⟩
  | _ => cases h

/-- A part that converts nothing gives back the values that it knows. -/
theorem IsBuilt.apply_of_knows (ht : t.IsBuilt) (h : t.isIdentity = true) (hx : t.Knows x) :
    (t.apply x).fresh = .ok x := by
  rcases cases_of_isIdentity h with rfl | ⟨l, rfl, hl⟩
  · rfl
  · have hrun := Legend.IsBuilt.run_convert_of_isIdentity ht hl x .empty
    rw [if_neg (hx l rfl)] at hrun
    rw [apply_legend]
    exact hrun

/-- A part that converts nothing refuses the values that it does not know. -/
theorem IsBuilt.apply_of_not_knows (ht : t.IsBuilt) (h : t.isIdentity = true) (hx : ¬ t.Knows x) :
    (t.apply x).fresh = .error (.noCategory x) := by
  rcases cases_of_isIdentity h with rfl | ⟨l, rfl, hl⟩
  · exact absurd (fun _ hl => by cases hl) hx
  · have hnone : l.owner? x = none := by
      by_contra hne
      exact hx fun m hm => by cases hm; exact hne
    have hrun := Legend.IsBuilt.run_convert_of_isIdentity ht hl x .empty
    rw [if_pos hnone] at hrun
    rw [apply_legend]
    exact hrun

/-! ### Chains -/

theorem IsBuilt.andThen (hf : f.IsBuilt) (hg : g.IsBuilt) : (f.andThen g).IsBuilt := by
  unfold Transform.andThen
  split
  · exact hg
  · split
    · exact hf
    · exact .chain hf hg

/-- A chain converts by its first part and then by its second one. -/
theorem apply_chain (f g : Transform) (x : Binary64) :
    (chain f g).apply x = (do let y ← f.apply x; g.apply y) := by
  rw [apply, behaviour]
  rfl

/-- One built transform after another gives what their results give. -/
theorem run_apply_apply (hf : f.IsBuilt) (hg : g.IsBuilt) (x : Binary64) (hints : Hints) :
    ((do let y ← f.apply x; g.apply y : Eval Binary64).run hints).1
      = (f.apply x).fresh >>= fun y => (g.apply y).fresh :=
  Eval.Yields.bind (hf.regular.1.apply x) (fun y _ => hg.regular.1.apply y) hints

/-- It does not matter which two of three transforms are put together first. -/
theorem apply_andThen_andThen (f g h : Transform) (x : Binary64) :
    ((f.andThen g).andThen h).apply x = (f.andThen (g.andThen h)).apply x := by
  cases hf : f.isIdentity with
  | true => rw [andThen_of_isIdentity hf, andThen_of_isIdentity hf]
  | false =>
    cases hg : g.isIdentity with
    | true => rw [andThen_of_isIdentity_right hf hg, andThen_of_isIdentity hg]
    | false =>
      cases hh : h.isIdentity with
      | true =>
        rw [andThen_of_isIdentity_right hg hh, andThen_eq_chain hf hg, andThen_of_isIdentity_right rfl hh]
      -- With no part to leave out, both are chains of the same three transforms.
      | false =>
        rw [andThen_eq_chain hf hg, andThen_eq_chain rfl hh, andThen_eq_chain hg hh, andThen_eq_chain hf rfl]
        simp only [apply_chain, bind_assoc]

/-- A chain gives what its two transforms give one after the other, unless it leaves out a legend that does not
know the value which reaches it. Refusing the value is then left to the other part. -/
theorem apply_andThen_iff (hf : f.IsBuilt) (hg : g.IsBuilt) (x : Binary64) (hints other : Hints) :
    ((((f.andThen g).apply x).run hints).1
          = ((do let y ← f.apply x; g.apply y : Eval Binary64).run other).1 ↔
        (f.isIdentity = true → f.Knows x ∨ (g.apply x).fresh = .error (.noCategory x))
          ∧ (f.isIdentity = false → g.isIdentity = true →
            ∀ y, (f.apply x).fresh = .ok y → g.Knows y))
      ∧ ∀ h : Transform, ((f.andThen g).andThen h).apply x = (f.andThen (g.andThen h)).apply x := by
  refine ⟨?_, fun h => apply_andThen_andThen f g h x⟩
  rw [(hf.andThen hg).run_apply, run_apply_apply hf hg]
  cases hfirst : f.isIdentity with
  | true =>
    rw [andThen_of_isIdentity hfirst]
    by_cases hx : f.Knows x
    · rw [hf.apply_of_knows hfirst hx]
      exact iff_of_true rfl ⟨fun _ => Or.inl hx, nofun⟩
    · rw [hf.apply_of_not_knows hfirst hx]
      simp [hx, bind, Except.bind]
  | false =>
    cases hsecond : g.isIdentity with
    | true =>
      rw [andThen_of_isIdentity_right hfirst hsecond]
      cases hy : (f.apply x).fresh with
      | error e => exact iff_of_true rfl ⟨nofun, nofun⟩
      | ok y =>
        change Except.ok y = (g.apply y).fresh ↔ _
        by_cases hknows : g.Knows y
        · rw [hg.apply_of_knows hsecond hknows]
          exact iff_of_true rfl ⟨nofun, by rintro - - _ ⟨⟩; exact hknows⟩
        · rw [hg.apply_of_not_knows hsecond hknows]
          exact iff_of_false nofun fun h => hknows (h.2 rfl rfl y rfl)
    | false =>
      rw [andThen_eq_chain hfirst hsecond, apply_chain]
      exact iff_of_true (run_apply_apply hf hg x .empty) ⟨nofun, nofun⟩

/-- A packed depth is converted to meters, and these to meters once more, as by one chain. -/
theorem apply_andThen_iff_depths : ∃ cs l, Legend.depthCategories = .ok cs
    ∧ Legend.ofCategories 0 .default cs = .ok l ∧ (legend l).IsBuilt ∧ (linear Legend.metersOfPacked).IsBuilt
    ∧ ∀ (x : Binary64) (hints other : Hints),
      let f := legend l
      let g := linear Legend.metersOfPacked
      ((((f.andThen g).apply x).run hints).1
            = ((do let y ← f.apply x; g.apply y : Eval Binary64).run other).1 ↔
          (f.isIdentity = true → f.Knows x ∨ (g.apply x).fresh = .error (.noCategory x))
            ∧ (f.isIdentity = false → g.isIdentity = true →
              ∀ y, (f.apply x).fresh = .ok y → g.Knows y))
        ∧ ∀ h : Transform, ((f.andThen g).andThen h).apply x = (f.andThen (g.andThen h)).apply x := by
  obtain ⟨cs, l, hcs, hdeclared, haffine, hl, -⟩ := Legend.exists_depths
  have hbuilt := Legend.isBuilt_of_isAffine hdeclared haffine hl
  exact ⟨cs, l, hcs, hl, hbuilt, .linear _, apply_andThen_iff hbuilt (.linear _)⟩

/-- Depths that are given in meters. -/
def meterCategories : Except Error (List (Category Transform)) := do
  let depth ← Category.quantitative 1 "Depth" (.bounds [.zero, .ten]) none none
  return [depth]

/-- The legend of depths in meters refuses twenty, and the legend without categories refuses everything. In a
chain with a conversion neither of them refuses anything. -/
theorem apply_andThen_beyond : ∃ cs l, meterCategories = .ok cs ∧ (∀ c ∈ cs, Category.IsDeclared c)
    ∧ (∀ c ∈ cs, c.forward.IsAffine) ∧ Legend.ofCategories 0 .default cs = .ok l
    ∧ ((((legend l).andThen (.linear Legend.metersOfPacked)).apply (.ofInt 20)).run .empty).1
      = .ok (.ofInt 41)
    ∧ ((do let y ← (legend l).apply (.ofInt 20)
           (linear Legend.metersOfPacked).apply y : Eval Binary64).run .empty).1
      = .error (.noCategory (.ofInt 20))
    ∧ ((((linear Legend.metersOfPacked).andThen (.legend .empty)).apply (.ofInt 20)).run .empty).1
      = .ok (.ofInt 41)
    ∧ ((do let y ← (linear Legend.metersOfPacked).apply (.ofInt 20)
           (legend .empty).apply y : Eval Binary64).run .empty).1
      = .error (.noCategory (.ofInt 41)) := by
  have hpasses : Legend.passes 0 .default meterCategories (fun _ l =>
      ((((legend l).andThen (.linear Legend.metersOfPacked)).apply (.ofInt 20)).run .empty).1
        = .ok (.ofInt 41)
      ∧ ((do let y ← (legend l).apply (.ofInt 20)
             (linear Legend.metersOfPacked).apply y : Eval Binary64).run .empty).1
        = .error (.noCategory (.ofInt 20))
      ∧ ((((linear Legend.metersOfPacked).andThen (.legend .empty)).apply (.ofInt 20)).run .empty).1
        = .ok (.ofInt 41)
      ∧ ((do let y ← (linear Legend.metersOfPacked).apply (.ofInt 20)
             (legend .empty).apply y : Eval Binary64).run .empty).1
        = .error (.noCategory (.ofInt 41))) = true := by decide +kernel
  obtain ⟨cs, l, hcs, hl, hall⟩ := Legend.exists_of_passes hpasses
  obtain ⟨depth, hdepth, h⟩ := exists_of_bind_eq_ok hcs
  obtain rfl := Except.ok.inj h
  have hdeclared : ∀ c ∈ [depth], Category.IsDeclared c := by simpa using .quantitative hdepth
  have haffine : ∀ c ∈ [depth], c.forward.IsAffine := by
    simpa using Category.isAffine_of_quantitative hdepth (by rintro _ ⟨⟩)
  exact ⟨_, l, hcs, hdeclared, haffine, hl, of_decide_eq_true hall⟩

end RasterCategories.Transform
