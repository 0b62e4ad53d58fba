import RasterCategories.Proofs.Evaluation.Consistent
import RasterCategories.Proofs.Legend.Built
/-!
# Evaluation of built transforms and legends

What holds of the conversions by a legend, given the same of its categories' transforms, holds of all built
transforms by induction.

* `Legend.table_map` and `Legend.categories_map`: behaviours do not change how a legend searches.
* `Transform.IsBuilt.regular`: no hint changes what a built transform does, and arrays keep their length.
* `Legend.IsBuilt.active_ordered`, `Legend.IsBuilt.active_ignoresHints` and
  `Legend.IsBuilt.active_keepsLength`: what evaluation needs of a built legend.
* `Legend.IsBuilt.run_convert` and `Legend.IsBuilt.run_convertInto`: its conversions as plain functions.
-/

namespace RasterCategories

/-! ### Changing the conversions of a legend -/

namespace Legend

variable {τ : Type} {υ : Type} (f : τ → υ) (l : Legend τ)

theorem placed_map : (l.map f).placed = l.placed.map fun e => (e.1.map f, e.2) := by
  rcases l with ⟨token, config, pairing, members, order⟩
  cases pairing with
  | reals =>
    simp only [map, placed, List.map_filterMap, List.getElem?_toArray, List.getElem?_map, Option.map_map]
    refine List.filterMap_congr fun place _ => ?_
    cases members[place]? with
    | none => rfl
    | some c => simp [Category.map_converse]
  | empty | unpaired | identity | samples =>
    simp only [map, placed]
    rw [List.zipIdx_map]
    rfl

/-- The categories keep their order. -/
theorem categories_map : (l.map f).categories = l.categories.map (Category.map f) := by
  simp only [categories, placed_map, List.map_map]
  rfl

theorem pairing_map : (l.map f).pairing = l.pairing := rfl

/-- The search depends on the sides alone. -/
theorem table_map : (l.map f).table = l.table := by
  simp only [table, categories_map, pairing_map, List.map_map]
  rfl

theorem converse_map : (l.map f).converse = l.converse.map f := by
  rcases l with ⟨token, config, _ | _ | _ | _ | _, members, order⟩ <;> rfl

/-- The conversions are those of the categories. -/
theorem mem_categories_map {c : Category υ} (h : c ∈ (l.map f).categories) :
    ∃ d ∈ l.categories, d.map f = c := by
  rw [categories_map] at h
  exact List.mem_map.mp h

end Legend

/-! ### Hints -/

namespace Behaviour.IgnoresHints

variable {b first second : Behaviour}

theorem ofFunction (f d : Binary64 → Binary64) : (Behaviour.ofFunction f d).IgnoresHints :=
  ⟨fun _ => Eval.ignoresHints_pure _, fun _ => Eval.ignoresHints_pure _,
    fun _ => Eval.ignoresHints_pure _⟩

theorem andThen (hfirst : first.IgnoresHints) (hsecond : second.IgnoresHints) :
    (first.andThen second).IgnoresHints := by
  refine ⟨fun x => ?_, fun _ => ?_, fun x => ?_⟩
  · exact (hfirst.apply x).bind fun y => hsecond.apply y
  · exact (hfirst.applyAll _).bind fun ys => hsecond.applyAll _
  · exact (hfirst.apply x).bind fun y => (hsecond.derivative y).bind fun _ =>
      (hfirst.derivative x).bind fun _ => Eval.ignoresHints_pure _

theorem elementwise (hb : b.IgnoresHints) : b.elementwise.IgnoresHints := by
  refine ⟨hb.apply, fun xs => ?_, hb.derivative⟩
  exact (Eval.yields_mapM hb.apply xs).ignoresHints.bind fun ys => Eval.ignoresHints_pure _

/-- A legend whose search table is ordered adds no use of hints that shows. -/
theorem legend {l : Legend Behaviour} (ht : l.table.Ordered)
    (hc : ∀ c ∈ l.categories, c.forward.IgnoresHints) : l.behaviour.IgnoresHints :=
  ⟨fun x => (Legend.evaluate_yields ht hc x).ignoresHints,
    fun _ => (Legend.evaluateNew_yields ht hc _ _).ignoresHints,
    fun x => (Legend.evaluateSlope_yields ht hc x).ignoresHints⟩

end Behaviour.IgnoresHints

/-! ### Lengths -/

namespace Behaviour.KeepsLength

variable {b first second : Behaviour}

theorem ofFunction (f d : Binary64 → Binary64) : (Behaviour.ofFunction f d).KeepsLength := by
  intro xs ys h
  obtain rfl := Except.ok.inj h
  exact List.length_map _

theorem andThen (hi : first.IgnoresHints) (hj : second.IgnoresHints) (hfirst : first.KeepsLength)
    (hsecond : second.KeepsLength) : (first.andThen second).KeepsLength := by
  intro xs zs h
  rw [fresh_applyAll_andThen hi hj] at h
  obtain ⟨ys, hys, hzs⟩ := exists_of_bind_eq_ok h
  rw [hsecond _ _ hzs, Cells.length_toDoubles, hfirst _ _ hys]

theorem elementwise (hi : b.IgnoresHints) : b.elementwise.KeepsLength :=
  (Pointwise.elementwise hi).keepsLength

end Behaviour.KeepsLength

/-! ### Built transforms -/

/-- No hint changes what a built transform does, and arrays keep their length. -/
theorem Transform.IsBuilt.regular {t : Transform} (h : t.IsBuilt) :
    t.behaviour.IgnoresHints ∧ t.behaviour.KeepsLength := by
  apply Transform.IsBuilt.induct
    (motive := fun t => t.behaviour.IgnoresHints ∧ t.behaviour.KeepsLength) (h := h)
  case chain =>
    intro first second hfirst hsecond
    rw [behaviour]
    exact ⟨hfirst.1.andThen hsecond.1, .andThen hfirst.1 hsecond.1 hfirst.2 hsecond.2⟩
  case supplied =>
    intro mark like hlike
    rw [behaviour]
    exact ⟨hlike.1.elementwise, .elementwise hlike.1⟩
  -- Behaviours do not take part in the search, so the table of the described legend is the one that counts.
  case legend =>
    intro l _ hl hc
    have ht : (l.map behaviour).table.Ordered := by
      rw [Legend.table_map]
      exact hl.ordered
    have hboth : ∀ c ∈ (l.map behaviour).categories,
        c.forward.IgnoresHints ∧ c.forward.KeepsLength := by
      intro c hmem
      obtain ⟨d, hd, rfl⟩ := Legend.mem_categories_map _ _ hmem
      exact hc d hd
    have hi := fun c hmem => (hboth c hmem).1
    rw [behaviour_legend]
    exact ⟨.legend ht hi, Legend.keepsLength_behaviour ht hi fun c hmem => (hboth c hmem).2⟩
  all_goals
    intros
    rw [behaviour]
    exact ⟨.ofFunction _ _, .ofFunction _ _⟩

theorem Legend.getElem?_active {l : Legend Transform} {c : Category Transform} {i : Nat}
    (hc : l.categories[i]? = some c) :
    l.active.categories[i]? = some (c.map Transform.behaviour) := by
  rw [active, categories_map, List.getElem?_map, hc, Option.map_some]

namespace Legend.IsBuilt

variable {l : Legend Transform}

/-- The search table of a built legend is ordered. -/
theorem active_ordered (h : l.IsBuilt) : l.active.table.Ordered := by
  rw [active, table_map]
  exact h.sound.ordered

/-- No hint changes how the categories of a built legend convert. -/
theorem active_ignoresHints (h : l.IsBuilt) : ∀ c ∈ l.active.categories, c.forward.IgnoresHints := by
  intro c hc
  obtain ⟨d, hd, rfl⟩ := mem_categories_map _ _ hc
  exact (h.forward d hd).regular.1

/-- The categories of a built legend convert arrays to arrays of the same length. -/
theorem active_keepsLength (h : l.IsBuilt) : ∀ c ∈ l.active.categories, c.forward.KeepsLength := by
  intro c hc
  obtain ⟨d, hd, rfl⟩ := mem_categories_map _ _ hc
  exact (h.forward d hd).regular.2

/-! ### Conversions -/

variable {c : Category Transform} {x y : Binary64} {i : Nat}

/-- The conversion of one value gives the same from any hints. -/
theorem run_convert (h : l.IsBuilt) (hints : Hints) :
    ((l.convert x).run hints).1 = l.active.pureValue x :=
  evaluate_yields h.active_ordered h.active_ignoresHints x hints

/-- The conversion of a window gives the same from any hints. -/
theorem run_convertInto (h : l.IsBuilt) {source : Elements} {target : Target} {w : Window}
    (hints : Hints) :
    ((l.convertInto source target w).run hints).1 = l.active.pureInto source target w :=
  evaluateInto_yields h.active_ordered h.active_ignoresHints source target w hints

/-- A value is converted by its owner, if returns are not verified. -/
theorem convert_of_unverified (h : l.IsBuilt) (hverify : l.config.verifyReturn = false)
    (howner : l.owner? x = some i) (hc : l.categories[i]? = some c)
    (hy : (c.forward.apply x).fresh = .ok y) (hints : Hints) :
    ((l.convert x).run hints).1 = .ok (l.active.settle (c.map Transform.behaviour) y) := by
  have htable : l.active.table.owner? x = some i := (congrArg (·.owner? x) (table_map _ l)).trans howner
  have hverify : l.active.config.verifyReturn = false := hverify
  rw [h.run_convert, pureValue_of_owner? htable (getElem?_active hc) hy, hverify]
  rfl

/-- A value without an owner is refused. -/
theorem convert_of_unowned (h : l.IsBuilt) (howner : l.owner? x = none) (hints : Hints) :
    ((l.convert x).run hints).1 = .error (.noCategory x) := by
  have htable : l.active.table.owner? x = none := (congrArg (·.owner? x) (table_map _ l)).trans howner
  rw [h.run_convert, pureValue_of_owner?_none htable]

end Legend.IsBuilt

end RasterCategories
