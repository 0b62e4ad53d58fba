import RasterCategories.Proofs.Search.Ordered
import RasterCategories.Search.Hint
/-!
# The memory of the last owner does not show

A side that surely owns a value is the only side that contains it, so the search would find the same side.
The owner of a value is therefore resolved in the same way from any hints.

* `Yields` and `Eval.Yields`: a computation has one result, whatever the hints.
* `SearchTable.Ordered.owner?_eq_of_surelyOwns`: the test of the last owner agrees with the search.
* `SearchTable.Ordered.resolve_yields`: what a resolution gives, in terms of the search alone.
-/

namespace RasterCategories

/-! ### Results that do not depend on hints -/

section Results

variable {α β : Type}

/-- The computation gives this result from any hints. -/
def Yields (m : StateM Hints β) (b : β) : Prop := ∀ h : Hints, (m.run h).1 = b

theorem Yields.pure (b : β) : Yields (Pure.pure b) b := fun _ => rfl

theorem Yields.bind {m : StateM Hints α} {f : α → StateM Hints β} {a : α} {b : β}
    (hm : Yields m a) (hf : Yields (f a) b) : Yields (m >>= f) b := by
  intro h
  -- The first computation may change the hints, and the second one starts from what it left.
  have hrest := hf (m.run h).2
  rw [← hm h] at hrest
  exact hrest

/-- The hints may be looked at. -/
theorem Yields.get_bind {f : Hints → StateM Hints β} {b : β} (hf : ∀ hints, Yields (f hints) b) :
    Yields (get >>= f) b :=
  fun h => hf h h

/-- A result that no hint changes is the only one. -/
theorem Yields.unique {m : StateM Hints β} {a b : β} (ha : Yields m a) (hb : Yields m b) : a = b :=
  (ha Hints.empty).symm.trans (hb Hints.empty)

namespace Eval

/-- The computation that can fail gives this result from any hints. -/
def Yields (e : Eval α) (r : Except Error α) : Prop := RasterCategories.Yields e.run r

/-- No hint changes the result. -/
def IgnoresHints (e : Eval α) : Prop := e.Yields e.fresh

variable {e : Eval α} {f : α → Eval β} {r : Except Error α} {a : α}

theorem Yields.unique {s : Except Error α} (hr : e.Yields r) (hs : e.Yields s) : r = s :=
  RasterCategories.Yields.unique hr hs

theorem Yields.fresh_eq (h : e.Yields r) : e.fresh = r := h Hints.empty

theorem Yields.ignoresHints (h : e.Yields r) : e.IgnoresHints := by
  rw [IgnoresHints, h.fresh_eq]
  exact h

theorem yields_pure (a : α) : Yields (Pure.pure a) (.ok a) := fun _ => rfl

theorem yields_throw (x : Error) : Yields (throw x : Eval α) (.error x) := fun _ => rfl

/-- Two computations after each other give what their results give. -/
theorem Yields.bind {g : α → Except Error β} (he : e.Yields r)
    (hf : ∀ a, r = .ok a → (f a).Yields (g a)) : (e >>= f).Yields (r >>= g) := by
  refine RasterCategories.Yields.bind (m := e.run) (f := ExceptT.bindCont f) he ?_
  cases r with
  | ok a => exact hf a rfl
  | error x => exact fun _ => rfl

/-- The hints may be looked at. -/
theorem Yields.get_bind {f : Hints → Eval β} {r : Except Error β} (hf : ∀ hints, (f hints).Yields r) :
    Yields (get >>= f) r :=
  fun h => hf h h

theorem IgnoresHints.bind (he : e.IgnoresHints) (hf : ∀ a, (f a).IgnoresHints) :
    (e >>= f).IgnoresHints :=
  (Yields.bind he fun a _ => hf a).ignoresHints

theorem ignoresHints_pure (a : α) : IgnoresHints (Pure.pure a) := (yields_pure a).ignoresHints

/-- Computations for the elements of a list give what their results give. -/
theorem yields_mapM {g : α → Except Error β} (hf : ∀ a, (f a).Yields (g a)) (as : List α) :
    Yields (as.mapM f) (as.mapM g) := by
  induction as with
  | nil => exact yields_pure _
  | cons a as ih =>
    rw [List.mapM_cons, List.mapM_cons]
    exact (hf a).bind fun b _ => ih.bind fun bs _ => yields_pure _

/-- A result without state is the same from any hints. -/
theorem yields_lift (r : Except Error α) : Yields (liftM r : Eval α) r := by
  intro h
  cases r <;> rfl

/-- A computation that can not fail succeeds with its result. -/
theorem yields_liftState {m : StateM Hints α} (h : RasterCategories.Yields m a) :
    Yields (liftM m : Eval α) (.ok a) :=
  fun hints => congrArg Except.ok (h hints)

end Eval

end Results

/-! ### Sure owners -/

variable {x : Binary64}

theorem Binary64.equalTo_zero_iff : x.EqualTo .zero ↔ x.isZero = true := by
  rw [equalTo_iff_place, isZero_iff_place, place_zero]
  omega

/-- A sure owner contains the value, and has no zero among its bounds if the value is a zero. -/
theorem Side.contains_of_surelyOwns {s : Side} (h : s.surelyOwns x = true) :
    s.contains x = true ∧ (x.isZero = true → s.low.isZero = false ∧ s.high.isZero = false) := by
  unfold surelyOwns at h
  dsimp only at h
  unfold contains
  rw [decide_eq_true_eq]
  split at h
  -- With a zero on a bound, a sure owner leaves all zeros to the search.
  · rw [Bool.and_eq_true, decide_eq_true_eq, Bool.not_eq_true'] at h
    exact ⟨Or.inl h.1, fun hx => absurd hx (by simp [h.2])⟩
  · next hzero =>
    rw [Binary64.equalTo_zero_iff, Binary64.equalTo_zero_iff, not_or, Bool.not_eq_true,
      Bool.not_eq_true] at hzero
    refine ⟨?_, fun _ => hzero⟩
    split at h
    · rw [Bool.or_eq_true, decide_eq_true_eq, decide_eq_true_eq] at h
      exact h
    · exact Or.inl (of_decide_eq_true h)

namespace SearchTable

variable {t : SearchTable} {s : Side} {i : Nat}

namespace Ordered

/-- No other side contains a value that has a sure owner. -/
theorem unique_of_surelyOwns (ht : t.Ordered) (hs : t.sides[i]? = some s)
    (h : s.surelyOwns x = true) :
    ∀ (j : Nat) (b : Side), t.sides[j]? = some b → b.contains x = true → j = i := by
  intro j b hb hbx
  obtain ⟨hsx, hzero⟩ := Side.contains_of_surelyOwns h
  -- Two sides share nothing but a zero on a bound of both, and a sure owner has no zero on a bound.
  rcases Nat.lt_trichotomy i j with hij | hij | hij
  · obtain ⟨hhigh, -, hx⟩ := ht.shared_zero hs hb hij hsx hbx
    have := (hzero hx).2
    rw [hhigh] at this
    cases this
  · exact hij.symm
  · obtain ⟨-, hlow, hx⟩ := ht.shared_zero hb hs hij hbx hsx
    have := (hzero hx).1
    rw [hlow] at this
    cases this

/-- The search finds the sure owner of a value. -/
theorem owner?_eq_of_surelyOwns (ht : t.Ordered) (hs : t.sides[i]? = some s)
    (h : s.surelyOwns x = true) : t.owner? x = some i :=
  ht.owner?_eq_of_unique hs (Side.contains_of_surelyOwns h).1 (ht.unique_of_surelyOwns hs h)

theorem owner?_eq_of_hinted? (ht : t.Ordered) {h : Hints} (hi : t.hinted? h x = some i) :
    t.owner? x = some i := by
  obtain ⟨-, hsure⟩ := Option.filter_eq_some_iff.mp hi
  obtain ⟨s, hs, hsx⟩ := (Option.any_eq_true _ _).mp hsure
  exact ht.owner?_eq_of_surelyOwns hs hsx

/-- The owner of a value is resolved as the search finds it. -/
theorem resolve_yields (ht : t.Ordered) (x : Binary64) :
    (t.resolve x).Yields ((t.owner? x).elim (.error (.noCategory x)) .ok) := by
  refine Eval.Yields.get_bind fun hints => ?_
  -- A hint is followed only if its side surely owns the value, and then the search agrees with it.
  cases hhint : t.hinted? hints x with
  | some i =>
    rw [ht.owner?_eq_of_hinted? hhint]
    exact Eval.yields_pure i
  | none =>
    cases t.owner? x with
    | some i => exact fun _ => rfl
    | none => exact Eval.yields_throw _

end Ordered

end SearchTable

end RasterCategories
