import Mathlib.Data.List.Forall2
import RasterCategories.Proofs.Evaluation.Transfer
/-!
# Arrays as lists of single values

Behaviours that convert an array as its values one by one: the array is refused if one of its values is, and
otherwise holds their results. Functions are of this kind, and so are chains of such behaviours if what passes
between their parts has full width.

* `mapM_eq_ok_iff` and `accepted_or_refused`: computations for the elements of a list.
* `Cells.rounded`: results stored at a width.
* `Behaviour.Pointwise`: the behaviours that convert value by value.
-/

namespace RasterCategories

/-! ### Computations for the elements of a list -/

section Lists

variable {α β γ : Type} {g : α → Except Error β} {as : List α} {bs : List β}

/-- A computation for the elements of a list succeeds if each of its steps does. -/
theorem mapM_eq_ok_iff : as.mapM g = .ok bs ↔ List.Forall₂ (fun a b => g a = .ok b) as bs := by
  constructor
  · intro h
    induction as generalizing bs with
    | nil =>
      obtain rfl := Except.ok.inj h
      exact .nil
    | cons a as ih =>
      rw [List.mapM_cons] at h
      obtain ⟨b, hb, h⟩ := exists_of_bind_eq_ok h
      obtain ⟨rest, hrest, h⟩ := exists_of_bind_eq_ok h
      obtain rfl := Except.ok.inj h
      exact .cons hb (ih hrest)
  · intro h
    induction h with
    | nil => rfl
    | cons hb _ ih =>
      rw [List.mapM_cons, hb, ih]
      rfl

/-- Either each step succeeds, or one of them fails. -/
theorem accepted_or_refused (g : α → Except Error β) (as : List α) :
    (∃ bs, List.Forall₂ (fun a b => g a = .ok b) as bs) ∨ ∃ a ∈ as, ∃ e, g a = .error e := by
  induction as with
  | nil => exact Or.inl ⟨[], .nil⟩
  | cons a as ih =>
    cases hg : g a with
    | error e => exact Or.inr ⟨a, List.mem_cons_self, e, hg⟩
    | ok b =>
      rcases ih with ⟨bs, hbs⟩ | ⟨a', ha', hrefused⟩
      · exact Or.inl ⟨b :: bs, .cons hg hbs⟩
      · exact Or.inr ⟨a', List.mem_cons_of_mem _ ha', hrefused⟩

/-- What a relation of two lists says about one of the elements. -/
theorem getElem?_of_forall₂ {R : α → β → Prop} {a : α} {k : Nat} (h : List.Forall₂ R as bs)
    (ha : as[k]? = some a) : ∃ b, bs[k]? = some b ∧ R a b := by
  induction h generalizing k with
  | nil => cases ha
  | cons hab _ ih =>
    cases k with
    | zero =>
      obtain rfl := Option.some.inj ha
      exact ⟨_, rfl, hab⟩
    | succ k => exact ih ha

end Lists

/-! ### Stored results -/

/-- Numbers stored at a width. -/
def Cells.rounded (w : Width) (ys : List Binary64) : Cells :=
  match w with
  | .single => .single (ys.map Binary64.narrow)
  | .double => .double ys

namespace Cells

theorem width_rounded (w : Width) (ys : List Binary64) : (rounded w ys).width = w := by
  cases w <;> rfl

theorem cell?_rounded (w : Width) (ys : List Binary64) (i : Nat) :
    (rounded w ys).cell? i = (ys[i]?).map fun y => Cell.toWidth w (.double y) := by
  cases w with
  | single =>
    rw [rounded, cell?, List.getElem?_map, Option.map_map]
    rfl
  | double => rfl

theorem size_rounded (w : Width) (ys : List Binary64) : (rounded w ys).size = ys.length := by
  cases w with
  | single => exact List.length_map _
  | double => rfl

end Cells

namespace Behaviour

variable {b first second : Behaviour} {w : Width}

/-! ### Two behaviours after each other -/

theorem fresh_apply_andThen (hi : first.IgnoresHints) (hj : second.IgnoresHints) (x : Binary64) :
    ((first.andThen second).apply x).fresh =
      (first.apply x).fresh >>= fun y => (second.apply y).fresh :=
  -- Starting without hints, the second part still finds those that the first part left.
  (Eval.Yields.bind (hi.apply x) fun y _ => hj.apply y).fresh_eq

theorem fresh_applyAll_andThen (hi : first.IgnoresHints) (hj : second.IgnoresHints)
    (xs : List Binary64) : ((first.andThen second).applyAll xs).fresh =
      (first.applyAll xs).fresh >>= fun ys => (second.applyAll ys.toDoubles).fresh :=
  (Eval.Yields.bind (hi.applyAll xs) fun ys _ => hj.applyAll ys.toDoubles).fresh_eq

theorem fresh_applyAll_elementwise (hi : b.IgnoresHints) (xs : List Binary64) :
    (b.elementwise.applyAll xs).fresh =
      (xs.mapM fun x => (b.apply x).fresh) >>= fun ys => .ok (.double ys) :=
  ((Eval.yields_mapM hi.apply xs).bind fun ys _ => Eval.yields_pure (Cells.double ys)).fresh_eq

/-! ### Behaviours that convert value by value -/

/-- An array is converted as its values one by one, and its results are stored at a width. -/
structure Pointwise (b : Behaviour) (w : Width) : Prop where
  /-- If all values are accepted, the array holds their results. -/
  accepted : ∀ {xs ys : List Binary64},
    List.Forall₂ (fun x y => (b.apply x).fresh = .ok y) xs ys → (b.applyAll xs).fresh = .ok (.rounded w ys)
  /-- If a value is refused, the array is. -/
  refused : ∀ {xs : List Binary64} {x : Binary64} {e : Error},
    x ∈ xs → (b.apply x).fresh = .error e → ∃ e', (b.applyAll xs).fresh = .error e'

namespace Pointwise

/-- If the array is converted, each of its values is. -/
theorem of_applyAll (h : b.Pointwise w) {xs : List Binary64} {zs : Cells}
    (hzs : (b.applyAll xs).fresh = .ok zs) :
    ∃ ys, List.Forall₂ (fun x y => (b.apply x).fresh = .ok y) xs ys ∧ zs = .rounded w ys := by
  rcases accepted_or_refused (fun x => (b.apply x).fresh) xs with ⟨ys, hys⟩ | ⟨x, hx, e, he⟩
  · exact ⟨ys, hys, Except.ok.inj (hzs.symm.trans (h.accepted hys))⟩
  · obtain ⟨e', he'⟩ := h.refused hx he
    rw [hzs] at he'
    cases he'

theorem keepsLength (h : b.Pointwise w) : b.KeepsLength := by
  intro xs zs hzs
  obtain ⟨ys, hys, rfl⟩ := h.of_applyAll hzs
  rw [Cells.size_rounded, hys.length_eq]

/-- A function that is mapped over arrays. -/
theorem of_map {f : Binary64 → Binary64} (happly : ∀ x, (b.apply x).fresh = .ok (f x))
    (hall : ∀ xs, (b.applyAll xs).fresh = .ok (.double (xs.map f))) : b.Pointwise .double where
  accepted := by
    intro xs ys hys
    have hmap : xs.map f = ys := by
      rw [← List.forall₂_eq_eq_eq, List.forall₂_map_left_iff]
      exact hys.imp fun x y hy => Except.ok.inj ((happly x).symm.trans hy)
    rw [hall, hmap]
    rfl
  refused := by
    intro xs x e _ he
    rw [happly] at he
    cases he

theorem ofFunction (f d : Binary64 → Binary64) : (Behaviour.ofFunction f d).Pointwise .double :=
  of_map (fun _ => rfl) fun _ => rfl

theorem elementwise (hi : b.IgnoresHints) : b.elementwise.Pointwise .double where
  accepted := by
    intro xs ys hys
    have hall : (xs.mapM fun x => (b.apply x).fresh) = .ok ys := mapM_eq_ok_iff.mpr hys
    rw [fresh_applyAll_elementwise hi, hall]
    rfl
  refused := by
    intro xs x e hx he
    rw [fresh_applyAll_elementwise hi]
    cases hall : xs.mapM fun x => (b.apply x).fresh with
    | error e' => exact ⟨e', rfl⟩
    | ok ys =>
      obtain ⟨k, hk⟩ := List.mem_iff_getElem?.mp hx
      obtain ⟨y, -, hy⟩ := getElem?_of_forall₂ (mapM_eq_ok_iff.mp hall) hk
      rw [show (b.elementwise.apply x).fresh = (b.apply x).fresh from rfl, hy] at he
      cases he

/-- A chain converts value by value if its parts do. What passes between them has full width. -/
theorem andThen (hi : first.IgnoresHints) (hj : second.IgnoresHints) (hfirst : first.Pointwise .double)
    (hsecond : second.Pointwise w) : (first.andThen second).Pointwise w where
  accepted := by
    intro xs zs hzs
    rw [fresh_applyAll_andThen hi hj]
    -- Each value passes the first part, as it passes the chain.
    rcases accepted_or_refused (fun x => (first.apply x).fresh) xs with ⟨ys, hys⟩ | ⟨x, hx, e, he⟩
    · have hrest : List.Forall₂ (fun y z => (second.apply y).fresh = .ok z) ys zs := by
        refine List.forall₂_iff_get.mpr ⟨hys.length_eq.symm.trans hzs.length_eq, fun i hy hz => ?_⟩
        have hx : i < xs.length := hys.length_eq ▸ hy
        have hchain := hzs.get hx hz
        rw [fresh_apply_andThen hi hj, hys.get hx hy] at hchain
        exact hchain
      rw [hfirst.accepted hys]
      exact hsecond.accepted hrest
    · obtain ⟨k, hk⟩ := List.mem_iff_getElem?.mp hx
      obtain ⟨z, -, hz⟩ := getElem?_of_forall₂ hzs hk
      rw [fresh_apply_andThen hi hj, he] at hz
      cases hz
  refused := by
    intro xs x e hx he
    rw [fresh_applyAll_andThen hi hj]
    rw [fresh_apply_andThen hi hj] at he
    rcases accepted_or_refused (fun x => (first.apply x).fresh) xs with ⟨ys, hys⟩ | ⟨x', hx', e', he'⟩
    -- All values pass the first part, and what it makes of the refused one is refused by the second.
    · obtain ⟨k, hk⟩ := List.mem_iff_getElem?.mp hx
      obtain ⟨y, hyk, hy⟩ := getElem?_of_forall₂ hys hk
      rw [hy] at he
      rw [hfirst.accepted hys]
      exact hsecond.refused (List.mem_of_getElem? hyk) he
    · obtain ⟨e'', he''⟩ := hfirst.refused hx' he'
      exact ⟨e'', by rw [he'']; rfl⟩

end Pointwise

end Behaviour

end RasterCategories
