import Mathlib.Data.List.Perm.Subperm
import RasterCategories.Proofs.Legend.Built
/-!
# Accepted and refused categories

The construction of a legend sorts the given categories and compares neighbours, in the order of the bits.
Membership compares numbers, and takes the two zeros for one. An accepted legend still has no two sides that
share a NaN or a number other than zero, and two sides that are reported to overlap do share a value.

* `Legend.Arranged`: sides in ascending order, of which no two share a value other than zero.
* `Legend.Shows`: how an accepted legend arranges the given categories.
* `Legend.Clash`: two sides of the given categories that share a value.
* `Legend.ofCategories_cases`: every construction ends in one of these ways.
-/

namespace RasterCategories.Legend

variable {cs members : List (Category Transform)} {token : Nat} {config : Config} {l : Legend Transform}
  {sides : List Side} {a b : Side} {e : Error}

/-! ### Accepted sides -/

/-- Sides in ascending order, in which each ends before the following ones start. A value other than zero
belongs to one of them at most. -/
structure Arranged (sides : List Side) : Prop where
  /-- The least values ascend. -/
  sorted : sides.Pairwise fun a b => a.low.compare b.low ≠ .gt
  /-- Each greatest value lies below all following least values. -/
  separate : sides.Pairwise fun a b => a.high.compare b.low = .lt
  /-- No two sides share a NaN, or a number other than zero. -/
  unique : ∀ (x : Binary64) (i j : Nat) (a b : Side), x.isZero = false → sides[i]? = some a →
    sides[j]? = some b → a.contains x = true → b.contains x = true → i = j

/-- The sides of a sound legend are arranged. -/
theorem Sound.arranged (hl : l.Sound) : Arranged l.table.sides where
  sorted := (List.pairwise_map.mp hl.ordered.sorted_lows).imp fun hle =>
    mt Binary64.compare_eq_gt_iff.mp (not_lt.mpr hle)
  separate := hl.ordered.separate.imp fun hlt => Binary64.compare_eq_lt_iff.mpr hlt
  unique _ _ _ _ _ hx ha hb hax hbx := hl.ordered.eq_of_contains hx ha hb hax hbx

/-! ### Refused sides -/

/-- The sides that are reported to overlap are neighbours, and the first does not end before the second
starts. -/
theorem of_overlap? (h : overlap? sides = some (a, b)) :
    [a, b] <:+: sides ∧ b.low.place ≤ a.high.place := by
  induction sides with
  | nil => cases h
  | cons first rest ih =>
    cases rest with
    | nil => cases h
    | cons second rest =>
      rw [overlap?] at h
      split at h
      · obtain ⟨hneighbours, hle⟩ := ih h
        exact ⟨hneighbours.trans (List.suffix_cons first _).isInfix, hle⟩
      · next hgt =>
        obtain ⟨rfl, rfl⟩ := Prod.mk.inj (Option.some.inj h)
        exact ⟨(List.prefix_append [first, second] rest).isInfix,
          not_lt.mp (mt Binary64.compare_eq_gt_iff.mpr hgt)⟩

/-- A side that starts no later than another and does not end before it contains the start of the other. -/
theorem contains_low_of_le (ha : a.WellFormed) (hlow : a.low.place ≤ b.low.place)
    (hhigh : b.low.place ≤ a.high.place) : a.contains b.low = true := by
  have hplaces := ha.places
  rw [Side.contains_iff_place]
  omega

/-- The check of ascending sides refuses two of them that share a value. -/
theorem of_checkDisjoint_eq_error (hsound : ∀ c ∈ l.categories, c.Sound)
    (hsorted : l.table.sides.Pairwise fun a b => a.low.place ≤ b.low.place)
    (h : checkDisjoint l.table.sides = .error e) :
    ∃ a b, e = .overlap a b ∧ [a, b].Subperm (l.categories.map Category.here)
      ∧ ∃ x, a.contains x = true ∧ b.contains x = true := by
  unfold checkDisjoint at h
  split at h
  · next a b hoverlap =>
    obtain ⟨hneighbours, hhigh⟩ := of_overlap? hoverlap
    have hlow : a.low.place ≤ b.low.place := by
      simpa using hsorted.sublist hneighbours.sublist
    obtain ⟨c, hc, rfl⟩ := List.mem_map.mp (hneighbours.subset List.mem_cons_self)
    -- The start of the second side belongs to both.
    exact ⟨c.here, b, (Except.error.inj h).symm, hneighbours.sublist.subperm, b.low,
      contains_low_of_le (hsound c hc).here hlow hhigh, SearchTable.Ordered.contains_low rfl⟩
  · cases h

/-! ### Both domains -/

/-- The members of a construction ascend. -/
theorem sorted_sides (hmembers : members = sortBy sortKey (plainCopies token cs)) :
    (ofMembers token config (pairingOf members) members).table.sides.Pairwise
      fun a b => a.low.place ≤ b.low.place := by
  rw [table, categories_of_ne_reals _ (pairingOf_ne_reals members), List.pairwise_map, ofMembers, hmembers]
  exact pairwise_sortBy _

/-- The converses of the members ascend too, in their own order. -/
theorem sorted_sides_converse :
    (ofMembers token config .samples members).converse.table.sides.Pairwise
      fun a b => a.low.place ≤ b.low.place := by
  rw [table, categories_converse_ofMembers, List.pairwise_map, List.pairwise_map, sortedConverses]
  exact pairwise_sortBy _

/-- Without real values of its own, the converse of a legend is the legend or has no categories. -/
theorem converse_of_ne_samples (hsamples : l.pairing ≠ .samples) (hreals : l.pairing ≠ .reals) :
    l.converse = l ∨ l.converse = empty := by
  rcases l with ⟨token, config, _ | _ | _ | _ | _, members, order⟩ <;> simp_all [converse]

/-- The check of the converse has something new to refuse only if the real values have a legend of their own. -/
theorem pairing_of_refused (hreals : l.pairing ≠ .reals) (hfirst : checkDisjoint l.table.sides = .ok ())
    (hsecond : checkDisjoint l.converse.table.sides = .error e) : l.pairing = .samples := by
  by_contra hsamples
  rcases converse_of_ne_samples hsamples hreals with hsame | hempty
  · rw [hsame, hfirst] at hsecond
    cases hsecond
  · rw [hempty] at hsecond
    cases hsecond

/-! ### Constructions -/

/-- How an accepted legend arranges the given categories. -/
structure Shows (l : Legend Transform) (cs : List (Category Transform)) : Prop where
  /-- It shows each given category once, and converted ones as plain. -/
  categories : l.categories.Perm (plainCopies l.token cs)
  /-- Their sides are arranged. -/
  arranged : Arranged l.table.sides
  /-- It is seen from the samples. -/
  seen : l.pairing ≠ .reals
  /-- If the real values have a legend of their own, that one shows the converse of each category once,
  arranged too, and leads back to the legend of the samples. -/
  reals : l.pairing = .samples → l.converse.categories.Perm (l.categories.map Category.converse)
    ∧ Arranged l.converse.table.sides ∧ l.converse.converse = l

/-- Two sides that clash: they share a value, and belong to two of the given categories, in one domain. -/
structure Clash (token : Nat) (cs : List (Category Transform)) (a b : Side) : Prop where
  /-- The sides are those of two categories taken as plain, both of the samples or both of the real values. -/
  given : [a, b].Subperm ((plainCopies token cs).map Category.here) ∨
    [a, b].Subperm ((plainCopies token cs).map Category.converseSide)
  /-- Some value belongs to both. -/
  shared : ∃ x, a.contains x = true ∧ b.contains x = true

/-- An accepted legend shows the given categories. -/
theorem shows_of_ofCategories (hdeclared : ∀ c ∈ cs, Category.IsDeclared c)
    (hl : ofCategories token config cs = .ok l) : l.Shows cs := by
  obtain ⟨hhere, hthere⟩ := sound_of_ofCategories hdeclared hl
  obtain ⟨members, hmembers, rfl, -, -⟩ := ofCategories_eq_ok_iff.mp hl
  have hcategories := categories_of_ne_reals (ofMembers token config (pairingOf members) members)
    (pairingOf_ne_reals members)
  refine ⟨hcategories ▸ members_perm hmembers, hhere.arranged, pairingOf_ne_reals members,
    fun hsamples => ?_⟩
  refine ⟨?_, hthere.arranged, converse_converse _ (by simp [isPaired, hsamples])⟩
  change pairingOf members = .samples at hsamples
  rw [hsamples, categories_of_ne_reals (ofMembers token config .samples members) (by simp [ofMembers])]
  exact categories_converse_perm token config members

/-- A construction that is refused reports two sides that clash. -/
theorem clash_of_ofCategories (hdeclared : ∀ c ∈ cs, Category.IsDeclared c)
    (h : ofCategories token config cs = .error e) : ∃ a b, e = .overlap a b ∧ Clash token cs a b := by
  obtain ⟨members, hmembers⟩ : ∃ members, members = sortBy sortKey (plainCopies token cs) :=
    ⟨_, rfl⟩
  obtain ⟨hhere, hthere⟩ := sound_categories token config hdeclared hmembers
  unfold ofCategories at h
  rw [← hmembers] at h
  rcases of_bind_eq_error h with hfirst | ⟨⟨⟩, hfirst, h⟩
  · obtain ⟨a, b, rfl, hsides, hshared⟩ := of_checkDisjoint_eq_error hhere (sorted_sides hmembers) hfirst
    rw [categories_of_ne_reals _ (pairingOf_ne_reals members)] at hsides
    have hgiven := ((members_perm hmembers).map Category.here).subperm
    exact ⟨a, b, rfl, Or.inl (hsides.trans hgiven), hshared⟩
  rcases of_bind_eq_error h with hsecond | ⟨⟨⟩, -, h⟩
  · have hsamples : pairingOf members = .samples :=
      pairing_of_refused (pairingOf_ne_reals members) hfirst hsecond
    rw [hsamples] at hthere hsecond
    obtain ⟨a, b, rfl, hsides, hshared⟩ := of_checkDisjoint_eq_error hthere sorted_sides_converse hsecond
    have hconverses := (categories_converse_perm token config members).trans
      ((members_perm hmembers).map Category.converse)
    have hgiven := (hconverses.map Category.here).subperm
    simp only [List.map_map, Function.comp_def, Category.here_converse] at hgiven
    exact ⟨a, b, rfl, Or.inr (hsides.trans hgiven), hshared⟩
  · cases h

/-- A construction accepts the given categories and arranges them, or it reports two sides that clash. -/
theorem ofCategories_cases (hdeclared : ∀ c ∈ cs, Category.IsDeclared c) (token : Nat) (config : Config) :
    (∃ l, ofCategories token config cs = .ok l ∧ l.Shows cs) ∨
      ∃ a b, ofCategories token config cs = .error (.overlap a b) ∧ Clash token cs a b := by
  cases h : ofCategories token config cs with
  | ok l => exact Or.inl ⟨l, rfl, shows_of_ofCategories hdeclared h⟩
  | error e =>
    obtain ⟨a, b, rfl, hclash⟩ := clash_of_ofCategories hdeclared h
    exact Or.inr ⟨a, b, rfl, hclash⟩

/-- The categories of the depths make a legend. Given twice they are refused, as the marks of land clash. -/
theorem ofCategories_cases_depths : ∃ cs, depthCategories = .ok cs
    ∧ (∀ c ∈ cs, Category.IsDeclared c) ∧ (∃ l, ofCategories 0 .default cs = .ok l ∧ l.Shows cs)
    ∧ ∃ a b, ofCategories 0 .default (cs ++ cs) = .error (.overlap a b) ∧ Clash 0 (cs ++ cs) a b := by
  obtain ⟨cs, l, hcs, hdeclared, -, hl, -⟩ := exists_depths
  have hdeclaredTwice : ∀ c ∈ cs ++ cs, Category.IsDeclared c := by simpa using hdeclared
  have hok : (depthCategories >>= fun cs =>
      if (ofCategories 0 .default (cs ++ cs)).isOk then .error Error.absent else .ok ()).isOk = true := by
    decide +kernel
  have hrefused := isOk_of_bind hok hcs
  refine ⟨cs, hcs, hdeclared, ?_, ?_⟩
  · rcases ofCategories_cases hdeclared 0 .default with haccepted | ⟨a, b, h, -⟩
    · exact haccepted
    · rw [hl] at h
      cases h
  · rcases ofCategories_cases hdeclaredTwice 0 .default with ⟨m, h, -⟩ | hclash
    · rw [h] at hrefused
      cases hrefused
    · exact hclash

end RasterCategories.Legend
