import RasterCategories.Proofs.Conversion.Return
/-!
# Legends that convert nothing

A legend that is its own converse gives back every value that it knows, bit by bit, and refuses all others. The
check that a conversion leads back never fails in it. The empty legend is one of these, and refuses everything.

* `Legend.IsBuilt.cases_of_isIdentity`: which legends are their own converses.
* `Legend.IsBuilt.run_convert_of_isIdentity`: how they convert.
-/

namespace RasterCategories.Legend

variable {l : Legend Transform} {members : List (Category Transform)} {c : Category Transform}
  {x : Binary64} {i : Nat}

/-- The relation that categories call for is one of three. -/
theorem pairingOf_cases (members : List (Category Transform)) :
    pairingOf members = .unpaired ∨ pairingOf members = .samples ∨ pairingOf members = .identity := by
  unfold pairingOf
  split
  · exact Or.inl rfl
  · split
    · exact Or.inr (Or.inl rfl)
    · exact Or.inr (Or.inr rfl)

/-- Categories of which none has real values of its own convert nothing. -/
theorem there_of_identity (h : pairingOf members = .identity) (hc : c ∈ members) : c.there = none := by
  unfold pairingOf at h
  split at h
  · cases h
  · split at h
    · cases h
    · next hnone => simpa using fun hsome => hnone (List.any_eq_true.mpr ⟨c, hc, hsome⟩)

/-- A legend that is its own converse is the empty one, or its categories convert nothing. -/
theorem IsBuilt.cases_of_isIdentity (hl : l.IsBuilt) (h : l.isIdentity = true) :
    l = empty ∨ l.pairing = .identity ∧ ∀ c ∈ l.categories, c.forward = .identity := by
  -- The converse of a construction is the construction itself, or empty, or one of real values.
  obtain ⟨token, config, cs, m, hdeclared, hm, hlm⟩ := hl.exists_construction
  obtain ⟨members, hmembers, rfl, -, -⟩ := ofCategories_eq_ok_iff.mp hm
  rcases pairingOf_cases members with hp | hp | hp
  all_goals rw [hp] at hlm
  · rcases hlm with rfl | rfl
    · cases h
    · exact Or.inl rfl
  · rcases hlm with rfl | rfl <;> cases h
  · have hself : l = ofMembers token config .identity members := by rcases hlm with rfl | rfl <;> rfl
    refine Or.inr ⟨by rw [hself]; rfl, fun c hc => ?_⟩
    rw [hself, ← hp, mem_categories_ofMembers] at hc
    obtain ⟨d, hd, _, rfl⟩ := exists_of_mem_members hmembers hc
    exact (hdeclared d hd).original_asPlain.imaged.alone (there_of_identity hp hc)

/-- In a legend that is its own converse, a value leads back to its owner. -/
theorem leadsBack_of_identity (h : l.pairing = .identity) (hc : l.categories[i]? = some c)
    (howner : l.owner? x = some i) : l.leadsBack c x = true := by
  have hconverse : l.converse = l := by simp [converse, h]
  rw [leadsBack_iff, hconverse]
  exact ⟨i, c, howner, hc, rfl⟩

/-- A legend that is its own converse gives back each value that it knows and refuses all others. -/
theorem IsBuilt.run_convert_of_isIdentity (hl : l.IsBuilt) (h : l.isIdentity = true) (x : Binary64)
    (hints : Hints) :
    ((l.convert x).run hints).1 = if l.owner? x = none then .error (.noCategory x) else .ok x := by
  cases howner : l.owner? x with
  | none => rw [if_pos rfl, hl.convert_of_unowned howner]
  | some i =>
    have hlen := hl.sound.ordered.owner?_lt_length howner
    rw [table, List.length_map] at hlen
    rcases hl.cases_of_isIdentity h with rfl | ⟨hidentity, hforward⟩
    · exact absurd hlen (Nat.not_lt_zero i)
    have hc := List.getElem?_eq_getElem hlen
    have hy : (l.categories[i].forward.apply x).fresh = .ok x := by
      rw [hforward _ (List.getElem_mem hlen)]
      rfl
    rw [if_neg (by simp), convert_eq hl (by simp [hidentity]) howner hc hy, if_neg]
    simp [leadsBack_of_identity hidentity hc howner]

end RasterCategories.Legend
