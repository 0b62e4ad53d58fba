import RasterCategories.Proofs.Search.Ordered
import RasterCategories.Search.Elementwise
/-!
# Owners found by rank

The search without branches counts the least values up to a value among the keys of all least values. In an
ordered table this rank is the insertion index of the binary search, or the index after the least value that
has the very bits of the value. From there on both searches ask the same questions.

* `SearchTable.Ordered.rank_of_splits` and `SearchTable.Ordered.rank_of_last`: what the rank is.
* `SearchTable.Ordered.locate_eq`: a value that is not the least value of two sides is located at its owner.
-/

namespace RasterCategories

/-- The elements that pass a test which holds before each element that passes it are a prefix, and their
number is its length. -/
theorem lt_countP_iff {α : Type} {p : α → Bool} {as : List α} {i : Nat} {a : α}
    (h : as.Pairwise fun a b => p b = true → p a = true) (ha : as[i]? = some a) :
    i < as.countP p ↔ p a = true := by
  induction as generalizing i with
  | nil => simp at ha
  | cons b bs ih =>
    obtain ⟨hb, hbs⟩ := List.pairwise_cons.mp h
    cases hpb : p b with
    | true =>
      rw [List.countP_cons_of_pos hpb]
      cases i with
      | zero =>
        obtain rfl : b = a := by simpa using ha
        simp [hpb]
      | succ i =>
        rw [List.getElem?_cons_succ] at ha
        rw [Nat.add_lt_add_iff_right, ih hbs ha]
    -- The first element fails the test, hence so do all others.
    | false =>
      have hnone : ∀ c ∈ b :: bs, ¬ p c = true := by
        intro c hc hpc
        rcases List.mem_cons.mp hc with rfl | hc
        · simp [hpb] at hpc
        · simp [hpb] at hb
          simp [hb c hc] at hpc
      have hnota := hnone a (List.mem_of_getElem? ha)
      rw [List.countP_eq_zero.mpr hnone]
      simp [hnota]

/-- In a sorted list the elements below one that does not repeat are those before it. -/
theorem countP_lt_eq {α : Type} {key : α → Int} {as : List α} {i : Nat} {a : α}
    (hs : as.Pairwise fun a b => key a ≤ key b) (ha : as[i]? = some a)
    (honce : ∀ (j : Nat) (b : α), as[j]? = some b → key b = key a → j = i) :
    as.countP (fun b => key b < key a) = i := by
  have hp : as.Pairwise fun b c => decide (key c < key a) = true → decide (key b < key a) = true := by
    refine hs.imp fun hle => ?_
    simp only [decide_eq_true_eq]
    omega
  have hi := lt_countP_iff hp ha
  -- Were the count smaller, the element it points at would be an equal one before `a`.
  rcases Nat.lt_trichotomy (as.countP fun b => key b < key a) i with hlt | heq | hgt
  · have hlen := (List.getElem?_eq_some_iff.mp ha).1
    have hn := Nat.lt_trans hlt hlen
    have hb := List.getElem?_eq_getElem hn
    have hnot := mt (lt_countP_iff hp hb).mpr (Nat.lt_irrefl _)
    have hle := List.pairwise_iff_getElem.mp hs _ i hn hlen hlt
    rw [(List.getElem?_eq_some_iff.mp ha).2] at hle
    rw [decide_eq_true_eq] at hnot
    exact honce _ _ hb (by omega)
  · exact heq
  · simpa using hi.mp hgt

namespace SearchTable

variable {t : SearchTable} {x : Binary64} {s : Side} {i p : Nat}

theorem lowAt_natCast (hs : t.sides[i]? = some s) : t.lowAt i = s.low := by
  simp [lowAt, hs]

theorem highAt_natCast (hs : t.sides[i]? = some s) : t.highAt i = s.high := by
  simp [highAt, hs]

theorem length_lows : t.lows.length = t.sides.length := by
  rw [lows, List.length_map]

/-- The number of least values that are not above a value. -/
def rank (t : SearchTable) (x : Binary64) : Nat :=
  t.lows.countP fun low => low.place ≤ x.place

/-- The value is the least value of at most one side. -/
def LeastOnce (t : SearchTable) (x : Binary64) : Prop :=
  ∀ i j : Nat, t.lows[i]? = some x → t.lows[j]? = some x → i = j

theorem LeastOnce.last (honce : t.LeastOnce x) (hi : t.lows[i]? = some x) :
    ∀ j, i < j → t.lows[j]? ≠ some x :=
  fun j hij hj => absurd (honce i j hi hj) hij.ne

namespace Ordered

/-- The sides that are intervals come first. -/
theorem lt_intervalCount_iff (ht : t.Ordered) (hs : t.sides[i]? = some s) :
    i < t.intervalCount ↔ s.low.isNaN = false := by
  have hpairwise : t.lows.Pairwise fun a b => (!b.isNaN) = true → (!a.isNaN) = true := by
    refine ht.sorted_lows.imp fun hle => ?_
    simp only [Bool.not_eq_true', Binary64.isNaN_eq_false_iff_place]
    omega
  rw [intervalCount, lt_countP_iff hpairwise (getElem?_lows.mpr ⟨s, hs, rfl⟩), Bool.not_eq_true']

/-- The sides up to the rank start at or below the value. -/
theorem lt_rank_iff (ht : t.Ordered) (hs : t.sides[i]? = some s) :
    i < t.rank x ↔ s.low.place ≤ x.place := by
  have hpairwise : t.lows.Pairwise fun a b =>
      decide (b.place ≤ x.place) = true → decide (a.place ≤ x.place) = true := by
    refine ht.sorted_lows.imp fun hle => ?_
    simp only [decide_eq_true_eq]
    omega
  rw [rank, lt_countP_iff hpairwise (getElem?_lows.mpr ⟨s, hs, rfl⟩), decide_eq_true_eq]

theorem rank_le_length : t.rank x ≤ t.sides.length := by
  rw [← length_lows]
  exact List.countP_le_length

/-- The number of keys up to the key of a number is its rank. -/
theorem countP_intervalKeys (ht : t.Ordered) (hx : x.isNaN = false) :
    t.intervalKeys.countP (· ≤ x.orderKey.toInt) = t.rank x := by
  have hmem : ∀ low, low ∈ t.lows.take t.intervalCount → low.isNaN = false := by
    intro low hlow
    obtain ⟨i, hi⟩ := List.mem_iff_getElem?.mp hlow
    rw [List.getElem?_take] at hi
    split at hi
    · next hlt =>
      obtain ⟨s, hs, rfl⟩ := getElem?_lows.mp hi
      exact (ht.lt_intervalCount_iff hs).mp hlt
    · cases hi
  have hkeys : ∀ low, low ∈ t.lows.drop t.intervalCount →
      ¬ decide (low.place ≤ x.place) = true := by
    intro low hlow
    obtain ⟨i, hi⟩ := List.mem_iff_getElem?.mp hlow
    rw [List.getElem?_drop] at hi
    obtain ⟨s, hs, rfl⟩ := getElem?_lows.mp hi
    have hnan := mt (ht.lt_intervalCount_iff hs).mpr (by omega)
    rw [Binary64.isNaN_eq_false_iff_place] at hnan hx
    rw [decide_eq_true_eq]
    omega
  -- The rank counts over all sides, the keys are those of intervals; the NaNs after them add nothing.
  have hcount : (t.lows.drop t.intervalCount).countP (fun low => decide (low.place ≤ x.place)) = 0 :=
    List.countP_eq_zero.mpr hkeys
  have hsplit : t.lows.countP (fun low => decide (low.place ≤ x.place)) =
      (t.lows.take t.intervalCount).countP fun low => decide (low.place ≤ x.place) := by
    conv_lhs => rw [← List.take_append_drop t.intervalCount t.lows]
    rw [List.countP_append, hcount, Nat.add_zero]
  rw [rank, hsplit, intervalKeys, List.countP_map]
  refine List.countP_congr fun low hlow => ?_
  simp [Binary64.toInt_orderKey (hmem low hlow), Binary64.toInt_orderKey hx]

/-- The rank of a value between least values is its insertion index. -/
theorem rank_of_splits (ht : t.Ordered) (hsplits : Binary64.SplitsAt t.lows x p) :
    t.rank x = p := by
  rcases Nat.lt_trichotomy (t.rank x) p with hlt | heq | hgt
  · obtain ⟨s, hs⟩ := getElem?_of_lt_splits hsplits hlt
    have hlow := low_lt_of_splits hsplits hs hlt
    have := (ht.lt_rank_iff (x := x) hs).mpr (by omega)
    omega
  · exact heq
  · have hlen : p < t.sides.length := Nat.lt_of_lt_of_le hgt rank_le_length
    have hs := List.getElem?_eq_getElem hlen
    have hlow := lt_low_of_splits hsplits hs (Nat.le_refl _)
    have := (ht.lt_rank_iff (x := x) hs).mp hgt
    omega

/-- The rank of a least value is the index after the last side that starts there. -/
theorem rank_of_last (ht : t.Ordered) (hs : t.sides[i]? = some s) (hlow : s.low = x)
    (hlast : ∀ j, i < j → t.lows[j]? ≠ some x) : t.rank x = i + 1 := by
  have hi : i < t.rank x := (ht.lt_rank_iff hs).mpr (by rw [hlow])
  by_contra hne
  -- The next side would start at or below the value and at or above it, so it would start there too.
  have hlen : i + 1 < t.sides.length := by
    have := rank_le_length (t := t) (x := x)
    omega
  have hb := List.getElem?_eq_getElem hlen
  have hle := (ht.lt_rank_iff (x := x) hb).mp (by omega)
  have hge := ht.low_le_low hs hb (Nat.lt_succ_self i)
  rw [hlow] at hge
  have heq : (t.sides[i + 1]).low = x := Binary64.place_injective (by omega)
  exact hlast (i + 1) (Nat.lt_succ_self i) (getElem?_lows.mpr ⟨_, hb, heq⟩)

/-- The last side that starts at or below a number takes it, unless it ends below it. -/
theorem locateNumber_of_le_high (ht : t.Ordered) (hx : x.isNaN = false)
    (hs : t.sides[i]? = some s) (hrank : t.rank x = i + 1) (hle : x ≤ s.high) :
    t.locateNumber x = i := by
  have hbelow : (t.intervalKeys.countP (· ≤ x.orderKey.toInt) : Int) - 1 = i := by
    rw [ht.countP_intervalKeys hx, hrank]
    omega
  have hhigh : t.highAt (max (i : Int) 0) = s.high := by
    rw [show max (i : Int) 0 = i by omega]
    exact highAt_natCast hs
  unfold locateNumber
  simp only [hbelow, hhigh, hle, Int.natCast_nonneg, and_self, if_true]
  cases t.top? <;> rfl

/-- The side before an insertion index is not asked if it ends below the number. -/
private theorem not_le_highAt (hp : p ≤ t.sides.length)
    (hbefore : ∀ b, t.before? p = some b → ¬ x ≤ b.high) :
    ¬ (0 ≤ (p : Int) - 1 ∧ x ≤ t.highAt (max ((p : Int) - 1) 0)) := by
  rintro ⟨hpos, hle⟩
  obtain ⟨k, rfl⟩ : ∃ k, p = k + 1 := ⟨p - 1, by omega⟩
  have hb := List.getElem?_eq_getElem (l := t.sides) (i := k) (by omega)
  rw [show max (((k + 1 : Nat) : Int) - 1) 0 = k by omega, highAt_natCast hb] at hle
  exact hbefore _ (before?_add_one.trans hb) hle

/-- A side that starts at positive zero takes negative zero, unless the side before it does. -/
theorem locateNumber_of_equalTo (ht : t.Ordered) (hx : x.isNaN = false)
    (hs : t.sides[i]? = some s) (hrank : t.rank x = i) (heq : x.EqualTo s.low)
    (hbefore : ∀ b, t.before? i = some b → ¬ x ≤ b.high) : t.locateNumber x = i := by
  have hlen := (List.getElem?_eq_some_iff.mp hs).1
  have hcount : i < t.intervalCount := (ht.lt_intervalCount_iff hs).mpr heq.2.1
  have hlow : t.lowAt (min ((i : Int) - 1 + 1) (t.intervalCount - 1)) = s.low := by
    rw [show min ((i : Int) - 1 + 1) (t.intervalCount - 1) = i by omega]
    exact lowAt_natCast hs
  have hhigh := not_le_highAt hlen.le hbefore
  have hlt : (i : Int) - 1 + 1 < t.intervalCount := by omega
  unfold locateNumber
  simp only [ht.countP_intervalKeys hx, hrank, hlow, heq, hlt, hhigh, and_self, if_true, if_false]
  cases t.top? <;> simp

/-- A number in no side goes to the same nearby side. -/
theorem locateNumber_of_nearby (ht : t.Ordered) (hx : x.isNaN = false)
    (hcount : 0 < t.intervalCount) (hp : p ≤ t.sides.length) (hrank : t.rank x = p)
    (hbefore : ∀ b, t.before? p = some b → ¬ x ≤ b.high)
    (hafter : ∀ a, t.sides[p]? = some a → ¬ x.EqualTo a.low) :
    t.locateNumber x = (t.nearest? x p).elim (-1) fun i => (i : Int) := by
  have hcountle : t.intervalCount ≤ t.sides.length := by
    rw [← length_lows]
    exact List.countP_le_length
  have hhigh := not_le_highAt hp hbefore
  have hlow : ¬ ((p : Int) - 1 + 1 < t.intervalCount ∧
      x.EqualTo (t.lowAt (min ((p : Int) - 1 + 1) (t.intervalCount - 1)))) := by
    rintro ⟨hlt, heq⟩
    have ha := List.getElem?_eq_getElem (l := t.sides) (i := p) (by omega)
    rw [show min ((p : Int) - 1 + 1) (t.intervalCount - 1) = p by omega, lowAt_natCast ha] at heq
    exact hafter _ ha heq
  -- Both sides of the equation ask for the neighbours of the insertion index, one with integers that are
  -- clipped to the table, the other with look-ups that may fail.
  unfold locateNumber nearest?
  simp only [ht.countP_intervalKeys hx, hrank, hlow, hhigh, if_false]
  cases t.top? with
  | none => rfl
  | some top =>
    simp only [show ¬ (0 : Int) ≤ -1 by omega, if_false]
    cases p with
    | zero =>
      -- Below every interval the first side is an interval.
      have hfirst := List.getElem?_eq_getElem (l := t.sides) (i := 0) (by omega)
      have hnan := (ht.lt_intervalCount_iff hfirst).mp hcount
      simp [before?, hfirst, hnan]
    | succ k =>
      have hbelow := List.getElem?_eq_getElem (l := t.sides) (i := k) (by omega)
      rw [before?_add_one, hbelow]
      have hk : ((k + 1 : Nat) : Int) - 1 = k := by omega
      simp only [hk, Int.natCast_nonneg, if_true, show max (k : Int) 0 = k by omega,
        highAt_natCast hbelow]
      by_cases hlt : k + 1 < t.sides.length
      · have habove := List.getElem?_eq_getElem hlt
        have hmin : min ((k : Int) + 1) ((t.sides.length : Int) - 1) = (k + 1 : Nat) := by omega
        rw [habove, hmin, lowAt_natCast habove, if_pos (by omega)]
        dsimp only
        split <;> simp
      · rw [List.getElem?_eq_none (by omega), if_neg (by omega)]
        rfl

/-- A number is located at its owner. -/
theorem locateNumber_eq (ht : t.Ordered) (hx : x.isNaN = false) (honce : LeastOnce t x)
    (hcount : 0 < t.intervalCount) :
    t.locateNumber x = (t.owner? x).elim (-1) fun i => (i : Int) := by
  have hfinds := ht.finds_owner? x
  generalize t.owner? x = r at hfinds ⊢
  cases hfinds with
  -- The only case in which a repeated least value would show: the search returns any of its positions, the
  -- rank the last one.
  | @least i s _ hs hlow =>
    have hle : x ≤ s.high := by
      have hps := ht.places hs
      rw [hlow] at hps
      rw [Binary64.isNaN_eq_false_iff_place] at hx
      exact Binary64.le_iff_place.mpr (by omega)
    have hlast := honce.last (getElem?_lows.mpr ⟨s, hs, hlow⟩)
    exact ht.locateNumber_of_le_high hx hs (ht.rank_of_last hs hlow hlast) hle
  | inside _ hs hsplits hle =>
    exact ht.locateNumber_of_le_high hx hs (ht.rank_of_splits hsplits) hle
  | start _ hs hsplits heq hbefore =>
    exact ht.locateNumber_of_equalTo hx hs (ht.rank_of_splits hsplits) heq hbefore
  | nearby _ hsplits hbefore hafter =>
    exact ht.locateNumber_of_nearby hx hcount (length_lows ▸ hsplits.le_length)
      (ht.rank_of_splits hsplits) hbefore hafter
  | unknown hnan => simp [hx] at hnan

theorem signedBits_injective : Function.Injective Binary64.signedBits := by
  rintro ⟨a⟩ ⟨b⟩ h
  exact congrArg _ (BitVec.eq_of_toInt_eq h)

/-- The keys after the intervals are NaNs, sorted by their signed patterns. -/
theorem sorted_nanKeys (ht : t.Ordered) :
    (t.lows.drop t.intervalCount).Pairwise fun a b => a.signedBits ≤ b.signedBits := by
  have hnan : ∀ low ∈ t.lows.drop t.intervalCount, low.isNaN = true := by
    intro low hlow
    obtain ⟨j, hj⟩ := List.mem_iff_getElem?.mp hlow
    rw [List.getElem?_drop] at hj
    obtain ⟨b, hb, rfl⟩ := getElem?_lows.mp hj
    simpa using mt (ht.lt_intervalCount_iff hb).mpr (by omega)
  refine (ht.sorted_lows.sublist (List.drop_sublist _ _)).imp_of_mem fun ha hb hle => ?_
  have hlt := mt (Binary64.signedBits_lt_iff_place (hnan _ hb) (hnan _ ha)).mp
  omega

/-- A NaN that keys a side is located there. -/
theorem locateNaN_of_least (ht : t.Ordered) (hx : x.isNaN = true) (honce : LeastOnce t x)
    (hs : t.sides[i]? = some s) (hlow : s.low = x) : t.locateNaN x = i := by
  have hge : t.intervalCount ≤ i := by
    by_contra hlt
    have := (ht.lt_intervalCount_iff hs).mp (by omega)
    simp [hlow, hx] at this
  obtain ⟨k, rfl⟩ : ∃ k, i = t.intervalCount + k := ⟨i - t.intervalCount, by omega⟩
  have hkey : (t.lows.drop t.intervalCount)[k]? = some x := by
    rw [List.getElem?_drop]
    exact getElem?_lows.mpr ⟨s, hs, hlow⟩
  have hkeys : t.nanKeys.countP (· < x.signedBits) = k := by
    rw [nanKeys, List.countP_map]
    refine countP_lt_eq ht.sorted_nanKeys hkey fun j low hj heq => ?_
    rw [signedBits_injective heq, List.getElem?_drop] at hj
    rw [List.getElem?_drop] at hkey
    have := honce _ _ hj hkey
    omega
  have hlen : k < t.nanKeys.length := by
    rw [nanKeys, List.length_map]
    exact (List.getElem?_eq_some_iff.mp hkey).1
  unfold locateNaN
  simp only [hkeys, show min k (t.nanKeys.length - 1) = k by omega]
  rw [nanKeys, List.getElem?_map, hkey]
  simp

/-- A NaN that keys no side is located nowhere. -/
theorem locateNaN_of_splits (hsplits : Binary64.SplitsAt t.lows x p) (hx : x.isNaN = true) :
    t.locateNaN x = -1 := by
  unfold locateNaN
  dsimp only
  split
  · next hkey =>
    rw [nanKeys, List.getElem?_map, List.getElem?_drop] at hkey
    obtain ⟨low, hlow, hbits⟩ := Option.map_eq_some_iff.mp hkey
    obtain rfl := signedBits_injective hbits
    rcases Nat.lt_or_ge (t.intervalCount + _) p with hlt | hge
    · exact absurd (hsplits.below _ _ hlow hlt) (lt_irrefl _)
    · exact absurd (hsplits.above _ _ hlow hge) (lt_irrefl _)
  · rfl

/-- Without an interval no number has an owner. -/
theorem owner?_of_no_interval (ht : t.Ordered) (hx : x.isNaN = false)
    (hcount : t.intervalCount = 0) : t.owner? x = none := by
  have hnan : ∀ (i : Nat) (s : Side), t.sides[i]? = some s → s.low.isNaN = true := by
    intro i s hs
    simpa using mt (ht.lt_intervalCount_iff hs).mpr (by omega)
  rw [Option.eq_none_iff_forall_ne_some]
  intro i howner
  rcases ht.contains_of_owner? howner with ⟨s, hs, hsx⟩ | ⟨-, -, p, -, hp⟩
  · have hlow := hnan i s hs
    rw [Side.contains_iff_place] at hsx
    rw [Binary64.isNaN_iff_place] at hlow
    rw [Binary64.isNaN_eq_false_iff_place] at hx
    omega
  · cases htop : t.top? with
    | none => simp [nearest?, htop] at hp
    | some top =>
      obtain ⟨s, hs, hhigh⟩ := exists_of_top? htop
      rw [(ht.wellFormed s (List.mem_of_getElem? hs)).isNaN_high, hnan top s hs] at hhigh
      cases hhigh

/-- A value is located at its owner, if it is not the least value of two sides. -/
theorem locate_eq (ht : t.Ordered) (honce : LeastOnce t x) :
    t.locate x = (t.owner? x).elim (-1) fun i => (i : Int) := by
  unfold locate
  cases hx : x.isNaN with
  | true =>
    rw [if_pos rfl]
    have hfinds := ht.finds_owner? x
    generalize t.owner? x = r at hfinds ⊢
    cases hfinds with
    | least _ hs hlow => exact ht.locateNaN_of_least hx honce hs hlow
    | unknown _ hsplits => exact locateNaN_of_splits hsplits hx
    | inside hnumber | start hnumber | nearby hnumber => simp [hx] at hnumber
  | false =>
    rw [if_neg Bool.false_ne_true]
    split
    · next hcount => rw [ht.owner?_of_no_interval hx hcount]; rfl
    · next hcount => exact ht.locateNumber_eq hx honce (Nat.pos_of_ne_zero hcount)

end Ordered

end SearchTable

end RasterCategories
