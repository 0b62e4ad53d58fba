import Mathlib.Data.List.DropRight
import RasterCategories.Builder
import RasterCategories.Proofs.Conversion.Composition
import RasterCategories.Proofs.Conversion.Ordinals
/-!
# Ordinals of declarations

A builder is called many times, in any order, and some of the calls fail. What it collects are the declarations
since it was last cleared: the last background, the qualitative categories in order, and the other categories
in order, without those that failed. Its legend sorts the categories by their samples, and yet it converts the
samples of each qualitative category to the NaN of the place in which the category was declared.

* `Builder.Call` and `Builder.answer`: one call, and what it leaves.
* `Builder.after`: the builder after a sequence of calls.
* `Builder.after_eq`: it has collected the declarations since it was last cleared.
* `Builder.ordinals_of_calls`: what its categories depend on, and which ordinals its legend gives.
-/

namespace RasterCategories

/-! ### Declarations -/

namespace Declaration

/-- Whether a declaration drops all earlier ones. -/
def isClear : Declaration → Bool
  | .clear => true
  | _ => false

/-- The declared background. -/
def background? : Declaration → Option (String × Samples)
  | .background name samples => some (name, samples)
  | _ => none

/-- The declared qualitative category. -/
def qualitative? : Declaration → Option (String × Samples)
  | .qualitative name samples => some (name, samples)
  | _ => none

/-- The declared category that takes no ordinal, unless the declaration fails. -/
def addition? : Declaration → Option (Category Transform)
  | .quantitative origin name samples scale offset units next =>
    (Builder.measurement origin name samples scale offset units next).toOption
  | .category c => some c
  | _ => none

/-- Whether the transform or the category that a caller declares was made in one of the ways in which
transforms and categories are made. -/
def IsMade : Declaration → Prop
  | .quantitative _ _ _ _ _ _ next => ∀ t, next = some t → t.IsBuilt
  | .category c => c.IsDeclared ∧ c.forward.IsBuilt
  | _ => True

end Declaration

/-- The category as it is described, wherever it was made. -/
def Category.described (c : Category Transform) : Category Transform := { c with origin := 0 }

/-- Samples are marked by an ordinal if they make a category of the legend, and all of them that belong to this
category are converted to the NaN of the ordinal. -/
def Legend.Marks (l : Legend Transform) (name : String) (samples : Samples) (ordinal : Nat) : Prop :=
  ∃ c nan, Category.qualitative ⟨l.token, ordinal⟩ name samples ordinal = .ok c ∧ c ∈ l.categories
    ∧ Binary64.checkedOfOrdinal ordinal = .ok nan
    ∧ ∀ i x, l.categories[i]? = some c → l.owner? x = some i →
      ∀ hints : Hints, ((l.convert x).run hints).1 = .ok nan

namespace Builder

/-- The last background of declarations. -/
def lastBackground (ds : List Declaration) : Option (String × Samples) :=
  (ds.filterMap Declaration.background?).getLast?

/-- The qualitative categories of declarations, in order. -/
def qualitatives (ds : List Declaration) : List (String × Samples) :=
  ds.filterMap Declaration.qualitative?

/-- The categories of declarations that take no ordinal, in order and without those that failed. -/
def additions (ds : List Declaration) : List (Category Transform) :=
  ds.filterMap Declaration.addition?

/-- The builder that has collected declarations. -/
def collected (config : Config) (ds : List Declaration) : Builder :=
  ⟨config, lastBackground ds, qualitatives ds, additions ds⟩

/-! ### Calls -/

/-- A call to a builder. -/
inductive Call
  /-- A declaration. -/
  | declare (d : Declaration)
  /-- The categories declared so far. -/
  | categories (token : Nat)
  /-- The legend of the declared categories. -/
  | build (token : Nat)

/-- What a call gives if it does not fail. -/
inductive Reply
  /-- Nothing but the builder. -/
  | done
  /-- Categories with their ordinals. -/
  | categories (cs : List (Category Transform))
  /-- A legend. -/
  | legend (l : Legend Transform)

/-- The answer to a call. The builder stays there if the call fails. -/
def answer : Call → ExceptT Error (StateM Builder) Reply
  | .declare d => do
    let declared ← (← get).declare d
    set declared
    return .done
  | .categories token => do return .categories (← (← get).categories token)
  | .build token => do return .legend (← (← get).build token)

/-- The builder after a call, whatever the answer is. -/
def next (b : Builder) (call : Call) : Builder := ((answer call).run.run b).2

/-- A new builder after a sequence of calls. -/
def after (config : Config) (calls : List Call) : Builder := calls.foldl next (empty config)

/-- The declaration that a call makes. -/
def Call.declaration? : Call → Option Declaration
  | .declare d => some d
  | _ => none

/-- The declarations of calls since the builder was last cleared. -/
def sinceClear (calls : List Call) : List Declaration :=
  (calls.filterMap Call.declaration?).rtakeWhile fun d => !d.isClear

variable {config : Config} {b : Builder} {calls : List Call} {call : Call} {ds : List Declaration}
  {d : Declaration} {cs : List (Category Transform)} {c : Category Transform} {l : Legend Transform}
  {origin : Origin} {name : String} {samples : Samples} {token k : Nat}

/-- What is computed from a builder leaves it if it fails. -/
theorem run_get_bind {α : Type} (g : Builder → Except Error α) (f : α → ExceptT Error (StateM Builder) Reply)
    (b : Builder) :
    (do f (← g (← get)) : ExceptT Error (StateM Builder) Reply).run.run b =
      match g b with
      | .ok a => (f a).run.run b
      | .error e => (.error e, b) := by
  show ExceptT.bindCont f (g b) b = _
  cases g b <;> rfl

/-- The answers to the three kinds of calls, and the builder after them. -/
theorem run_answer (b : Builder) (call : Call) :
    (answer call).run.run b =
      match call with
      | .declare d =>
        match b.declare d with
        | .ok declared => (.ok .done, declared)
        | .error e => (.error e, b)
      | .categories token => ((b.categories token).map .categories, b)
      | .build token => ((b.build token).map .legend, b) := by
  cases call with
  | declare d =>
    refine (run_get_bind (·.declare d) _ b).trans ?_
    dsimp only
    cases b.declare d <;> rfl
  | categories token =>
    refine (run_get_bind (·.categories token) _ b).trans ?_
    dsimp only
    cases b.categories token <;> rfl
  | build token =>
    refine (run_get_bind (·.build token) _ b).trans ?_
    dsimp only
    cases b.build token <;> rfl

/-- A call that fails leaves the builder as it was. -/
theorem next_of_error {e : Error} (h : ((answer call).run.run b).1 = .error e) : b.next call = b := by
  unfold next
  rw [run_answer] at h ⊢
  cases call with
  | declare d =>
    dsimp only at h ⊢
    cases hd : b.declare d with
    | ok declared => rw [hd] at h; cases h
    | error => rfl
  | categories => rfl
  | build => rfl

theorem next_categories (b : Builder) (token : Nat) : b.next (.categories token) = b := by
  rw [next, run_answer]

theorem next_build (b : Builder) (token : Nat) : b.next (.build token) = b := by
  rw [next, run_answer]

theorem next_declare_of_ok {declared : Builder} (h : b.declare d = .ok declared) :
    b.next (.declare d) = declared := by
  rw [next, run_answer]
  dsimp only
  rw [h]

theorem next_declare_of_error {e : Error} (h : b.declare d = .error e) : b.next (.declare d) = b := by
  rw [next, run_answer]
  dsimp only
  rw [h]

/-! ### Sequences of calls -/

theorem filterMap_concat {α β : Type} (f : α → Option β) (as : List α) (a : α) :
    (as ++ [a]).filterMap f = as.filterMap f ++ (f a).toList := by
  cases h : f a <;> simp [h]

theorem lastBackground_concat (ds : List Declaration) (d : Declaration) :
    lastBackground (ds ++ [d]) = d.background?.or (lastBackground ds) := by
  rw [lastBackground, filterMap_concat, List.getLast?_append, ← lastBackground]
  cases d.background? <;> rfl

/-- What one more declaration adds to the collected ones. -/
theorem collected_concat (config : Config) (ds : List Declaration) (d : Declaration) :
    collected config (ds ++ [d]) = ⟨config, d.background?.or (lastBackground ds),
      qualitatives ds ++ d.qualitative?.toList, additions ds ++ d.addition?.toList⟩ := by
  rw [collected, lastBackground_concat, qualitatives, filterMap_concat, additions, filterMap_concat]
  rfl

/-- A builder collects one more declaration behind the earlier ones, unless it drops them. -/
theorem next_collected (hd : d.isClear = false) :
    (collected config ds).next (.declare d) = collected config (ds ++ [d]) := by
  rw [collected_concat]
  unfold Declaration.background? Declaration.qualitative? Declaration.addition?
  cases d with
  | background => rw [next_declare_of_ok rfl]; simp [collected]
  | qualitative => rw [next_declare_of_ok rfl]; simp [collected]
  | quantitative origin name samples scale offset units next =>
    have hdeclare : (collected config ds).declare (.quantitative origin name samples scale offset units next) =
        (measurement origin name samples scale offset units next).map (collected config ds).add := rfl
    cases h : measurement origin name samples scale offset units next with
    | ok c =>
      rw [next_declare_of_ok (hdeclare.trans (by rw [h]; rfl))]
      simp [collected, add, h, Except.toOption]
    | error e =>
      rw [next_declare_of_error (hdeclare.trans (by rw [h]; rfl))]
      simp [collected, h, Except.toOption]
  | category => rw [next_declare_of_ok rfl]; simp [collected, add]
  | clear => cases hd

theorem sinceClear_concat (calls : List Call) (call : Call) :
    sinceClear (calls ++ [call]) =
      match call.declaration? with
      | some d => if d.isClear then [] else sinceClear calls ++ [d]
      | none => sinceClear calls := by
  unfold sinceClear
  cases h : call.declaration? with
  | none => simp [h]
  | some d => cases hd : d.isClear <;> simp [h, hd]

/-- A builder has collected the declarations since it was last cleared. -/
theorem after_eq (config : Config) (calls : List Call) :
    after config calls = collected config (sinceClear calls) := by
  -- The last call comes on top of what the earlier ones have left.
  induction calls using List.reverseRecOn with
  | nil => rfl
  | append_singleton calls call ih =>
    rw [after, List.foldl_concat, ← after, ih, sinceClear_concat]
    cases call with
    | declare d =>
      cases hd : d.isClear with
      | true =>
        cases d with
        | clear => exact next_declare_of_ok rfl
        | _ => cases hd
      | false => simpa [Call.declaration?, hd] using next_collected hd
    | categories token => exact next_categories _ token
    | build token => exact next_build _ token

/-! ### Ordinals -/

/-- Whether what a call passes to the builder was made in one of the ways in which transforms and categories
are made. -/
def Call.IsMade (call : Call) : Prop := ∀ d, call.declaration? = some d → d.IsMade

theorem isMade_of_mem_sinceClear (hcalls : ∀ call ∈ calls, call.IsMade) (hd : d ∈ sinceClear calls) :
    d.IsMade := by
  obtain ⟨call, hcall, hdeclaration⟩ := List.mem_filterMap.mp ((List.rtakeWhile_suffix _ _).subset hd)
  exact hcalls call hcall d hdeclaration

/-- A category of measurements is declared, and converts by a built transform. -/
theorem of_measurement {scale offset : Binary64} {units : Option String} {next : Option Transform}
    (hnext : ∀ t, next = some t → t.IsBuilt)
    (h : measurement origin name samples scale offset units next = .ok c) : c.IsDeclared ∧ c.forward.IsBuilt := by
  obtain ⟨linear, hlinear, h⟩ := exists_of_bind_eq_ok h
  have hbuilt : linear.IsBuilt := (Transform.isAffine_of_linearOrIdentity hlinear).isBuilt
  refine ⟨.quantitative h, ?_⟩
  rcases Category.forward_of_quantitative h with hidentity | hforward
  · rw [hidentity]
    exact .identity
  · rw [← Option.some.inj hforward]
    cases next with
    | none => exact hbuilt
    | some t => exact hbuilt.andThen (hnext t rfl)

theorem eq_ok_of_toOption_eq_some {α : Type} {r : Except Error α} {a : α} (h : r.toOption = some a) :
    r = .ok a := by
  cases r with
  | error => cases h
  | ok => exact congrArg _ (Option.some.inj h)

/-- The categories without ordinals are declared, and convert by built transforms. -/
theorem of_mem_additions (hmade : ∀ d ∈ ds, d.IsMade) (hc : c ∈ additions ds) :
    c.IsDeclared ∧ c.forward.IsBuilt := by
  obtain ⟨d, hd, haddition⟩ := List.mem_filterMap.mp hc
  cases d with
  | quantitative origin name samples scale offset units next =>
    exact of_measurement (hmade _ hd) (eq_ok_of_toOption_eq_some haddition)
  | category =>
    obtain rfl := Option.some.inj haddition
    exact hmade _ hd
  | _ => cases haddition

/-- The categories of a builder are those that take ordinals, and the other ones. -/
theorem of_categories (h : b.categories token = .ok cs) :
    ∃ marks, List.Forall₂ (fun p c => Category.qualitative ⟨token, p.2⟩ p.1.1 p.1.2 p.2 = .ok c)
        b.ordinalDeclarations.zipIdx marks ∧ cs = marks ++ b.quantitative := by
  obtain ⟨marks, hmarks, h⟩ := exists_of_bind_eq_ok h
  exact ⟨marks, mapM_eq_ok_iff.mp hmarks, (Except.ok.inj h).symm⟩

/-- The categories of a builder are declared, and convert by built transforms. -/
theorem of_mem_categories (hb : ∀ c ∈ b.quantitative, c.IsDeclared ∧ c.forward.IsBuilt)
    (h : b.categories token = .ok cs) (hc : c ∈ cs) : c.IsDeclared ∧ c.forward.IsBuilt := by
  obtain ⟨marks, hmarks, rfl⟩ := of_categories h
  rcases List.mem_append.mp hc with hmark | hother
  · obtain ⟨k, hk⟩ := List.mem_iff_getElem?.mp hmark
    obtain ⟨p, -, hp⟩ := getElem?_of_forall₂ hmarks.flip hk
    exact ⟨.qualitative hp, (Category.isAffine_of_qualitative hp).isBuilt⟩
  · exact hb c hother

/-- A declaration that takes an ordinal gives the qualitative category of its place. -/
theorem exists_of_ordinalDeclarations (h : b.categories token = .ok cs)
    (hk : b.ordinalDeclarations[k]? = some (name, samples)) :
    ∃ c ∈ cs, Category.qualitative ⟨token, k⟩ name samples k = .ok c := by
  obtain ⟨marks, hmarks, rfl⟩ := of_categories h
  obtain ⟨c, hc, hqualitative⟩ := getElem?_of_forall₂ hmarks
    (show b.ordinalDeclarations.zipIdx[k]? = some ((name, samples), k) by simp [hk])
  exact ⟨c, List.mem_append_left _ (List.mem_of_getElem? hc), hqualitative⟩

/-- The legend of a builder marks the samples of a declaration by the ordinal of its place. -/
theorem marks_of_build (hb : ∀ c ∈ b.quantitative, c.IsDeclared ∧ c.forward.IsBuilt)
    (hl : b.build token = .ok l) (hk : b.ordinalDeclarations[k]? = some (name, samples)) :
    l.Marks name samples k := by
  obtain ⟨cs, hcs, hl⟩ := exists_of_bind_eq_ok hl
  obtain ⟨c, hc, hqualitative⟩ := exists_of_ordinalDeclarations hcs hk
  have hmade := fun c hc => of_mem_categories (c := c) hb hcs hc
  have hmember : c ∈ l.categories :=
    Legend.mem_categories_of_mem hl hc (Category.IsOriginal.qualitative hqualitative).not_converted
  have hnan : Binary64.checkedOfOrdinal k = .ok (.ofOrdinal (k : Int).toNat) := by
    obtain ⟨-, -, -, hnonneg, hle, -, -⟩ := Category.qualitative_ok hqualitative
    exact if_pos ⟨hnonneg, hle⟩
  have htoken : l.token = token := Legend.token_ofCategories hl
  exact ⟨c, _, htoken ▸ hqualitative, hmember, hnan, fun i x hi hx =>
    Legend.convert_of_qualitative (fun c hc => (hmade c hc).1) (fun c hc => (hmade c hc).2) hl hi
      hqualitative hx⟩

/-- The background of a builder takes the first ordinal. -/
theorem ordinalDeclarations_background (h : b.background = some (name, samples)) :
    b.ordinalDeclarations[0]? = some (name, samples) := by
  simp [ordinalDeclarations, h]

/-- The qualitative categories of a builder take the following ordinals, or all of them. -/
theorem ordinalDeclarations_qualitative (h : b.qualitative[k]? = some (name, samples)) :
    b.ordinalDeclarations[if b.background.isSome then k + 1 else k]? = some (name, samples) := by
  cases hbackground : b.background <;> simp [ordinalDeclarations, hbackground, h]

/-- A qualitative category is described in the same way wherever it is made. -/
theorem described_qualitative (origin : Origin) (name : String) (samples : Samples) (ordinal : Int) :
    (Category.qualitative origin name samples ordinal).map Category.described =
      Category.qualitative 0 name samples ordinal := by
  unfold Category.qualitative
  cases Side.ofSamples name samples with
  | error e => rfl
  | ok side => cases Binary64.checkedOfOrdinal ordinal <;> rfl

/-- What is made of the results of a sequence of computations can be made of each result at once. -/
theorem map_mapM {α β γ : Type} (f : α → Except Error β) (g : β → γ) (as : List α) :
    (as.mapM f).map (List.map g) = as.mapM fun a => (f a).map g := by
  induction as with
  | nil => rfl
  | cons a as ih =>
    rw [List.mapM_cons, List.mapM_cons, ← ih]
    cases f a with
    | error e => rfl
    | ok b => cases as.mapM f <;> rfl

/-- The categories of a builder, as they are described, depend on what it has collected alone. -/
theorem described_categories (b : Builder) (token : Nat) :
    (b.categories token).map (List.map Category.described) = (do
      let marks ← b.ordinalDeclarations.zipIdx.mapM fun ((name, samples), ordinal) =>
        Category.qualitative 0 name samples ordinal
      return marks ++ b.quantitative.map Category.described) := by
  have hmarks := map_mapM (fun p : (String × Samples) × Nat =>
    Category.qualitative ⟨token, p.2⟩ p.1.1 p.1.2 p.2) Category.described b.ordinalDeclarations.zipIdx
  simp only [described_qualitative] at hmarks
  show _ = ((b.ordinalDeclarations.zipIdx.mapM _ : Except Error _) >>= _)
  rw [← hmarks, categories]
  cases b.ordinalDeclarations.zipIdx.mapM fun p : (String × Samples) × Nat =>
      Category.qualitative ⟨token, p.2⟩ p.1.1 p.1.2 p.2 with
  | error e => rfl
  | ok marks => exact congrArg Except.ok List.map_append

/-- After any calls, the categories depend on the last background, the qualitative categories and the additions since
the builder was last cleared, and as they are described they depend on these as they are described. A call that fails
changes nothing. The legend of these calls marks the samples of the background by zero, and those of the qualitative
categories by their places, counted from one if there is a background. -/
theorem ordinals_of_calls (config : Config) (calls : List Call) :
    (∀ config' calls', lastBackground (sinceClear calls') = lastBackground (sinceClear calls) →
        qualitatives (sinceClear calls') = qualitatives (sinceClear calls) →
        (additions (sinceClear calls') = additions (sinceClear calls) →
            ∀ token, (after config' calls').categories token = (after config calls).categories token)
          ∧ ((additions (sinceClear calls')).map Category.described
              = (additions (sinceClear calls)).map Category.described →
            ∀ token' token, ((after config' calls').categories token').map (List.map Category.described)
              = ((after config calls).categories token).map (List.map Category.described)))
      ∧ (∀ (b : Builder) (call : Call) (e : Error),
          ((answer call).run.run b).1 = .error e → ((answer call).run.run b).2 = b)
      ∧ ((∀ call ∈ calls, call.IsMade) → ∀ token l, (after config calls).build token = .ok l →
        (∀ name samples, lastBackground (sinceClear calls) = some (name, samples) → l.Marks name samples 0)
        ∧ ∀ (k : Nat) name samples, (qualitatives (sinceClear calls))[k]? = some (name, samples) →
          l.Marks name samples (if (lastBackground (sinceClear calls)).isSome then k + 1 else k)) := by
  refine ⟨fun config' calls' hbackground hqualitatives => ⟨fun hadditions token => ?_,
    fun hadditions token' token => ?_⟩, fun b call e h => next_of_error h, fun hcalls token l hl => ?_⟩
  · rw [after_eq, after_eq, collected, hbackground, hqualitatives, hadditions]
    rfl
  · rw [after_eq, after_eq, described_categories, described_categories, collected, hbackground,
      hqualitatives]
    simp only [collected, hadditions]
    rfl
  · rw [after_eq] at hl
    have hadditions : ∀ c ∈ additions (sinceClear calls), c.IsDeclared ∧ c.forward.IsBuilt :=
      fun c hc => of_mem_additions (fun d hd => isMade_of_mem_sinceClear hcalls hd) hc
    exact ⟨fun name samples h => marks_of_build hadditions hl (ordinalDeclarations_background h),
      fun k name samples h => marks_of_build hadditions hl (ordinalDeclarations_qualitative h)⟩

/-- A depth in meters, from one to ten in the raster, by a scale. -/
def depthDeclaration (origin : Origin) (scale : Binary64) : Declaration :=
  .quantitative origin "Depth" (.bounds [.one, .ten]) scale .one none none

/-- Calls in which the scale zero is refused, a legend is asked for in between, and the first marks are
dropped. -/
def markCalls : List Call :=
  [.declare (.background "Missing" (.number (.ofInt 255))),
    .declare (.qualitative "Ice" (.number (.ofInt 253))), .build 3, .declare .clear,
    .declare (.qualitative "Cloud" (.number (.ofInt 255))), .declare (depthDeclaration 6 .zero), .categories 7,
    .declare (depthDeclaration 8 .two), .declare (.qualitative "Land" (.number (.ofInt 254))), .build 10,
    .declare (.background "Fill value" (.number .zero))]

/-- The calls without those that leave nothing, in another order. -/
def shortMarkCalls : List Call :=
  [.declare (.background "Fill value" (.number .zero)),
    .declare (.qualitative "Cloud" (.number (.ofInt 255))),
    .declare (.qualitative "Land" (.number (.ofInt 254))), .declare (depthDeclaration 8 .two)]

/-- Clouds and land are marked by one and two, though land comes before clouds in the legend and the background
was declared last. -/
theorem ordinals_of_calls_marks :
    (∀ call ∈ markCalls, call.IsMade)
      ∧ (∀ token, (after .default shortMarkCalls).categories token = (after .default markCalls).categories token)
      ∧ (∃ e, ((answer (.declare (depthDeclaration 6 .zero))).run.run (empty .default)).1 = .error e
        ∧ ((answer (.declare (depthDeclaration 6 .zero))).run.run (empty .default)).2 = empty .default)
      ∧ ∃ l, (after .default markCalls).build 12 = .ok l
        ∧ l.owner? .zero = some 0 ∧ l.owner? (.ofInt 254) = some 2 ∧ l.owner? (.ofInt 255) = some 3
        ∧ l.Marks "Fill value" (.number .zero) 0 ∧ l.Marks "Cloud" (.number (.ofInt 255)) 1
        ∧ l.Marks "Land" (.number (.ofInt 254)) 2 := by
  have hmade : ∀ call ∈ markCalls, call.IsMade := by
    simp [markCalls, Call.IsMade, Call.declaration?, Declaration.IsMade, depthDeclaration]
  have hrefused : (depthDeclaration 6 .zero).addition? = none :=
    Option.isNone_iff_eq_none.mp (by decide +kernel)
  -- The refused depth is the only difference between the additions.
  have hadditions : additions (sinceClear shortMarkCalls) = additions (sinceClear markCalls) := by
    show [_, _, _, depthDeclaration 8 .two].filterMap Declaration.addition?
      = [_, depthDeclaration 6 .zero, depthDeclaration 8 .two, _, _].filterMap Declaration.addition?
    simp only [List.filterMap_cons, hrefused]
    cases (depthDeclaration 8 .two).addition? <;> rfl
  have hpasses : Legend.passes 12 .default ((after .default markCalls).categories 12) (fun _ l =>
      l.owner? .zero = some 0 ∧ l.owner? (.ofInt 254) = some 2 ∧ l.owner? (.ofInt 255) = some 3) = true := by
    decide +kernel
  obtain ⟨cs, l, hcs, hl, hall⟩ := Legend.exists_of_passes hpasses
  obtain ⟨hzero, hland, hcloud⟩ := of_decide_eq_true hall
  have hbuild : (after .default markCalls).build 12 = .ok l := by
    rw [build, hcs, after_eq]
    exact hl
  obtain ⟨hdepends, hfails, hmarks⟩ := ordinals_of_calls .default markCalls
  obtain ⟨hbackground, hqualitative⟩ := hmarks hmade 12 l hbuild
  refine ⟨hmade, (hdepends .default shortMarkCalls rfl rfl).1 hadditions, ?_, l, hbuild, hzero, hland, hcloud,
    hbackground _ _ rfl, hqualitative 0 _ _ rfl, hqualitative 1 _ _ rfl⟩
  cases h : ((answer (.declare (depthDeclaration 6 .zero))).run.run (empty .default)).1 with
  | error e => exact ⟨e, rfl, hfails _ _ e h⟩
  | ok reply =>
    have hnone : ((answer (.declare (depthDeclaration 6 .zero))).run.run (empty .default)).1.toOption.isNone
        = true := by decide +kernel
    rw [h] at hnone
    cases hnone

end Builder

end RasterCategories
