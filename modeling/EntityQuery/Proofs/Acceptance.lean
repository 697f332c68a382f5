/-
# Which plans compile

A plan may be refused for three reasons: a skip or take without an order to cut by, an entity set
that the model does not have, or a type filter that makes no sense where it stands.  This file says
that there are no others.

* `Plan.checkOrdered_cases`: what the check for missing sorts finds;
* `Plan.resolveUnder_adjust_ok_iff`: when type filters can be resolved;
* `Plan.emit_of_prepare_ok`: what is prepared becomes a statement, wherever the sweeps stop;
* `Plan.compile_ok_iff_accepted`: a plan whose sweeps reach a plan to which no rule applies is
  compiled exactly if it can be ordered and its type filters fit, and a missing sort is reported
  before anything else.

The conditions are said on the operators of the plan (`Plan.subplans`) and the model alone.
-/
import EntityQuery.Proofs.Stability.Prepared

namespace EntityQuery

namespace Plan

/-! ## The operators of a plan -/

/-- A plan, its input, the input of that and so on: an entry for each operator, the outermost
first. -/
def subplans : Plan → List Plan
  | source relation => [source relation]
  | filter predicate p => filter predicate p :: p.subplans
  | project columns p => project columns p :: p.subplans
  | sort keys p => sort keys p :: p.subplans
  | skip count p => skip count p :: p.subplans
  | take count p => take count p :: p.subplans
  | ofType subtype p => ofType subtype p :: p.subplans

/-- The types of the type filters of a plan, the outermost first. -/
def askedTypes : Plan → List String
  | source _ => []
  | ofType subtype p => subtype :: p.askedTypes
  | filter _ p | project _ p | sort _ p | skip _ p | take _ p => p.askedTypes

/-- Some operator of the plan is a sort. -/
def HasSort (plan : Plan) : Prop :=
  ∃ keys p, sort keys p ∈ plan.subplans

/-- The outermost operator is a skip or take, and no sort stands below it. -/
def Unsorted (plan : Plan) : Prop :=
  plan.isTruncation = true ∧ ¬ plan.HasSort

/-- The outermost skip or take of a plan that has no sort below it. -/
def OutermostUnsorted (plan q : Plan) : Prop :=
  ∃ above below, plan.subplans = above ++ q :: below ∧ (∀ r ∈ above, ¬ r.Unsorted) ∧ q.Unsorted

/-- A plan has an order exactly if one of its operators is a sort. -/
theorem orderSource_isSome_iff {plan : Plan} : plan.orderSource.isSome = true ↔ plan.HasSort := by
  unfold HasSort
  induction plan with
  | source relation => simp [orderSource, subplans]
  | sort keys p ih =>
    constructor
    · intro _
      exact ⟨keys, p, List.mem_cons_self⟩
    · intro _
      rfl
  | filter _ p ih | project _ p ih | skip _ p ih | take _ p ih | ofType _ p ih =>
    rw [orderSource, ih]
    simp [subplans]

/-- A plan has no projection if none of its parts is one. -/
theorem hasProjection_eq_false_iff {plan : Plan} :
    plan.hasProjection = false ↔ ∀ columns p, project columns p ∉ plan.subplans := by
  induction plan with
  | source relation => simp [hasProjection, subplans]
  | project columns p ih =>
    constructor
    · intro h
      cases h
    · intro h
      exact absurd List.mem_cons_self (h columns p)
  | filter _ p ih | sort _ p ih | skip _ p ih | take _ p ih | ofType _ p ih =>
    rw [hasProjection, ih]
    simp [subplans]

/-! ## Missing sorts -/

section Ordered

variable {p q r : Plan}

/-- A skip is unsorted if its input has no order. -/
theorem unsorted_skip_iff {count : UInt64} :
    (skip count p).Unsorted ↔ p.orderSource.isNone = true := by
  rw [Unsorted, ← orderSource_isSome_iff]
  simp [isTruncation, orderSource]

theorem unsorted_take_iff {count : UInt64} :
    (take count p).Unsorted ↔ p.orderSource.isNone = true := by
  rw [Unsorted, ← orderSource_isSome_iff]
  simp [isTruncation, orderSource]

/-- What the check for missing sorts may find: no operator without its sort, or an outermost one,
which it reports. -/
inductive OrderVerdict (plan : Plan) : Except Fault Unit → Prop where
  | ordered (h : ∀ q ∈ plan.subplans, ¬ q.Unsorted) : OrderVerdict plan (.ok ())
  | missing {q : Plan} {operator : Truncation} (h : plan.OutermostUnsorted q)
      (hkind : q.kind = operator.name) : OrderVerdict plan (.error (.unordered operator))

/-- An operator that does not miss a sort passes on the verdict on its input. -/
theorem OrderVerdict.above {verdict : Except Fault Unit} (h : OrderVerdict p verdict)
    (hsubplans : r.subplans = r :: p.subplans) (hr : ¬ r.Unsorted) : OrderVerdict r verdict := by
  cases h with
  | ordered h =>
    refine .ordered ?_
    rw [hsubplans]
    exact List.forall_mem_cons.mpr ⟨hr, h⟩
  | missing h hkind =>
    obtain ⟨above, below, hsplit, habove, hq⟩ := h
    refine .missing ⟨r :: above, below, ?_, List.forall_mem_cons.mpr ⟨hr, habove⟩, hq⟩ hkind
    rw [hsubplans, hsplit, List.cons_append]

/-- **The check for missing sorts** accepts a plan in which every skip and take has a sort below it,
and else reports the outermost one that has none. -/
theorem checkOrdered_cases (plan : Plan) : OrderVerdict plan plan.checkOrdered := by
  have hnothing : ∀ r ∈ ([] : List Plan), ¬ r.Unsorted := by
    intro r hr
    exact absurd hr List.not_mem_nil
  induction plan with
  | source relation =>
    refine .ordered fun q hq hunsorted => ?_
    obtain rfl := List.mem_singleton.mp hq
    exact Bool.false_ne_true hunsorted.1
  | filter _ p ih | project _ p ih | sort _ p ih | ofType _ p ih =>
    exact ih.above rfl fun hunsorted => Bool.false_ne_true hunsorted.1
  | skip count p ih =>
    rw [checkOrdered]
    split
    next hnone =>
      exact .missing ⟨[], p.subplans, rfl, hnothing, unsorted_skip_iff.mpr hnone⟩ rfl
    next hsome => exact ih.above rfl fun hunsorted => hsome (unsorted_skip_iff.mp hunsorted)
  | take count p ih =>
    rw [checkOrdered]
    split
    next hnone =>
      exact .missing ⟨[], p.subplans, rfl, hnothing, unsorted_take_iff.mpr hnone⟩ rfl
    next hsome => exact ih.above rfl fun hunsorted => hsome (unsorted_take_iff.mp hunsorted)

/-- **A plan is ordered exactly if none of its parts is an unsorted skip or take.** -/
theorem checkOrdered_ok_iff :
    p.checkOrdered = .ok () ↔ ∀ q ∈ p.subplans, ¬ q.Unsorted := by
  have hcases := checkOrdered_cases p
  constructor
  · intro hok
    rw [hok] at hcases
    cases hcases with
    | ordered h => exact h
  · intro hall
    cases hverdict : p.checkOrdered with
    | ok _ => rfl
    | error fault =>
      rw [hverdict] at hcases
      cases hcases with
      | missing h hkind =>
        obtain ⟨above, below, hsplit, -, hq⟩ := h
        refine absurd hq (hall _ ?_)
        rw [hsplit]
        exact List.mem_append_right above List.mem_cons_self

end Ordered

/-! ## Type filters -/

/-- Every type filter makes sense over the entity set and stands on whole entities. -/
def TypesFit (model : Model) (set : EntitySet) (plan : Plan) : Prop :=
  ∀ subtype p, ofType subtype p ∈ plan.subplans →
    (∀ columns q, project columns q ∉ p.subplans) ∧ model.Selects set subtype

/-- The type of every type filter but the first is an ancestor or descendant of the one before. -/
def Related (model : Model) (types : List String) : Prop :=
  types.IsChain fun outer inner => model.related outer inner = true

instance Related.decidable (model : Model) (types : List String) :
    Decidable (Related model types) :=
  inferInstanceAs (Decidable (types.IsChain fun outer inner => model.related outer inner = true))

section Resolved

variable {model : Model} {shaping : Shaping} {set : EntitySet} {p q : Plan}

/-- A result that is only changed is there if it was. -/
theorem exists_ok_bind_pure_iff {α β : Type} {x : Except Fault α} {f : α → β} :
    (∃ b, (x >>= fun a => pure (f a)) = .ok b) ↔ ∃ a, x = .ok a := by
  constructor
  · rintro ⟨b, h⟩
    obtain ⟨a, ha, -⟩ := exists_ok_of_bind_pure_eq_ok h
    exact ⟨a, ha⟩
  · rintro ⟨a, rfl⟩
    exact ⟨f a, rfl⟩

/-- A type filter is resolved exactly if it makes sense, is related to the one above it, and its
input is resolved. -/
theorem resolveUnder_ofType_ok_iff {outer : Option String} {subtype : String} :
    (∃ q, (ofType subtype p).resolveUnder model shaping outer = .ok q) ↔
      (∃ set, p.filteredSet model subtype = .ok set ∧ model.Selects set subtype) ∧
      (∀ above ∈ outer, model.related above subtype = true) ∧
      ∃ q, p.resolveUnder model shaping (some subtype) = .ok q := by
  constructor
  · rintro ⟨q, h⟩
    obtain ⟨set, e, input, hset, he, hinput, -⟩ := resolveUnder_ofType_eq_ok h
    refine ⟨⟨set, hset, Model.typePredicate_ok_iff.mp ⟨e, he⟩⟩, ?_, input, hinput⟩
    rintro above rfl
    cases hrelated : model.related above subtype with
    | true => rfl
    | false =>
      simp [resolveUnder, hset, he, hrelated, bind, Except.bind, throw, throwThe,
        MonadExceptOf.throw] at h
  · rintro ⟨⟨set, hset, hselects⟩, hrelated, input, hinput⟩
    obtain ⟨e, he⟩ := Model.typePredicate_ok_iff.mpr hselects
    cases outer with
    | none =>
      simp only [resolveUnder, hset, he, hinput, bind, Except.bind, pure, Except.pure]
      exact ⟨_, rfl⟩
    | some above =>
      simp only [resolveUnder, hset, he, hinput, hrelated above rfl, bind, Except.bind, pure,
        Except.pure]
      exact ⟨_, rfl⟩

/-- A type filter finds its entity set where there is no projection below it. -/
theorem filteredSet_ok_iff {subtype : String} :
    p.filteredSet model subtype = .ok set ↔
      p.hasProjection = false ∧ model.relation p.relation = .ok set := by
  constructor
  · exact filteredSet_eq_ok
  · rintro ⟨hprojection, hset⟩
    rw [filteredSet, hprojection]
    exact hset

theorem hasProjection_adjust (mode : NullMode) (plan : Plan) :
    (plan.adjust mode).hasProjection = plan.hasProjection := by
  induction plan with
  | source | project => rfl
  | filter _ p ih | sort _ p ih | skip _ p ih | take _ p ih | ofType _ p ih => exact ih

/-- Only a type filter adds to what is asked of the type filters of a plan. -/
theorem typesFit_above (hsubplans : q.subplans = q :: p.subplans)
    (hq : ∀ subtype r, q ≠ ofType subtype r) : q.TypesFit model set ↔ p.TypesFit model set := by
  unfold TypesFit
  rw [hsubplans]
  constructor
  · intro h subtype r hr
    exact h subtype r (List.mem_cons_of_mem q hr)
  · intro h subtype r hr
    rcases List.mem_cons.mp hr with heq | hr
    · exact absurd heq.symm (hq subtype r)
    · exact h subtype r hr

/-- Type filters fit a set if each of them selects from it and has no projection below. -/
theorem typesFit_ofType {subtype : String} :
    (ofType subtype p).TypesFit model set ↔
      ((∀ columns q, project columns q ∉ p.subplans) ∧ model.Selects set subtype) ∧
        p.TypesFit model set := by
  constructor
  · intro h
    refine ⟨h subtype p List.mem_cons_self, fun inner r hr => ?_⟩
    exact h inner r (List.mem_cons_of_mem _ hr)
  · rintro ⟨houter, h⟩ inner r hr
    rcases List.mem_cons.mp hr with heq | hr
    · cases heq
      exact houter
    · exact h inner r hr

/-- **When type filters can be resolved**, with `outer` as the type of the next one above, if there
is one.  Adjusting the filters has no part in it. -/
theorem resolveUnder_adjust_ok_iff (mode : NullMode) {outer : Option String}
    (houter : outer ≠ none → p.hasProjection = false) :
    (∃ q, (p.adjust mode).resolveUnder model shaping outer = .ok q) ↔
      ∃ set, model.relation p.relation = .ok set ∧ p.TypesFit model set ∧
        Related model (outer.toList ++ p.askedTypes) := by
  induction p generalizing outer with
  | source relation =>
    have hfit : ∀ set, (source relation).TypesFit model set := by
      intro set subtype p hp
      cases List.mem_singleton.mp hp
    have hrelated : Related model (outer.toList ++ (source relation).askedTypes) := by
      cases outer <;> simp [Related, askedTypes]
    constructor
    · rintro ⟨q, h⟩
      obtain ⟨set, hset, -⟩ := exists_ok_of_bind_eq_ok h
      exact ⟨set, hset, hfit set, hrelated⟩
    · rintro ⟨set, hset, -, -⟩
      have hfree : (source relation).typeFree = true := rfl
      exact ⟨_, resolveUnder_of_typeFree hset hfree shaping outer⟩
  | filter _ p ih | sort _ p ih | skip _ p ih | take _ p ih =>
    simp only [adjust, resolveUnder, exists_ok_bind_pure_iff, ih houter, relation, askedTypes]
    refine exists_congr fun set => and_congr_right fun _ => and_congr_left fun _ => ?_
    exact (typesFit_above rfl (by simp)).symm
  | project columns p ih =>
    -- no projection stands below a type filter, so there is none above this one
    obtain rfl : outer = none := by
      by_contra hsome
      cases houter hsome
    simp only [adjust, resolveUnder, exists_ok_bind_pure_iff, relation, askedTypes]
    rw [ih fun hsome => absurd rfl hsome]
    refine exists_congr fun set => and_congr_right fun _ => and_congr_left fun _ => ?_
    exact (typesFit_above rfl (by simp)).symm
  | ofType subtype p ih =>
    have hchain : Related model (outer.toList ++ subtype :: p.askedTypes) ↔
        (∀ above ∈ outer, model.related above subtype = true) ∧
          Related model (subtype :: p.askedTypes) := by
      cases outer <;> simp [Related]
    rw [adjust, resolveUnder_ofType_ok_iff]
    simp only [filteredSet_ok_iff, hasProjection_adjust, relation_adjust, relation, askedTypes,
      hchain, typesFit_ofType, ← hasProjection_eq_false_iff]
    constructor
    · rintro ⟨⟨set, ⟨hprojection, hset⟩, hselects⟩, hrelated, hinput⟩
      obtain ⟨found, hfound, hfit, hbelow⟩ := (ih fun _ => hprojection).mp hinput
      obtain rfl : found = set := Except.ok.inj (hfound.symm.trans hset)
      exact ⟨found, hset, ⟨⟨hprojection, hselects⟩, hfit⟩, hrelated, hbelow⟩
    · rintro ⟨set, hset, ⟨⟨hprojection, hselects⟩, hfit⟩, hrelated, hbelow⟩
      refine ⟨⟨set, ⟨hprojection, hset⟩, hselects⟩, hrelated, ?_⟩
      exact (ih fun _ => hprojection).mpr ⟨set, hset, hfit, hbelow⟩

/-- Resolving neither makes nor loses the order of a plan, and leaves a sort below every skip and
take. -/
theorem ordered_of_resolveUnder {outer : Option String}
    (h : p.resolveUnder model shaping outer = .ok q) :
    q.orderSource.isSome = p.orderSource.isSome ∧
      (p.checkOrdered = .ok () → q.checkOrdered = .ok ()) := by
  induction p generalizing outer q with
  | source relation =>
    obtain ⟨set, -, h⟩ := exists_ok_of_bind_eq_ok h
    split at h
    · obtain rfl := Except.ok.inj h
      exact ⟨rfl, id⟩
    · obtain rfl := Except.ok.inj h
      exact ⟨rfl, id⟩
  | filter _ p ih | project _ p ih =>
    obtain ⟨input, hinput, rfl⟩ := exists_ok_of_bind_pure_eq_ok h
    have hordered := ih hinput
    exact hordered
  | sort keys p ih =>
    obtain ⟨input, hinput, rfl⟩ := exists_ok_of_bind_pure_eq_ok h
    exact ⟨rfl, (ih hinput).2⟩
  | skip count p ih =>
    obtain ⟨input, hinput, rfl⟩ := exists_ok_of_bind_pure_eq_ok h
    obtain ⟨hsome, hordered⟩ := ih hinput
    refine ⟨hsome, ?_⟩
    rw [checkOrdered_skip, checkOrdered_skip, hsome]
    exact fun hp => ⟨hp.1, hordered hp.2⟩
  | take count p ih =>
    obtain ⟨input, hinput, rfl⟩ := exists_ok_of_bind_pure_eq_ok h
    obtain ⟨hsome, hordered⟩ := ih hinput
    refine ⟨hsome, ?_⟩
    rw [checkOrdered_take, checkOrdered_take, hsome]
    exact fun hp => ⟨hp.1, hordered hp.2⟩
  | ofType subtype p ih =>
    obtain ⟨set, e, input, -, -, hinput, rfl⟩ := resolveUnder_ofType_eq_ok h
    have hordered := ih hinput
    have hrestricted : (restrictedBy model set e input).orderSource.isSome = p.orderSource.isSome ∧
        (p.checkOrdered = .ok () → (restrictedBy model set e input).checkOrdered = .ok ()) := by
      unfold restrictedBy
      split <;> exact hordered
    cases outer <;> exact hrestricted

end Resolved

/-! ## Statements -/

section Emitted

variable {model : Model} {set : EntitySet} {options : Options} {plan resolved prepared : Plan}

/-- A ready plan becomes a statement, whatever aliases are in use. -/
theorem Ready.statementFrom_ok (h : prepared.Ready model set) (counters : AliasCounters) :
    ∃ statement, (prepared.statementFrom model counters).1 = .ok statement := by
  obtain ⟨statement, _, _, hstatement, -, -⟩ :=
    Emission.agree_statement h.relation_eq h.typeFree h.canonical (Regrouped.refl prepared) counters
  exact ⟨statement, congrArg Prod.fst hstatement⟩

/-- An ordered plan is prepared once it is resolved, if the sweeps reach a plan to which no rule
applies. -/
theorem prepare_ok_of_settled (hordered : plan.checkOrdered = .ok ())
    (hresolve : (plan.adjust options.nulls).resolve model options.shaping = .ok resolved)
    (hsettled : Settled .needsOrder (sweepUpTo options.sweeps resolved)) :
    plan.prepare model options = .ok (sweepUpTo options.sweeps resolved) := by
  have hadjusted : (plan.adjust options.nulls).checkOrdered = .ok () :=
    (refiltered_adjust options.nulls plan).checkOrdered_eq.trans hordered
  have hresolved := (ordered_of_resolveUnder hresolve).2 hadjusted
  have hswept := (ordered_sweepUpTo hresolved options.sweeps).1
  have hcanonical := checkCanonical_of_canonical (canonical_of_settled hsettled hswept).1
  simp only [prepare, hordered, hresolve, bind, Except.bind]
  exact lift_eq_ok_iff.mpr ⟨hresolved, rfl, hcanonical⟩

end Emitted

/-! ## Main statements -/

/-- **What is prepared becomes a statement.**  Wherever the sweeps of a plan stopped and whatever
aliases are in use, a prepared plan becomes a statement, and it has a text. -/
theorem emit_of_prepare_ok (model : Model) (options : Options) (plan prepared : Plan)
    (hprepare : plan.prepare model options = .ok prepared) :
    (∀ counters, ∃ statement, (prepared.statementFrom model counters).1 = .ok statement) ∧
      ∃ sql, prepared.emit model = .ok sql := by
  obtain ⟨set, hready⟩ := ready_of_prepare hprepare
  constructor
  · intro counters
    exact hready.statementFrom_ok counters
  · exact hready.emits

/-- The named dogs behind the first. -/
def namedDogs : Plan :=
  filter (.isNotNull (.column "Name"))
    (skip 1 (sort [⟨.column "Id", .asc⟩] (ofType "Dog" (source "Animals"))))

/-- Without a sweep the filter stays above the cut. -/
theorem emit_of_prepare_ok_namedDogs :
    ∃ prepared, namedDogs.prepare animalsModel { sweeps := 0 } = .ok prepared ∧
      (prepared.sweep .needsOrder).2 = true ∧
      (∀ counters, ∃ statement, (prepared.statementFrom animalsModel counters).1 = .ok statement) ∧
      ∃ sql, prepared.emit animalsModel = .ok sql :=
  ⟨_, rfl, by decide +kernel, emit_of_prepare_ok animalsModel { sweeps := 0 } namedDogs _ rfl⟩

/-- **A plan compiles exactly if it is accepted.**  If the sweeps of the resolved plan reach a plan
to which no rule applies, a plan is compiled if and only if every skip and take has a sort below it,
the entity set is known, every type filter stands on whole entities and makes sense over the entity
set, and each is of a type related to that of the next one above.  Where a skip or take has no sort
below it, the outermost such operator is reported, whatever else there is to report. -/
theorem compile_ok_iff_accepted (model : Model) (options : Options) (plan : Plan) :
    ((∀ resolved, (plan.adjust options.nulls).resolve model options.shaping = .ok resolved →
        ((sweepUpTo options.sweeps resolved).sweep .needsOrder).2 = false) →
      ((∃ sql, plan.compile model options = .ok sql) ↔
        (∀ q ∈ plan.subplans, ¬ q.Unsorted) ∧
          ∃ set, model.relation plan.relation = .ok set ∧ plan.TypesFit model set ∧
            Related model plan.askedTypes)) ∧
      ((∃ q ∈ plan.subplans, q.Unsorted) →
        ∃ q operator, plan.OutermostUnsorted q ∧ q.kind = operator.name ∧
          plan.compile model options = .error (.unordered operator)) := by
  have hresolved :
      (∃ resolved, (plan.adjust options.nulls).resolve model options.shaping = .ok resolved) ↔
        ∃ set, model.relation plan.relation = .ok set ∧ plan.TypesFit model set ∧
          Related model plan.askedTypes :=
    resolveUnder_adjust_ok_iff options.nulls fun hsome => absurd rfl hsome
  constructor
  · intro hsettled
    rw [← checkOrdered_ok_iff, ← hresolved]
    constructor
    · rintro ⟨sql, hcompile⟩
      obtain ⟨prepared, hprepare, -⟩ := exists_ok_of_bind_eq_ok hcompile
      obtain ⟨resolved, hresolve, -⟩ := prepare_eq_ok hprepare
      obtain ⟨_, hordered, -⟩ := exists_ok_of_bind_eq_ok hprepare
      exact ⟨hordered, resolved, hresolve⟩
    · rintro ⟨hordered, resolved, hresolve⟩
      have hprepare := prepare_ok_of_settled hordered hresolve (hsettled resolved hresolve)
      obtain ⟨set, hready⟩ := ready_of_prepare hprepare
      obtain ⟨sql, hsql⟩ := hready.emits
      refine ⟨sql, ?_⟩
      rw [compile, hprepare]
      exact hsql
  · rintro ⟨q, hq, hunsorted⟩
    have hcases := checkOrdered_cases plan
    cases hverdict : plan.checkOrdered with
    | ok _ => exact absurd hunsorted (checkOrdered_ok_iff.mp hverdict q hq)
    | error fault =>
      rw [hverdict] at hcases
      cases hcases with
      | @missing outermost operator h hkind =>
        refine ⟨outermost, operator, h, hkind, ?_⟩
        simp only [compile, prepare, hverdict, bind, Except.bind]

/-- The first of the dogs, asked for as animals once more. -/
def firstDog : Plan :=
  take 1 (ofType "Animal" (sort [⟨.column "Id", .asc⟩] (ofType "Dog" (source "Animals"))))

/-- A page of something unknown, without an order. -/
def unorderedPage : Plan :=
  take 3 (filter (.isNull (.column "Id")) (skip 1 (ofType "Bird" (source "Nowhere"))))

/-- A plan that is accepted, and one that is refused for its outermost take. -/
theorem compile_ok_iff_accepted_firstDog :
    (∃ sql, firstDog.compile animalsModel {} = .ok sql) ∧
      ∃ q, unorderedPage.OutermostUnsorted q ∧ q.kind = "Take" ∧
        unorderedPage.compile animalsModel {} = .error (.unordered .take) := by
  have hsettled : ∀ resolved,
      (firstDog.adjust .host).resolve animalsModel .uniform = .ok resolved →
        ((sweepUpTo defaultSweeps resolved).sweep .needsOrder).2 = false := by
    intro resolved hresolve
    obtain rfl := Except.ok.inj hresolve
    decide +kernel
  constructor
  · refine ((compile_ok_iff_accepted animalsModel {} firstDog).1 hsettled).mpr ⟨?_, _, rfl, ?_, ?_⟩
    · exact checkOrdered_ok_iff.mp rfl
    · intro subtype p hp
      simp only [firstDog, subplans, List.mem_cons, reduceCtorEq, ofType.injEq, List.not_mem_nil,
        or_false, false_or] at hp
      rcases hp with ⟨rfl, rfl⟩ | ⟨rfl, rfl⟩
      · exact ⟨by simp [subplans], by decide⟩
      · exact ⟨by simp [subplans], by decide⟩
    · decide
  · have hunsorted : unorderedPage.Unsorted := unsorted_take_iff.mpr rfl
    obtain ⟨q, operator, hq, hkind, herror⟩ :=
      (compile_ok_iff_accepted animalsModel {} unorderedPage).2 ⟨_, List.mem_cons_self, hunsorted⟩
    have htake : unorderedPage.compile animalsModel {} = .error (.unordered .take) := rfl
    obtain rfl : operator = .take := by
      simpa using herror.symm.trans htake
    exact ⟨q, hq, hkind, htake⟩

end Plan

end EntityQuery
