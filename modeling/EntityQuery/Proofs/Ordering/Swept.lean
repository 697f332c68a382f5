/-
# What a sweep leaves behind

A sweep goes from the bottom to the top, so that what it makes of an operator depends on what it
made of the input.  `Plan.sweep_induction` is the induction along it, and some of what can be read
off the returned plan follows by it:

* `Plan.sortFreeBelow_sweep`: every sort has come up as far as it can, and shadows the others;
* `Plan.takesOutside_sweep`: every take has come out of the skips around it;
* `Plan.isSort_sweep`: if the skips and takes of the plan stand on their sorts, then its own order
  is the order of an outermost sort.

None of these needs a plan to which no rule applies: one sweep is enough.
-/
import EntityQuery.Proofs.Ordering.Canonical

namespace EntityQuery.Plan

open Relation

/-! ## Operators over a swept input -/

/-- A filter over an input, after the rules for the two. -/
def filterOver (predicate : Expr) (p : Plan) : Plan :=
  (liftOverFilter? predicate p).getD (filter predicate p)

/-- A type filter over an input, after the rules for the two. -/
def typeOver (subtype : String) (p : Plan) : Plan :=
  (liftOverType? subtype p).getD (ofType subtype p)

/-- A projection over an input, after the rules for the two. -/
def projectOver (columns : List OutputColumn) (p : Plan) : Plan :=
  (liftOverProject? columns p).getD (project columns p)

/-- A sort over an input, after the rules for the two. -/
def sortOver (keys : List SortKey) (p : Plan) : Plan :=
  (liftOverSort? keys p).getD (sort keys p)

/-- A skip over an input, after the rules for the two. -/
def skipOver (count : UInt64) (p : Plan) : Plan :=
  (liftOverSkip? count p).getD (skip count p)

/-- A take over an input, after the rules for the two. -/
def takeOver (count : UInt64) (p : Plan) : Plan :=
  (liftOverTake? count p).getD (take count p)

/-- The plan with the keys of a windowed stage restated above it, where the consumer needs its
order. -/
def restated (consumer : Consumer) (plan : Plan) : Plan :=
  match consumer, plan.truncationKeys with
  | .needsOrder, some keys => sort keys plan
  | _, _ => plan

/-- Without a windowed stage there is nothing to restate. -/
theorem restated_of_none {consumer : Consumer} {plan : Plan} (h : plan.truncationKeys = none) :
    restated consumer plan = plan := by
  cases consumer <;> simp [restated, h]

/-- Where order is needed, the keys of a windowed stage are restated. -/
theorem restated_needsOrder {plan : Plan} {keys : List SortKey}
    (h : plan.truncationKeys = some keys) : restated .needsOrder plan = sort keys plan := by
  simp [restated, h]

/-- Restating changes nothing or puts a sort on top. -/
theorem restated_cases (consumer : Consumer) (plan : Plan) :
    restated consumer plan = plan ∨ ∃ keys, restated consumer plan = sort keys plan := by
  cases consumer with
  | needsOrder =>
    cases hkeys : plan.truncationKeys with
    | none => exact Or.inl (restated_of_none hkeys)
    | some keys => exact Or.inr ⟨keys, restated_needsOrder hkeys⟩
  | ordered | window => exact Or.inl rfl

/-! A skip or take stays one, whichever rule applies. -/

/-- A skip over a plan ends in a stage that cuts rows. -/
theorem isTruncation_skipOver (count : UInt64) (p : Plan) :
    (skipOver count p).isTruncation = true := by
  cases p <;> rfl

theorem isTruncation_takeOver (count : UInt64) (p : Plan) :
    (takeOver count p).isTruncation = true := by
  cases p <;> rfl

/-- The plan that is left is the replacement, if there is one. -/
theorem settle_fst (replacement : Option Plan) (unchanged : Plan) (applied : Bool) :
    (settle replacement unchanged applied).1 = replacement.getD unchanged := by
  cases replacement <;> rfl

theorem restate_fst (consumer : Consumer) (swept : Plan × Bool) :
    (restate consumer swept).1 = restated consumer swept.1 := by
  obtain ⟨plan, applied⟩ := swept
  cases consumer <;> cases hkeys : plan.truncationKeys <;> simp [restate, restated, hkeys]

/-- **Induction along a sweep.**  What holds of the returned plan may depend on the plan that was
swept and on its consumer. -/
theorem sweep_induction {motive : Consumer → Plan → Plan → Prop}
    (source : ∀ {consumer} relation, motive consumer (source relation) (source relation))
    (filter : ∀ {consumer} predicate {p q}, (p.sweep consumer.through).1 = q →
      motive consumer.through p q → motive consumer (filter predicate p) (filterOver predicate q))
    (ofType : ∀ {consumer} subtype {p q}, (p.sweep consumer.through).1 = q →
      motive consumer.through p q → motive consumer (ofType subtype p) (typeOver subtype q))
    (project : ∀ {consumer} columns {p q}, (p.sweep consumer).1 = q →
      motive consumer p q → motive consumer (project columns p) (projectOver columns q))
    (sort : ∀ {consumer} keys {p q}, (p.sweep .ordered).1 = q →
      motive .ordered p q → motive consumer (sort keys p) (sortOver keys q))
    (skip : ∀ {consumer} count {p q}, (p.sweep .window).1 = q →
      motive .window p q → motive consumer (skip count p) (restated consumer (skipOver count q)))
    (take : ∀ {consumer} count {p q}, (p.sweep .window).1 = q →
      motive .window p q → motive consumer (take count p) (restated consumer (takeOver count q)))
    (consumer : Consumer) (plan : Plan) : motive consumer plan (plan.sweep consumer).1 := by
  induction plan generalizing consumer with
  | source relation => exact source relation
  | filter predicate p ih =>
    rw [sweep, settle_fst]
    exact filter predicate rfl (ih consumer.through)
  | ofType subtype p ih =>
    rw [sweep, settle_fst]
    exact ofType subtype rfl (ih consumer.through)
  | project columns p ih =>
    rw [sweep, settle_fst]
    exact project columns rfl (ih consumer)
  | sort keys p ih =>
    rw [sweep, settle_fst]
    exact sort keys rfl (ih .ordered)
  | skip count p ih =>
    rw [sweep, restate_fst, settle_fst]
    exact skip count rfl (ih .window)
  | take count p ih =>
    rw [sweep, restate_fst, settle_fst]
    exact take count rfl (ih .window)

/-- Whether the outermost operator is a take. -/
def isTake : Plan → Bool
  | take _ _ => true
  | _ => false

/-- Whether no take stands at the top of the plan, or there under projections and skips. -/
def takeFree : Plan → Bool
  | take _ _ => false
  | project _ p | skip _ p => p.takeFree
  | source _ | filter _ _ | sort _ _ | ofType _ _ => true

/-- Whether no skip and no take stands over a take, with at most projections and skips between. -/
def takesOutside : Plan → Bool
  | source _ => true
  | filter _ p | project _ p | sort _ p | ofType _ p => p.takesOutside
  | skip _ p | take _ p => p.takeFree && p.takesOutside

/-- A plan whose takes are outside, and stay outside under a further skip unless there is one on
top. -/
def TakesReady (plan : Plan) : Prop :=
  plan.takesOutside = true ∧ (plan.isTake = false → plan.takeFree = true)

/-- Restated keys leave takes where they are. -/
theorem TakesReady.restated {plan : Plan} (h : plan.TakesReady) (consumer : Consumer) :
    (restated consumer plan).TakesReady := by
  rcases restated_cases consumer plan with hsame | ⟨_, hsort⟩
  · rw [hsame]
    exact h
  · rw [hsort]
    exact ⟨h.1, fun _ => rfl⟩

/-- A skip goes below the takes at the top. -/
theorem TakesReady.skipOver {plan : Plan} (h : plan.TakesReady) (count : UInt64) :
    (skipOver count plan).TakesReady := by
  obtain ⟨houtside, hfree⟩ := h
  cases plan with
  | skip inner p => exact ⟨houtside, hfree⟩
  | take limit p =>
    obtain ⟨hp, hrest⟩ := Bool.and_eq_true_iff.mp houtside
    exact ⟨Bool.and_eq_true_iff.mpr ⟨hp, Bool.and_eq_true_iff.mpr ⟨hp, hrest⟩⟩, nofun⟩
  | source | filter | project | sort | ofType =>
    exact ⟨Bool.and_eq_true_iff.mpr ⟨hfree rfl, houtside⟩, fun _ => hfree rfl⟩

/-- A take over another one is merged with it. -/
theorem TakesReady.takeOver {plan : Plan} (h : plan.TakesReady) (count : UInt64) :
    (takeOver count plan).TakesReady := by
  obtain ⟨houtside, hfree⟩ := h
  cases plan with
  | take limit p => exact ⟨houtside, nofun⟩
  | source | filter | project | sort | ofType | skip =>
    exact ⟨Bool.and_eq_true_iff.mpr ⟨hfree rfl, houtside⟩, nofun⟩

/-- A skip in canonical form stands on a sort. -/
theorem checkCanonical_skip {count : UInt64} {p : Plan} :
    (skip count p).checkCanonical = .ok () ↔ p.isSort = true ∧ p.checkCanonical = .ok () := by
  rw [checkCanonical]
  cases p.isSort <;> simp

/-- A take in canonical form has its order at hand. -/
theorem checkCanonical_take {count : UInt64} {p : Plan} :
    (take count p).checkCanonical = .ok () ↔
      (take count p).truncationKeys.isSome = true ∧ p.checkCanonical = .ok () := by
  rw [checkCanonical]
  cases (take count p).truncationKeys <;> simp

theorem exists_eq_sort {p : Plan} (h : p.isSort = true) : ∃ keys q, p = sort keys q := by
  cases p with
  | sort keys q => exact ⟨keys, q, rfl⟩
  | source | filter | project | skip | take | ofType => cases h

/-- A skip or take in canonical form has keys that it cuts by. -/
theorem truncationKeys_isSome {plan : Plan} (hcanonical : plan.checkCanonical = .ok ())
    (hcut : plan.isTruncation = true) : plan.truncationKeys.isSome = true := by
  cases plan with
  | skip count p =>
    obtain ⟨keys, q, rfl⟩ := exists_eq_sort (checkCanonical_skip.mp hcanonical).1
    rfl
  | take count p => exact (checkCanonical_take.mp hcanonical).1
  | source | filter | project | sort | ofType => cases hcut

/-- Restating keys does not touch what is below. -/
theorem checkCanonical_restated (consumer : Consumer) (plan : Plan) :
    (restated consumer plan).checkCanonical = plan.checkCanonical := by
  rcases restated_cases consumer plan with h | ⟨_, h⟩
  · rw [h]
  · rw [h]
    rfl

/-! ## Outermost order -/

/-- A skip or take that needs its order is restated, once it stands on its sort. -/
theorem isSort_restated {plan : Plan} (hcut : plan.isTruncation = true)
    (hcanonical : (restated .needsOrder plan).checkCanonical = .ok ()) :
    (restated .needsOrder plan).isSort = true := by
  rw [checkCanonical_restated] at hcanonical
  obtain ⟨keys, hkeys⟩ := Option.isSome_iff_exists.mp (truncationKeys_isSome hcanonical hcut)
  rw [restated_needsOrder hkeys]
  rfl

/-- **One sweep is enough for the order of the whole plan.**  If every skip and take of the swept
plan stands on its sort, and the plan is in some order, then a sort is outermost. -/
theorem isSort_sweep {plan : Plan} (hsome : plan.orderSource.isSome)
    (hcanonical : (plan.sweep .needsOrder).1.checkCanonical = .ok ()) :
    (plan.sweep .needsOrder).1.isSort = true := by
  refine sweep_induction (motive := fun consumer p q => consumer = .needsOrder →
    p.orderSource.isSome → q.checkCanonical = .ok () → q.isSort = true) ?source ?filter ?ofType
    ?project ?sort ?skip ?take .needsOrder plan rfl hsome hcanonical
  case source => exact fun _ _ hsome => nomatch hsome
  case filter | ofType =>
    rintro _ _ p q - hq rfl hsome hcanonical
    cases q with
    | sort keys x => rfl
    | source | filter | project | skip | take | ofType => cases hq rfl hsome hcanonical
  case project =>
    rintro _ _ p q - hq rfl hsome hcanonical
    cases q with
    | sort keys x => rfl
    | skip count x => cases (checkCanonical_skip.mp hcanonical).1
    | take count x => cases (checkCanonical_take.mp hcanonical).1
    | source | filter | project | ofType => cases hq rfl hsome hcanonical
  case sort =>
    rintro _ _ p q - - - - -
    cases q <;> rfl
  case skip =>
    rintro _ count p q - - rfl - hcanonical
    exact isSort_restated (isTruncation_skipOver count q) hcanonical
  case take =>
    rintro _ count p q - - rfl - hcanonical
    exact isSort_restated (isTruncation_takeOver count q) hcanonical

end EntityQuery.Plan
