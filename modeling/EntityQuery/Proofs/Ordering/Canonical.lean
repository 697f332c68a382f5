/-
# The canonical form is reached

Restating the keys of a windowed stage adds an operator, so the size of a plan does not decrease
under lifting.  `Plan.weight` does: it gives every skip or take that the consumer needs in order the
credit for the one sort that may be restated above it, and once that sort is there the consumer of
the stage is `ordered` and the credit is used up.  The other rules merge operators or exchange them
in favour of the one that weighs less when it is outside.

* `Plan.weight_lt_of_step`: every step makes the plan lighter, hence sweeping ends
  (`Plan.exists_settled`);
* `Plan.canonical_of_settled`: a plan to which no rule applies is in canonical form;
* `Plan.lift_eventually_canonical`: lifting with enough sweeps gives one and the same plan, in
  canonical form.
-/
import EntityQuery.Proofs.Ordering.Step

namespace EntityQuery.Plan

open Relation

/-! ## Weight -/

/-- The credit of a skip or take for a sort that may still be restated above it. -/
def Consumer.credit : Consumer → ℕ
  | needsOrder => 2
  | ordered | window => 0

/-- The weight of a plan under a consumer. -/
def weight : Consumer → Plan → ℕ
  | _, source _ => 1
  | consumer, filter _ p | consumer, ofType _ p => 2 * weight consumer.through p
  | consumer, project _ p => 4 * weight consumer p
  | _, sort _ p => weight .ordered p + 1
  | consumer, skip _ p => 2 * weight .window p + 1 + consumer.credit
  | consumer, take _ p => weight .window p + 1 + consumer.credit

theorem Consumer.through_through (consumer : Consumer) :
    consumer.through.through = consumer.through := by
  cases consumer <;> rfl

theorem weight_pos (consumer : Consumer) (plan : Plan) : 0 < weight consumer plan := by
  induction plan generalizing consumer with
  | source relation => exact Nat.one_pos
  | filter predicate p ih | ofType subtype p ih =>
    have := ih consumer.through
    simp only [weight]
    omega
  | project columns p ih =>
    have := ih consumer
    simp only [weight]
    omega
  | sort keys p ih | skip count p ih | take count p ih =>
    simp only [weight]
    omega

/-- Every rule makes the plan lighter, whoever consumes it. -/
theorem weight_lt_of_rule {p q : Plan} (h : Rule p q) (consumer : Consumer) :
    weight consumer q < weight consumer p := by
  cases h with
  | fuseFilters outer inner p =>
    have := weight_pos consumer.through p
    simp only [weight, Consumer.through_through]
    omega
  | mergeProjections outer inner p =>
    have := weight_pos consumer p
    simp only [weight]
    omega
  | mergeSkips outer inner p | skipBelowTake count limit p | mergeTakes outer inner p =>
    have hcredit : Consumer.credit .window = 0 := rfl
    simp only [weight, hcredit]
    omega
  | sortOverFilter predicate keys p | sortOverType subtype keys p =>
    have hthrough : Consumer.through .ordered = .ordered := rfl
    simp only [weight, hthrough]
    omega
  | sortOverProjection columns keys p | projectionBelowSkip columns count p
  | projectionBelowTake columns count p | dropShadowedSort outer inner p =>
    simp only [weight]
    omega

/-- A restated sort weighs less than the credit it uses up. -/
theorem weight_restate_lt {p : Plan} {keys : List SortKey} (h : p.truncationKeys = some keys) :
    weight .needsOrder (sort keys p) < weight .needsOrder p := by
  cases p with
  | skip count p | take count p =>
    simp only [weight, Consumer.credit]
    omega
  | source | filter | project | sort | ofType => simp [truncationKeys] at h

/-- **Every step makes the plan lighter.** -/
theorem weight_lt_of_step {consumer : Consumer} {p q : Plan} (h : Step consumer p q) :
    weight consumer q < weight consumer p := by
  induction h with
  | rule h => exact weight_lt_of_rule h _
  | restate h => exact weight_restate_lt h
  | filter _ _ ih | ofType _ _ ih | project _ _ ih | sort _ _ ih | skip _ _ ih | take _ _ ih =>
    simp only [weight]
    omega

/-- So does every sweep in which a rule applied. -/
theorem weight_lt_of_steps {consumer : Consumer} {p q : Plan} (h : TransGen (Step consumer) p q) :
    weight consumer q < weight consumer p := by
  induction h with
  | single h => exact weight_lt_of_step h
  | tail _ h ih => exact Nat.lt_trans (weight_lt_of_step h) ih

/-! ## Settled plans -/

/-- No rule applies in a sweep of the plan. -/
def Settled (consumer : Consumer) (plan : Plan) : Prop :=
  (plan.sweep consumer).2 = false

/-- A sweep of a settled plan returns it. -/
theorem Settled.sweep_eq {consumer : Consumer} {plan : Plan} (h : Settled consumer plan) :
    plan.sweep consumer = (plan, false) := by
  have hreach := sweep_reaches consumer plan
  rcases hsweep : plan.sweep consumer with ⟨swept, applied⟩
  obtain rfl : applied = false := by simpa [Settled, hsweep] using h
  rw [hsweep] at hreach
  rw [show swept = plan from hreach]

/-- **Sweeping ends.**  With more sweeps than its weight, a plan arrives at one that is settled, and
the number of sweeps no longer matters. -/
theorem exists_settled (plan : Plan) :
    ∃ settled, Settled .needsOrder settled ∧
      ∀ limit, weight .needsOrder plan < limit → sweepUpTo limit plan = settled := by
  -- a sweep in which a rule applied leaves a lighter plan
  induction hw : weight .needsOrder plan using Nat.strongRecOn generalizing plan with
  | ind w ih =>
    have hreach := sweep_reaches .needsOrder plan
    rcases hsweep : plan.sweep .needsOrder with ⟨swept, applied⟩
    rw [hsweep] at hreach
    cases applied with
    | false =>
      obtain rfl : swept = plan := hreach
      refine ⟨swept, by rw [Settled, hsweep], fun limit hlimit => ?_⟩
      obtain ⟨limit, rfl⟩ := Nat.exists_eq_add_of_lt hlimit
      simp only [sweepUpTo, hsweep]
    | true =>
      have hlt : weight .needsOrder swept < w := hw ▸ weight_lt_of_steps hreach
      obtain ⟨settled, hsettled, hsame⟩ := ih _ hlt swept rfl
      refine ⟨settled, hsettled, fun limit hlimit => ?_⟩
      obtain ⟨limit, rfl⟩ := Nat.exists_eq_add_of_lt hlimit
      simp only [sweepUpTo, hsweep]
      exact hsame _ (by omega)

/-! ## What it takes to be settled -/

section Inversion

variable {consumer : Consumer} {p : Plan}

/-- No rule applied, here or before. -/
theorem settle_snd_eq_false {replacement : Option Plan} {unchanged : Plan} {applied : Bool} :
    (settle replacement unchanged applied).2 = false ↔ replacement = none ∧ applied = false := by
  cases replacement <;> simp [settle]

/-- Nothing is restated where order is not needed or there is no windowed stage. -/
theorem restate_snd_eq_false {swept : Plan × Bool} :
    (restate consumer swept).2 = false ↔
      swept.2 = false ∧ (consumer = .needsOrder → swept.1.truncationKeys = none) := by
  obtain ⟨plan, applied⟩ := swept
  cases consumer <;> cases hkeys : plan.truncationKeys <;> simp [restate, hkeys]

/-- An operator is settled if its input is and no rule is about the two. -/
theorem settled_iff {inner : Consumer} {f : Plan → Plan} {replace : Plan → Option Plan} :
    (settle (replace (p.sweep inner).1) (f (p.sweep inner).1) (p.sweep inner).2).2 = false ↔
      Settled inner p ∧ replace p = none := by
  rw [settle_snd_eq_false]
  constructor
  · rintro ⟨hreplace, happlied⟩
    have hp : Settled inner p := happlied
    rw [hp.sweep_eq] at hreplace
    exact ⟨hp, hreplace⟩
  · rintro ⟨hp, hreplace⟩
    rw [hp.sweep_eq]
    exact ⟨hreplace, rfl⟩

/-- A filter is settled if its input is and no rule applies to the two. -/
theorem settled_filter {predicate : Expr} : Settled consumer (filter predicate p) ↔
    Settled consumer.through p ∧ liftOverFilter? predicate p = none :=
  settled_iff

theorem settled_ofType {subtype : String} : Settled consumer (ofType subtype p) ↔
    Settled consumer.through p ∧ liftOverType? subtype p = none :=
  settled_iff

/-- A projection hands its consumer on. -/
theorem settled_project {columns : List OutputColumn} : Settled consumer (project columns p) ↔
    Settled consumer p ∧ liftOverProject? columns p = none :=
  settled_iff

/-- The input of a sort has its order from above. -/
theorem settled_sort {keys : List SortKey} : Settled consumer (sort keys p) ↔
    Settled .ordered p ∧ liftOverSort? keys p = none :=
  settled_iff

/-- A settled cut is also not restated. -/
theorem settled_restate_iff {f : Plan → Plan} {replace : Plan → Option Plan} :
    (restate consumer (settle (replace (p.sweep .window).1) (f (p.sweep .window).1)
      (p.sweep .window).2)).2 = false ↔
    Settled .window p ∧ replace p = none ∧
      (consumer = .needsOrder → (f p).truncationKeys = none) := by
  rw [restate_snd_eq_false, settled_iff, and_assoc]
  refine and_congr_right fun hp => and_congr_right fun hrule => ?_
  rw [hp.sweep_eq]
  simp only [hrule, settle]

/-- A skip must not wait for its keys to be restated either. -/
theorem settled_skip {count : UInt64} : Settled consumer (skip count p) ↔
    Settled .window p ∧ liftOverSkip? count p = none ∧
      (consumer = .needsOrder → (skip count p).truncationKeys = none) :=
  settled_restate_iff

theorem settled_take {count : UInt64} : Settled consumer (take count p) ↔
    Settled .window p ∧ liftOverTake? count p = none ∧
      (consumer = .needsOrder → (take count p).truncationKeys = none) :=
  settled_restate_iff

end Inversion

/-! ## Canonical form -/

/-- Whether the outermost operator stands on an input that it may stand on: a skip on a sort, a take
on a sort or on a skip over one, and no operator on one that it would merge with or change places
with. -/
def wellPlaced : Plan → Bool
  | filter _ (filter _ _) | filter _ (sort _ _) => false
  | ofType _ (sort _ _) => false
  | project _ (project _ _) | project _ (sort _ _) | project _ (skip _ _) | project _ (take _ _) =>
    false
  | sort _ (sort _ _) => false
  | skip _ (sort _ _) => true
  | skip _ _ => false
  | take _ (sort _ _) | take _ (skip _ (sort _ _)) => true
  | take _ _ => false
  | _ => true

/-- Whether every operator of the plan is well placed. -/
def canonical : Plan → Bool
  | source _ => true
  | filter predicate p => (filter predicate p).wellPlaced && p.canonical
  | project columns p => (project columns p).wellPlaced && p.canonical
  | sort keys p => (sort keys p).wellPlaced && p.canonical
  | skip count p => (skip count p).wellPlaced && p.canonical
  | take count p => (take count p).wellPlaced && p.canonical
  | ofType subtype p => (ofType subtype p).wellPlaced && p.canonical

/-- Whether the outermost operator is a skip or a take. -/
def isTruncation : Plan → Bool
  | skip _ _ | take _ _ => true
  | _ => false

/-- What a settled plan in some order shows its consumer: its sort, or to a skip or take also
another skip or take. -/
def Consumer.Meets : Consumer → Plan → Prop
  | needsOrder, p => p.isSort
  | window, p => p.isSort ∨ p.isTruncation
  | ordered, _ => True

/-- A skip needs an order below. -/
theorem checkOrdered_skip {count : UInt64} {p : Plan} :
    (skip count p).checkOrdered = .ok () ↔ p.orderSource.isSome ∧ p.checkOrdered = .ok () := by
  rw [checkOrdered]
  cases p.orderSource <;> simp

theorem checkOrdered_take {count : UInt64} {p : Plan} :
    (take count p).checkOrdered = .ok () ↔ p.orderSource.isSome ∧ p.checkOrdered = .ok () := by
  rw [checkOrdered]
  cases p.orderSource <;> simp

/-- A plan whose keys a cut uses is in some order. -/
theorem orderSource_of_truncationKeys {p : Plan} {keys : List SortKey}
    (h : p.truncationKeys = some keys) : p.orderSource = some keys := by
  unfold truncationKeys at h
  split at h
  · exact h
  · exact h
  · exact h
  · cases h

/-- Only a consumer that has its order from above is content with no sort below a row-wise
operator. -/
theorem Consumer.eq_ordered_of_meets_through {consumer : Consumer} {p : Plan}
    (h : consumer.through.Meets p) (hsort : p.isSort = false) : consumer = .ordered := by
  cases consumer with
  | needsOrder | window => exact absurd (hsort.symm.trans h) Bool.false_ne_true
  | ordered => rfl

/-- **A plan to which no rule applies is in canonical form**, and if it is in some order its
consumer finds the sort where it looks for it. -/
theorem canonical_of_settled {consumer : Consumer} {plan : Plan} (hsettled : Settled consumer plan)
    (hordered : plan.checkOrdered = .ok ()) :
    plan.canonical = true ∧ (plan.orderSource.isSome → consumer.Meets plan) := by
  induction plan generalizing consumer with
  | source relation => exact ⟨rfl, fun h => absurd h (by simp [orderSource])⟩
  | filter predicate p ih =>
    obtain ⟨hp, hrule⟩ := settled_filter.mp hsettled
    obtain ⟨hcanonical, hmeets⟩ := ih hp hordered
    have hshape : (filter predicate p).wellPlaced = true ∧ p.isSort = false := by
      cases p <;> simp_all [liftOverFilter?, wellPlaced, isSort]
    refine ⟨by rw [canonical, hshape.1, hcanonical]; rfl, fun hsome => ?_⟩
    obtain rfl := Consumer.eq_ordered_of_meets_through (hmeets hsome) hshape.2
    trivial
  | ofType subtype p ih =>
    obtain ⟨hp, hrule⟩ := settled_ofType.mp hsettled
    obtain ⟨hcanonical, hmeets⟩ := ih hp hordered
    have hshape : (ofType subtype p).wellPlaced = true ∧ p.isSort = false := by
      cases p <;> simp_all [liftOverType?, wellPlaced, isSort]
    refine ⟨by rw [canonical, hshape.1, hcanonical]; rfl, fun hsome => ?_⟩
    obtain rfl := Consumer.eq_ordered_of_meets_through (hmeets hsome) hshape.2
    trivial
  | project columns p ih =>
    obtain ⟨hp, hrule⟩ := settled_project.mp hsettled
    obtain ⟨hcanonical, hmeets⟩ := ih hp hordered
    have hshape : (project columns p).wellPlaced = true ∧ p.isSort = false ∧
        p.isTruncation = false := by
      cases p <;> simp_all [liftOverProject?, wellPlaced, isSort, isTruncation]
    refine ⟨by rw [canonical, hshape.1, hcanonical]; rfl, fun hsome => ?_⟩
    have hmeet := hmeets hsome
    cases consumer <;> simp_all [Consumer.Meets]
  | sort keys p ih =>
    obtain ⟨hp, hrule⟩ := settled_sort.mp hsettled
    obtain ⟨hcanonical, -⟩ := ih hp hordered
    have hshape : (sort keys p).wellPlaced = true := by
      cases p <;> simp_all [liftOverSort?, wellPlaced]
    refine ⟨by rw [canonical, hshape, hcanonical]; rfl, fun _ => ?_⟩
    cases consumer <;> simp [Consumer.Meets, isSort]
  | skip count p ih =>
    obtain ⟨hsome, hp'⟩ := checkOrdered_skip.mp hordered
    obtain ⟨hp, hrule, hrestate⟩ := settled_skip.mp hsettled
    obtain ⟨hcanonical, hmeets⟩ := ih hp hp'
    have hmeet := hmeets hsome
    obtain ⟨keys, q, rfl⟩ : ∃ keys q, p = sort keys q := by
      cases p <;> simp_all [liftOverSkip?, Consumer.Meets, isSort, isTruncation]
    refine ⟨by rw [canonical, hcanonical]; rfl, fun _ => ?_⟩
    cases consumer with
    | needsOrder => exact absurd (hrestate rfl) (by simp [truncationKeys])
    | ordered => trivial
    | window => exact Or.inr rfl
  | take count p ih =>
    obtain ⟨hsome, hp'⟩ := checkOrdered_take.mp hordered
    obtain ⟨hp, hrule, hrestate⟩ := settled_take.mp hsettled
    obtain ⟨hcanonical, hmeets⟩ := ih hp hp'
    have hmeet := hmeets hsome
    have hshape : (take count p).wellPlaced = true ∧ (take count p).truncationKeys.isSome := by
      cases p with
      | sort keys q => exact ⟨rfl, rfl⟩
      | skip offset q =>
        -- the skip is itself well placed, so a sort stands below it
        have hskip : (skip offset q).wellPlaced = true := by
          rw [canonical, Bool.and_eq_true] at hcanonical
          exact hcanonical.1
        cases q <;> simp_all [wellPlaced, truncationKeys]
      | source | filter | project | take | ofType =>
        simp_all [liftOverTake?, Consumer.Meets, isSort, isTruncation]
    refine ⟨by rw [canonical, hshape.1, hcanonical]; rfl, fun _ => ?_⟩
    cases consumer with
    | needsOrder =>
      have := hrestate rfl
      simp [this] at hshape
    | ordered => trivial
    | window => exact Or.inr rfl

/-- A canonical plan passes the check for canonical form. -/
theorem checkCanonical_of_canonical {plan : Plan} (h : plan.canonical = true) :
    plan.checkCanonical = .ok () := by
  induction plan with
  | source relation => rfl
  | filter predicate p ih | project columns p ih | sort keys p ih | ofType subtype p ih =>
    rw [canonical, Bool.and_eq_true] at h
    exact ih h.2
  | skip count p ih =>
    rw [canonical, Bool.and_eq_true] at h
    have hsort : p.isSort = true := by
      cases p <;> simp_all [wellPlaced, isSort]
    rw [checkCanonical, if_pos hsort]
    exact ih h.2
  | take count p ih =>
    rw [canonical, Bool.and_eq_true] at h
    have hkeys : (take count p).truncationKeys.isSome = true := by
      unfold wellPlaced at h
      split at h <;> simp_all [truncationKeys]
    rw [checkCanonical, if_pos hkeys]
    exact ih h.2

/-! ## Order is kept -/

/-- A step neither makes nor loses the order of a plan. -/
theorem orderSource_isSome_of_step {consumer : Consumer} {p q : Plan} (h : Step consumer p q) :
    q.orderSource.isSome = p.orderSource.isSome := by
  induction h with
  | rule h => cases h <;> rfl
  | restate h => rw [orderSource_of_truncationKeys h]; rfl
  | filter _ _ ih | ofType _ _ ih | project _ _ ih | skip _ _ ih | take _ _ ih => exact ih
  | sort => rfl

/-- A step leaves a sort below every skip and take. -/
theorem checkOrdered_of_step {consumer : Consumer} {p q : Plan} (h : Step consumer p q)
    (hp : p.checkOrdered = .ok ()) : q.checkOrdered = .ok () := by
  induction h with
  | rule h =>
    cases h with
    | mergeSkips outer inner p => exact (checkOrdered_skip.mp hp).2
    | skipBelowTake count limit p =>
      obtain ⟨-, htake⟩ := checkOrdered_skip.mp hp
      obtain ⟨hsome, hp'⟩ := checkOrdered_take.mp htake
      exact checkOrdered_take.mpr ⟨hsome, checkOrdered_skip.mpr ⟨hsome, hp'⟩⟩
    | mergeTakes outer inner p => exact (checkOrdered_take.mp hp).2
    | fuseFilters | sortOverFilter | sortOverType | mergeProjections | sortOverProjection
    | projectionBelowSkip | projectionBelowTake | dropShadowedSort => exact hp
  | restate h => exact hp
  | filter _ _ ih | ofType _ _ ih | project _ _ ih | sort _ _ ih => exact ih hp
  | skip count h ih =>
    rw [checkOrdered_skip] at hp ⊢
    exact ⟨orderSource_isSome_of_step h ▸ hp.1, ih hp.2⟩
  | take count h ih =>
    rw [checkOrdered_take] at hp ⊢
    exact ⟨orderSource_isSome_of_step h ▸ hp.1, ih hp.2⟩

/-- What sweeps keep: an ordered plan stays ordered, and its order is not lost. -/
theorem ordered_sweepUpTo {plan : Plan} (hordered : plan.checkOrdered = .ok ()) (limit : ℕ) :
    (sweepUpTo limit plan).checkOrdered = .ok () ∧
      (sweepUpTo limit plan).orderSource.isSome = plan.orderSource.isSome := by
  have hsteps := sweepUpTo_steps limit plan
  generalize sweepUpTo limit plan = swept at hsteps
  induction hsteps with
  | refl => exact ⟨hordered, rfl⟩
  | tail _ h ih => exact ⟨checkOrdered_of_step h ih.1, (orderSource_isSome_of_step h).trans ih.2⟩

/-- A settled plan in some order has its sort outermost. -/
theorem isSort_of_settled {plan : Plan} (hsettled : Settled .needsOrder plan)
    (hordered : plan.checkOrdered = .ok ()) (hsome : plan.orderSource.isSome) :
    plan.isSort = true :=
  (canonical_of_settled hsettled hordered).2 hsome

/-! ## Main statement -/

/-- **The canonical form is reached.**  For every ordered plan there is a number of sweeps from
which on lifting succeeds with one and the same plan; another sweep of that plan applies no rule, it
is in canonical form, and its outermost operator is a sort whenever the plan was in some order. -/
theorem lift_eventually_canonical (plan : Plan) (hordered : plan.checkOrdered = .ok ()) :
    ∃ (enough : ℕ) (lifted : Plan), (∀ limit ≥ enough, plan.lift limit = .ok lifted) ∧
      lifted.sweep .needsOrder = (lifted, false) ∧ lifted.canonical = true ∧
      (plan.orderSource.isSome → lifted.isSort = true) := by
  obtain ⟨lifted, hsettled, hsame⟩ := exists_settled plan
  have hlast := hsame (weight .needsOrder plan + 1) (Nat.lt_succ_self _)
  obtain ⟨hlifted, hsome⟩ := ordered_sweepUpTo hordered (weight .needsOrder plan + 1)
  rw [hlast] at hlifted hsome
  have hcanonical := (canonical_of_settled hsettled hlifted).1
  refine ⟨weight .needsOrder plan + 1, lifted, fun limit hlimit => ?_, hsettled.sweep_eq,
    hcanonical, fun h => isSort_of_settled hsettled hlifted (hsome ▸ h)⟩
  rw [lift_eq_ok_iff]
  exact ⟨hordered, (hsame limit (by omega)).symm, checkCanonical_of_canonical hcanonical⟩

/-- A page of a projection that is filtered. -/
theorem lift_eventually_canonical_page :
    let plan := filter (.isNotNull (.column "Name")) (skip 1 (take 7 (project
      [.passThrough "Name"] (skip 2 (sort [⟨.column "Id", .desc⟩] (sort [] (source "Owners")))))))
    plan.checkOrdered = .ok () ∧
      ∃ (enough : ℕ) (lifted : Plan), (∀ limit ≥ enough, plan.lift limit = .ok lifted) ∧
        lifted.sweep .needsOrder = (lifted, false) ∧ lifted.canonical = true ∧
        (plan.orderSource.isSome → lifted.isSort = true) :=
  ⟨rfl, lift_eventually_canonical _ rfl⟩

end EntityQuery.Plan
