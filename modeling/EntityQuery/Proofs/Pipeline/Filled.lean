/-
# Pipelines have no empty lists

The grammar asks for one column at least behind `select` and one key behind `order`, and it has no
membership tests.  So a plan that is read from text is `Filled`.

* `yields_expression`: what is read as an expression has no empty list in it;
* `yields_stage`: a stage that is put on a plan leaves it filled;
* `Plan.filled_of_parse`: what is read as a pipeline has no empty list.
-/
import EntityQuery.Proofs.Filled
import EntityQuery.Proofs.Pipeline.Stages

namespace EntityQuery.Pipeline

open Text Reader

/-- Whatever is read has a property. -/
def Yields {α : Type} (P : α → Prop) (p : Reader α) : Prop :=
  ∀ ⦃cs a rest⦄, p cs = .read a rest → P a

namespace Yields

variable {α β : Type} {P : α → Prop} {Q : β → Prop} {p q : Reader α} {f : α → Reader β}

theorem any (p : Reader α) : Yields (fun _ => True) p :=
  fun _ _ _ _ => trivial

theorem pure {a : α} (h : P a) : Yields P (Pure.pure a : Reader α) := by
  intro cs b rest hread
  obtain ⟨rfl, -⟩ := Reading.read.inj hread
  exact h

/-- What a sequence reads is what its second reader reads, knowing what the first one has read. -/
theorem bind (hp : Yields P p) (hf : ∀ a, P a → Yields Q (f a)) : Yields Q (p >>= f) := by
  intro cs b rest h
  obtain ⟨a, mid, hread, hmid⟩ := bind_eq_read_iff.mp h
  exact hf a (hp hread) hmid

/-- What is read keeps a property that the change to it respects. -/
theorem map {g : α → β} (hp : Yields P p) (h : ∀ a, P a → Q (g a)) : Yields Q (g <$> p) :=
  hp.bind fun a ha => pure (h a ha)

/-- What is read comes from one of the two alternatives. -/
theorem orElse (hp : Yields P p) (hq : Yields P q) : Yields P (p <|> q) := by
  intro cs a rest h
  rcases orElse_eq_read h with hread | hread
  · exact hp hread
  · exact hq hread

/-- An optional part has the property if it is there. -/
theorem optional (hp : Yields P p) : Yields (fun found => ∀ a ∈ found, P a) (optional p) := by
  refine (hp.map fun a ha => ?_).orElse (pure fun a ha => by cases ha)
  rintro _ ⟨⟩
  exact ha

/-- The induction is on the length of the text. -/
theorem many (hp : Yields P p) : Yields (fun found => ∀ a ∈ found, P a) (many p) := by
  intro cs found rest h
  induction hlength : cs.length using Nat.strong_induction_on generalizing cs found with
  | h n ih =>
    rw [many_eq] at h
    cases hread : p cs with
    | refused left =>
      rw [hread] at h
      obtain ⟨rfl, -⟩ := Reading.read.inj h
      simp
    | read a mid =>
      rw [hread] at h
      simp only [Reading.andThen] at h
      split at h
      next hlt =>
        obtain ⟨others, behind, hothers, hcons⟩ := bind_eq_read_iff.mp h
        obtain ⟨rfl, rfl⟩ := Reading.read.inj hcons
        exact List.forall_mem_cons.mpr ⟨hp hread, ih mid.length (hlength ▸ hlt) hothers rfl⟩
      next => cases h
    | stopped | unfinished | broken =>
      rw [hread] at h
      cases h

end Yields

/-! ## Expressions -/

section Expressions

variable {nested next : Reader Expr}

/-- An operand is an expression in brackets, a value or a column. -/
theorem yields_operand (hnested : Yields Expr.Filled nested) :
    Yields Expr.Filled (operand nested) := by
  have hbrackets : Yields Expr.Filled (inBrackets nested) :=
    (Yields.any _).bind fun _ _ => (Yields.any _).bind fun _ _ => hnested.bind fun e he =>
      (Yields.any _).bind fun _ _ => (Yields.any _).bind fun _ _ => .pure he
  exact hbrackets.orElse <| ((Yields.any _).map fun v _ => Expr.filled_literal v).orElse <|
    (Yields.any _).map fun column _ => Expr.filled_column column

/-- Operands joined by operators. -/
theorem Yields.chain {operator : Reader Op} (hnext : Yields Expr.Filled next) :
    Yields Expr.Filled (chain operator next) := by
  have hothers : Yields (fun other : Op × Expr => other.2.Filled)
      (operator >>= fun op => next >>= fun right => Pure.pure (op, right)) :=
    (Yields.any _).bind fun op _ => hnext.bind fun right hright => .pure hright
  refine hnext.bind fun first hfirst => hothers.many.bind fun others hothers => .pure ?_
  induction others generalizing first with
  | nil => exact hfirst
  | cons other others ih =>
    obtain ⟨hright, hothers⟩ := List.forall_mem_cons.mp hothers
    exact ih _ (Expr.filled_binary.mpr ⟨hfirst, hright⟩) hothers

/-- A comparison is a null test of a sum, two sums or a single one. -/
theorem yields_comparison (hnested : Yields Expr.Filled nested) :
    Yields Expr.Filled (comparison nested) := by
  have hsum : Yields Expr.Filled (sum nested) := (yields_operand hnested).chain.chain
  have hcompared : Yields (fun compared : Op × Expr => compared.2.Filled) (comparedTo nested) :=
    (Yields.any _).bind fun op _ => hsum.bind fun right hright => .pure hright
  refine hsum.bind fun left hleft => (Yields.any _).bind fun test _ => ?_
  cases test with
  | some negated => cases negated <;> exact .pure hleft
  | none =>
    refine hcompared.optional.bind fun compared hright => ?_
    cases compared with
    | some compared => exact .pure (Expr.filled_binary.mpr ⟨hleft, hright compared rfl⟩)
    | none => exact .pure hleft

/-- A negation adds no list of values to what it negates. -/
theorem yields_negationUpTo (hnested : Yields Expr.Filled nested) (limit : Nat) :
    Yields Expr.Filled (negationUpTo nested limit) := by
  have hcomparison := yields_comparison hnested
  induction limit with
  | zero => exact hcomparison
  | succ limit ih =>
    refine Yields.orElse ?_ hcomparison
    exact (Yields.any _).bind fun _ _ => (Yields.any _).bind fun _ _ =>
      ih.map fun e he => Expr.filled_not.mpr he

/-- By induction on the depth of brackets. -/
theorem yields_expressionUpTo (depth : Nat) : Yields Expr.Filled (expressionUpTo depth) := by
  induction depth with
  | zero =>
    intro cs e rest h
    cases h
  | succ depth ih =>
    have hnegation : Yields Expr.Filled (negation (expressionUpTo depth)) :=
      fun cs _ _ h => yields_negationUpTo ih cs.length h
    exact hnegation.chain.chain

/-- **An expression that is read has no empty list in it.** -/
theorem yields_expression : Yields Expr.Filled expression :=
  fun cs _ _ h => yields_expressionUpTo (cs.length + 1) h

end Expressions

/-! ## Stages -/

/-- A list that is read has an item. -/
theorem Yields.items {α : Type} {P : α → Prop} {item : Reader α} (hitem : Yields P item) :
    Yields (fun found => found ≠ [] ∧ ∀ a ∈ found, P a) (items item) := by
  have hother : Yields P (comma >>= fun _ => item) := (Yields.any _).bind fun _ _ => hitem
  refine hitem.bind fun first hfirst => hother.many.bind fun others hothers => .pure ?_
  exact ⟨List.cons_ne_nil _ _, List.forall_mem_cons.mpr ⟨hfirst, hothers⟩⟩

/-- A selection is given by an expression that was read. -/
theorem yields_selection : Yields (fun chosen => chosen.1.Filled) selection :=
  yields_expression.bind fun _ he => (Yields.any _).bind fun _ _ => .pure he

theorem yields_sortKey : Yields (fun key => key.expr.Filled) sortKey :=
  yields_expression.bind fun _ he => (Yields.any _).bind fun _ _ => .pure he

/-- There is a sort key at least, and each is filled. -/
theorem yields_sortKeys : Yields KeysFilled sortKeys := by
  have hkeys : Yields KeysFilled (items sortKey) := fun _ _ _ h => by
    obtain ⟨hsome, hfilled⟩ := yields_sortKey.items h
    exact ⟨hsome, hfilled⟩
  exact (Yields.any _).bind fun _ _ => hkeys

/-- Every selection becomes a column that can be seen. -/
theorem map_outputColumns (unnamed : Nat) (chosen : List (Expr × Option String)) :
    (outputColumns unnamed chosen).map (fun c => (c.expr, c.hidden)) =
      chosen.map fun s => (s.1, false) := by
  fun_induction outputColumns unnamed chosen with
  | case1 => rfl
  | case2 _ e name others ih | case3 _ name others ih | case4 _ e others _ ih =>
    rw [List.map_cons, List.map_cons, ih]

/-- A projection that was read has a column to be seen, and each column is filled. -/
theorem columnsFilled_outputColumns {chosen : List (Expr × Option String)} (hsome : chosen ≠ [])
    (h : ∀ s ∈ chosen, s.1.Filled) (unnamed : Nat) :
    ColumnsFilled (outputColumns unnamed chosen) := by
  have hmap := map_outputColumns unnamed chosen
  constructor
  · obtain ⟨s, others, rfl⟩ := List.exists_cons_of_ne_nil hsome
    have hmem : (s.1, false) ∈ (outputColumns unnamed (s :: others)).map fun c =>
        (c.expr, c.hidden) := by
      rw [hmap]
      exact List.mem_cons_self
    obtain ⟨c, hc, heq⟩ := List.mem_map.mp hmem
    have hshown : c ∈ (outputColumns unnamed (s :: others)).filter fun c => !c.hidden := by
      rw [List.mem_filter, (Prod.mk.inj heq).2]
      exact ⟨hc, rfl⟩
    exact List.ne_nil_of_mem (List.mem_map_of_mem hshown)
  · intro c hc
    have hmem : (c.expr, c.hidden) ∈ chosen.map fun s => (s.1, false) := by
      rw [← hmap]
      exact List.mem_map_of_mem hc
    obtain ⟨s, hs, heq⟩ := List.mem_map.mp hmem
    rw [← (Prod.mk.inj heq).1]
    exact h s hs

/-- An argument has the property that its reader gives it. -/
theorem Yields.argument {α : Type} {P : α → Prop} {reader : Reader α} (hreader : Yields P reader)
    (text : String) : Yields P (argument text reader) :=
  (Yields.any _).bind fun _ _ => (Yields.any _).bind fun _ _ => hreader

/-- A stage that leaves every filled plan filled. -/
def KeepsFilled (stage : Stage) : Prop :=
  ∀ p : Plan, p.Filled → (Stage.apply p stage).Filled

/-- **Every stage leaves a plan filled.** -/
theorem yields_stage : Yields KeepsFilled stage := by
  refine ((yields_expression.argument "where").map fun e he p hp => ?_).orElse <|
    ((yields_selection.items.argument "select").map fun chosen hchosen p hp => ?_).orElse <|
      ((yields_sortKeys.argument "order").map fun keys hkeys p hp => ?_).orElse <|
        ((Yields.any _).map fun n _ p hp => ?_).orElse <|
          ((Yields.any _).map fun n _ p hp => ?_).orElse <|
            (Yields.any _).map fun subtype _ p hp => ?_
  · exact ⟨he, hp⟩
  · exact ⟨columnsFilled_outputColumns hchosen.1 hchosen.2 0, hp⟩
  · exact ⟨hkeys, hp⟩
  · exact hp
  · exact hp
  · exact hp

/-- Every stage of a pipeline leaves a plan filled. -/
theorem Staged.keepsFilled {cs rest : List Char} {stages : List Stage} (h : Staged cs stages rest) :
    ∀ stage ∈ stages, KeepsFilled stage := by
  induction h with
  | done => simp
  | more _ hstage _ ih => exact List.forall_mem_cons.mpr ⟨yields_stage hstage, ih⟩

end EntityQuery.Pipeline

namespace EntityQuery

open Pipeline

/-- **A pipeline has no empty list.** -/
theorem Plan.filled_of_parse {text : String} {plan : Plan} (h : Plan.parse text = .ok plan) :
    plan.Filled := by
  obtain ⟨relation, rest, stages, last, -, hstages, -, rfl⟩ := parse_eq_ok_iff.mp h
  have hkeep := hstages.keepsFilled
  have hfold : ∀ {p : Plan}, p.Filled → (stages.foldl Stage.apply p).Filled := by
    clear hstages h
    induction stages with
    | nil => exact fun hp => hp
    | cons first others ih =>
      intro p hp
      obtain ⟨hfirst, hothers⟩ := List.forall_mem_cons.mp hkeep
      exact ih hothers (hfirst p hp)
  exact hfold trivial

end EntityQuery
