/-
# Drafts step by step

A draft is built in steps that add sets, types and conditions and bind columns to conditions; a step
that fails changes nothing (`Draft.bindColumn_of_error`).  A condition keeps its place from the step
that states it on (`States`), and the only thing that happens to it there is that a column is bound
to it, once at most (`BoundBy`).  So the column that it has in the model can be read off the history
of its place.

* `NearestColumn`, `nearestColumn_of_propertyColumn`: where the column of a property comes from;
* `Draft.condition?_next`, `Draft.condition?_foldl`: what one step and what a run does to a condition;
* `Draft.exists_states`: every condition was stated by some step;
* `Draft.freeze_settles_columns`: the columns of the conditions of a frozen draft.
-/
import EntityQuery.Proofs.Validity

namespace EntityQuery

/-! ## The nearest property -/

section Nearest

variable {κ : Type} {types : List (EntityType κ)} {a p column : String}

/-- Of the type of a name and its ancestors, the nearest with a property of that name has the first of
these in the column. -/
def NearestColumn (types : List (EntityType κ)) (a p column : String) : Prop :=
  ∃ k t property, ancestorAt types k a = some t ∧
    t.properties.find? (·.name = p) = some property ∧ property.column = column ∧
    ∀ j < k, ∀ s, ancestorAt types j a = some s → ∀ q ∈ s.properties, q.name ≠ p

/-- A property has the column of the nearest type that declares it. -/
theorem nearestColumn_of_propertyColumn (h : propertyColumn types a p = some column) :
    NearestColumn types a p column := by
  obtain ⟨nearer, t, further, hsplit, hproperty, hnearer⟩ := List.findSome?_eq_some_iff.mp h
  obtain ⟨property, hfind, hcolumn⟩ := Option.map_eq_some_iff.mp hproperty
  have hlength : nearer.length < types.length := by
    have hle : (ancestry types a).length ≤ types.length := length_baseChain_le
    rw [hsplit, List.length_append, List.length_cons] at hle
    omega
  refine ⟨nearer.length, t, property, ?_, hfind, hcolumn, ?_⟩
  · rw [← getElem?_baseChain hlength, ← ancestry, hsplit,
      List.getElem?_append_right (Nat.le_refl _), Nat.sub_self]
    rfl
  · intro j hj s hs q hq hname
    rw [← getElem?_baseChain (Nat.lt_trans hj hlength), ← ancestry, hsplit,
      List.getElem?_append_left hj] at hs
    have hnone := Option.map_eq_none_iff.mp (hnearer s (List.mem_of_getElem? hs))
    exact List.find?_eq_none.mp hnone q hq (decide_eq_true hname)

end Nearest

/-! ## Bound conditions -/

namespace DraftCondition

variable {b c d : DraftCondition} {column : String}

/-- The columns that are bound to a condition, one after the other, and what it becomes by that. -/
inductive BoundBy : List String → DraftCondition → DraftCondition → Prop where
  | never (c : DraftCondition) : BoundBy [] c c
  | once (p : String) (test : Test) (column : String) :
      BoundBy [column] ⟨.property p none, test⟩ ⟨.property p (some column), test⟩

/-- A bind that succeeds leaves the condition bound. -/
theorem boundBy_of_bind (h : (c.bind column).1 = .ok ()) : BoundBy [column] c (c.bind column).2 := by
  obtain ⟨subject, test⟩ := c
  rcases subject with bound | ⟨p, _ | bound⟩
  · cases h
  · exact .once p test column
  · cases h

/-- A condition that cannot be bound stays as it is. -/
theorem bind_of_error {fault : ModelFault} (h : (c.bind column).1 = .error fault) :
    (c.bind column).2 = c := by
  obtain ⟨subject, test⟩ := c
  rcases subject with bound | ⟨p, _ | bound⟩
  · rfl
  · cases h
  · rfl

/-- What is bound cannot be bound again. -/
theorem BoundBy.append {first second : List String} (hfirst : BoundBy first c b)
    (hsecond : BoundBy second b d) : BoundBy (first ++ second) c d := by
  cases hfirst with
  | never => exact hsecond
  | once p test column =>
    cases hsecond with
    | never => exact .once p test column

end DraftCondition

namespace Draft

open DraftCondition

variable {draft : Draft} {type name column : String} {index : Nat} {c : DraftCondition}

/-! ## Steps -/

/-- A step in the building of a draft. -/
inductive Step where
  | addSet (set : EntitySet)
  | addType (type : EntityType DraftCondition)
  | addCondition (type : String) (condition : DraftCondition)
  | bindColumn (type : String) (index : Nat) (column : String)

/-- The draft after a step. -/
def next (draft : Draft) : Step → Draft
  | .addSet set => draft.addSet set
  | .addType type => draft.addType type
  | .addCondition type condition => (draft.addCondition type condition).getD draft
  | .bindColumn type index column => (draft.bindColumn type index column).2

/-- What is built from nothing by some steps. -/
def built (steps : List Step) : Draft :=
  steps.foldl next {}

/-- The condition at a place of the first type of a name. -/
def condition? (draft : Draft) (type : String) (index : Nat) : Option DraftCondition :=
  (draft.conditions type).bind (·[index]?)

/-- The column that a step binds to the condition at a place, if it succeeds in that. -/
def binding? (draft : Draft) (type : String) (index : Nat) : Step → Option String
  | .bindColumn t i column =>
    if t = type ∧ i = index ∧ (draft.bindColumn t i column).1.isOk then some column else none
  | _ => none

/-- The columns that steps bind to the condition at a place, one after the other. -/
def bindings (type : String) (index : Nat) : Draft → List Step → List String
  | _, [] => []
  | draft, step :: steps =>
    (draft.binding? type index step).toList ++ bindings type index (draft.next step) steps

/-- A step states the condition at a place: together with its type, or behind the conditions that the
type has already. -/
inductive States (draft : Draft) (type : String) (index : Nat) (c : DraftCondition) : Step → Prop where
  | withType {t : EntityType DraftCondition} (hnew : draft.conditions type = none)
      (hname : t.name = type) (hc : t.conditions[index]? = some c) :
      States draft type index c (.addType t)
  | behind {conditions : List DraftCondition} (hconditions : draft.conditions type = some conditions)
      (hindex : conditions.length = index) : States draft type index c (.addCondition type c)

/-! ## Conditions after a step -/

/-- A type with a name that is taken is not found, so the conditions of the first one stay. -/
theorem conditions_addType (t : EntityType DraftCondition) :
    (draft.addType t).conditions name =
      (draft.conditions name).or (if t.name = name then some t.conditions else none) := by
  rw [conditions, conditions, addType, findType, findType, List.find?_append, Option.map_or]
  by_cases hname : t.name = name
  · simp [hname]
  · simp [hname]

/-- Only the type of that name gets other conditions. -/
theorem findType_replace (conditions : List DraftCondition)
    (types : List (EntityType DraftCondition)) :
    findType (setConditions.replace type conditions types) name =
      if name = type then (findType types type).map fun t => { t with conditions }
      else findType types name := by
  induction types with
  | nil => simp [setConditions.replace, findType]
  | cons t types ih =>
    rw [setConditions.replace]
    by_cases htype : t.name = type
    · rw [if_pos htype]
      by_cases hname : name = type
      · simp [findType, htype, hname]
      · have hne : ¬ t.name = name := fun heq => hname (heq.symm.trans htype)
        simp [findType, hname, hne]
    · rw [if_neg htype]
      by_cases hfound : t.name = name
      · have hne : ¬ name = type := fun heq => htype (hfound.trans heq)
        simp [findType, hfound, hne]
      · have hskip : findType (t :: setConditions.replace type conditions types) name =
            findType (setConditions.replace type conditions types) name := by
          simp [findType, hfound]
        rw [hskip, ih]
        simp [findType, hfound, htype]

/-- Only the first type of the name has other conditions. -/
theorem conditions_setConditions (conditions : List DraftCondition) :
    (draft.setConditions type conditions).conditions name =
      if name = type then (draft.conditions type).map fun _ => conditions
      else draft.conditions name := by
  rw [Draft.conditions, setConditions, findType_replace]
  by_cases hname : name = type
  · rw [if_pos hname, if_pos hname, Draft.conditions, Option.map_map, Option.map_map]
    rfl
  · rw [if_neg hname, if_neg hname, Draft.conditions]

/-- Conditions that are put back change nothing. -/
theorem setConditions_self {conditions : List DraftCondition}
    (h : draft.conditions type = some conditions) : draft.setConditions type conditions = draft := by
  have hreplace : ∀ types : List (EntityType DraftCondition),
      (findType types type).map (·.conditions) = some conditions →
        setConditions.replace type conditions types = types := by
    intro types
    induction types with
    | nil => exact fun _ => rfl
    | cons t types ih =>
      intro hfound
      rw [setConditions.replace]
      by_cases htype : t.name = type
      · rw [if_pos htype]
        have hsame : t.conditions = conditions := by simpa [findType, htype] using hfound
        rw [← hsame]
      · rw [if_neg htype]
        have hlater : (findType types type).map (·.conditions) = some conditions := by
          simpa [findType, htype] using hfound
        rw [ih hlater]
  rw [setConditions, hreplace draft.types h]

/-- What binding a column to a condition that exists does. -/
theorem bindColumn_of_condition {conditions : List DraftCondition}
    (hconditions : draft.conditions type = some conditions) (hc : conditions[index]? = some c)
    (column : String) :
    draft.bindColumn type index column = ((c.bind column).1.mapError .refused,
      draft.setConditions type (conditions.set index (c.bind column).2)) := by
  simp only [bindColumn, hconditions, hc]

/-- What a binding that succeeds does. -/
theorem bindColumn_of_ok (h : (draft.bindColumn type index column).1 = .ok ()) :
    ∃ conditions c, draft.conditions type = some conditions ∧ conditions[index]? = some c ∧
      (c.bind column).1 = .ok () ∧ (draft.bindColumn type index column).2 =
        draft.setConditions type (conditions.set index (c.bind column).2) := by
  cases hconditions : draft.conditions type with
  | none =>
    rw [bindColumn, hconditions] at h
    cases h
  | some conditions =>
    cases hc : conditions[index]? with
    | none =>
      simp only [bindColumn, hconditions, hc] at h
      cases h
    | some c =>
      have hbind := bindColumn_of_condition hconditions hc column
      rw [hbind] at h ⊢
      refine ⟨conditions, c, rfl, hc, ?_, rfl⟩
      cases hanswer : (c.bind column).1 with
      | error fault =>
        rw [hanswer] at h
        cases h
      | ok => rfl

/-- **A binding that fails leaves the draft as it was.**  Where there is a condition, it is put back
into its place as it was. -/
theorem bindColumn_of_error {fault : BindFault}
    (h : (draft.bindColumn type index column).1 = .error fault) :
    (draft.bindColumn type index column).2 = draft := by
  cases hconditions : draft.conditions type with
  | none => rw [bindColumn, hconditions]
  | some conditions =>
    cases hc : conditions[index]? with
    | none => simp only [bindColumn, hconditions, hc]
    | some c =>
      have hbind := bindColumn_of_condition hconditions hc column
      rw [hbind] at h ⊢
      cases hanswer : (c.bind column).1 with
      | error refusal =>
        have hsame : conditions.set index c = conditions := by
          obtain ⟨hlt, rfl⟩ := List.getElem?_eq_some_iff.mp hc
          exact List.set_getElem_self hlt
        rw [bind_of_error hanswer, hsame, setConditions_self hconditions]
      | ok =>
        rw [hanswer] at h
        cases h

/-- A column can be bound to a condition that is stated on a property and has none. -/
theorem bindColumn_ok_iff : (draft.bindColumn type index column).1 = .ok () ↔
    ∃ p test, draft.condition? type index = some ⟨.property p none, test⟩ := by
  constructor
  · intro h
    obtain ⟨conditions, c, hconditions, hc, hbind, -⟩ := bindColumn_of_ok h
    have hbound := boundBy_of_bind hbind
    generalize (c.bind column).2 = b at hbound
    cases hbound with
    | once p test column =>
      refine ⟨p, test, ?_⟩
      rw [condition?, hconditions]
      exact hc
  · rintro ⟨p, test, h⟩
    obtain ⟨conditions, hconditions, hc⟩ := Option.bind_eq_some_iff.mp h
    rw [bindColumn_of_condition hconditions hc]
    rfl

/-- Only the conditions of one type are set. -/
theorem condition?_setConditions (conditions : List DraftCondition)
    (h : ∃ old, draft.conditions type = some old) :
    (draft.setConditions type conditions).condition? name index =
      if name = type then conditions[index]? else draft.condition? name index := by
  obtain ⟨old, hold⟩ := h
  rw [condition?, conditions_setConditions]
  by_cases hname : name = type
  · rw [if_pos hname, if_pos hname, hold]
    rfl
  · rw [if_neg hname, if_neg hname, condition?]

/-! ## What a step does at a place -/

/-- What a step can do at a place: nothing, state a condition there, or bind a column to the condition
that is there. -/
inductive Effect (draft : Draft) (type : String) (index : Nat) (step : Step) : Prop where
  | nothing (hsame : (draft.next step).condition? type index = draft.condition? type index)
      (hbinding : draft.binding? type index step = none)
  | states {c : DraftCondition} (hnone : draft.condition? type index = none)
      (hstates : draft.States type index c step)
      (hc : (draft.next step).condition? type index = some c)
  | binds {c : DraftCondition} {column : String} (hc : draft.condition? type index = some c)
      (hbind : (c.bind column).1 = .ok ())
      (hbinding : draft.binding? type index step = some column)
      (hb : (draft.next step).condition? type index = some (c.bind column).2)

/-- What adding a type does to a condition. -/
theorem effect_addType (t : EntityType DraftCondition) :
    draft.Effect type index (.addType t) := by
  have hnext : (draft.next (.addType t)).condition? type index =
      ((draft.conditions type).or (if t.name = type then some t.conditions else none)).bind
        (·[index]?) := by
    rw [condition?, next, conditions_addType]
  cases hold : draft.conditions type with
  | some conditions =>
    -- another type of the name comes first
    refine .nothing ?_ rfl
    rw [hnext, condition?, hold, Option.some_or]
  | none =>
    have hnone : draft.condition? type index = none := by
      rw [condition?, hold]
      rfl
    rw [hold, Option.none_or] at hnext
    by_cases hname : t.name = type
    · rw [if_pos hname, Option.bind_some] at hnext
      cases hc : t.conditions[index]? with
      | none => exact .nothing (by rw [hnext, hc, hnone]) rfl
      | some c => exact .states hnone (.withType hold hname hc) (hnext.trans hc)
    · rw [if_neg hname] at hnext
      exact .nothing (hnext.trans hnone.symm) rfl

theorem effect_addCondition (t : String) (added : DraftCondition) :
    draft.Effect type index (.addCondition t added) := by
  cases hold : draft.conditions t with
  | none =>
    refine .nothing ?_ rfl
    rw [next, addCondition, hold]
    rfl
  | some old =>
    have hnext : (draft.next (.addCondition t added)).condition? type index =
        if type = t then (old ++ [added])[index]? else draft.condition? type index := by
      rw [← condition?_setConditions _ ⟨old, hold⟩, next, addCondition, hold]
      rfl
    by_cases hname : type = t
    · subst hname
      rw [if_pos rfl] at hnext
      have hplace : draft.condition? type index = old[index]? := by
        rw [condition?, hold, Option.bind_some]
      rcases Nat.lt_trichotomy index old.length with hlt | heq | hgt
      · exact .nothing (by rw [hnext, hplace, List.getElem?_append_left hlt]) rfl
      · subst heq
        refine .states ?_ (.behind hold rfl) (hnext.trans List.getElem?_concat_length)
        rw [hplace, List.getElem?_eq_none (Nat.le_refl _)]
      · refine .nothing ?_ rfl
        rw [hnext, hplace, List.getElem?_eq_none (Nat.le_of_lt hgt), List.getElem?_eq_none]
        rw [List.length_append, List.length_singleton]
        exact hgt
    · rw [if_neg hname] at hnext
      exact .nothing hnext rfl

/-- What binding a column does to a condition, whether it succeeds or fails. -/
theorem effect_bindColumn (t : String) (i : Nat) (column : String) :
    draft.Effect type index (.bindColumn t i column) := by
  cases hbind : (draft.bindColumn t i column).1 with
  | error fault =>
    refine .nothing ?_ ?_
    · rw [next, bindColumn_of_error hbind]
    · simp [binding?, hbind, Except.isOk, Except.toBool]
  | ok =>
    obtain ⟨old, c, hold, hc, hb, hafter⟩ := bindColumn_of_ok hbind
    have hnext : (draft.next (.bindColumn t i column)).condition? type index =
        if type = t then (old.set i (c.bind column).2)[index]?
        else draft.condition? type index := by
      rw [← condition?_setConditions _ ⟨old, hold⟩, next, hafter]
    have hbinding : draft.binding? type index (.bindColumn t i column) =
        if t = type ∧ i = index then some column else none := by
      simp [binding?, hbind, Except.isOk, Except.toBool]
    by_cases hname : type = t
    · subst hname
      have hplace : draft.condition? type index = old[index]? := by
        rw [condition?, hold, Option.bind_some]
      rw [if_pos rfl] at hnext
      by_cases hindex : i = index
      · subst hindex
        refine .binds (hplace.trans hc) hb (hbinding.trans (if_pos ⟨rfl, rfl⟩)) ?_
        rw [hnext, List.getElem?_set_self (List.getElem?_eq_some_iff.mp hc).1]
      · refine .nothing ?_ (hbinding.trans (if_neg fun h => hindex h.2))
        rw [hnext, hplace, List.getElem?_set_ne hindex]
    · refine .nothing ?_ (hbinding.trans (if_neg fun h => hname h.1.symm))
      rw [hnext, if_neg hname]

/-- **What any step does to a condition.** -/
theorem effect_next (draft : Draft) (type : String) (index : Nat) (step : Step) :
    draft.Effect type index step := by
  cases step with
  | addSet set => exact .nothing rfl rfl
  | addType t => exact effect_addType t
  | addCondition t added => exact effect_addCondition t added
  | bindColumn t i column => exact effect_bindColumn t i column

/-! ## The history of a condition -/

/-- **One step**: a condition stays as it is, or the step binds a column to it. -/
theorem condition?_next (step : Step) (h : draft.condition? type index = some c) :
    ∃ b, (draft.next step).condition? type index = some b ∧
      BoundBy (draft.binding? type index step).toList c b := by
  cases draft.effect_next type index step with
  | nothing hsame hbinding =>
    refine ⟨c, hsame.trans h, ?_⟩
    rw [hbinding]
    exact .never c
  | states hnone _ _ =>
    rw [h] at hnone
    cases hnone
  | binds hc hbind hbinding hb =>
    obtain rfl := Option.some.inj (h.symm.trans hc)
    refine ⟨_, hb, ?_⟩
    rw [hbinding]
    exact boundBy_of_bind hbind

/-- **A run**: a condition is bound by the steps that succeed in that, at most one. -/
theorem condition?_foldl (steps : List Step) (h : draft.condition? type index = some c) :
    ∃ b, (steps.foldl next draft).condition? type index = some b ∧
      BoundBy (bindings type index draft steps) c b := by
  induction steps generalizing draft c with
  | nil => exact ⟨c, h, .never c⟩
  | cons step steps ih =>
    obtain ⟨b, hb, hstep⟩ := condition?_next step h
    obtain ⟨d, hd, hsteps⟩ := ih hb
    exact ⟨d, hd, hstep.append hsteps⟩

/-- Steps go on from the draft that the earlier ones built. -/
theorem built_append (before after : List Step) :
    built (before ++ after) = after.foldl next (built before) := by
  rw [built, built, List.foldl_append]

/-- A condition of what is built was stated by some step. -/
theorem exists_step_of_built {steps : List Step} (h : (built steps).condition? type index = some c) :
    ∃ before step after b, steps = before ++ step :: after ∧ (built before).States type index b step ∧
      ((built before).next step).condition? type index = some b := by
  induction steps using List.reverseRecOn generalizing c with
  | nil => cases h
  | append_singleton steps last ih =>
    rw [built_append, List.foldl_cons, List.foldl_nil] at h
    cases (built steps).effect_next type index last with
    | nothing hsame _ =>
      obtain ⟨before, step, after, b, rfl, hstates, hb⟩ := ih (hsame.symm.trans h)
      exact ⟨before, step, after ++ [last], b, by simp, hstates, hb⟩
    | binds hc _ _ _ =>
      obtain ⟨before, step, after, b, rfl, hstates, hb⟩ := ih hc
      exact ⟨before, step, after ++ [last], b, by simp, hstates, hb⟩
    | states _ hstates hc => exact ⟨steps, last, [], _, rfl, hstates, hc⟩

/-- **Every condition was stated by a step and bound by those behind it.** -/
theorem exists_states {steps : List Step} {b : DraftCondition}
    (h : (built steps).condition? type index = some b) :
    ∃ before step after c, steps = before ++ step :: after ∧ (built before).States type index c step ∧
      BoundBy (bindings type index ((built before).next step) after) c b := by
  obtain ⟨before, step, after, c, rfl, hstates, hc⟩ := exists_step_of_built h
  obtain ⟨d, hd, hbound⟩ := condition?_foldl after hc
  rw [built_append, List.foldl_cons, hd] at h
  obtain rfl := Option.some.inj h
  exact ⟨before, step, after, c, rfl, hstates, hbound⟩

/-! ## Settled columns -/

/-- How the column of a condition is settled, from what the condition is stated on and from the columns
that are bound to it, one after the other. -/
inductive Settles (types : List (EntityType Condition)) (type : String) :
    Subject → List String → String → Prop where
  /-- It is the column that the condition is stated on; no other is bound to it. -/
  | stated (column : String) : Settles types type (.column column) [] column
  /-- It was bound before the condition was put in its place. -/
  | boundBefore (p column : String) : Settles types type (.property p (some column)) [] column
  | bound (p column : String) : Settles types type (.property p none) [column] column
  /-- No column is bound, so it is that of the property. -/
  | inherited {p column : String} (hnearest : NearestColumn types type p column) :
      Settles types type (.property p none) [] column

/-- Finishing keeps the test of a condition and settles its column. -/
theorem settles_of_finish {types : List (EntityType Condition)} {bound : List String}
    {b : DraftCondition} {condition : Condition} (hbound : BoundBy bound c b)
    (h : b.finish (propertyColumn types type) = .ok condition) :
    condition.test = c.test ∧ Settles types type c.subject bound condition.column := by
  obtain ⟨htest, hcolumn⟩ := finish_eq_ok h
  cases hbound with
  | never =>
    refine ⟨htest, ?_⟩
    obtain ⟨subject, test⟩ := c
    rcases hcolumn with hcolumn | ⟨p, rfl, hproperty⟩
    · rcases subject with stated | ⟨p, _ | bound⟩
      · obtain rfl := Option.some.inj hcolumn
        exact .stated _
      · cases hcolumn
      · obtain rfl := Option.some.inj hcolumn
        exact .boundBefore p _
    · exact .inherited (nearestColumn_of_propertyColumn hproperty)
  | once p test column =>
    refine ⟨htest, ?_⟩
    rcases hcolumn with hcolumn | ⟨q, hsubject, -⟩
    · obtain rfl := Option.some.inj hcolumn
      exact .bound p _
    · cases hsubject

/-- **The columns of the conditions of a frozen draft**, whatever steps have built it.  Each condition
was stated by a step, and its column is settled by that and by the steps behind it.  A binding succeeds
if the condition is stated on a property and has no column yet; one that fails leaves the draft as it
was. -/
theorem freeze_settles_columns {steps : List Step} {model : Model}
    (h : (built steps).freeze = .ok model) :
    (∀ t ∈ model.types, ∀ index condition, t.conditions[index]? = some condition →
      ∃ before step after c, steps = before ++ step :: after ∧
        (built before).States t.name index c step ∧ condition.test = c.test ∧
        Settles model.types t.name c.subject
          (bindings t.name index ((built before).next step) after) condition.column) ∧
      ∀ before type index column after, steps = before ++ .bindColumn type index column :: after →
        (((built before).bindColumn type index column).1 = .ok () ↔
          ∃ p test, (built before).condition? type index = some ⟨.property p none, test⟩) ∧
        ∀ fault, ((built before).bindColumn type index column).1 = .error fault →
          built (before ++ [.bindColumn type index column]) = built before := by
  constructor
  · intro t ht index condition hcondition
    obtain ⟨d, hd, hfinish⟩ := exists_left_of_forall₂ (types_of_freeze h) ht
    obtain ⟨houtline, hconditions⟩ := finishType_eq_ok hfinish
    have hname : t.name = d.name := congrArg (·.name) houtline
    obtain ⟨b, hb, hfinished⟩ :=
      exists_getElem?_of_forall₂ (forall₂_of_mapM_eq_ok hconditions) hcondition
    have hplace : (built steps).condition? t.name index = some b := by
      have hfind := findType_of_mem (valid_of_freeze h).distinct_types hd
      rw [condition?, conditions, hname, hfind]
      exact hb
    obtain ⟨before, step, after, c, hsteps, hstates, hbound⟩ := exists_states hplace
    rw [propertyColumn_of_freeze h, ← hname] at hfinished
    exact ⟨before, step, after, c, hsteps, hstates, settles_of_finish hbound hfinished⟩
  · intro before type index column after _
    refine ⟨bindColumn_ok_iff, ?_⟩
    intro fault hfault
    rw [built_append, List.foldl_cons, List.foldl_nil, next, bindColumn_of_error hfault]

/-- Vehicles and cars.  A column is bound too early, then once, then once more; of the conditions on
cars one keeps that column, one is stated on a column, and one is left to a property of vehicles. -/
def carSteps : List Step :=
  [.bindColumn "Car" 0 "Early",
    .addType { name := "Vehicle", properties := [⟨"Kind", "KindCode"⟩, ⟨"Wheels", "WheelCount"⟩] },
    .addType
      { name := "Car", base := some "Vehicle",
        conditions := [⟨.property "Kind" none, .equals (.int 1)⟩, ⟨.column "Tag", .isNotNull⟩] },
    .bindColumn "Car" 0 "Bound",
    .addCondition "Car" ⟨.property "Wheels" none, .equals (.int 4)⟩,
    .bindColumn "Car" 0 "Late",
    .bindColumn "Car" 1 "Other"]

/-- Cars in the model. -/
def carType : EntityType Condition where
  name := "Car"
  base := some "Vehicle"
  conditions := [⟨"Bound", .equals (.int 1)⟩, ⟨"Tag", .isNotNull⟩, ⟨"WheelCount", .equals (.int 4)⟩]

/-- The columns of the three conditions on cars are settled in three ways. -/
theorem freeze_settles_columns_cars :
    ∃ model, (built carSteps).freeze = .ok model ∧ carType ∈ model.types ∧
      ∀ index condition, carType.conditions[index]? = some condition →
        ∃ before step after c, carSteps = before ++ step :: after ∧
          (built before).States "Car" index c step ∧ condition.test = c.test ∧
          Settles model.types "Car" c.subject
            (bindings "Car" index ((built before).next step) after) condition.column := by
  let vehicleType : EntityType Condition :=
    { name := "Vehicle", properties := [⟨"Kind", "KindCode"⟩, ⟨"Wheels", "WheelCount"⟩] }
  have hfreeze : (built carSteps).freeze = .ok ⟨[], [vehicleType, carType]⟩ := rfl
  have hcar : carType ∈ [vehicleType, carType] := List.mem_cons_of_mem _ List.mem_cons_self
  exact ⟨_, hfreeze, hcar, (freeze_settles_columns hfreeze).1 carType hcar⟩

end Draft

end EntityQuery
