/-
# Type predicates tell the types

The predicate that stands for a type comes in two forms: the disjunction over its types of the
conjunctions of their conditions, and the single list test that takes its place when every type has
one value on one column.  Both have the truth value of the conditions on every row, unknown included
(`truth_unionPredicate`), so the predicate is true of exactly the rows of the type.

* `Model.typePredicate_exact`: the truth value of the predicate of a type, and when there is none;
* `Model.holds_subtreePredicate`: the rows of a type;
* `Model.mem_references_subtreePredicate`: the columns that tell them;
* `Model.extentPredicate_isSome`: when the rows of an entity set have to be of a known type.
-/
import EntityQuery.Proofs.Entities
import EntityQuery.Proofs.Results
import EntityQuery.TypeFilter.Predicate

namespace EntityQuery

/-! ## Many truth values -/

namespace Truth

/-- The disjunction of some truth values. -/
def any (ts : List Truth) : Truth :=
  ts.foldr or fails

/-- The conjunction of some truth values. -/
def all (ts : List Truth) : Truth :=
  ts.foldr and holds

/-- A disjunction holds where one of its parts does. -/
theorem any_eq_holds {ts : List Truth} : any ts = holds ↔ holds ∈ ts := by
  induction ts with
  | nil => simp [any]
  | cons t ts ih =>
    show t.or (any ts) = holds ↔ _
    rw [or_eq_holds, ih, List.mem_cons, eq_comm]

theorem any_eq_fails {ts : List Truth} : any ts = fails ↔ ∀ t ∈ ts, t = fails := by
  induction ts with
  | nil => simp [any]
  | cons t ts ih =>
    show t.or (any ts) = fails ↔ _
    rw [or_eq_fails, ih, List.forall_mem_cons]

/-- A conjunction holds where all its parts do. -/
theorem all_eq_holds {ts : List Truth} : all ts = holds ↔ ∀ t ∈ ts, t = holds := by
  induction ts with
  | nil => simp [all]
  | cons t ts ih =>
    show t.and (all ts) = holds ↔ _
    rw [and_eq_holds, ih, List.forall_mem_cons]

/-- A disjunction depends only on which truth values occur in it. -/
theorem any_congr {ts us : List Truth} (h : ∀ t, t ∈ ts ↔ t ∈ us) : any ts = any us := by
  have hholds : any ts = holds ↔ any us = holds := by rw [any_eq_holds, any_eq_holds, h]
  have hfails : any ts = fails ↔ any us = fails := by simp only [any_eq_fails, h]
  generalize any ts = s at hholds hfails
  generalize any us = t at hholds hfails
  cases s <;> cases t <;> simp_all

theorem or_assoc (r s t : Truth) : (r.or s).or t = r.or (s.or t) := by
  cases r <;> cases s <;> cases t <;> rfl

theorem and_assoc (r s t : Truth) : (r.and s).and t = r.and (s.and t) := by
  cases r <;> cases s <;> cases t <;> rfl

@[simp] theorem or_fails (t : Truth) : t.or fails = t := by
  cases t <;> rfl

@[simp] theorem and_holds (t : Truth) : t.and holds = t := by
  cases t <;> rfl

end Truth

section

variable {engine : Engine} {row : Row}

/-! ## Joined predicates -/

/-- The truth value of a joined list, for a connective that may be regrouped. -/
theorem Expr.truth_joinedBy {op : Op} {f : Truth → Truth → Truth} {unit : Truth} {es : List Expr}
    {e : Expr} (hop : ∀ l r, (binary op l r).truth engine .native row =
      f (l.truth engine .native row) (r.truth engine .native row))
    (hassoc : ∀ r s t, f (f r s) t = f r (f s t)) (hunit : ∀ t, f t unit = t)
    (h : joinedBy op es = some e) :
    e.truth engine .native row = (es.map (truth engine .native row)).foldr f unit := by
  cases es with
  | nil => cases h
  | cons c es =>
    obtain rfl := Option.some.inj h
    -- the parts are joined from the left
    induction es generalizing c with
    | nil => exact (hunit _).symm
    | cons d es ih =>
      rw [List.foldl_cons, ih (binary op c d) rfl]
      simp only [List.map_cons, List.foldr_cons, hop, hassoc]

/-- Membership is the disjunction of the equalities. -/
theorem Engine.member_eq_any (v : Value) (values : List Value) :
    engine.member v values = Truth.any (values.map (engine.comparison .native .eq v)) := by
  rw [member, Truth.any, List.foldr_map]

/-! ## Conditions and types -/

/-- The predicate of a condition holds of the rows that meet it. -/
theorem Condition.holds_predicate (condition : Condition) :
    condition.predicate.holds engine .native row = condition.met engine row := by
  rw [Bool.eq_iff_iff]
  unfold predicate met
  cases condition.test with
  | equals v => simp [Expr.holds, Expr.truth, Expr.eval, Engine.member]
  | isNull | isNotNull => simp [Expr.holds, Expr.truth, Expr.eval]

/-- The truth value of all conditions of a type together. -/
def EntityType.truth (engine : Engine) (row : Row) (t : EntityType Condition) : Truth :=
  Truth.all (t.conditions.map (·.predicate.truth engine .native row))

/-- The predicate of a type is the conjunction of its conditions. -/
theorem EntityType.truth_predicate {t : EntityType Condition} {e : Expr}
    (h : t.predicate? = some e) : e.truth engine .native row = t.truth engine row := by
  rw [Expr.truth_joinedBy Expr.truth_and Truth.and_assoc Truth.and_holds h, List.map_map]
  rfl

theorem EntityType.exists_predicate (t : EntityType Condition) (h : t.conditions ≠ []) :
    ∃ e, t.predicate? = some e := by
  obtain ⟨c, cs, hconditions⟩ := List.exists_cons_of_ne_nil h
  rw [predicate?, hconditions]
  exact ⟨_, rfl⟩

/-- A type with conditions describes the rows on which all of them are true. -/
theorem EntityType.truth_eq_holds {t : EntityType Condition} (h : t.conditions ≠ []) :
    t.truth engine row = .holds ↔ t.describes engine row = true := by
  have hmet : ∀ c : Condition, c.predicate.truth engine .native row = .holds ↔
      c.met engine row = true := by
    intro c
    rw [← Condition.holds_predicate, Expr.holds, decide_eq_true_eq]
  simp [truth, describes, Truth.all_eq_holds, hmet, h]

/-! ## Unions of types -/

/-- A type that asks for one value only is told by a comparison with it. -/
theorem EntityType.truth_onlyValue {t : EntityType Condition} {column : String} {v : Value}
    (h : t.onlyValue? column = some v) :
    t.truth engine row = engine.comparison .native .eq (row column) v := by
  unfold onlyValue? at h
  split at h
  next condition hconditions =>
    split at h
    next hcolumn =>
      obtain ⟨c, test⟩ := condition
      cases test with
      | equals w =>
        obtain rfl : w = v := Option.some.inj h
        obtain rfl : c = column := hcolumn
        simp [truth, hconditions, Truth.all, Condition.predicate, Expr.truth, Expr.eval,
          Engine.member]
      | isNull | isNotNull => cases h
    next => cases h
  next => cases h

/-- The types of a list test have the truth values of the comparisons with its values. -/
theorem map_truth_of_onlyValues {column : String} {mapped : List (EntityType Condition)}
    {values : List Value} (h : mapped.mapM (·.onlyValue? column) = some values) :
    mapped.map (·.truth engine row) =
      values.map (engine.comparison .native .eq (row column)) := by
  have hpaired := forall₂_of_mapM_eq_some h
  clear h
  induction hpaired with
  | nil => rfl
  | cons honly _ ih => rw [List.map_cons, List.map_cons, EntityType.truth_onlyValue honly, ih]

/-- The predicates of types with conditions have the truth values of these types. -/
theorem map_truth_predicates {mapped : List (EntityType Condition)}
    (hmapped : ∀ t ∈ mapped, t.conditions ≠ []) :
    (mapped.filterMap EntityType.predicate?).map (Expr.truth engine .native row) =
      mapped.map (·.truth engine row) := by
  induction mapped with
  | nil => rfl
  | cons t mapped ih =>
    obtain ⟨ht, hmapped⟩ := List.forall_mem_cons.mp hmapped
    obtain ⟨e, he⟩ := t.exists_predicate ht
    rw [List.filterMap_cons_some he, List.map_cons, List.map_cons, EntityType.truth_predicate he,
      ih hmapped]

/-- **Both forms of the predicate of some types have the truth value of the types**, on rows with
nulls as well. -/
theorem truth_unionPredicate {column : String} {mapped : List (EntityType Condition)} {e : Expr}
    (hmapped : ∀ t ∈ mapped, t.conditions ≠ []) (h : unionPredicate? column mapped = some e) :
    e.truth engine .native row = Truth.any (mapped.map (·.truth engine row)) := by
  unfold unionPredicate? at h
  split at h
  next values hvalues =>
    obtain rfl := Option.some.inj h
    have hlist : (Expr.inList (.column column) values.eraseDups).truth engine .native row =
        engine.member (row column) values.eraseDups := by
      simp [Expr.truth, Expr.eval]
    rw [hlist, Engine.member_eq_any, map_truth_of_onlyValues hvalues]
    -- a value that is asked for twice changes no disjunction
    apply Truth.any_congr
    intro t
    simp only [List.mem_map, List.mem_eraseDups]
  next =>
    rw [Expr.truth_joinedBy Expr.truth_or Truth.or_assoc Truth.or_fails h,
      map_truth_predicates hmapped]
    rfl

/-! ## Subtrees -/

namespace Model

/-- The types of a subtree that have conditions. -/
def mappedTypes (model : Model) (name : String) : List (EntityType Condition) :=
  (model.subtree name).filter (!·.conditions.isEmpty)

/-- A type is mapped in a subtree if it is there and has conditions. -/
theorem mem_mappedTypes {model : Model} {name : String} {t : EntityType Condition} :
    t ∈ model.mappedTypes name ↔ t ∈ model.subtree name ∧ t.conditions ≠ [] := by
  simp [mappedTypes]

/-- The predicate of a type has the truth value of its conditions. -/
theorem truth_subtreePredicate {model : Model} {name : String} {e : Expr}
    (h : model.subtreePredicate? name = some e) :
    e.truth engine .native row =
      Truth.any ((model.mappedTypes name).map (·.truth engine row)) := by
  unfold subtreePredicate? at h
  simp only at h
  split at h
  next => exact truth_unionPredicate (fun t ht => (mem_mappedTypes.mp ht).2) h
  next => cases h

/-- **The predicate of a type is true of the rows of the type.** -/
theorem holds_subtreePredicate {model : Model} {name : String} {e : Expr}
    (h : model.subtreePredicate? name = some e) :
    e.holds engine .native row = model.isOfType engine name row := by
  rw [Bool.eq_iff_iff, Expr.holds, decide_eq_true_eq, truth_subtreePredicate h,
    Truth.any_eq_holds, List.mem_map, isOfType, List.any_eq_true]
  constructor
  · rintro ⟨t, ht, htruth⟩
    obtain ⟨hsubtree, hconditions⟩ := mem_mappedTypes.mp ht
    exact ⟨t, hsubtree, (EntityType.truth_eq_holds hconditions).mp htruth⟩
  · rintro ⟨t, ht, hdescribes⟩
    have hconditions : t.conditions ≠ [] := by
      simp only [EntityType.describes, Bool.and_eq_true, Bool.not_eq_true',
        List.isEmpty_eq_false_iff] at hdescribes
      exact hdescribes.1
    exact ⟨t, mem_mappedTypes.mpr ⟨ht, hconditions⟩,
      (EntityType.truth_eq_holds hconditions).mpr hdescribes⟩

end Model

end

/-! ## Columns and existence -/

/-- A condition reads its own column. -/
theorem Condition.references_predicate (condition : Condition) :
    condition.predicate.references = [condition.column] := by
  unfold predicate
  cases condition.test <;> rfl

/-- A joined list reads what its parts read. -/
theorem Expr.mem_references_joinedBy {op : Op} {es : List Expr} {e : Expr} {column : String}
    (h : joinedBy op es = some e) :
    column ∈ e.references ↔ ∃ c ∈ es, column ∈ c.references := by
  cases es with
  | nil => cases h
  | cons c es =>
    obtain rfl := Option.some.inj h
    induction es generalizing c with
    | nil => simp
    | cons d es ih =>
      rw [List.foldl_cons, ih (binary op c d) rfl]
      simp only [references, List.mem_cons, exists_eq_or_imp, List.mem_append, or_assoc]

/-- The predicate of a type reads the columns of its conditions. -/
theorem EntityType.mem_references_predicate {t : EntityType Condition} {e : Expr} {column : String}
    (h : t.predicate? = some e) :
    column ∈ e.references ↔ column ∈ t.conditions.map (·.column) := by
  rw [Expr.mem_references_joinedBy h]
  simp [Condition.references_predicate, eq_comm]

/-- The only value that a type asks for is that of its only condition. -/
theorem EntityType.columns_of_onlyValue {t : EntityType Condition} {column : String} {v : Value}
    (h : t.onlyValue? column = some v) : t.conditions.map (·.column) = [column] := by
  unfold onlyValue? at h
  split at h
  next condition hconditions =>
    split at h
    next hcolumn => rw [hconditions, List.map_singleton, hcolumn]
    next => cases h
  next => cases h

/-- The predicate of some types reads the columns of their conditions. -/
theorem mem_references_unionPredicate {first column : String}
    {mapped : List (EntityType Condition)} {e : Expr} (hmapped : mapped ≠ [])
    (hconditions : ∀ t ∈ mapped, t.conditions ≠ []) (h : unionPredicate? first mapped = some e) :
    column ∈ e.references ↔ ∃ t ∈ mapped, column ∈ t.conditions.map (·.column) := by
  unfold unionPredicate? at h
  split at h
  next values hvalues =>
    obtain rfl := Option.some.inj h
    have hcolumns : ∀ t ∈ mapped, t.conditions.map (·.column) = [first] := by
      intro t ht
      obtain ⟨v, -, honly⟩ := exists_right_of_forall₂ (forall₂_of_mapM_eq_some hvalues) ht
      exact EntityType.columns_of_onlyValue honly
    obtain ⟨t, ht⟩ := List.exists_mem_of_ne_nil mapped hmapped
    show column ∈ [first] ↔ _
    constructor
    · intro hcolumn
      exact ⟨t, ht, hcolumns t ht ▸ hcolumn⟩
    · rintro ⟨t, ht, hcolumn⟩
      exact hcolumns t ht ▸ hcolumn
  next =>
    rw [Expr.mem_references_joinedBy h]
    constructor
    · rintro ⟨e, he, hcolumn⟩
      obtain ⟨t, ht, hpredicate⟩ := List.mem_filterMap.mp he
      exact ⟨t, ht, (EntityType.mem_references_predicate hpredicate).mp hcolumn⟩
    · rintro ⟨t, ht, hcolumn⟩
      obtain ⟨e, he⟩ := t.exists_predicate (hconditions t ht)
      exact ⟨e, List.mem_filterMap.mpr ⟨t, ht, he⟩,
        (EntityType.mem_references_predicate he).mpr hcolumn⟩

namespace Model

variable {model : Model} {name : String}

/-- **The predicate of a type reads exactly the columns that tell its rows.** -/
theorem mem_references_subtreePredicate {e : Expr} {column : String}
    (h : model.subtreePredicate? name = some e) :
    column ∈ e.references ↔ column ∈ model.typeReads name := by
  have hreads : column ∈ model.typeReads name ↔
      ∃ t ∈ model.mappedTypes name, column ∈ t.conditions.map (·.column) := by
    rw [typeReads, List.mem_flatMap]
    constructor
    · rintro ⟨t, ht, hcolumn⟩
      have hconditions : t.conditions ≠ [] := by
        rintro hnil
        rw [hnil] at hcolumn
        exact absurd hcolumn List.not_mem_nil
      exact ⟨t, mem_mappedTypes.mpr ⟨ht, hconditions⟩, hcolumn⟩
    · rintro ⟨t, ht, hcolumn⟩
      exact ⟨t, (mem_mappedTypes.mp ht).1, hcolumn⟩
  rw [hreads]
  unfold subtreePredicate? at h
  simp only at h
  split at h
  next first hfirst =>
    obtain ⟨t, ht, -⟩ := Option.bind_eq_some_iff.mp hfirst
    exact mem_references_unionPredicate (List.ne_nil_of_mem (List.mem_of_head? ht))
      (fun t ht => (mem_mappedTypes.mp ht).2) h
  next => cases h

/-- The predicate of a subtree reads the columns that tell its types. -/
theorem references_subtreePredicate_subset {e : Expr} (h : model.subtreePredicate? name = some e) :
    e.references ⊆ model.typeReads name :=
  fun _ => (mem_references_subtreePredicate h).mp

/-- Types that have conditions have a predicate. -/
theorem unionPredicate_isSome {column : String} {t : EntityType Condition}
    {mapped : List (EntityType Condition)} (ht : t ∈ mapped) (hconditions : t.conditions ≠ []) :
    (unionPredicate? column mapped).isSome := by
  obtain ⟨e, he⟩ := t.exists_predicate hconditions
  have hmem : e ∈ mapped.filterMap EntityType.predicate? := List.mem_filterMap.mpr ⟨t, ht, he⟩
  unfold unionPredicate?
  split
  next => rfl
  next =>
    cases hes : mapped.filterMap EntityType.predicate? with
    | nil => rw [hes] at hmem; cases hmem
    | cons c cs => rfl

/-- There is a predicate exactly where a type of the subtree has a condition. -/
theorem subtreePredicate_isSome : (model.subtreePredicate? name).isSome =
    (model.subtree name).any (!·.conditions.isEmpty) := by
  unfold subtreePredicate?
  simp only
  cases hmapped : (model.subtree name).filter (!·.conditions.isEmpty) with
  | nil => exact (List.any_eq_false.mpr (List.filter_eq_nil_iff.mp hmapped)).symm
  | cons t ts =>
    have ht : t ∈ (model.subtree name).filter (!·.conditions.isEmpty) := by
      rw [hmapped]
      exact List.mem_cons_self
    obtain ⟨hmem, hmapped'⟩ := List.mem_filter.mp ht
    have hconditions : t.conditions ≠ [] := by simpa using hmapped'
    obtain ⟨first, rest, hfirst⟩ := List.exists_cons_of_ne_nil hconditions
    simp only [List.head?_cons, Option.bind_some, hfirst]
    rw [unionPredicate_isSome List.mem_cons_self hconditions]
    exact (List.any_eq_true.mpr ⟨t, hmem, hmapped'⟩).symm

/-! ## Entity sets -/

/-- The predicate of a set is that of its root. -/
theorem subtreePredicate_of_extentPredicate {set : EntitySet} {e : Expr}
    (h : model.extentPredicate? set = some e) : model.subtreePredicate? set.root = some e := by
  unfold extentPredicate? at h
  split at h
  · exact h
  · cases h

/-- The rows of a set are restricted exactly where there is a predicate for that. -/
theorem extentPredicate_isSome {set : EntitySet} :
    (model.extentPredicate? set).isSome = model.isRestricted set := by
  unfold extentPredicate? isRestricted
  split
  next h => rw [subtreePredicate_isSome, h, Bool.true_and]
  next h => rw [Bool.eq_false_iff.mpr h, Bool.false_and, Option.isSome_none]

theorem isRestricted_of_extentPredicate {set : EntitySet} {e : Expr}
    (h : model.extentPredicate? set = some e) : model.isRestricted set = true := by
  rw [← extentPredicate_isSome, h, Option.isSome_some]

/-- The predicate of a type within a set is that of its subtree. -/
theorem subtreePredicate_of_typePredicate {set : EntitySet} {e : Expr}
    (h : model.typePredicate set name = .ok e) : model.subtreePredicate? name = some e := by
  unfold typePredicate at h
  split at h
  · cases h
  · split at h
    · cases h
    · split at h
      next hsome =>
        obtain rfl := Except.ok.inj h
        exact hsome
      next => cases h

/-- A type filter of that type makes sense over an entity set: the type is known and is the root of
the set or derives from it, and the type or one derived from it has a condition. -/
def Selects (model : Model) (set : EntitySet) (subtype : String) : Prop :=
  (model.entityType subtype).isSome = true ∧ model.isSubtypeOf subtype set.root = true ∧
    ∃ t ∈ model.subtree subtype, t.conditions ≠ []

instance Selects.decidable (model : Model) (set : EntitySet) (subtype : String) :
    Decidable (model.Selects set subtype) :=
  inferInstanceAs (Decidable ((model.entityType subtype).isSome = true ∧
    model.isSubtypeOf subtype set.root = true ∧ ∃ t ∈ model.subtree subtype, t.conditions ≠ []))

/-- **A type filter has a predicate exactly where it makes sense.** -/
theorem typePredicate_ok_iff {model : Model} {set : EntitySet} {subtype : String} :
    (∃ e, model.typePredicate set subtype = .ok e) ↔ model.Selects set subtype := by
  have hmapped : (model.subtreePredicate? subtype).isSome = true ↔
      ∃ t ∈ model.subtree subtype, t.conditions ≠ [] := by
    rw [subtreePredicate_isSome, List.any_eq_true]
    simp
  unfold typePredicate Selects
  rw [← hmapped]
  cases model.entityType subtype <;> cases model.isSubtypeOf subtype set.root <;>
    cases model.subtreePredicate? subtype <;> simp

/-- **The predicate of a type is exact.**  On every row it has the truth value of the disjunction,
over the types of the subtree that have conditions, of the conjunctions of their conditions; and there
is none exactly if the type is unknown, is outside the hierarchy of the set or has no condition in its
subtree. -/
theorem typePredicate_exact (model : Model) (set : EntitySet) (name : String) :
    (∀ e, model.typePredicate set name = .ok e → ∀ (engine : Engine) (row : Row),
      e.truth engine .native row =
        Truth.any ((model.mappedTypes name).map fun t =>
          Truth.all (t.conditions.map fun c => c.predicate.truth engine .native row))) ∧
    ((∃ fault, model.typePredicate set name = .error fault) ↔
      model.entityType name = none ∨ model.isSubtypeOf name set.root = false ∨
        ∀ t ∈ model.subtree name, t.conditions = []) := by
  constructor
  · intro e he engine row
    exact truth_subtreePredicate (subtreePredicate_of_typePredicate he)
  · have hrefused : (∃ fault, model.typePredicate set name = .error fault) ↔
        ¬ ∃ e, model.typePredicate set name = .ok e := by
      cases model.typePredicate set name <;> simp
    rw [hrefused, typePredicate_ok_iff, Selects, not_and_or, not_and_or]
    simp only [Option.isSome_iff_ne_none, ne_eq, not_exists, not_and, not_not, Bool.not_eq_true]

/-- The parties of contracts. -/
def parties : EntitySet :=
  { name := "Parties", table := "Parties", root := "Party", discriminator := some "Kind" }

/-- People and companies as parties of contracts, with clubs kept as companies. -/
def partiesModel : Model where
  sets := [parties]
  types := [
    { name := "Party", properties := [⟨"Id", "Id"⟩] },
    { name := "Person", base := some "Party", conditions := [⟨"Kind", .equals (.string "person")⟩] },
    { name := "Company", base := some "Party",
      conditions := [⟨"Kind", .equals (.string "company")⟩] },
    { name := "Club", base := some "Company",
      conditions := [⟨"Kind", .equals (.string "company")⟩] }]

/-- The two kinds of parties. -/
def partyKinds : Expr :=
  .inList (.column "Kind") [.string "person", .string "company"]

/-- One list test with two values for three types, which is unknown where the column is null. -/
theorem typePredicate_exact_parties :
    partiesModel.typePredicate parties "Party" = .ok partyKinds ∧
      partyKinds.truth Engine.standard .native (fun _ => .null) = .unknown ∧
      partyKinds.truth Engine.standard .native (fun _ => .null) =
        Truth.any ((partiesModel.mappedTypes "Party").map fun t => Truth.all
          (t.conditions.map fun c => c.predicate.truth Engine.standard .native fun _ => .null)) :=
  ⟨rfl, rfl, (typePredicate_exact partiesModel parties "Party").1 partyKinds rfl Engine.standard _⟩

end Model

end EntityQuery
