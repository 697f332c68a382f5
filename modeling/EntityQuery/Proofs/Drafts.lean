/-
# Frozen drafts

Freezing a draft checks it and then only finishes its conditions: names, bases and properties stay as
they are.  What the checks establish is said of the model, and each condition of the model comes from
one of the draft.

* `Draft.freeze_eq_ok_iff`: what freezing does;
* `Draft.distinctTypes_of_freeze`, `Draft.exists_root_of_freeze`: type names are distinct, and the
  root of every entity set is known;
* `Draft.ancestorAt_of_freeze`: the hierarchy of the model is that of the draft;
* `Draft.exists_draft_of_condition`, `Draft.exists_condition_of_draft`: conditions of the model and
  of the draft.
-/
import EntityQuery.Model.Draft
import EntityQuery.Proofs.Hierarchy
import EntityQuery.Proofs.Results

namespace EntityQuery

/-! ## Outlines -/

section Outlines

variable {κ : Type} {types : List (EntityType κ)} {a : String} {k : Nat}

/-- A type without its conditions. -/
def EntityType.outline (t : EntityType κ) : EntityType Empty where
  name := t.name
  base := t.base
  properties := t.properties

/-- An outline is found where its type is. -/
theorem findType_outline :
    findType (types.map EntityType.outline) a = (findType types a).map EntityType.outline := by
  rw [findType, List.find?_map]
  rfl

/-- Ancestors do not depend on conditions. -/
theorem ancestorAt_outline : ancestorAt (types.map EntityType.outline) k a =
    (ancestorAt types k a).map EntityType.outline := by
  induction k generalizing a with
  | zero => exact findType_outline
  | succ k ih =>
    rw [ancestorAt, ancestorAt, findType_outline]
    cases findType types a with
    | none => rfl
    | some t =>
      show t.base.bind _ = (t.base.bind _).map _
      cases t.base with
      | none => rfl
      | some b => exact ih

theorem baseChain_outline {limit : Nat} : baseChain (types.map EntityType.outline) limit a =
    (baseChain types limit a).map EntityType.outline := by
  induction limit generalizing a with
  | zero => rfl
  | succ limit ih =>
    have houtline : findType (types.map EntityType.outline) a =
        (findType types a).map EntityType.outline := findType_outline
    cases hfind : findType types a with
    | none =>
      rw [hfind] at houtline
      rw [baseChain, baseChain, hfind, houtline]
      rfl
    | some t =>
      rw [hfind] at houtline
      rw [baseChain_succ hfind, baseChain_succ houtline, List.map_cons]
      show _ :: t.base.elim [] _ = _ :: (t.base.elim [] _).map _
      cases t.base with
      | none => rfl
      | some b => exact congrArg _ ih

/-- Nor do the columns of properties depend on conditions. -/
theorem propertyColumn_outline {p : String} :
    propertyColumn (types.map EntityType.outline) a p = propertyColumn types a p := by
  rw [propertyColumn, ancestry, List.length_map, baseChain_outline, List.findSome?_map]
  rfl

end Outlines

/-! ## Conditions -/

/-- The column of a finished condition is the one it is stated on or bound to, else that of its
property. -/
theorem DraftCondition.finish_eq_ok {columnOf : String → Option String} {c : DraftCondition}
    {condition : Condition} (h : c.finish columnOf = .ok condition) :
    condition.test = c.test ∧ (c.subject.column? = some condition.column ∨
      ∃ p, c.subject = .property p none ∧ columnOf p = some condition.column) := by
  unfold finish at h
  split at h
  next column hsubject =>
    obtain rfl := Except.ok.inj h
    exact ⟨rfl, .inl (by rw [hsubject]; rfl)⟩
  next p column hsubject =>
    obtain rfl := Except.ok.inj h
    exact ⟨rfl, .inl (by rw [hsubject]; rfl)⟩
  next p hsubject =>
    split at h
    next column hcolumn =>
      obtain rfl := Except.ok.inj h
      exact ⟨rfl, .inr ⟨p, hsubject, hcolumn⟩⟩
    next => cases h

/-- A condition that cannot be finished is stated on a property without a column. -/
theorem DraftCondition.finish_eq_error {columnOf : String → Option String} {c : DraftCondition}
    {fault : ModelFault} (h : c.finish columnOf = .error fault) :
    ∃ p, c.subject = .property p none ∧ columnOf p = none ∧ fault = .unmappedProperty p := by
  unfold finish at h
  split at h
  next => cases h
  next => cases h
  next p hsubject =>
    split at h
    next => cases h
    next hcolumn => exact ⟨p, hsubject, hcolumn, (Except.error.inj h).symm⟩

namespace Draft

variable {draft : Draft} {model : Model}

/-! ## Checks -/

/-- No name is repeated if all are distinct and none was seen before. -/
theorem firstRepeated_eq_none_iff {seen names : List String} :
    firstRepeated seen names = none ↔ names.Nodup ∧ ∀ name ∈ names, name ∉ seen := by
  induction names generalizing seen with
  | nil => simp [firstRepeated]
  | cons name names ih =>
    rw [firstRepeated]
    split
    next hseen => simp [hseen]
    next hseen =>
      rw [ih, List.nodup_cons, List.forall_mem_cons]
      simp only [List.mem_cons, not_or]
      constructor
      · rintro ⟨hnodup, hfresh⟩
        exact ⟨⟨fun h => (hfresh name h).1 rfl, hnodup⟩, hseen, fun n hn => (hfresh n hn).2⟩
      · rintro ⟨⟨hname, hnodup⟩, -, hfresh⟩
        exact ⟨hnodup, fun n hn => ⟨fun heq => hname (heq ▸ hn), hfresh n hn⟩⟩

/-- Entity sets pass the check if their roots are known and their names are new. -/
theorem setFault_eq_none_iff {types : List (EntityType DraftCondition)} {seen : List String}
    {sets : List EntitySet} : setFault? types seen sets = none ↔
      (∀ set ∈ sets, ∃ t, findType types set.root = some t) ∧ (sets.map (·.name)).Nodup ∧
        ∀ set ∈ sets, set.name ∉ seen := by
  induction sets generalizing seen with
  | nil => simp [setFault?]
  | cons set sets ih =>
    rw [setFault?, List.map_cons, List.nodup_cons, List.forall_mem_cons, List.forall_mem_cons]
    split_ifs with hroot hseen
    · rw [Option.isNone_iff_eq_none] at hroot
      simp [hroot]
    · simp [hseen]
    · have hfound : ∃ t, findType types set.root = some t := by
        rw [Option.isNone_iff_eq_none] at hroot
        exact Option.ne_none_iff_exists'.mp hroot
      rw [ih]
      simp only [List.mem_cons, not_or, List.mem_map, not_exists, not_and]
      constructor
      · rintro ⟨hroots, hnodup, hnew⟩
        exact ⟨⟨hfound, hroots⟩, ⟨fun s hs => (hnew s hs).1, hnodup⟩, hseen,
          fun s hs => (hnew s hs).2⟩
      · rintro ⟨⟨-, hroots⟩, ⟨hname, hnodup⟩, -, hnew⟩
        exact ⟨hroots, hnodup, fun s hs => ⟨hname s hs, hnew s hs⟩⟩

/-- **A draft has no fault if it passes its four checks.** -/
theorem fault_eq_none_iff : draft.fault? = none ↔
    draft.duplicateType? = none ∧ draft.unknownBase? = none ∧ draft.cyclicBase? = none ∧
      setFault? draft.types [] draft.sets = none := by
  simp [fault?]

/-! ## Freezing -/

/-- **What freezing does**: a draft without a fault keeps its sets, and its types are finished. -/
theorem freeze_eq_ok_iff : draft.freeze = .ok model ↔
    draft.fault? = none ∧ draft.sets = model.sets ∧
      draft.types.mapM draft.finishType = .ok model.types := by
  unfold freeze
  cases draft.fault? with
  | some fault => simp
  | none =>
    cases draft.types.mapM draft.finishType with
    | error fault => simp [bind, Except.bind]
    | ok types =>
      obtain ⟨sets, modelTypes⟩ := model
      simp [bind, Except.bind, pure, Except.pure]

/-- Finishing a type finishes its conditions and changes nothing else. -/
theorem finishType_eq_ok {d : EntityType DraftCondition} {t : EntityType Condition}
    (h : draft.finishType d = .ok t) : t.outline = d.outline ∧
      d.conditions.mapM (·.finish (propertyColumn draft.types d.name)) = .ok t.conditions := by
  obtain ⟨conditions, hconditions, rfl⟩ := exists_ok_of_bind_pure_eq_ok h
  exact ⟨rfl, hconditions⟩

section Frozen

variable (h : draft.freeze = .ok model)

include h

/-- The types of a model are the finished types of its draft, in order. -/
theorem types_of_freeze :
    List.Forall₂ (fun d t => draft.finishType d = .ok t) draft.types model.types :=
  forall₂_of_mapM_eq_ok (freeze_eq_ok_iff.mp h).2.2

/-- Conditions apart, the types of the model are those of the draft. -/
theorem outlines_of_freeze :
    draft.types.map EntityType.outline = model.types.map EntityType.outline := by
  have htypes := types_of_freeze h
  rw [← List.forall₂_eq_eq_eq, List.forall₂_map_left_iff, List.forall₂_map_right_iff]
  exact htypes.imp fun d t ht => (finishType_eq_ok ht).1.symm

/-- **The hierarchy of the model is that of the draft.** -/
theorem ancestorAt_of_freeze {k : Nat} {a : String} {d : EntityType DraftCondition}
    (hd : ancestorAt draft.types k a = some d) :
    ∃ t, ancestorAt model.types k a = some t ∧ t.outline = d.outline := by
  have houtline : (ancestorAt model.types k a).map EntityType.outline = some d.outline := by
    rw [← ancestorAt_outline, ← outlines_of_freeze h, ancestorAt_outline, hd]
    rfl
  obtain ⟨t, ht, heq⟩ := Option.map_eq_some_iff.mp houtline
  exact ⟨t, ht, heq⟩

/-- The types of a model have distinct names. -/
theorem distinctTypes_of_freeze : model.DistinctTypes := by
  obtain ⟨hduplicate, -⟩ := fault_eq_none_iff.mp (freeze_eq_ok_iff.mp h).1
  have hnodup := (firstRepeated_eq_none_iff.mp (Option.map_eq_none_iff.mp hduplicate)).1
  have hnames : draft.types.map (·.name) = model.types.map (·.name) := by
    have houtlines := congrArg (List.map (·.name)) (outlines_of_freeze h)
    rw [List.map_map, List.map_map] at houtlines
    exact houtlines
  rw [Model.DistinctTypes, ← hnames]
  exact hnodup

theorem exists_root_of_freeze {set : EntitySet} (hset : set ∈ model.sets) :
    ∃ t, model.entityType set.root = some t := by
  obtain ⟨hfault, hsets, -⟩ := freeze_eq_ok_iff.mp h
  obtain ⟨-, -, -, hsetFault⟩ := fault_eq_none_iff.mp hfault
  obtain ⟨d, hd⟩ := (setFault_eq_none_iff.mp hsetFault).1 set (hsets ▸ hset)
  have hat : ancestorAt draft.types 0 set.root = some d := hd
  obtain ⟨t, ht, -⟩ := ancestorAt_of_freeze h hat
  exact ⟨t, ht⟩

/-- Properties are looked up in the draft as they would be in the model. -/
theorem propertyColumn_of_freeze :
    propertyColumn draft.types = propertyColumn model.types := by
  funext a p
  rw [← propertyColumn_outline, outlines_of_freeze h, propertyColumn_outline]

/-- A column that a property is looked up as is one of the columns of the type. -/
theorem mem_typeColumns_of_propertyColumn {a p column : String}
    (hcolumn : propertyColumn draft.types a p = some column) : column ∈ model.typeColumns a := by
  rw [propertyColumn_of_freeze h] at hcolumn
  obtain ⟨t, ht, hproperty⟩ := List.exists_of_findSome?_eq_some hcolumn
  obtain ⟨property, hfind, rfl⟩ := Option.map_eq_some_iff.mp hproperty
  obtain ⟨k, hk⟩ := mem_ancestry_iff.mp ht
  exact Model.mem_typeColumns.mpr
    ⟨k, t, hk, List.mem_map_of_mem (List.mem_of_find?_eq_some hfind)⟩

/-- Every condition of the model is one of the draft, finished. -/
theorem exists_draft_of_condition {t : EntityType Condition} (ht : t ∈ model.types)
    {condition : Condition} (hcondition : condition ∈ t.conditions) :
    ∃ d ∈ draft.types, d.outline = t.outline ∧ ∃ c ∈ d.conditions,
      c.finish (propertyColumn draft.types t.name) = .ok condition := by
  obtain ⟨d, hd, hfinish⟩ := exists_left_of_forall₂ (types_of_freeze h) ht
  obtain ⟨houtline, hconditions⟩ := finishType_eq_ok hfinish
  have hname : d.name = t.name := congrArg (·.name) houtline.symm
  rw [hname] at hconditions
  exact ⟨d, hd, houtline.symm,
    exists_left_of_forall₂ (forall₂_of_mapM_eq_ok hconditions) hcondition⟩

/-- Every condition of the draft is finished in the model. -/
theorem exists_condition_of_draft {d : EntityType DraftCondition} (hd : d ∈ draft.types)
    {c : DraftCondition} (hc : c ∈ d.conditions) :
    ∃ t ∈ model.types, d.outline = t.outline ∧ ∃ condition ∈ t.conditions,
      c.finish (propertyColumn draft.types d.name) = .ok condition := by
  obtain ⟨t, ht, hfinish⟩ := exists_right_of_forall₂ (types_of_freeze h) hd
  obtain ⟨houtline, hconditions⟩ := finishType_eq_ok hfinish
  exact ⟨t, ht, houtline.symm, exists_right_of_forall₂ (forall₂_of_mapM_eq_ok hconditions) hc⟩

end Frozen

end Draft

end EntityQuery
