/-
# Valid drafts

What a draft has to satisfy is said of its types and entity sets alone, without the checks:
`Draft.Valid`.  Every check either establishes its part of that or reports a fault that the draft really
has (`Draft.Judges`), and a draft with such a fault is not valid.  So freezing decides validity.

* `exists_propertyColumn_iff`: which properties have a column to be looked up;
* `Draft.judges_fault`: what the checks of types and entity sets establish or report;
* `Draft.freeze_ok_iff_valid`: a draft can be frozen exactly if it is valid.
-/
import EntityQuery.Proofs.Acyclic
import EntityQuery.Proofs.Drafts
import Mathlib.Data.List.Duplicate

namespace EntityQuery

open Relation

/-! ## Properties of types and their ancestors -/

section Properties

variable {κ : Type} {types : List (EntityType κ)} {a p column : String}

/-- The type of a name or one that it derives from declares a property. -/
def Declares (types : List (EntityType κ)) (a p : String) : Prop :=
  ∃ t ∈ types, ReflTransGen (HasBase types) a t.name ∧ ∃ property ∈ t.properties, property.name = p

/-- The column of a property exactly where the type or an ancestor declares the property. -/
theorem exists_propertyColumn_iff (hdistinct : (types.map (·.name)).Nodup) :
    (∃ column, propertyColumn types a p = some column) ↔ Declares types a p := by
  rw [← Option.isSome_iff_exists, propertyColumn, List.findSome?_isSome_iff]
  simp only [Option.isSome_map, List.find?_isSome, decide_eq_true_eq, mem_ancestry_iff]
  constructor
  · rintro ⟨t, ⟨k, hk⟩, hproperty⟩
    exact ⟨t, mem_of_ancestorAt hk, reflTransGen_of_ancestorAt hk, hproperty⟩
  · rintro ⟨t, ht, hderives, hproperty⟩
    exact ⟨t, (exists_ancestorAt_iff hdistinct ht).mpr hderives, hproperty⟩

end Properties

namespace Draft

variable {draft : Draft} {model : Model} {fault : ModelFault} {P Q : Prop}

/-! ## Validity and faults -/

/-- A draft of which a model can be made. -/
structure Valid (draft : Draft) : Prop where
  distinct_types : (draft.types.map (·.name)).Nodup
  bases_known : BasesKnown draft.types
  acyclic : Acyclic draft.types
  roots_known : ∀ set ∈ draft.sets, ∃ t ∈ draft.types, t.name = set.root
  distinct_sets : (draft.sets.map (·.name)).Nodup
  /-- A condition has a column, or there is a property to take it from. -/
  conditions_mapped : ∀ t ∈ draft.types, ∀ c ∈ t.conditions,
    (∃ column, c.subject.column? = some column) ∨
      ∃ p, c.subject.property? = some p ∧ Declares draft.types t.name p

/-- What a fault says is true of a draft. -/
def Exhibits (draft : Draft) : ModelFault → Prop
  | .duplicateType name => List.Duplicate name (draft.types.map (·.name))
  | .unknownBase name base => HasBase draft.types name base ∧ ∀ t ∈ draft.types, t.name ≠ base
  | .cyclicBase name => ∃ a, ReflTransGen (HasBase draft.types) name a ∧
      TransGen (HasBase draft.types) a a
  | .unknownRoot name root => (∃ set ∈ draft.sets, set.name = name ∧ set.root = root) ∧
      ∀ t ∈ draft.types, t.name ≠ root
  | .duplicateSet name => List.Duplicate name (draft.sets.map (·.name))
  | .unmappedProperty p => ∃ t ∈ draft.types, ∃ c ∈ t.conditions,
      c.subject = .property p none ∧ ¬ Declares draft.types t.name p
  -- faults of single conditions, found before there is a draft
  | .overspecifiedCondition _ | .underspecifiedCondition _ | .conditionMember _
  | .reboundColumn _ _ => False

/-- A draft with a fault is not valid. -/
theorem not_valid_of_exhibits (h : draft.Exhibits fault) : ¬ draft.Valid := by
  intro hvalid
  cases fault with
  | duplicateType name => exact h.not_nodup hvalid.distinct_types
  | unknownBase name base =>
    obtain ⟨⟨t, ht, -, hbase⟩, hunknown⟩ := h
    obtain ⟨s, hs, hname⟩ := hvalid.bases_known t ht base hbase
    exact hunknown s hs hname
  | cyclicBase name =>
    obtain ⟨a, -, hcycle⟩ := h
    exact acyclic_iff.mp hvalid.acyclic a hcycle
  | unknownRoot name root =>
    obtain ⟨⟨set, hset, -, rfl⟩, hunknown⟩ := h
    obtain ⟨t, ht, hname⟩ := hvalid.roots_known set hset
    exact hunknown t ht hname
  | duplicateSet name => exact h.not_nodup hvalid.distinct_sets
  | unmappedProperty p =>
    obtain ⟨t, ht, c, hc, hsubject, hundeclared⟩ := h
    rcases hvalid.conditions_mapped t ht c hc with ⟨column, hcolumn⟩ | ⟨q, hq, hdeclares⟩
    · rw [hsubject] at hcolumn
      cases hcolumn
    · rw [hsubject] at hq
      cases hq
      exact hundeclared hdeclares
  | overspecifiedCondition _ | underspecifiedCondition _ | conditionMember _ | reboundColumn _ _ =>
    exact h

/-! ## Checks -/

/-- A check establishes `P`, or it reports a fault that the draft has. -/
def Judges (draft : Draft) (P : Prop) : Option ModelFault → Prop
  | none => P
  | some fault => draft.Exhibits fault

/-- A second check may rely on what the first has established. -/
theorem Judges.orElse {first second : Option ModelFault} (hfirst : draft.Judges P first)
    (hsecond : P → draft.Judges Q second) : draft.Judges (P ∧ Q) (first <|> second) := by
  cases first with
  | some fault => exact hfirst
  | none =>
    have hQ := hsecond hfirst
    cases second with
    | some fault => exact hQ
    | none => exact ⟨hfirst, hQ⟩

/-- A check of every type. -/
theorem judges_findSome {check : EntityType DraftCondition → Option ModelFault}
    {P : EntityType DraftCondition → Prop} (h : ∀ t ∈ draft.types, draft.Judges (P t) (check t)) :
    draft.Judges (∀ t ∈ draft.types, P t) (draft.types.findSome? check) := by
  cases hfault : draft.types.findSome? check with
  | some fault =>
    obtain ⟨t, ht, hcheck⟩ := List.exists_of_findSome?_eq_some hfault
    have hjudges := h t ht
    rw [hcheck] at hjudges
    exact hjudges
  | none =>
    intro t ht
    have hjudges := h t ht
    rw [List.findSome?_eq_none_iff.mp hfault t ht] at hjudges
    exact hjudges

/-- What is repeated behind a name that was just seen is repeated from there on. -/
theorem repeated_cons {seen names : List String} {name first : String}
    (h : name ∈ first :: seen ∧ name ∈ names ∨ List.Duplicate name names) :
    name ∈ seen ∧ name ∈ first :: names ∨ List.Duplicate name (first :: names) := by
  rcases h with ⟨hmem, hname⟩ | hduplicate
  · rcases List.mem_cons.mp hmem with rfl | hmem
    · exact .inr (List.Mem.duplicate_cons_self hname)
    · exact .inl ⟨hmem, List.mem_cons_of_mem first hname⟩
  · exact .inr (hduplicate.duplicate_cons first)

/-- A name that is reported is seen before or stands twice. -/
theorem firstRepeated_eq_some {seen names : List String} {name : String}
    (h : firstRepeated seen names = some name) :
    name ∈ seen ∧ name ∈ names ∨ List.Duplicate name names := by
  induction names generalizing seen with
  | nil => cases h
  | cons first names ih =>
    rw [firstRepeated] at h
    split_ifs at h with hseen
    · obtain rfl := Option.some.inj h
      exact .inl ⟨hseen, List.mem_cons_self⟩
    · exact repeated_cons (ih h)

/-- The first check finds two types of one name. -/
theorem judges_duplicateType :
    draft.Judges (draft.types.map (·.name)).Nodup draft.duplicateType? := by
  rw [duplicateType?]
  cases hrepeated : firstRepeated [] (draft.types.map (·.name)) with
  | none => exact (firstRepeated_eq_none_iff.mp hrepeated).1
  | some name =>
    rcases firstRepeated_eq_some hrepeated with ⟨hnil, -⟩ | hduplicate
    · exact absurd hnil List.not_mem_nil
    · exact hduplicate

/-- The second check finds a base that is no type. -/
theorem judges_unknownBase : draft.Judges (BasesKnown draft.types) draft.unknownBase? := by
  apply judges_findSome
  intro t ht
  cases hbase : t.base with
  | none =>
    intro b hb
    cases hb
  | some base =>
    show draft.Judges _ (if (findType draft.types base).isNone then _ else none)
    split_ifs with hunknown
    · rw [Option.isNone_iff_eq_none, findType, List.find?_eq_none] at hunknown
      refine ⟨⟨t, ht, rfl, hbase⟩, ?_⟩
      intro s hs hname
      exact hunknown s hs (decide_eq_true hname)
    · rw [Option.isNone_iff_eq_none] at hunknown
      intro b hb
      obtain rfl := Option.some.inj hb
      exact exists_findType_iff.mp (Option.ne_none_iff_exists'.mp hunknown)

/-- A base chain that outlasts the number of types leads to a cycle, and one from a cycle outlasts any
number. -/
theorem judges_cyclicBase (hdistinct : (draft.types.map (·.name)).Nodup)
    (hknown : BasesKnown draft.types) : draft.Judges (Acyclic draft.types) draft.cyclicBase? := by
  apply judges_findSome
  intro t ht
  split_ifs with houtlasts
  · obtain ⟨s, hs⟩ := (outlasts_base_iff hdistinct hknown ht _).mp houtlasts
    exact ⟨s.name, reflTransGen_of_ancestorAt hs, transGen_self_of_ancestorAt hs (Nat.le_succ _)⟩
  · intro hcycle
    obtain ⟨k, hk⟩ := (exists_ancestorAt_succ_iff hdistinct ht).mpr hcycle
    apply houtlasts
    apply (outlasts_base_iff hdistinct hknown ht _).mpr
    exact exists_ancestorAt_of_cycle hk _

/-- What is wrong with an entity set that does not pass the check. -/
theorem setFault_eq_some {types : List (EntityType DraftCondition)} {seen : List String}
    {sets : List EntitySet} (h : setFault? types seen sets = some fault) :
    (∃ set ∈ sets, fault = .unknownRoot set.name set.root ∧ findType types set.root = none) ∨
      ∃ name, fault = .duplicateSet name ∧
        (name ∈ seen ∧ name ∈ sets.map (·.name) ∨ List.Duplicate name (sets.map (·.name))) := by
  induction sets generalizing seen with
  | nil => cases h
  | cons set sets ih =>
    rw [setFault?] at h
    split_ifs at h with hroot hseen
    · exact .inl ⟨set, List.mem_cons_self, (Option.some.inj h).symm,
        Option.isNone_iff_eq_none.mp hroot⟩
    · exact .inr ⟨set.name, (Option.some.inj h).symm, .inl ⟨hseen, List.mem_cons_self⟩⟩
    · rcases ih h with ⟨s, hs, hfault⟩ | ⟨name, hfault, hrepeated⟩
      · exact .inl ⟨s, List.mem_cons_of_mem set hs, hfault⟩
      · exact .inr ⟨name, hfault, repeated_cons hrepeated⟩

/-- The last check finds an unknown root and two sets of one name. -/
theorem judges_setFault :
    draft.Judges ((∀ set ∈ draft.sets, ∃ t ∈ draft.types, t.name = set.root) ∧
      (draft.sets.map (·.name)).Nodup) (setFault? draft.types [] draft.sets) := by
  cases hfault : setFault? draft.types [] draft.sets with
  | none =>
    obtain ⟨hroots, hnodup, -⟩ := setFault_eq_none_iff.mp hfault
    exact ⟨fun set hset => exists_findType_iff.mp (hroots set hset), hnodup⟩
  | some fault =>
    rcases setFault_eq_some hfault with ⟨set, hset, rfl, hroot⟩ | ⟨name, rfl, hrepeated⟩
    · refine ⟨⟨set, hset, rfl, rfl⟩, ?_⟩
      intro t ht hname
      obtain ⟨s, hs⟩ := exists_findType_iff.mpr ⟨t, ht, hname⟩
      rw [hroot] at hs
      cases hs
    · rcases hrepeated with ⟨hnil, -⟩ | hduplicate
      · exact absurd hnil List.not_mem_nil
      · exact hduplicate

/-- **What the checks of a draft establish or report.** -/
theorem judges_fault :
    draft.Judges ((draft.types.map (·.name)).Nodup ∧ BasesKnown draft.types ∧ Acyclic draft.types ∧
      (∀ set ∈ draft.sets, ∃ t ∈ draft.types, t.name = set.root) ∧
      (draft.sets.map (·.name)).Nodup) draft.fault? :=
  judges_duplicateType.orElse fun hdistinct =>
    judges_unknownBase.orElse fun hknown =>
      (judges_cyclicBase hdistinct hknown).orElse fun _ => judges_setFault

/-! ## Conditions -/

/-- The conditions of a frozen draft have a column, or a property to take it from. -/
theorem mapped_of_freeze (h : draft.freeze = .ok model)
    (hdistinct : (draft.types.map (·.name)).Nodup) {t : EntityType DraftCondition}
    (ht : t ∈ draft.types) {c : DraftCondition} (hc : c ∈ t.conditions) :
    (∃ column, c.subject.column? = some column) ∨
      ∃ p, c.subject.property? = some p ∧ Declares draft.types t.name p := by
  obtain ⟨-, -, -, condition, -, hfinish⟩ := exists_condition_of_draft h ht hc
  rcases (DraftCondition.finish_eq_ok hfinish).2 with hcolumn | ⟨p, hsubject, hcolumn⟩
  · exact .inl ⟨condition.column, hcolumn⟩
  · refine .inr ⟨p, by rw [hsubject]; rfl, ?_⟩
    exact (exists_propertyColumn_iff hdistinct).mp ⟨condition.column, hcolumn⟩

/-! ## Freezing -/

theorem valid_of_freeze (h : draft.freeze = .ok model) : draft.Valid := by
  have hjudges := draft.judges_fault
  rw [(freeze_eq_ok_iff.mp h).1] at hjudges
  obtain ⟨hdistinct, hknown, hacyclic, hroots, hsets⟩ := hjudges
  exact ⟨hdistinct, hknown, hacyclic, hroots, hsets,
    fun t ht c hc => mapped_of_freeze h hdistinct ht hc⟩

theorem hasBase_outline {κ : Type} {types : List (EntityType κ)} :
    HasBase (types.map EntityType.outline) = HasBase types := by
  funext a b
  simp only [HasBase, List.mem_map, exists_exists_and_eq_and]
  rfl

/-- The model of a draft has no cycle either. -/
theorem acyclic_of_freeze (h : draft.freeze = .ok model) : Acyclic model.types := by
  have hacyclic := acyclic_iff.mp (valid_of_freeze h).acyclic
  rw [← hasBase_outline, outlines_of_freeze h, hasBase_outline] at hacyclic
  exact acyclic_iff.mpr hacyclic

/-- **A draft that is refused has the fault that is reported.** -/
theorem exhibits_of_freeze (h : draft.freeze = .error fault) : draft.Exhibits fault := by
  have hjudges := draft.judges_fault
  rw [freeze] at h
  cases hfault : draft.fault? with
  | some found =>
    rw [hfault] at h hjudges
    obtain rfl := Except.error.inj h
    exact hjudges
  | none =>
    -- the checks have passed, so it is a condition that has no column
    rw [hfault] at h hjudges
    obtain ⟨hdistinct, -⟩ := hjudges
    rcases error_of_bind_eq_error h with htypes | ⟨types, -, hpure⟩
    · obtain ⟨t, ht, htype⟩ := exists_error_of_mapM_eq_error htypes
      rcases error_of_bind_eq_error htype with hconditions | ⟨conditions, -, hpure⟩
      · obtain ⟨c, hc, hfinish⟩ := exists_error_of_mapM_eq_error hconditions
        obtain ⟨p, hsubject, hcolumn, rfl⟩ := DraftCondition.finish_eq_error hfinish
        refine ⟨t, ht, c, hc, hsubject, ?_⟩
        intro hdeclares
        obtain ⟨column, hsome⟩ := (exists_propertyColumn_iff hdistinct).mpr hdeclares
        rw [hcolumn] at hsome
        cases hsome
      · cases hpure
    · cases hpure

/-- **A draft can be frozen exactly if it is valid**, and if it is not the answer is a fault that it
has. -/
theorem freeze_ok_iff_valid (draft : Draft) :
    ((∃ model, draft.freeze = .ok model) ↔ draft.Valid) ∧
      ((∃ fault, draft.freeze = .error fault ∧ draft.Exhibits fault) ↔ ¬ draft.Valid) := by
  have hdecided : (∃ model, draft.freeze = .ok model) ∨
      ∃ fault, draft.freeze = .error fault ∧ draft.Exhibits fault := by
    cases hfreeze : draft.freeze with
    | ok model => exact .inl ⟨model, rfl⟩
    | error fault => exact .inr ⟨fault, rfl, exhibits_of_freeze hfreeze⟩
  constructor
  · constructor
    · rintro ⟨model, hfreeze⟩
      exact valid_of_freeze hfreeze
    · intro hvalid
      rcases hdecided with hok | ⟨fault, -, hexhibits⟩
      · exact hok
      · exact absurd hvalid (not_valid_of_exhibits hexhibits)
  · constructor
    · rintro ⟨fault, -, hexhibits⟩
      exact not_valid_of_exhibits hexhibits
    · intro hinvalid
      rcases hdecided with ⟨model, hfreeze⟩ | herror
      · exact absurd (valid_of_freeze hfreeze) hinvalid
      · exact herror

end Draft

end EntityQuery
