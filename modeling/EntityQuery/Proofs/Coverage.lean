/-
# Columns of an entity set

The table of an entity set holds a whole hierarchy, but its list of columns is made of the properties
in the subtree of the root and of the discriminator.  Two kinds of columns may be missing there: those
that the root inherits, if it has a base, and those that a condition is stated on without being the
discriminator or a column of a property.  Nothing else is ever missing.

* `Model.CoversHierarchy`: an entity set has the columns of its types and those that tell them apart;
* `Model.mem_subtree_or_inherited`: where the columns of a type of the hierarchy come from;
* `Draft.exists_subtype_of_mem_typeReads`: where those come from that its predicate reads;
* `Draft.freeze_coversHierarchy_iff`: which entity sets of a frozen draft cover their hierarchy.
-/
import EntityQuery.Proofs.Drafts
import EntityQuery.Proofs.TypeFilter.Predicate

namespace EntityQuery

namespace Model

variable {model : Model} {set : EntitySet} {a b column : String}

/-! ## Inherited columns -/

/-- The columns that a type has from its base and the ancestors of that. -/
def inheritedColumns (model : Model) (name : String) : List String :=
  columnsOf (ancestry model.types name).tail

/-- The columns of a type are its own and those that it inherits. -/
theorem mem_typeColumns_iff_inherited {t : EntityType Condition} (ht : model.entityType a = some t) :
    column ∈ model.typeColumns a ↔
      column ∈ t.properties.map (·.column) ∨ column ∈ model.inheritedColumns a := by
  have hancestry : ancestry model.types a = t :: (ancestry model.types a).tail := by
    obtain ⟨limit, hlimit⟩ := Nat.exists_eq_add_one.mpr
      (List.length_pos_of_mem (List.mem_of_find?_eq_some ht))
    rw [ancestry, hlimit, baseChain_succ ht, List.tail_cons]
  rw [typeColumns, mem_columnsOf, hancestry, inheritedColumns, mem_columnsOf]
  simp only [List.mem_reverse, List.mem_cons, exists_eq_or_imp]

/-- **Where the columns of a derived type come from**: each is a column of the subtree that it derives
from or inherited by the type on top of that. -/
theorem mem_subtree_or_inherited (h : model.isSubtypeOf a b = true)
    (hcolumn : column ∈ model.typeColumns a) :
    (∃ t ∈ model.subtree b, column ∈ t.properties.map (·.column)) ∨
      column ∈ model.inheritedColumns b := by
  obtain ⟨j, top, htop, rfl⟩ := isSubtypeOf_iff.mp h
  obtain ⟨k, t, ht, hcolumn⟩ := mem_typeColumns.mp hcolumn
  rcases Nat.le_total k j with hle | hle
  · -- at most as far up as the type on top
    obtain ⟨m, rfl⟩ := Nat.exists_eq_add_of_le hle
    rw [ancestorAt_add ht] at htop
    refine .inl ⟨t, ?_, hcolumn⟩
    exact mem_subtree_of_isSubtypeOf (findType_of_ancestorAt ht)
      (isSubtypeOf_iff.mpr ⟨m, top, htop, rfl⟩)
  · -- further up, so that the type on top has the column too
    obtain ⟨m, rfl⟩ := Nat.exists_eq_add_of_le hle
    rw [ancestorAt_add htop] at ht
    have hself : model.entityType top.name = some top := findType_of_ancestorAt htop
    have habove : column ∈ model.typeColumns top.name := mem_typeColumns.mpr ⟨m, t, ht, hcolumn⟩
    rcases (mem_typeColumns_iff_inherited hself).mp habove with hown | hinherited
    · exact .inl ⟨top, mem_subtree_self hself, hown⟩
    · exact .inr hinherited

/-! ## Covered hierarchies -/

/-- An entity set has the columns of every type of its hierarchy and those that the predicate of such
a type reads. -/
def CoversHierarchy (model : Model) (set : EntitySet) : Prop :=
  ∀ name, model.isSubtypeOf name set.root = true →
    model.typeColumns name ⊆ model.relationColumns set ∧
      ∀ e, model.typePredicate set name = .ok e → e.columns ⊆ model.relationColumns set

/-- The columns of the types of a hierarchy are there if those are that its root inherits. -/
theorem typeColumns_subset_of_inherited
    (hinherited : model.inheritedColumns set.root ⊆ model.relationColumns set)
    (h : model.isSubtypeOf a set.root = true) :
    model.typeColumns a ⊆ model.relationColumns set := by
  intro column hcolumn
  rcases mem_subtree_or_inherited h hcolumn with hsubtree | habove
  · exact mem_relationColumns.mpr (.inl hsubtree)
  · exact hinherited habove

theorem mem_columns_of_typePredicate {e : Expr} (h : model.typePredicate set a = .ok e) :
    column ∈ e.columns ↔ column ∈ model.typeReads a := by
  rw [Expr.columns, List.mem_eraseDups,
    mem_references_subtreePredicate (subtreePredicate_of_typePredicate h)]

/-- The root of an entity set has a predicate if there is a condition to read a column for. -/
theorem exists_typePredicate_of_mem_typeReads {root : EntityType Condition}
    (hroot : model.entityType set.root = some root) (hcolumn : column ∈ model.typeReads set.root) :
    ∃ e, model.typePredicate set set.root = .ok e := by
  obtain ⟨t, ht, hread⟩ := List.mem_flatMap.mp hcolumn
  obtain ⟨condition, hcondition, -⟩ := List.mem_map.mp hread
  apply typePredicate_ok_iff.mpr
  exact ⟨Option.isSome_iff_exists.mpr ⟨root, hroot⟩, isSubtypeOf_refl hroot, t, ht,
    List.ne_nil_of_mem hcondition⟩

end Model

/-! ## Stated columns -/

/-- The columns that the conditions of a drafted type are stated on or bound to. -/
def EntityType.statedColumns (t : EntityType DraftCondition) : List String :=
  t.conditions.filterMap (·.subject.column?)

namespace Draft

section Frozen

variable {draft : Draft} {model : Model} {a column : String}
variable (h : draft.freeze = .ok model)

include h

/-- A type reads the columns that conditions of its subtypes are stated on or bound to. -/
theorem mem_typeReads_of_statedColumns {d : EntityType DraftCondition} (hd : d ∈ draft.types)
    (hsubtype : model.isSubtypeOf d.name a = true) (hcolumn : column ∈ d.statedColumns) :
    column ∈ model.typeReads a := by
  obtain ⟨c, hc, hstated⟩ := List.mem_filterMap.mp hcolumn
  obtain ⟨t, ht, houtline, condition, hcondition, hfinish⟩ := exists_condition_of_draft h hd hc
  have hname : d.name = t.name := congrArg (·.name) houtline
  have hmem : t ∈ model.subtree a :=
    (Model.mem_subtree_iff (distinctTypes_of_freeze h)).mpr ⟨ht, hname ▸ hsubtype⟩
  have hread : condition.column = column := by
    rcases (DraftCondition.finish_eq_ok hfinish).2 with heq | ⟨p, hproperty, -⟩
    · exact Option.some.inj (heq.symm.trans hstated)
    · -- the column of a property is not stated
      rw [hproperty] at hstated
      cases hstated
  rw [← hread]
  exact List.mem_flatMap.mpr ⟨t, hmem, List.mem_map_of_mem hcondition⟩

/-- **Where the columns that a type reads come from**: each is one that a condition of a subtype is
stated on or bound to, or a column of that subtype. -/
theorem exists_subtype_of_mem_typeReads (hcolumn : column ∈ model.typeReads a) :
    ∃ d ∈ draft.types, model.isSubtypeOf d.name a = true ∧
      (column ∈ d.statedColumns ∨ column ∈ model.typeColumns d.name) := by
  obtain ⟨t, ht, hread⟩ := List.mem_flatMap.mp hcolumn
  obtain ⟨condition, hcondition, rfl⟩ := List.mem_map.mp hread
  obtain ⟨hmem, hsubtype⟩ := (Model.mem_subtree_iff (distinctTypes_of_freeze h)).mp ht
  obtain ⟨d, hd, houtline, c, hc, hfinish⟩ := exists_draft_of_condition h hmem hcondition
  have hname : d.name = t.name := congrArg (·.name) houtline
  refine ⟨d, hd, hname ▸ hsubtype, ?_⟩
  rcases (DraftCondition.finish_eq_ok hfinish).2 with hstated | ⟨p, -, hproperty⟩
  · exact .inl (List.mem_filterMap.mpr ⟨c, hc, hstated⟩)
  · exact .inr (hname ▸ mem_typeColumns_of_propertyColumn h hproperty)

end Frozen

/-- **Which entity sets cover their hierarchy**: those that have the columns that their root inherits
and the columns that conditions in the hierarchy are stated on or bound to.  The columns of conditions
that are stated on properties are never missing. -/
theorem freeze_coversHierarchy_iff {draft : Draft} {model : Model} {set : EntitySet}
    (h : draft.freeze = .ok model) (hset : set ∈ model.sets) :
    model.CoversHierarchy set ↔
      model.inheritedColumns set.root ⊆ model.relationColumns set ∧
      ∀ d ∈ draft.types, model.isSubtypeOf d.name set.root = true →
        d.statedColumns ⊆ model.relationColumns set := by
  obtain ⟨root, hroot⟩ := exists_root_of_freeze h hset
  constructor
  · -- the root has every column that is inherited or read in the hierarchy
    intro hcovers
    obtain ⟨hcolumns, hreads⟩ := hcovers set.root (Model.isSubtypeOf_refl hroot)
    constructor
    · intro column hcolumn
      exact hcolumns ((Model.mem_typeColumns_iff_inherited hroot).mpr (.inr hcolumn))
    · intro d hd hsubtype column hcolumn
      have hread := mem_typeReads_of_statedColumns h hd hsubtype hcolumn
      obtain ⟨e, he⟩ := Model.exists_typePredicate_of_mem_typeReads hroot hread
      exact hreads e he ((Model.mem_columns_of_typePredicate he).mpr hread)
  · rintro ⟨hinherited, hstated⟩ name hname
    refine ⟨Model.typeColumns_subset_of_inherited hinherited hname, ?_⟩
    intro e he column hcolumn
    have hread := (Model.mem_columns_of_typePredicate he).mp hcolumn
    obtain ⟨d, hd, hbelow, hsource⟩ := exists_subtype_of_mem_typeReads h hread
    have hsubtype := Model.isSubtypeOf_trans hbelow hname
    rcases hsource with hcondition | hproperty
    · exact hstated d hd hsubtype hcondition
    · exact Model.typeColumns_subset_of_inherited hinherited hsubtype hproperty

/-- The pets of a household. -/
def pets : EntitySet :=
  { name := "Pets", table := "Pets", root := "Pet", discriminator := some "Kind" }

/-- Cats, which the discriminator tells, and pets with a chip, which a property tells. -/
def petsDraft : Draft where
  sets := [pets]
  types := [
    { name := "Pet", properties := [⟨"Id", "Id"⟩, ⟨"Chip", "ChipNumber"⟩] },
    { name := "Cat", base := some "Pet", properties := [⟨"Lives", "Lives"⟩],
      conditions := [⟨.column "Kind", .equals (.string "cat")⟩] },
    { name := "Chipped", base := some "Pet", conditions := [⟨.property "Chip" none, .isNotNull⟩] }]

theorem freeze_coversHierarchy_iff_pets :
    ∃ model, petsDraft.freeze = .ok model ∧ pets ∈ model.sets ∧ model.CoversHierarchy pets := by
  refine ⟨_, rfl, List.mem_singleton_self pets, ?_⟩
  have hfreeze : petsDraft.freeze = .ok _ := rfl
  exact (freeze_coversHierarchy_iff hfreeze (List.mem_singleton_self pets)).mpr
    ⟨by decide, by decide⟩

/-- The cats of a table of animals. -/
def cats : EntitySet :=
  { name := "Cats", table := "dbo.Animals", root := "Cat" }

/-- Cats as animals of their own entity set, told by a column that is no discriminator. -/
def catsDraft : Draft where
  sets := [cats]
  types := [
    { name := "Animal", properties := [⟨"Id", "Id"⟩, ⟨"Name", "Name"⟩] },
    { name := "Cat", base := some "Animal", properties := [⟨"Lives", "Lives"⟩],
      conditions := [⟨.column "Kind", .equals (.string "cat")⟩] }]

/-- An entity set need not have the columns that its root inherits or is told by. -/
theorem freeze_coversHierarchy_iff_cats :
    ∃ model, catsDraft.freeze = .ok model ∧ cats ∈ model.sets ∧
      model.isSubtypeOf "Cat" cats.root = true ∧ model.relationColumns cats = ["Lives"] ∧
      model.typeColumns "Cat" = ["Id", "Name", "Lives"] ∧
      (∃ e, model.typePredicate cats "Cat" = .ok e ∧ e.columns = ["Kind"]) ∧
      ¬ model.CoversHierarchy cats := by
  refine ⟨_, rfl, List.mem_singleton_self cats, by decide, by decide, by decide,
    ⟨_, rfl, by decide⟩, ?_⟩
  intro hcovers
  have hmissing := (hcovers "Cat" (by decide)).1
  exact absurd hmissing (by decide)

end Draft

end EntityQuery
