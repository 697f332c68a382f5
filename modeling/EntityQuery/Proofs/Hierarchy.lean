/-
# Hierarchies of types

A type derives from its base, from the base of that and so on.  The model follows base chains only
for as many steps as there are types; this file shows that nothing is missed, with or without
cycles, and that derivation is what one expects of it.

* `ancestorAt`: the type a number of bases above another one;
* `exists_ancestorAt_lt`: every ancestor is reached in fewer steps than there are types;
* `Model.isSubtypeOf_iff`: a type derives from another exactly if that is one of its ancestors;
* `Model.isSubtypeOf_trans`, `Model.related_of_isSubtypeOf`: derivation is transitive, and any two
  ancestors of a type are related;
* `Model.mem_subtree_iff`: a subtree lists the types that derive from its type;
* `Model.mem_typeColumns`, `Model.mem_relationColumns`: the columns of a type and of an entity set.
-/
import EntityQuery.TypeFilter.Resolve
import Mathlib.Data.Finset.Card

namespace EntityQuery

/-! ## Ancestors -/

section Ancestors

variable {κ : Type} {types : List (EntityType κ)} {a b : String} {s t : EntityType κ} {i j k : Nat}

/-- The type `k` bases above the type of a name. -/
def ancestorAt (types : List (EntityType κ)) : (k : Nat) → String → Option (EntityType κ)
  | 0, name => findType types name
  | k + 1, name => ((findType types name).bind (·.base)).bind (ancestorAt types k)

/-- A type is found under its own name. -/
theorem name_of_findType (h : findType types a = some t) : t.name = a := by
  have hname := List.find?_some h
  exact of_decide_eq_true hname

theorem exists_findType_iff : (∃ t, findType types a = some t) ↔ ∃ t ∈ types, t.name = a := by
  rw [← Option.isSome_iff_exists, findType, List.find?_isSome]
  simp only [decide_eq_true_eq]

/-- Where names are distinct, a type is found by its name. -/
theorem findType_of_mem (hdistinct : (types.map (·.name)).Nodup) (ht : t ∈ types) :
    findType types t.name = some t := by
  obtain ⟨s, hs⟩ := exists_findType_iff.mpr ⟨t, ht, rfl⟩
  obtain rfl : s = t :=
    List.inj_on_of_nodup_map hdistinct (List.mem_of_find?_eq_some hs) ht (name_of_findType hs)
  exact hs

/-- The ancestors of a type are its base and the ancestors of that. -/
theorem ancestorAt_succ_iff :
    ancestorAt types (k + 1) a = some t ↔
      ∃ s b, findType types a = some s ∧ s.base = some b ∧ ancestorAt types k b = some t := by
  simp only [ancestorAt, Option.bind_eq_some_iff]
  constructor
  · rintro ⟨b, ⟨s, hs, hb⟩, ht⟩
    exact ⟨s, b, hs, hb, ht⟩
  · rintro ⟨s, b, hs, hb, ht⟩
    exact ⟨b, ⟨s, hs, hb⟩, ht⟩

theorem mem_of_ancestorAt (h : ancestorAt types k a = some t) : t ∈ types := by
  induction k generalizing a with
  | zero => exact List.mem_of_find?_eq_some h
  | succ k ih =>
    obtain ⟨s, b, -, -, ht⟩ := ancestorAt_succ_iff.mp h
    exact ih ht

/-- The ancestors of an ancestor are those further up. -/
theorem ancestorAt_add (h : ancestorAt types i a = some s) (m : Nat) :
    ancestorAt types (i + m) a = ancestorAt types m s.name := by
  induction i generalizing a with
  | zero => rw [Nat.zero_add, name_of_findType h]
  | succ i ih =>
    obtain ⟨r, b, hr, hb, hs⟩ := ancestorAt_succ_iff.mp h
    rw [Nat.succ_add, ancestorAt, hr, Option.bind_some, hb, Option.bind_some]
    exact ih hs

/-- An ancestor is the type that is found under its name. -/
theorem findType_of_ancestorAt (h : ancestorAt types k a = some t) :
    findType types t.name = some t := by
  have hself := ancestorAt_add h 0
  rw [Nat.add_zero, h] at hself
  exact hself.symm

/-- Below an ancestor there is one at every step. -/
theorem exists_ancestorAt_of_le (h : ancestorAt types k a = some t) (hle : i ≤ k) :
    ∃ s, ancestorAt types i a = some s := by
  induction k generalizing a i with
  | zero =>
    obtain rfl : i = 0 := Nat.le_zero.mp hle
    exact ⟨t, h⟩
  | succ k ih =>
    obtain ⟨r, b, hr, hb, ht⟩ := ancestorAt_succ_iff.mp h
    cases i with
    | zero => exact ⟨r, hr⟩
    | succ i =>
      obtain ⟨s, hs⟩ := ih ht (Nat.le_of_succ_le_succ hle)
      exact ⟨s, ancestorAt_succ_iff.mpr ⟨r, b, hr, hb, hs⟩⟩

/-- The last step to an ancestor is the one from its child. -/
theorem exists_child_of_ancestorAt (h : ancestorAt types (k + 1) a = some t) :
    ∃ s, ancestorAt types k a = some s ∧ s.base = some t.name := by
  obtain ⟨s, hs⟩ := exists_ancestorAt_of_le h (Nat.le_succ k)
  rw [ancestorAt_add hs] at h
  obtain ⟨r, b, hr, hb, ht⟩ := ancestorAt_succ_iff.mp h
  rw [findType_of_ancestorAt hs, Option.some.injEq] at hr
  subst hr
  refine ⟨s, hs, ?_⟩
  rw [hb, name_of_findType ht]

/-- **A name that is met twice can be cut out**: an ancestor behind it is met before. -/
theorem ancestorAt_cut (hi : ancestorAt types i a = some s) (hj : ancestorAt types j a = some t)
    (hname : s.name = t.name) (hle : j ≤ k) :
    ancestorAt types (i + (k - j)) a = ancestorAt types k a := by
  have hk : j + (k - j) = k := by omega
  rw [ancestorAt_add hi, hname, ← ancestorAt_add hj, hk]

/-- **Every ancestor is reached in fewer steps than there are types**: on a longer way some name
is met twice. -/
theorem exists_ancestorAt_lt (h : ancestorAt types k a = some t) :
    ∃ k' < types.length, ancestorAt types k' a = some t := by
  induction k using Nat.strongRecOn with
  | ind k ih =>
    by_cases hk : k < types.length
    · exact ⟨k, hk, h⟩
    · -- there are more steps than names
      have hcard : (types.map (·.name)).toFinset.card < (Finset.range (k + 1)).card := by
        have hle := List.toFinset_card_le (types.map (·.name))
        rw [List.length_map] at hle
        rw [Finset.card_range]
        omega
      have hmaps : ∀ i ∈ Finset.range (k + 1),
          ((ancestorAt types i a).map (·.name)).getD "" ∈ (types.map (·.name)).toFinset := by
        intro i hi
        obtain ⟨s, hs⟩ := exists_ancestorAt_of_le h (Nat.le_of_lt_succ (Finset.mem_range.mp hi))
        rw [hs, List.mem_toFinset]
        exact List.mem_map_of_mem (mem_of_ancestorAt hs)
      obtain ⟨i, hi, j, hj, hne, heq⟩ :=
        Finset.exists_ne_map_eq_of_card_lt_of_maps_to hcard hmaps
      have hcut : ∀ {i j : Nat}, i < j → j ≤ k →
          ((ancestorAt types i a).map (·.name)).getD "" =
            ((ancestorAt types j a).map (·.name)).getD "" →
          ∃ k' < types.length, ancestorAt types k' a = some t := by
        intro i j hlt hle heq
        obtain ⟨s, hs⟩ := exists_ancestorAt_of_le h (by omega : i ≤ k)
        obtain ⟨r, hr⟩ := exists_ancestorAt_of_le h hle
        rw [hs, hr] at heq
        exact ih (i + (k - j)) (by omega) ((ancestorAt_cut hs hr heq hle).trans h)
      rw [Finset.mem_range] at hi hj
      rcases Nat.lt_or_gt_of_ne hne with hlt | hgt
      · exact hcut hlt (by omega) heq
      · exact hcut hgt (by omega) heq.symm

/-- A base chain is its type, followed by the chain of its base if it has one. -/
theorem baseChain_succ {limit : Nat} (h : findType types a = some t) :
    baseChain types (limit + 1) a = t :: t.base.elim [] (baseChain types limit) := by
  rw [baseChain, h]
  cases hb : t.base <;> simp [hb]

/-- The types of a base chain are the ancestors of its type, one after the other. -/
theorem getElem?_baseChain {limit : Nat} (hk : k < limit) :
    (baseChain types limit a)[k]? = ancestorAt types k a := by
  induction limit generalizing a k with
  | zero => exact absurd hk (Nat.not_lt_zero k)
  | succ limit ih =>
    cases hfind : findType types a with
    | none => cases k <;> simp [baseChain, ancestorAt, hfind]
    | some t =>
      rw [baseChain_succ hfind]
      cases k with
      | zero => exact hfind.symm
      | succ k =>
        rw [List.getElem?_cons_succ, ancestorAt, hfind, Option.bind_some]
        cases t.base with
        | none => rfl
        | some b => exact ih (Nat.lt_of_succ_lt_succ hk)

/-- A chain of bases is as long as allowed at most. -/
theorem length_baseChain_le {limit : Nat} : (baseChain types limit a).length ≤ limit := by
  induction limit generalizing a with
  | zero => exact Nat.le_refl 0
  | succ limit ih =>
    cases hfind : findType types a with
    | none => simp [baseChain, hfind]
    | some t =>
      rw [baseChain_succ hfind, List.length_cons]
      apply Nat.succ_le_succ
      cases t.base with
      | none => exact Nat.zero_le limit
      | some b => exact ih

/-- A base chain lists the ancestors that are reached within its bound. -/
theorem mem_baseChain_iff {limit : Nat} :
    t ∈ baseChain types limit a ↔ ∃ k < limit, ancestorAt types k a = some t := by
  rw [List.mem_iff_getElem?]
  constructor
  · rintro ⟨k, hk⟩
    have hlt : k < limit :=
      Nat.lt_of_lt_of_le (List.getElem?_eq_some_iff.mp hk).1 length_baseChain_le
    exact ⟨k, hlt, (getElem?_baseChain hlt).symm.trans hk⟩
  · rintro ⟨k, hlt, hk⟩
    exact ⟨k, (getElem?_baseChain hlt).trans hk⟩

/-- **The ancestry of a type lists all its ancestors.** -/
theorem mem_ancestry_iff : t ∈ ancestry types a ↔ ∃ k, ancestorAt types k a = some t := by
  rw [ancestry, mem_baseChain_iff]
  constructor
  · rintro ⟨k, -, hk⟩
    exact ⟨k, hk⟩
  · rintro ⟨k, hk⟩
    exact exists_ancestorAt_lt hk

end Ancestors

/-! ## Derivation -/

namespace Model

variable {model : Model} {a b c : String}

/-- **A type derives from another exactly if that is one of its ancestors.** -/
theorem isSubtypeOf_iff :
    model.isSubtypeOf a b = true ↔ ∃ k t, ancestorAt model.types k a = some t ∧ t.name = b := by
  simp only [isSubtypeOf, List.any_eq_true, mem_ancestry_iff, decide_eq_true_eq]
  constructor
  · rintro ⟨t, ⟨k, hk⟩, ht⟩
    exact ⟨k, t, hk, ht⟩
  · rintro ⟨k, t, hk, ht⟩
    exact ⟨t, ⟨k, hk⟩, ht⟩

/-- Types derive from the ancestors of their ancestors. -/
theorem isSubtypeOf_trans (hab : model.isSubtypeOf a b = true)
    (hbc : model.isSubtypeOf b c = true) : model.isSubtypeOf a c = true := by
  obtain ⟨i, s, hs, rfl⟩ := isSubtypeOf_iff.mp hab
  obtain ⟨j, t, ht, rfl⟩ := isSubtypeOf_iff.mp hbc
  refine isSubtypeOf_iff.mpr ⟨i + j, t, ?_, rfl⟩
  rw [ancestorAt_add hs, ht]

/-- Related types are those of which one derives from the other. -/
theorem related_iff :
    model.related a b = true ↔ model.isSubtypeOf a b = true ∨ model.isSubtypeOf b a = true := by
  rw [related, Bool.or_eq_true]

/-- **Of two ancestors of a type one derives from the other**, since a type has one base only. -/
theorem related_of_isSubtypeOf (hb : model.isSubtypeOf a b = true)
    (hc : model.isSubtypeOf a c = true) : model.related b c = true := by
  have hbelow : ∀ {i j s t}, ancestorAt model.types i a = some s →
      ancestorAt model.types j a = some t → i ≤ j → model.isSubtypeOf s.name t.name = true := by
    intro i j s t hs ht hle
    obtain ⟨m, rfl⟩ := Nat.exists_eq_add_of_le hle
    rw [ancestorAt_add hs] at ht
    exact isSubtypeOf_iff.mpr ⟨m, t, ht, rfl⟩
  obtain ⟨i, s, hs, rfl⟩ := isSubtypeOf_iff.mp hb
  obtain ⟨j, t, ht, rfl⟩ := isSubtypeOf_iff.mp hc
  rw [related_iff]
  rcases Nat.le_total i j with hle | hle
  · exact .inl (hbelow hs ht hle)
  · exact .inr (hbelow ht hs hle)

/-- What is related to a type is related to its ancestors. -/
theorem related_of_related (hac : model.related a c = true)
    (hcb : model.isSubtypeOf c b = true) : model.related a b = true := by
  rcases related_iff.mp hac with hac | hca
  · exact related_iff.mpr (.inl (isSubtypeOf_trans hac hcb))
  · exact related_of_isSubtypeOf hca hcb

/-- What is related to a type derives from it or is related to what does. -/
theorem related_or_isSubtypeOf (hac : model.related a c = true)
    (hbc : model.isSubtypeOf b c = true) :
    model.related a b = true ∨ model.isSubtypeOf a c = true := by
  rcases related_iff.mp hac with hac | hca
  · exact .inr hac
  · exact .inl (related_iff.mpr (.inr (isSubtypeOf_trans hbc hca)))

/-! ## Subtrees -/

/-- A type is found below each of its ancestors. -/
theorem mem_descendants_of_ancestorAt {k limit : Nat} {s t : EntityType Condition}
    (hs : model.entityType a = some s) (ht : ancestorAt model.types k a = some t)
    (hk : k < limit) : s ∈ model.descendants limit t := by
  induction k generalizing t limit with
  | zero =>
    obtain ⟨limit, rfl⟩ := Nat.exists_eq_add_one.mpr hk
    obtain rfl : s = t := Option.some.inj (hs.symm.trans ht)
    exact List.mem_cons_self
  | succ k ih =>
    obtain ⟨limit, rfl⟩ := Nat.exists_eq_add_one.mpr (Nat.zero_lt_of_lt hk)
    obtain ⟨child, hchild, hbase⟩ := exists_child_of_ancestorAt ht
    have hmem : child ∈ model.children t := by
      apply List.mem_filter.mpr
      exact ⟨mem_of_ancestorAt hchild, decide_eq_true hbase⟩
    refine List.mem_cons_of_mem t (List.mem_flatMap.mpr ⟨child, hmem, ?_⟩)
    exact ih hchild (by omega)

/-- What derives from a type is in its subtree. -/
theorem mem_subtree_of_isSubtypeOf {t : EntityType Condition} (ht : model.entityType a = some t)
    (h : model.isSubtypeOf a b = true) : t ∈ model.subtree b := by
  obtain ⟨k, top, hk, rfl⟩ := isSubtypeOf_iff.mp h
  obtain ⟨k, hlt, hk⟩ := exists_ancestorAt_lt hk
  have htop : model.entityType top.name = some top := findType_of_ancestorAt hk
  rw [subtree, htop]
  exact mem_descendants_of_ancestorAt ht hk hlt

theorem isSubtypeOf_refl {t : EntityType Condition} (h : model.entityType a = some t) :
    model.isSubtypeOf a a = true :=
  isSubtypeOf_iff.mpr ⟨0, t, h, name_of_findType h⟩

/-- A subtree holds its own type. -/
theorem mem_subtree_self {t : EntityType Condition} (h : model.entityType a = some t) :
    t ∈ model.subtree a :=
  mem_subtree_of_isSubtypeOf h (isSubtypeOf_refl h)

/-- No two types have the same name. -/
def DistinctTypes (model : Model) : Prop :=
  (model.types.map (·.name)).Nodup

section Distinct

variable (hdistinct : model.DistinctTypes)

include hdistinct

/-- Where names are distinct, a declared type is found under its name. -/
theorem entityType_of_mem {t : EntityType Condition} (ht : t ∈ model.types) :
    model.entityType t.name = some t :=
  findType_of_mem hdistinct ht

/-- Descendants are declared types that derive from the one they are sought under. -/
theorem isSubtypeOf_of_mem_descendants {limit : Nat} {s t : EntityType Condition}
    (ht : t ∈ model.types) (hs : s ∈ model.descendants limit t) :
    s ∈ model.types ∧ model.isSubtypeOf s.name t.name = true := by
  induction limit generalizing t with
  | zero => exact absurd hs List.not_mem_nil
  | succ limit ih =>
    rcases List.mem_cons.mp hs with rfl | hs
    · exact ⟨ht, isSubtypeOf_refl (entityType_of_mem hdistinct ht)⟩
    · obtain ⟨child, hchild, hs⟩ := List.mem_flatMap.mp hs
      obtain ⟨hmem, hbase⟩ := List.mem_filter.mp hchild
      obtain ⟨hsmem, hschild⟩ := ih hmem hs
      refine ⟨hsmem, isSubtypeOf_trans hschild (isSubtypeOf_iff.mpr ⟨1, t, ?_, rfl⟩)⟩
      exact ancestorAt_succ_iff.mpr ⟨child, t.name, entityType_of_mem hdistinct hmem,
        of_decide_eq_true hbase, entityType_of_mem hdistinct ht⟩

/-- **The subtree of a type lists what derives from it.** -/
theorem mem_subtree_iff {t : EntityType Condition} :
    t ∈ model.subtree a ↔ t ∈ model.types ∧ model.isSubtypeOf t.name a = true := by
  constructor
  · intro ht
    unfold subtree at ht
    split at ht
    next top htop =>
      rw [← name_of_findType htop]
      exact isSubtypeOf_of_mem_descendants hdistinct (List.mem_of_find?_eq_some htop) ht
    next => exact absurd ht List.not_mem_nil
  · rintro ⟨ht, hsubtype⟩
    exact mem_subtree_of_isSubtypeOf (entityType_of_mem hdistinct ht) hsubtype

end Distinct

/-! ## Columns -/

/-- The columns of some types are those of their properties. -/
theorem mem_columnsOf {types : List (EntityType Condition)} {column : String} :
    column ∈ columnsOf types ↔ ∃ t ∈ types, column ∈ t.properties.map (·.column) := by
  rw [columnsOf, List.mem_eraseDups, List.mem_flatMap]

/-- The columns of a type are those of its ancestors. -/
theorem mem_typeColumns {column : String} :
    column ∈ model.typeColumns a ↔
      ∃ k t, ancestorAt model.types k a = some t ∧ column ∈ t.properties.map (·.column) := by
  rw [typeColumns, mem_columnsOf]
  simp only [List.mem_reverse, mem_ancestry_iff]
  constructor
  · rintro ⟨t, ⟨k, hk⟩, hcolumn⟩
    exact ⟨k, t, hk, hcolumn⟩
  · rintro ⟨k, t, hk, hcolumn⟩
    exact ⟨t, ⟨k, hk⟩, hcolumn⟩

/-- The columns of an entity set are those of its subtree and the discriminator. -/
theorem mem_relationColumns {set : EntitySet} {column : String} :
    column ∈ model.relationColumns set ↔
      (∃ t ∈ model.subtree set.root, column ∈ t.properties.map (·.column)) ∨
        set.discriminator = some column := by
  rw [relationColumns, List.mem_eraseDups, List.mem_append, mem_columnsOf, Option.mem_toList]

end Model

end EntityQuery
