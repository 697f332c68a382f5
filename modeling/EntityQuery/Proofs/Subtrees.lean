/-
# Subtrees

A subtree is found by walking down from a type to those that have it as their base, and derivation by
walking up along bases.  In a frozen model no type derives from itself, so both walks end: `Visits` and
`Climbs` are their runs, without any bound on the number of steps.  What is met on the way down is then
proved by induction on the hierarchy itself.

* `Model.childInduction`: what holds of a type once it holds of its children holds of every type;
* `Model.subtree_eq`: a subtree is its type, followed by the subtrees of its children;
* `Model.isSubtypeOf_antisymm`, `Model.isSubtypeOf_disjoint`: types that derive from each other, and
  types that derive from two siblings;
* `Draft.freeze_hierarchy`: derivation is a partial order, and the subtree of a type lists what derives
  from it, in tree order.
-/
import EntityQuery.Proofs.Validity
import Mathlib.Data.List.Flatten
import Mathlib.Order.Defs.Unbundled

namespace EntityQuery

namespace Model

variable {model : Model} {a b : String} {c d s t x y : EntityType Condition} {k : Nat}

/-! ## Walks that end -/

/-- The walk up from a type, or from none, ends and meets the types of a list. -/
inductive Climbs (model : Model) :
    Option (EntityType Condition) → List (EntityType Condition) → Prop where
  | stop : Climbs model none []
  | up {t : EntityType Condition} {above : List (EntityType Condition)}
      (habove : Climbs model (t.base.bind model.entityType) above) :
      Climbs model (some t) (t :: above)

/-- The walk down from some siblings ends and meets the types of a list: each sibling is followed by
what is met below it. -/
inductive Visits (model : Model) :
    List (EntityType Condition) → List (EntityType Condition) → Prop where
  | stop : Visits model [] []
  | down {t : EntityType Condition} {siblings below behind : List (EntityType Condition)}
      (hbelow : Visits model (model.children t) below) (hbehind : Visits model siblings behind) :
      Visits model (t :: siblings) (t :: (below ++ behind))

/-- A base chain that has an end is met as a whole. -/
theorem climbs_baseChain {limit : Nat} (hend : ancestorAt model.types limit a = none) :
    model.Climbs (model.entityType a) (baseChain model.types limit a) := by
  induction limit generalizing a with
  | zero =>
    have hnone : model.entityType a = none := hend
    rw [hnone]
    exact .stop
  | succ limit ih =>
    rw [ancestorAt] at hend
    cases hfind : findType model.types a with
    | none =>
      rw [baseChain, entityType, hfind]
      exact .stop
    | some t =>
      rw [baseChain_succ hfind, entityType, hfind]
      rw [hfind, Option.bind_some] at hend
      apply Climbs.up
      cases hbase : t.base with
      | none => exact .stop
      | some base =>
        rw [hbase] at hend
        exact ih hend

/-! ## Parents and children -/

/-- A child of a type is a type with that base. -/
theorem mem_children_iff :
    c ∈ model.children t ↔ c ∈ model.types ∧ c.base = some t.name := by
  rw [children, List.mem_filter, decide_eq_true_eq]

section Distinct

variable (hdistinct : model.DistinctTypes)

include hdistinct

/-- Above a child is its parent. -/
theorem ancestorAt_succ_of_child (ht : t ∈ model.types) (hc : c ∈ model.children t)
    (hk : ancestorAt model.types k a = some c) : ancestorAt model.types (k + 1) a = some t := by
  obtain ⟨hmem, hbase⟩ := mem_children_iff.mp hc
  rw [ancestorAt_add hk 1]
  exact ancestorAt_succ_iff.mpr ⟨c, t.name, findType_of_mem hdistinct hmem, hbase,
    findType_of_mem hdistinct ht⟩

theorem isSubtypeOf_of_child (ht : t ∈ model.types) (hc : c ∈ model.children t) :
    model.isSubtypeOf c.name t.name = true := by
  have hself : ancestorAt model.types 0 c.name = some c :=
    findType_of_mem hdistinct (mem_children_iff.mp hc).1
  exact isSubtypeOf_iff.mpr ⟨1, t, ancestorAt_succ_of_child hdistinct ht hc hself, rfl⟩

/-- Whatever a child derives from, other than itself, its parent derives from. -/
theorem isSubtypeOf_parent (hc : c ∈ model.children t) (h : model.isSubtypeOf c.name b = true)
    (hne : c.name ≠ b) : model.isSubtypeOf t.name b = true := by
  obtain ⟨hmem, hbase⟩ := mem_children_iff.mp hc
  have hfind : findType model.types c.name = some c := findType_of_mem hdistinct hmem
  obtain ⟨k, top, hk, rfl⟩ := isSubtypeOf_iff.mp h
  cases k with
  | zero =>
    obtain rfl : c = top := Option.some.inj (hfind.symm.trans hk)
    exact absurd rfl hne
  | succ k =>
    obtain ⟨s, base, hs, hb, hk⟩ := ancestorAt_succ_iff.mp hk
    obtain rfl : c = s := Option.some.inj (hfind.symm.trans hs)
    obtain rfl : t.name = base := Option.some.inj (hbase.symm.trans hb)
    exact isSubtypeOf_iff.mpr ⟨k, top, hk, rfl⟩

end Distinct

/-! ## Derivation without cycles -/

section Acyclic

variable (hacyclic : Acyclic model.types)

include hacyclic

/-- **Types that derive from each other are the same.** -/
theorem isSubtypeOf_antisymm (hab : model.isSubtypeOf a b = true)
    (hba : model.isSubtypeOf b a = true) : a = b := by
  obtain ⟨i, s, hs, rfl⟩ := isSubtypeOf_iff.mp hab
  obtain ⟨j, t, ht, hname⟩ := isSubtypeOf_iff.mp hba
  cases i with
  | zero => exact (name_of_findType hs).symm
  | succ i =>
    -- a way from the type to itself that is not empty
    have hround : ancestorAt model.types (i + j + 1) a = some t := by
      rw [← ht, ← ancestorAt_add hs j, Nat.add_right_comm]
    exact absurd hname (ne_of_ancestorAt hacyclic hround)

variable (hdistinct : model.DistinctTypes)

include hdistinct

/-- A parent does not derive from its child. -/
theorem not_isSubtypeOf_child (ht : t ∈ model.types) (hc : c ∈ model.children t) :
    ¬ model.isSubtypeOf t.name c.name = true := by
  intro h
  have heq := isSubtypeOf_antisymm hacyclic h (isSubtypeOf_of_child hdistinct ht hc)
  have hself : ancestorAt model.types 0 c.name = some c :=
    findType_of_mem hdistinct (mem_children_iff.mp hc).1
  exact ne_of_ancestorAt hacyclic (ancestorAt_succ_of_child hdistinct ht hc hself) heq

/-- **Nothing derives from two siblings.** -/
theorem isSubtypeOf_disjoint (ht : t ∈ model.types) (hc : c ∈ model.children t)
    (hd : d ∈ model.children t) (hne : c.name ≠ d.name) (hac : model.isSubtypeOf a c.name = true) :
    ¬ model.isSubtypeOf a d.name = true := by
  intro had
  -- one of the siblings would derive from the other, and so would their parent
  rcases related_iff.mp (related_of_isSubtypeOf hac had) with hcd | hdc
  · exact not_isSubtypeOf_child hacyclic hdistinct ht hd (isSubtypeOf_parent hdistinct hc hcd hne)
  · exact not_isSubtypeOf_child hacyclic hdistinct ht hc
      (isSubtypeOf_parent hdistinct hd hdc (Ne.symm hne))

/-! ## Induction on the hierarchy -/

/-- **Induction from children to their parent.**  It ends because no walk up from below a type can be
as long as there are types. -/
theorem childInduction {P : EntityType Condition → Prop}
    (hstep : ∀ t ∈ model.types, (∀ c ∈ model.children t, P c) → P t) (ht : t ∈ model.types) :
    P t := by
  have hbounded : ∀ limit, ∀ t ∈ model.types,
      (∀ a, ancestorAt model.types limit a ≠ some t) → P t := by
    intro limit
    induction limit with
    | zero =>
      intro t ht hnone
      exact absurd (findType_of_mem hdistinct ht) (hnone t.name)
    | succ limit ih =>
      intro t ht hnone
      apply hstep t ht
      intro c hc
      apply ih c (mem_children_iff.mp hc).1
      intro a ha
      exact hnone a (ancestorAt_succ_of_child hdistinct ht hc ha)
  apply hbounded model.types.length t ht
  intro a ha
  exact absurd (lt_length_of_ancestorAt hacyclic ha) (Nat.lt_irrefl _)

omit hacyclic in
/-- A bound that no walk from below a type reaches makes no difference. -/
theorem descendants_succ_eq {limit : Nat} (ht : t ∈ model.types)
    (hnone : ∀ a, ancestorAt model.types limit a ≠ some t) :
    model.descendants (limit + 1) t = model.descendants limit t := by
  induction limit generalizing t with
  | zero => exact absurd (findType_of_mem hdistinct ht) (hnone t.name)
  | succ limit ih =>
    rw [descendants, descendants]
    congr 1
    apply List.flatMap_congr
    intro c hc
    apply ih (mem_children_iff.mp hc).1
    intro a ha
    exact hnone a (ancestorAt_succ_of_child hdistinct ht hc ha)

/-- **A subtree is its type, followed by the subtrees of its children.** -/
theorem subtree_eq (ht : t ∈ model.types) : model.subtree t.name =
    t :: (model.children t).flatMap fun c => model.subtree c.name := by
  obtain ⟨limit, hlimit⟩ := Nat.exists_eq_add_one.mpr (List.length_pos_of_mem ht)
  rw [subtree, entityType_of_mem hdistinct ht]
  show model.descendants model.types.length t = _
  rw [hlimit, descendants]
  congr 1
  apply List.flatMap_congr
  intro c hc
  have hmem := (mem_children_iff.mp hc).1
  rw [subtree, entityType_of_mem hdistinct hmem]
  show _ = model.descendants model.types.length c
  rw [hlimit]
  refine (descendants_succ_eq hdistinct hmem ?_).symm
  intro a ha
  have hlt := lt_length_of_ancestorAt hacyclic (ancestorAt_succ_of_child hdistinct ht hc ha)
  omega

/-- The subtree of a child is part of that of its parent. -/
theorem subtree_child_sublist (ht : t ∈ model.types) (hc : c ∈ model.children t) :
    (model.subtree c.name).Sublist (model.subtree t.name) := by
  rw [subtree_eq hacyclic hdistinct ht]
  apply List.Sublist.cons
  have hpart := (List.singleton_sublist.mpr hc).flatMap fun c => model.subtree c.name
  rwa [List.flatMap_singleton] at hpart

omit hacyclic hdistinct in
/-- The walk down from siblings is made of the walks down from each of them. -/
theorem Visits.siblings {siblings : List (EntityType Condition)}
    {below : EntityType Condition → List (EntityType Condition)}
    (h : ∀ t ∈ siblings, model.Visits (model.children t) (below t)) :
    model.Visits siblings (siblings.flatMap fun t => t :: below t) := by
  induction siblings with
  | nil => exact .stop
  | cons t siblings ih =>
    rw [List.forall_mem_cons] at h
    exact .down h.1 (ih h.2)

/-- The walk down from a type ends and meets its subtree. -/
theorem visits_subtree (ht : t ∈ model.types) : model.Visits [t] (model.subtree t.name) := by
  have hbelow : model.Visits (model.children t)
      ((model.children t).flatMap fun c => model.subtree c.name) := by
    refine childInduction hacyclic hdistinct (P := fun t => model.Visits (model.children t)
      ((model.children t).flatMap fun c => model.subtree c.name)) ?_ ht
    intro t ht ih
    have heq : (model.children t).flatMap (fun c => model.subtree c.name) =
        (model.children t).flatMap fun c =>
          c :: (model.children c).flatMap fun d => model.subtree d.name := by
      apply List.flatMap_congr
      intro c hc
      exact subtree_eq hacyclic hdistinct (mem_children_iff.mp hc).1
    rw [heq]
    exact Visits.siblings ih
  rw [subtree_eq hacyclic hdistinct ht]
  have hvisits := Visits.down hbelow Visits.stop
  rwa [List.append_nil] at hvisits

/-! ## Tree order -/

/-- No type is met twice on the way down. -/
theorem nodup_subtree (ht : t ∈ model.types) : (model.subtree t.name).Nodup := by
  refine childInduction hacyclic hdistinct (P := fun t => (model.subtree t.name).Nodup) ?_ ht
  intro t ht ih
  rw [subtree_eq hacyclic hdistinct ht, List.nodup_cons, List.nodup_flatMap]
  refine ⟨?_, ih, ?_⟩
  · intro hmem
    obtain ⟨c, hc, hbelow⟩ := List.mem_flatMap.mp hmem
    exact not_isSubtypeOf_child hacyclic hdistinct ht hc ((mem_subtree_iff hdistinct).mp hbelow).2
  · have hchildren : (model.children t).Nodup := (List.Nodup.of_map _ hdistinct).filter _
    apply hchildren.pairwise_of_forall_ne
    intro c hc d hd hne x hxc hxd
    have hnames : c.name ≠ d.name := by
      intro heq
      exact hne (List.inj_on_of_nodup_map hdistinct (mem_children_iff.mp hc).1
        (mem_children_iff.mp hd).1 heq)
    exact isSubtypeOf_disjoint hacyclic hdistinct ht hc hd hnames
      ((mem_subtree_iff hdistinct).mp hxc).2 ((mem_subtree_iff hdistinct).mp hxd).2

/-- A type of a subtree, other than the one on top, stands behind its base. -/
theorem base_sublist_subtree (ht : t ∈ model.types) : ∀ x ∈ model.subtree t.name, x ≠ t →
    ∃ base, x.base = some base.name ∧ [base, x].Sublist (model.subtree t.name) := by
  refine childInduction hacyclic hdistinct (P := fun t => ∀ x ∈ model.subtree t.name, x ≠ t →
    ∃ base, x.base = some base.name ∧ [base, x].Sublist (model.subtree t.name)) ?_ ht
  intro t ht ih x hx hne
  have hsplit := hx
  rw [subtree_eq hacyclic hdistinct ht, List.mem_cons] at hsplit
  rcases hsplit with rfl | hbelow
  · exact absurd rfl hne
  · obtain ⟨c, hc, hxc⟩ := List.mem_flatMap.mp hbelow
    by_cases heq : x = c
    · -- a child stands behind the type on top
      refine ⟨t, by rw [heq]; exact (mem_children_iff.mp hc).2, ?_⟩
      rw [subtree_eq hacyclic hdistinct ht]
      exact (List.singleton_sublist.mpr hbelow).cons_cons t
    · obtain ⟨base, hbase, hbefore⟩ := ih c hc x hxc heq
      exact ⟨base, hbase, hbefore.trans (subtree_child_sublist hacyclic hdistinct ht hc)⟩

/-- What derives from a sibling stands before what derives from a later one. -/
theorem siblings_sublist_subtree (ht : t ∈ model.types) : ∀ parent ∈ model.subtree t.name,
    ∀ c d, [c, d].Sublist model.types → c.base = some parent.name → d.base = some parent.name →
      ∀ x ∈ model.subtree c.name, ∀ y ∈ model.subtree d.name,
        [x, y].Sublist (model.subtree t.name) := by
  refine childInduction hacyclic hdistinct (P := fun t => ∀ parent ∈ model.subtree t.name,
    ∀ c d, [c, d].Sublist model.types → c.base = some parent.name → d.base = some parent.name →
      ∀ x ∈ model.subtree c.name, ∀ y ∈ model.subtree d.name,
        [x, y].Sublist (model.subtree t.name)) ?_ ht
  intro t ht ih parent hparent c d hcd hc hd x hx y hy
  rw [subtree_eq hacyclic hdistinct ht, List.mem_cons] at hparent
  rcases hparent with rfl | hbelow
  · -- siblings right below the type on top: their subtrees are put one behind the other
    have hchildren : [c, d].Sublist (model.children parent) := by
      have hfilter := hcd.filter fun s => decide (s.base = some parent.name)
      simpa [children, hc, hd] using hfilter
    have hparts : (model.subtree c.name ++ model.subtree d.name).Sublist
        ((model.children parent).flatMap fun s => model.subtree s.name) := by
      have hflat := hchildren.flatMap fun s => model.subtree s.name
      simpa using hflat
    rw [subtree_eq hacyclic hdistinct ht]
    apply List.Sublist.cons
    exact List.Sublist.trans
      (List.Sublist.append (List.singleton_sublist.mpr hx) (List.singleton_sublist.mpr hy)) hparts
  · obtain ⟨e, he, hparent⟩ := List.mem_flatMap.mp hbelow
    have hbefore := ih e he parent hparent c d hcd hc hd x hx y hy
    exact hbefore.trans (subtree_child_sublist hacyclic hdistinct ht he)

end Acyclic

/-- A list goes through what derives from a type in tree order: every type before what derives from
it, and siblings, each with all that derives from it, in the order of declaration. -/
structure TreeOrdered (model : Model) (top : EntityType Condition)
    (types : List (EntityType Condition)) : Prop where
  head_eq : types.head? = some top
  nodup : types.Nodup
  mem_iff : ∀ t, t ∈ types ↔ t ∈ model.types ∧ model.isSubtypeOf t.name top.name = true
  base_first : ∀ t ∈ types, t ≠ top →
    ∃ base, t.base = some base.name ∧ [base, t].Sublist types
  siblings_in_order : ∀ parent ∈ types, ∀ c d, [c, d].Sublist model.types →
    c.base = some parent.name → d.base = some parent.name →
      ∀ x ∈ model.types, model.isSubtypeOf x.name c.name = true →
        ∀ y ∈ model.types, model.isSubtypeOf y.name d.name = true → [x, y].Sublist types

/-- **Subtrees are listed in the order of the tree.** -/
theorem treeOrdered_subtree (hacyclic : Acyclic model.types) (hdistinct : model.DistinctTypes)
    (ht : t ∈ model.types) : model.TreeOrdered t (model.subtree t.name) where
  head_eq := by
    rw [subtree_eq hacyclic hdistinct ht]
    rfl
  nodup := nodup_subtree hacyclic hdistinct ht
  mem_iff s := mem_subtree_iff hdistinct
  base_first := base_sublist_subtree hacyclic hdistinct ht
  siblings_in_order := by
    intro parent hparent c d hcd hc hd x hx hxc y hy hyd
    exact siblings_sublist_subtree hacyclic hdistinct ht parent hparent c d hcd hc hd
      x ((mem_subtree_iff hdistinct).mpr ⟨hx, hxc⟩) y ((mem_subtree_iff hdistinct).mpr ⟨hy, hyd⟩)

end Model

/-! ## Frozen models -/

namespace Draft

open Model

/-- **The hierarchy of a frozen model.**  Derivation is a partial order on its types; the subtree of a
type lists what derives from it, in tree order; and the walks down to a subtree and up a base chain,
which derivation and the columns of a type are read off, come to their end. -/
theorem freeze_hierarchy {draft : Draft} {model : Model} (h : draft.freeze = .ok model) :
    IsPartialOrder {t // t ∈ model.types}
        (fun s t => model.isSubtypeOf s.val.name t.val.name = true) ∧
      (∀ a t, model.entityType a = some t → model.TreeOrdered t (model.subtree a)) ∧
      (∀ a t, model.entityType a = some t → model.Visits [t] (model.subtree a)) ∧
      ∀ a, model.Climbs (model.entityType a) (ancestry model.types a) := by
  have hdistinct := distinctTypes_of_freeze h
  have hacyclic := acyclic_of_freeze h
  refine ⟨?_, ?_, ?_, ?_⟩
  · exact {
      refl := fun t => isSubtypeOf_refl (entityType_of_mem hdistinct t.property)
      trans := fun _ _ _ => isSubtypeOf_trans
      antisymm := fun s t hst hts => Subtype.ext (List.inj_on_of_nodup_map hdistinct s.property
        t.property (isSubtypeOf_antisymm hacyclic hst hts)) }
  · intro a t ht
    obtain rfl := name_of_findType ht
    exact treeOrdered_subtree hacyclic hdistinct (List.mem_of_find?_eq_some ht)
  · intro a t ht
    obtain rfl := name_of_findType ht
    exact visits_subtree hacyclic hdistinct (List.mem_of_find?_eq_some ht)
  · intro a
    apply climbs_baseChain
    -- a walk of as many steps as there are types is too long
    cases hlong : ancestorAt model.types model.types.length a with
    | none => rfl
    | some t => exact absurd (lt_length_of_ancestorAt hacyclic hlong) (Nat.lt_irrefl _)

/-- Animals, with kittens declared before cats and cats before dogs. -/
def kennelDraft : Draft where
  types := [
    { name := "Kitten", base := some "Cat" },
    { name := "Animal", properties := [⟨"Id", "Id"⟩] },
    { name := "Cat", base := some "Animal" },
    { name := "Dog", base := some "Animal" }]

/-- A hierarchy of three levels, whose types are not declared in the order of the tree. -/
theorem freeze_hierarchy_kennel :
    ∃ model animal, kennelDraft.freeze = .ok model ∧ model.entityType "Animal" = some animal ∧
      (model.subtree "Animal").map (·.name) = ["Animal", "Cat", "Kitten", "Dog"] ∧
      model.TreeOrdered animal (model.subtree "Animal") := by
  have hfreeze : kennelDraft.freeze = .ok _ := rfl
  exact ⟨_, _, hfreeze, rfl, by decide, (freeze_hierarchy hfreeze).2.1 _ _ rfl⟩

end Draft

end EntityQuery
