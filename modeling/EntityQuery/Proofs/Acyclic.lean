/-
# Hierarchies without cycles

The base of a type is one step up, and a type derives from whatever such steps lead to.  Where the
names of types are distinct, these steps are the ones that a walk along a base chain makes.  A walk of
as many steps as there are types has met a type twice, so it is endless; and where no type derives from
itself, every walk ends before that.

* `exists_ancestorAt_iff`, `exists_ancestorAt_succ_iff`: the ancestors of a type are what its bases
  lead to;
* `transGen_self_of_ancestorAt`, `exists_ancestorAt_of_cycle`: walks that are too long, and cycles;
* `lt_length_of_ancestorAt`: the length of a walk where there are no cycles;
* `outlasts_base_iff`: what it means for a base chain to outlast a number of steps.
-/
import EntityQuery.Proofs.Hierarchy
import Mathlib.Logic.Relation

namespace EntityQuery

open Relation

section Bases

variable {κ : Type} {types : List (EntityType κ)} {a b : String} {s t : EntityType κ} {i j k : Nat}

/-! ## Bases and what they lead to -/

/-- A type of the first name has the second name as its base. -/
def HasBase (types : List (EntityType κ)) (a b : String) : Prop :=
  ∃ t ∈ types, t.name = a ∧ t.base = some b

/-- Every base is the name of a type. -/
def BasesKnown (types : List (EntityType κ)) : Prop :=
  ∀ t ∈ types, ∀ b, t.base = some b → ∃ s ∈ types, s.name = b

/-- No type derives from itself. -/
def Acyclic (types : List (EntityType κ)) : Prop :=
  ∀ t ∈ types, ¬ TransGen (HasBase types) t.name t.name

/-- The type that is found under a name gives it its base. -/
theorem hasBase_of_findType (hs : findType types a = some s) (hb : s.base = some b) :
    HasBase types a b :=
  ⟨s, List.mem_of_find?_eq_some hs, name_of_findType hs, hb⟩

/-- A walk up a base chain follows bases. -/
theorem reflTransGen_of_ancestorAt (h : ancestorAt types k a = some t) :
    ReflTransGen (HasBase types) a t.name := by
  induction k generalizing a with
  | zero => rw [name_of_findType h]
  | succ k ih =>
    obtain ⟨s, b, hs, hb, ht⟩ := ancestorAt_succ_iff.mp h
    exact ReflTransGen.head (hasBase_of_findType hs hb) (ih ht)

/-- Ancestors are reached by going from base to base. -/
theorem transGen_of_ancestorAt (h : ancestorAt types (k + 1) a = some t) :
    TransGen (HasBase types) a t.name := by
  obtain ⟨s, b, hs, hb, ht⟩ := ancestorAt_succ_iff.mp h
  exact TransGen.head' (hasBase_of_findType hs hb) (reflTransGen_of_ancestorAt ht)

/-- What derives from itself is a type. -/
theorem acyclic_iff : Acyclic types ↔ ∀ a, ¬ TransGen (HasBase types) a a := by
  constructor
  · intro h a hcycle
    obtain ⟨b, ⟨t, ht, rfl, -⟩, -⟩ := TransGen.head'_iff.mp hcycle
    exact h t ht hcycle
  · intro h t _
    exact h t.name

section Distinct

variable (hdistinct : (types.map (·.name)).Nodup)

include hdistinct

/-- **What a type or its bases lead to is found by a walk up its base chain.** -/
theorem exists_ancestorAt_iff (ht : t ∈ types) :
    (∃ k, ancestorAt types k a = some t) ↔ ReflTransGen (HasBase types) a t.name := by
  constructor
  · rintro ⟨k, hk⟩
    exact reflTransGen_of_ancestorAt hk
  · intro h
    induction h using ReflTransGen.head_induction_on with
    | refl => exact ⟨0, findType_of_mem hdistinct ht⟩
    | head hbase _ ih =>
      obtain ⟨s, hs, rfl, hb⟩ := hbase
      obtain ⟨k, hk⟩ := ih
      exact ⟨k + 1, ancestorAt_succ_iff.mpr ⟨s, _, findType_of_mem hdistinct hs, hb, hk⟩⟩

/-- The proper ancestors of a type are those that are reached from base to base. -/
theorem exists_ancestorAt_succ_iff (ht : t ∈ types) :
    (∃ k, ancestorAt types (k + 1) a = some t) ↔ TransGen (HasBase types) a t.name := by
  constructor
  · rintro ⟨k, hk⟩
    exact transGen_of_ancestorAt hk
  · intro h
    obtain ⟨b, ⟨s, hs, rfl, hb⟩, hrest⟩ := TransGen.head'_iff.mp h
    obtain ⟨k, hk⟩ := (exists_ancestorAt_iff hdistinct ht).mpr hrest
    exact ⟨k, ancestorAt_succ_iff.mpr ⟨s, b, findType_of_mem hdistinct hs, hb, hk⟩⟩

end Distinct

/-! ## Long walks and cycles -/

/-- **A walk of as many steps as there are types has come round**: the type that it ends at is met
before, so it derives from itself. -/
theorem transGen_self_of_ancestorAt (h : ancestorAt types k a = some t) (hk : types.length ≤ k) :
    TransGen (HasBase types) t.name t.name := by
  obtain ⟨k', hlt, hk'⟩ := exists_ancestorAt_lt h
  obtain ⟨m, rfl⟩ : ∃ m, k = k' + (m + 1) := ⟨k - k' - 1, by omega⟩
  rw [ancestorAt_add hk'] at h
  exact transGen_of_ancestorAt h

/-- On a cycle one can go on for any number of steps. -/
theorem exists_ancestorAt_of_cycle (h : ancestorAt types (k + 1) t.name = some t) (n : Nat) :
    ∃ s, ancestorAt types n t.name = some s := by
  -- round the cycle as often as it takes to have made `n` steps
  have hround : ∃ m, n ≤ m ∧ ancestorAt types m t.name = some t := by
    induction n with
    | zero => exact ⟨k + 1, Nat.zero_le _, h⟩
    | succ n ih =>
      obtain ⟨m, hle, hm⟩ := ih
      refine ⟨m + (k + 1), by omega, ?_⟩
      rw [ancestorAt_add hm, h]
  obtain ⟨m, hle, hm⟩ := hround
  exact exists_ancestorAt_of_le hm hle

section Acyclic

variable (hacyclic : Acyclic types)

include hacyclic

/-- Without cycles a walk has fewer steps than there are types. -/
theorem lt_length_of_ancestorAt (h : ancestorAt types k a = some t) : k < types.length := by
  by_contra hle
  exact hacyclic t (mem_of_ancestorAt h) (transGen_self_of_ancestorAt h (by omega))

/-- Without cycles a proper ancestor is another type. -/
theorem ne_of_ancestorAt (h : ancestorAt types (k + 1) a = some t) : t.name ≠ a := by
  intro heq
  have hcycle := transGen_of_ancestorAt h
  rw [← heq] at hcycle
  exact hacyclic t (mem_of_ancestorAt h) hcycle

end Acyclic

/-! ## The check for cycles -/

/-- A base chain outlasts the steps that can be made along it. -/
theorem outlasts_iff (hknown : BasesKnown types) (ha : ∃ s, findType types a = some s)
    (limit : Nat) :
    outlasts types limit (some a) = true ↔ ∃ t, ancestorAt types limit a = some t := by
  induction limit generalizing a with
  | zero => exact iff_of_true rfl ha
  | succ limit ih =>
    obtain ⟨s, hs⟩ := ha
    rw [outlasts, ancestorAt, hs, Option.bind_some]
    cases hb : s.base with
    | none => simp [outlasts]
    | some b =>
      rw [Option.bind_some]
      exact ih (exists_findType_iff.mpr (hknown s (List.mem_of_find?_eq_some hs) b hb))

/-- The base chain of a type starts one step up. -/
theorem outlasts_base_iff (hdistinct : (types.map (·.name)).Nodup) (hknown : BasesKnown types)
    (ht : t ∈ types) (limit : Nat) :
    outlasts types limit t.base = true ↔ ∃ s, ancestorAt types (limit + 1) t.name = some s := by
  rw [ancestorAt, findType_of_mem hdistinct ht, Option.bind_some]
  cases hb : t.base with
  | none => simp [outlasts]
  | some b => exact outlasts_iff hknown (exists_findType_iff.mpr (hknown t ht b hb)) limit

end Bases

end EntityQuery
