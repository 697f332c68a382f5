/-
# Type filters over one another

A type filter is compared with the next one above it only, and being related is not transitive: two
types may be related to a common ancestor and not to each other.  So of the type filters of a plan
that can be resolved two may be unrelated, but only around one of a type from which both derive.

* `Plan.resolveUnder_of_subplan`: a type filter of a resolved plan has its input resolved under it;
* `Plan.related_or_between`: what follows from neighbours being related;
* `Plan.resolve_stacked_types`: the types of any two type filters of a resolved plan.
-/
import EntityQuery.Model.Draft
import EntityQuery.Proofs.Acceptance
import EntityQuery.Proofs.Hierarchy

namespace EntityQuery.Plan

variable {model : Model} {shaping : Shaping} {outer : Option String} {plan p q : Plan}
  {a b : String}

/-- A type filter between two plans asks for a type from which both of two types derive. -/
def AncestorBetween (model : Model) (a b : String) (above below : Plan) : Prop :=
  ∃ c r, ofType c r ∈ above.subplans ∧ below ∈ r.subplans ∧ model.isSubtypeOf a c = true ∧
    model.isSubtypeOf b c = true

/-- An operator on top of a plan leaves everything between where it was. -/
theorem AncestorBetween.above {r : Plan} (h : AncestorBetween model a b p q)
    (hsubplans : p.subplans ⊆ r.subplans) : AncestorBetween model a b r q := by
  obtain ⟨c, s, hc, hq, hac, hbc⟩ := h
  exact ⟨c, s, hsubplans hc, hq, hac, hbc⟩

/-- A type filter of a resolved plan stands on whole entities, and its input is resolved under
it. -/
theorem resolveUnder_of_subplan
    (h : ∃ resolved, plan.resolveUnder model shaping outer = .ok resolved)
    (ha : ofType a p ∈ plan.subplans) :
    p.hasProjection = false ∧ ∃ input, p.resolveUnder model shaping (some a) = .ok input := by
  induction plan generalizing outer with
  | source relation => cases List.mem_singleton.mp ha
  | filter _ r ih | sort _ r ih | skip _ r ih | take _ r ih | project _ r ih =>
    rw [resolveUnder, exists_ok_bind_pure_iff] at h
    rcases List.mem_cons.mp ha with heq | ha
    · cases heq
    · exact ih h ha
  | ofType c r ih =>
    obtain ⟨⟨set, hset, -⟩, -, hinput⟩ := resolveUnder_ofType_ok_iff.mp h
    rcases List.mem_cons.mp ha with heq | ha
    · cases heq
      exact ⟨(filteredSet_eq_ok hset).1, hinput⟩
    · exact ih hinput ha

/-- **Types of type filters under one another** are related, or both derive from that of a type
filter between them. -/
theorem related_or_between (hprojection : p.hasProjection = false)
    (h : ∃ resolved, p.resolveUnder model shaping (some a) = .ok resolved)
    (hb : ofType b q ∈ p.subplans) :
    model.related a b = true ∨ AncestorBetween model a b p (ofType b q) := by
  induction p generalizing a with
  | source relation => cases List.mem_singleton.mp hb
  | project columns r ih => cases hprojection
  | filter _ r ih | sort _ r ih | skip _ r ih | take _ r ih =>
    rw [resolveUnder, exists_ok_bind_pure_iff] at h
    rcases List.mem_cons.mp hb with heq | hb
    · cases heq
    · rcases ih hprojection h hb with hrelated | hbetween
      · exact .inl hrelated
      · exact .inr (hbetween.above (List.subset_cons_self _ _))
  | ofType c r ih =>
    obtain ⟨-, hac, hinput⟩ := resolveUnder_ofType_ok_iff.mp h
    have hac := hac a rfl
    rcases List.mem_cons.mp hb with heq | hb
    · cases heq
      exact .inl hac
    · rcases ih hprojection hinput hb with hcb | ⟨d, s, hd, hbelow, hcd, hbd⟩
      · rcases Model.related_iff.mp hcb with hcb | hbc
        · exact .inl (Model.related_of_related hac hcb)
        · rcases Model.related_or_isSubtypeOf hac hbc with hrelated | hac
          · exact .inl hrelated
          · exact .inr ⟨c, r, List.mem_cons_self, hb, hac, hbc⟩
      · have had := Model.related_of_related hac hcd
        rcases Model.related_or_isSubtypeOf had hbd with hrelated | had
        · exact .inl hrelated
        · exact .inr ⟨d, s, List.mem_cons_of_mem _ hd, hbelow, had, hbd⟩

/-- **The types of any two type filters of a resolved plan** are related, or both derive from the
type of a type filter between them. -/
theorem resolve_stacked_types {resolved : Plan} (h : plan.resolve model shaping = .ok resolved)
    (ha : ofType a p ∈ plan.subplans) (hb : ofType b q ∈ p.subplans) :
    model.related a b = true ∨ AncestorBetween model a b p (ofType b q) := by
  obtain ⟨hprojection, hinput⟩ := resolveUnder_of_subplan ⟨resolved, h⟩ ha
  exact related_or_between hprojection hinput hb

/-- Dogs among the animals among the cats: a plan that finds nothing. -/
def dogsAmongCats : Plan :=
  ofType "Dog" (ofType "Animal" (ofType "Cat" (source "Animals")))

theorem resolve_stacked_types_dogsAmongCats :
    AncestorBetween animalsModel "Dog" "Cat" (ofType "Animal" (ofType "Cat" (source "Animals")))
      (ofType "Cat" (source "Animals")) := by
  have hresolved : dogsAmongCats.resolve animalsModel .uniform = .ok _ := rfl
  rcases resolve_stacked_types hresolved List.mem_cons_self
    (List.mem_cons_of_mem _ List.mem_cons_self) with hrelated | hbetween
  · exact absurd hrelated (by decide)
  · exact hbetween

/-- The model of animals as it is drafted. -/
def animalsDraft : Draft where
  sets := animalsModel.sets
  types := [
    { name := "Animal", properties := [⟨"Id", "Id"⟩, ⟨"Name", "Name"⟩] },
    { name := "Cat", base := some "Animal", properties := [⟨"Lives", "Lives"⟩],
      conditions := [⟨.column "Kind", .equals (.string "cat")⟩] },
    { name := "Dog", base := some "Animal", properties := [⟨"Owner", "Owner"⟩],
      conditions := [⟨.column "Kind", .equals (.string "dog")⟩] }]

/-- Two type filters of a resolved plan need not be related. -/
theorem resolve_stacked_types_unrelated :
    animalsDraft.freeze = .ok animalsModel ∧
      (∃ resolved, dogsAmongCats.resolve animalsModel .uniform = .ok resolved) ∧
      ofType "Dog" (ofType "Animal" (ofType "Cat" (source "Animals"))) ∈ dogsAmongCats.subplans ∧
      ofType "Cat" (source "Animals") ∈ (ofType "Animal" (ofType "Cat" (source "Animals"))).subplans ∧
      animalsModel.related "Dog" "Cat" = false := by
  exact ⟨rfl, ⟨_, rfl⟩, by decide, by decide, by decide⟩

end EntityQuery.Plan
