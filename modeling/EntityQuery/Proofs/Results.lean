/-
# Computations that succeed or fail

What the result of a computation tells of its parts: a sequence of two steps has succeeded in both or
failed in one, and a step done for every element of a list has succeeded on each of them or failed on
one.

* `exists_ok_of_bind_eq_ok`, `error_of_bind_eq_error`: two steps, one after the other;
* `forall₂_of_mapM_eq_some`, `forall₂_of_mapM_eq_ok`, `exists_error_of_mapM_eq_error`: a step for
  every element of a list;
* `exists_left_of_forall₂`, `exists_right_of_forall₂`, `exists_getElem?_of_forall₂`: the partners of
  the elements.
-/
import Mathlib.Data.List.Forall2

namespace EntityQuery

variable {ε α β : Type}

/-! ## One step after another -/

/-- A sequence that succeeds has succeeded at its first step. -/
theorem exists_ok_of_bind_eq_ok {x : Except ε α} {f : α → Except ε β} {b : β}
    (h : (x >>= f) = .ok b) : ∃ a, x = .ok a ∧ f a = .ok b := by
  cases x with
  | error fault => cases h
  | ok a => exact ⟨a, rfl, h⟩

/-- A result that was only changed comes from a result. -/
theorem exists_ok_of_bind_pure_eq_ok {x : Except ε α} {f : α → β} {b : β}
    (h : (x >>= fun a => pure (f a)) = .ok b) : ∃ a, x = .ok a ∧ b = f a := by
  obtain ⟨a, ha, hb⟩ := exists_ok_of_bind_eq_ok h
  exact ⟨a, ha, (Except.ok.inj hb).symm⟩

/-- A sequence that fails has failed at its first step or behind it. -/
theorem error_of_bind_eq_error {x : Except ε α} {f : α → Except ε β} {fault : ε}
    (h : (x >>= f) = .error fault) : x = .error fault ∨ ∃ a, x = .ok a ∧ f a = .error fault := by
  cases x with
  | error cause =>
    left
    exact congrArg Except.error (Except.error.inj h)
  | ok a => exact .inr ⟨a, rfl, h⟩

/-! ## A step for every element -/

/-- Values read off some elements are paired with them. -/
theorem forall₂_of_mapM_eq_some {f : α → Option β} {xs : List α} {ys : List β}
    (h : xs.mapM f = some ys) : List.Forall₂ (fun x y => f x = some y) xs ys := by
  induction xs generalizing ys with
  | nil =>
    obtain rfl : [] = ys := by simpa using h
    exact List.Forall₂.nil
  | cons x xs ih =>
    rw [List.mapM_cons] at h
    obtain ⟨z, hz, hrest⟩ := Option.bind_eq_some_iff.mp h
    obtain ⟨zs, hzs, hys⟩ := Option.bind_eq_some_iff.mp hrest
    obtain rfl : z :: zs = ys := Option.some.inj hys
    exact List.Forall₂.cons hz (ih hzs)

/-- Results obtained one by one are paired with what they come from. -/
theorem forall₂_of_mapM_eq_ok {f : α → Except ε β} {xs : List α} {ys : List β}
    (h : xs.mapM f = .ok ys) : List.Forall₂ (fun x y => f x = .ok y) xs ys := by
  induction xs generalizing ys with
  | nil =>
    obtain rfl : [] = ys := Except.ok.inj h
    exact List.Forall₂.nil
  | cons x xs ih =>
    rw [List.mapM_cons] at h
    obtain ⟨z, hz, hrest⟩ := exists_ok_of_bind_eq_ok h
    obtain ⟨zs, hzs, rfl⟩ := exists_ok_of_bind_pure_eq_ok hrest
    exact List.Forall₂.cons hz (ih hzs)

/-- Where a step is done for every element, a fault is that of some element. -/
theorem exists_error_of_mapM_eq_error {f : α → Except ε β} {xs : List α} {fault : ε}
    (h : xs.mapM f = .error fault) : ∃ x ∈ xs, f x = .error fault := by
  induction xs with
  | nil => cases h
  | cons x xs ih =>
    rw [List.mapM_cons] at h
    rcases error_of_bind_eq_error h with hx | ⟨y, -, hrest⟩
    · exact ⟨x, List.mem_cons_self, hx⟩
    · rcases error_of_bind_eq_error hrest with hxs | ⟨ys, -, hpure⟩
      · obtain ⟨z, hz, hfault⟩ := ih hxs
        exact ⟨z, List.mem_cons_of_mem x hz, hfault⟩
      · cases hpure

/-! ## Partners -/

section Partners

variable {R : α → β → Prop} {xs : List α} {ys : List β}

/-- What is on the right has a counterpart on the left. -/
theorem exists_left_of_forall₂ (h : List.Forall₂ R xs ys) {y : β} (hy : y ∈ ys) :
    ∃ x ∈ xs, R x y := by
  induction h with
  | nil => exact absurd hy List.not_mem_nil
  | cons hR _ ih =>
    rcases List.mem_cons.mp hy with rfl | hy
    · exact ⟨_, List.mem_cons_self, hR⟩
    · obtain ⟨x, hx, hR⟩ := ih hy
      exact ⟨x, List.mem_cons_of_mem _ hx, hR⟩

theorem exists_right_of_forall₂ (h : List.Forall₂ R xs ys) {x : α} (hx : x ∈ xs) :
    ∃ y ∈ ys, R x y :=
  exists_left_of_forall₂ (R := flip R) h.flip hx

/-- Partners stand at the same place. -/
theorem exists_getElem?_of_forall₂ (h : List.Forall₂ R xs ys) {i : Nat} {y : β}
    (hy : ys[i]? = some y) : ∃ x, xs[i]? = some x ∧ R x y := by
  induction h generalizing i with
  | nil => cases hy
  | cons hR _ ih =>
    cases i with
    | zero =>
      obtain rfl := Option.some.inj hy
      exact ⟨_, rfl, hR⟩
    | succ i => exact ih hy

end Partners

end EntityQuery
