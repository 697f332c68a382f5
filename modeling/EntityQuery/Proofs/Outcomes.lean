/-
# Sets of possible row sequences

A query does not fix the order of its rows where the keys of a sort tie, or where nothing sorts
them.  Its meaning is therefore a set of row sequences, and every operator acts on such sets.  This
file holds the operators and the laws by which they move past each other:

* `Outcomes.filter_sort`, `Outcomes.map_sort`: sorting commutes with row-wise operators;
* `Outcomes.sort_sort`: a sort hides the one below it;
* `Outcomes.sort_drop_sort`, `Outcomes.sort_take_sort`, `Outcomes.sort_take_drop_sort`: sorting a
  window again by the keys that cut it changes nothing;
* `Outcomes.drop_take`, `Outcomes.map_drop`, …: the algebra of cuts;
* `Outcomes.filter_shuffle`, `Outcomes.sort_shuffle`, …: rows whose order is left open;
* `Outcomes.filter_number`: cutting by position is a test of the row number.
-/
import Mathlib.Data.List.Perm.Basic
import Mathlib.Data.List.Sort
import Mathlib.Data.Set.Image

namespace EntityQuery

/-- The row sequences that a query may answer with. -/
abbrev Outcomes (α : Type) := Set (List α)

namespace Outcomes

variable {α β γ : Type}

/-! ## Operators -/

/-- Only the rows that pass a test. -/
def filter (keep : α → Bool) (R : Outcomes α) : Outcomes α := List.filter keep '' R

/-- Every row mapped to another. -/
def map (f : α → β) (R : Outcomes α) : Outcomes β := List.map f '' R

/-- The rows behind the first `n`. -/
def drop (n : ℕ) (R : Outcomes α) : Outcomes α := List.drop n '' R

/-- The first `n` rows. -/
def take (n : ℕ) (R : Outcomes α) : Outcomes α := List.take n '' R

/-- The rows in any order that `le` allows. -/
def sort (le : α → α → Prop) (R : Outcomes α) : Outcomes α :=
  {ys | ∃ xs ∈ R, ys.Perm xs ∧ ys.Pairwise le}

/-- The rows in any order. -/
def shuffle (R : Outcomes α) : Outcomes α := {ys | ∃ xs ∈ R, ys.Perm xs}

/-! ## Row-wise operators and cuts -/

/-- Two changes in a row are their composition. -/
theorem map_map (g : β → γ) (f : α → β) (R : Outcomes α) :
    (R.map f).map g = R.map (g ∘ f) := by
  simp only [map, Set.image_image, List.map_map]

/-- Mapping changes nothing where no row of any sequence is changed. -/
theorem map_eq_self {f : α → α} {R : Outcomes α} (h : ∀ xs ∈ R, ∀ x ∈ xs, f x = x) :
    R.map f = R := by
  ext ys
  constructor
  · rintro ⟨xs, hxs, rfl⟩
    rwa [List.map_congr_left (h xs hxs), List.map_id']
  · intro hys
    exact ⟨ys, hys, by rw [List.map_congr_left (h ys hys), List.map_id']⟩

/-- Filtering changes nothing where every row of every sequence passes. -/
theorem filter_eq_self {keep : α → Bool} {R : Outcomes α} (h : ∀ xs ∈ R, ∀ x ∈ xs, keep x = true) :
    R.filter keep = R := by
  ext ys
  constructor
  · rintro ⟨xs, hxs, rfl⟩
    rwa [List.filter_eq_self.mpr (h xs hxs)]
  · intro hys
    exact ⟨ys, hys, List.filter_eq_self.mpr (h ys hys)⟩

/-- Tests that agree on every row keep the same rows. -/
theorem filter_congr {p q : α → Bool} {R : Outcomes α} (h : ∀ xs ∈ R, ∀ x ∈ xs, p x = q x) :
    R.filter p = R.filter q :=
  Set.image_congr fun xs hxs => List.filter_congr (h xs hxs)

/-- One possible result has one filtered result. -/
theorem filter_singleton (keep : α → Bool) (xs : List α) :
    filter keep {xs} = {xs.filter keep} := Set.image_singleton

/-- Functions that agree on every row map to the same rows. -/
theorem map_congr {f g : α → β} {R : Outcomes α} (h : ∀ xs ∈ R, ∀ x ∈ xs, f x = g x) :
    R.map f = R.map g :=
  Set.image_congr fun xs hxs => List.map_congr_left (h xs hxs)

/-- Two tests in a row are their conjunction. -/
theorem filter_filter (p q : α → Bool) (R : Outcomes α) :
    (R.filter q).filter p = R.filter (fun x => p x && q x) := by
  simp only [filter, Set.image_image, List.filter_filter]

/-- Mapping commutes with a filter that tests the mapped rows. -/
theorem filter_map (f : α → β) (keep : β → Bool) (R : Outcomes α) :
    (R.map f).filter keep = (R.filter (keep ∘ f)).map f := by
  simp only [filter, map, Set.image_image, List.filter_map]

/-- Rows can be changed before or after the first ones are dropped. -/
theorem map_drop (f : α → β) (n : ℕ) (R : Outcomes α) : (R.drop n).map f = (R.map f).drop n := by
  simp only [drop, map, Set.image_image, List.map_drop]

theorem map_take (f : α → β) (n : ℕ) (R : Outcomes α) : (R.take n).map f = (R.map f).take n := by
  simp only [take, map, Set.image_image, List.map_take]

/-- Rows dropped twice are dropped at once. -/
theorem drop_drop (m n : ℕ) (R : Outcomes α) : (R.drop n).drop m = R.drop (n + m) := by
  simp only [drop, Set.image_image, List.drop_drop]

/-- A cut from the front of a prefix is a shorter prefix of the rest. -/
theorem drop_take (m n : ℕ) (R : Outcomes α) : (R.take n).drop m = (R.drop m).take (n - m) := by
  simp only [drop, take, Set.image_image, List.drop_take]

/-- Of two cuts the shorter one counts. -/
theorem take_take (m n : ℕ) (R : Outcomes α) : (R.take n).take m = R.take (min m n) := by
  simp only [take, Set.image_image, List.take_take]

/-- Two counts that are no less than every length drop the same rows: all. -/
theorem drop_congr {m n : ℕ} {R : Outcomes α}
    (h : ∀ xs ∈ R, m = n ∨ xs.length ≤ m ∧ xs.length ≤ n) : R.drop m = R.drop n := by
  apply Set.image_congr
  intro xs hxs
  rcases h xs hxs with rfl | ⟨hm, hn⟩
  · rfl
  · rw [List.drop_eq_nil_of_le hm, List.drop_eq_nil_of_le hn]

/-! ## Sorting -/

section Sorting

variable {le : α → α → Prop}

/-- A permutation of mapped rows is the image of a permutation of the rows. -/
theorem exists_perm_of_perm_map {f : α → β} {xs : List α} {ys : List β}
    (h : ys.Perm (xs.map f)) : ∃ zs : List α, zs.Perm xs ∧ zs.map f = ys := by
  have hcomp : Relation.Comp (fun b a => b = List.map f a) List.Perm ys xs := by
    rw [List.eq_map_comp_perm f]
    exact h
  obtain ⟨zs, rfl, hzs⟩ := hcomp
  exact ⟨zs, hzs, rfl⟩

/-- **Sorting commutes with mapping** when the mapped rows compare as the rows do. -/
theorem map_sort {le' : β → β → Prop} {f : α → β} (h : ∀ a b, le' (f a) (f b) ↔ le a b)
    (R : Outcomes α) : (R.sort le).map f = (R.map f).sort le' := by
  have hpair : ∀ zs : List α, (zs.map f).Pairwise le' ↔ zs.Pairwise le := by
    intro zs
    rw [List.pairwise_map]
    exact ⟨fun hz => hz.imp (h _ _).mp, fun hz => hz.imp (h _ _).mpr⟩
  ext ys
  constructor
  · rintro ⟨zs, ⟨xs, hxs, hperm, hsorted⟩, rfl⟩
    exact ⟨xs.map f, ⟨xs, hxs, rfl⟩, hperm.map f, (hpair zs).mpr hsorted⟩
  · rintro ⟨_, ⟨xs, hxs, rfl⟩, hperm, hsorted⟩
    obtain ⟨zs, hzs, rfl⟩ := exists_perm_of_perm_map hperm
    exact ⟨zs, ⟨xs, hxs, hzs, (hpair zs).mp hsorted⟩, rfl⟩

variable [Std.Total le] [IsTrans α le]

/-- Every list can be put in order. -/
theorem exists_sorted_perm (le : α → α → Prop) [Std.Total le] [IsTrans α le] (xs : List α) :
    ∃ ys : List α, ys.Perm xs ∧ ys.Pairwise le := by
  classical
  exact ⟨xs.insertionSort le, List.perm_insertionSort le xs, List.pairwise_insertionSort le xs⟩

/-- Every sequence of rows can be sorted. -/
theorem sort_nonempty (le : α → α → Prop) [Std.Total le] [IsTrans α le] {R : Outcomes α}
    (h : R.Nonempty) : (R.sort le).Nonempty := by
  obtain ⟨xs, hxs⟩ := h
  obtain ⟨ys, hperm, hsorted⟩ := exists_sorted_perm le xs
  exact ⟨ys, xs, hxs, hperm, hsorted⟩

/-- Rows that a test refuses fit into a sorted list without moving those it keeps. -/
theorem exists_sorted_extension (keep : α → Bool) {ys : List α} (hys : ys.Pairwise le)
    (ns : List α) (hns : ∀ n ∈ ns, keep n = false) :
    ∃ zs : List α, zs.Perm (ns ++ ys) ∧ zs.Pairwise le ∧ zs.filter keep = ys.filter keep := by
  classical
  induction ns with
  | nil => exact ⟨ys, List.Perm.refl _, hys, rfl⟩
  | cons n ns ih =>
    obtain ⟨zs, hperm, hsorted, hfilter⟩ := ih (fun m hm => hns m (List.mem_cons_of_mem n hm))
    refine ⟨zs.orderedInsert le n, ?_, hsorted.orderedInsert n zs, ?_⟩
    · exact (List.perm_orderedInsert le n zs).trans (hperm.cons n)
    · have hn : keep n = false := hns n List.mem_cons_self
      rw [List.orderedInsert_eq_take_drop, List.filter_append,
        List.filter_cons_of_neg (by simp [hn]), ← List.filter_append,
        List.takeWhile_append_dropWhile, hfilter]

/-- **Sorting commutes with filtering**: the rows that are kept can be in any order that the keys
allow, because the others fit in between. -/
theorem filter_sort (keep : α → Bool) (R : Outcomes α) :
    (R.sort le).filter keep = (R.filter keep).sort le := by
  ext ys
  constructor
  · rintro ⟨zs, ⟨xs, hxs, hperm, hsorted⟩, rfl⟩
    exact ⟨xs.filter keep, ⟨xs, hxs, rfl⟩, hperm.filter keep, hsorted.filter keep⟩
  · rintro ⟨_, ⟨xs, hxs, rfl⟩, hperm, hsorted⟩
    obtain ⟨zs, hzs, hzsorted, hzfilter⟩ :=
      exists_sorted_extension keep hsorted (xs.filter (fun x => !keep x))
        (fun n hn => by simpa using (List.mem_filter.mp hn).2)
    refine ⟨zs, ⟨xs, hxs, ?_, hzsorted⟩, ?_⟩
    · have hsplit : (xs.filter (fun x => !keep x) ++ ys).Perm xs :=
        (hperm.append_left _).trans (List.perm_append_comm.trans (List.filter_append_perm keep xs))
      exact hzs.trans hsplit
    · rw [hzfilter, List.filter_eq_self]
      intro y hy
      exact (List.mem_filter.mp (hperm.mem_iff.mp hy)).2

/-- **A sort hides the one below it.** -/
theorem sort_sort {le' : α → α → Prop} (R : Outcomes α) : (R.sort le).sort le' = R.sort le' := by
  ext ys
  constructor
  · rintro ⟨zs, ⟨xs, hxs, hzs, _⟩, hperm, hsorted⟩
    exact ⟨xs, hxs, hperm.trans hzs, hsorted⟩
  · rintro ⟨xs, hxs, hperm, hsorted⟩
    obtain ⟨zs, hzs, hzsorted⟩ := exists_sorted_perm le xs
    exact ⟨zs, ⟨xs, hxs, hzs, hzsorted⟩, hperm.trans hzs.symm, hsorted⟩

end Sorting

/-! ## Windows over a sort -/

section Windows

variable {le : α → α → Prop}

/-- A segment of a sorted list may be replaced by any sorted permutation of itself. -/
theorem pairwise_replace_segment {as bs cs bs' : List α} (h : (as ++ bs ++ cs).Pairwise le)
    (hperm : bs'.Perm bs) (hsorted : bs'.Pairwise le) : (as ++ bs' ++ cs).Pairwise le := by
  rw [List.pairwise_append, List.pairwise_append] at h ⊢
  obtain ⟨⟨has, -, habs⟩, hcs, habcs⟩ := h
  refine ⟨⟨has, hsorted, ?_⟩, hcs, ?_⟩
  · intro a ha b hb
    exact habs a ha b (hperm.mem_iff.mp hb)
  · intro x hx c hc
    refine habcs x ?_ c hc
    rw [List.mem_append] at hx ⊢
    exact hx.imp_right hperm.mem_iff.mp

/-- A segment cut out of a sort, put in order once more, is such a segment itself.  `cut` names the
segment: it returns the middle of three parts of which the first two lengths are fixed. -/
theorem sort_segment {cut : List α → List α} (R : Outcomes α)
    (hcut : ∀ zs, ∃ as cs, zs = as ++ cut zs ++ cs ∧
      ∀ bs : List α, bs.length = (cut zs).length → cut (as ++ bs ++ cs) = bs) :
    Outcomes.sort le (cut '' R.sort le) = cut '' R.sort le := by
  ext ys
  constructor
  · rintro ⟨_, ⟨zs, ⟨xs, hxs, hzs, hzsorted⟩, rfl⟩, hperm, hsorted⟩
    obtain ⟨as, cs, hsplit, hback⟩ := hcut zs
    -- put back between its neighbours, the reordered segment is cut out again
    refine ⟨as ++ ys ++ cs, ⟨xs, hxs, ?_, ?_⟩, hback ys hperm.length_eq⟩
    · refine List.Perm.trans ?_ hzs
      conv_rhs => rw [hsplit]
      exact (hperm.append_left as).append_right cs
    · rw [hsplit] at hzsorted
      exact pairwise_replace_segment hzsorted hperm hsorted
  · rintro ⟨zs, ⟨xs, hxs, hzs, hzsorted⟩, rfl⟩
    refine ⟨cut zs, ⟨zs, ⟨xs, hxs, hzs, hzsorted⟩, rfl⟩, List.Perm.refl _, ?_⟩
    obtain ⟨as, cs, hsplit, -⟩ := hcut zs
    rw [hsplit, List.append_assoc, List.pairwise_append, List.pairwise_append] at hzsorted
    exact hzsorted.2.1.1

/-- Rows in order stay in order when the first ones are dropped, so that sorting again changes
nothing. -/
theorem sort_drop_sort (n : ℕ) (R : Outcomes α) :
    ((R.sort le).drop n).sort le = (R.sort le).drop n := by
  refine sort_segment R (fun zs => ⟨zs.take n, [], by simp, fun bs hbs => ?_⟩)
  rw [List.length_drop] at hbs
  rw [List.append_nil, List.drop_append]
  by_cases hn : n ≤ zs.length
  · simp [List.length_take, Nat.min_eq_left hn]
  · have hnil : bs = [] := List.eq_nil_of_length_eq_zero (by omega)
    simp [hnil]

/-- They stay in order as well when only the first ones are taken. -/
theorem sort_take_sort (n : ℕ) (R : Outcomes α) :
    ((R.sort le).take n).sort le = (R.sort le).take n := by
  refine sort_segment R (fun zs => ⟨[], zs.drop n, by simp, fun bs hbs => ?_⟩)
  rw [List.length_take] at hbs
  rw [List.nil_append, List.take_append]
  by_cases hn : n ≤ zs.length
  · simp [show bs.length = n by omega, List.take_of_length_le]
  · rw [List.drop_eq_nil_of_le (by omega), List.take_nil, List.append_nil,
      List.take_of_length_le (by omega)]

/-- A window of rows in order is in order. -/
theorem sort_take_drop_sort (m n : ℕ) (R : Outcomes α) :
    (((R.sort le).drop m).take n).sort le = ((R.sort le).drop m).take n := by
  have himage : ((R.sort le).drop m).take n = (fun zs => (zs.drop m).take n) '' R.sort le := by
    simp only [take, drop, Set.image_image]
  rw [himage]
  refine sort_segment R (fun zs => ⟨zs.take m, (zs.drop m).drop n, ?_, fun bs hbs => ?_⟩)
  · rw [List.append_assoc, List.take_append_drop, List.take_append_drop]
  · simp only [List.length_take, List.length_drop] at hbs
    by_cases hm : m ≤ zs.length
    · have hlen : (zs.take m).length = m := by rw [List.length_take, Nat.min_eq_left hm]
      rw [List.append_assoc, List.drop_append, hlen, Nat.sub_self, List.drop_zero,
        List.drop_eq_nil_of_le (by omega), List.nil_append, List.take_append]
      by_cases hn : n ≤ zs.length - m
      · simp [show bs.length = n by omega, List.take_of_length_le]
      · rw [List.drop_eq_nil_of_le (by rw [List.length_drop]; omega), List.take_nil,
          List.append_nil, List.take_of_length_le (by omega)]
    · have hnil : bs = [] := List.eq_nil_of_length_eq_zero (by omega)
      have hdrop : zs.drop m = [] := List.drop_eq_nil_of_le (by omega)
      simp [hnil, hdrop]

end Windows

/-! ## Any order

A set of sequences that lies in `R.shuffle` has the rows of `R`, whatever their order. -/

section Shuffles

variable {R S : Outcomes α} {le : α → α → Prop}

/-- Any order is every order that no key forbids. -/
theorem shuffle_eq_sort (R : Outcomes α) : R.shuffle = R.sort (fun _ _ => True) := by
  ext ys
  constructor
  · rintro ⟨xs, hxs, hperm⟩
    exact ⟨xs, hxs, hperm, List.pairwise_of_forall fun _ _ => trivial⟩
  · rintro ⟨xs, hxs, hperm, -⟩
    exact ⟨xs, hxs, hperm⟩

theorem subset_shuffle (R : Outcomes α) : R ⊆ R.shuffle :=
  fun xs hxs => ⟨xs, hxs, List.Perm.refl xs⟩

/-- Sorting leaves the rows in one among all orders. -/
theorem sort_subset_shuffle (R : Outcomes α) : R.sort le ⊆ R.shuffle := by
  rintro ys ⟨xs, hxs, hperm, -⟩
  exact ⟨xs, hxs, hperm⟩

theorem shuffle_mono (h : R ⊆ S) : R.shuffle ⊆ S.shuffle := by
  rintro ys ⟨xs, hxs, hperm⟩
  exact ⟨xs, h hxs, hperm⟩

theorem sort_mono (h : R ⊆ S) : R.sort le ⊆ S.sort le := by
  rintro ys ⟨xs, hxs, hperm, hsorted⟩
  exact ⟨xs, h hxs, hperm, hsorted⟩

theorem filter_mono (keep : α → Bool) (h : R ⊆ S) : R.filter keep ⊆ S.filter keep :=
  Set.image_mono h

theorem map_mono (f : α → β) (h : R ⊆ S) : R.map f ⊆ S.map f := Set.image_mono h

theorem drop_mono (n : ℕ) (h : R ⊆ S) : R.drop n ⊆ S.drop n := Set.image_mono h

theorem take_mono (n : ℕ) (h : R ⊆ S) : R.take n ⊆ S.take n := Set.image_mono h

/-- Sorting does not depend on the order before. -/
theorem sort_shuffle (R : Outcomes α) : R.shuffle.sort le = R.sort le := by
  have htotal : Std.Total (fun _ _ : α => True) := ⟨fun _ _ => Or.inl trivial⟩
  have htrans : IsTrans α (fun _ _ => True) := ⟨fun _ _ _ _ _ => trivial⟩
  rw [shuffle_eq_sort, sort_sort]

theorem shuffle_shuffle (R : Outcomes α) : R.shuffle.shuffle = R.shuffle := by
  rw [shuffle_eq_sort R.shuffle, sort_shuffle, ← shuffle_eq_sort]

/-- Tests do not depend on the order. -/
theorem filter_shuffle (keep : α → Bool) (R : Outcomes α) :
    R.shuffle.filter keep = (R.filter keep).shuffle := by
  have htotal : Std.Total (fun _ _ : α => True) := ⟨fun _ _ => Or.inl trivial⟩
  have htrans : IsTrans α (fun _ _ => True) := ⟨fun _ _ _ _ _ => trivial⟩
  rw [shuffle_eq_sort, filter_sort, ← shuffle_eq_sort]

/-- Changes to single rows do not depend on the order. -/
theorem map_shuffle (f : α → β) (R : Outcomes α) : R.shuffle.map f = (R.map f).shuffle := by
  rw [shuffle_eq_sort, shuffle_eq_sort]
  exact map_sort (fun _ _ => iff_of_true trivial trivial) R

end Shuffles

/-! ## Numbered rows -/

/-- The rows with their positions, from one on. -/
def number (R : Outcomes α) : Outcomes (α × ℕ) := (fun xs => xs.zipIdx 1) '' R

/-- The positions of rows do not depend on what is in them. -/
theorem number_map (f : α → β) (R : Outcomes α) :
    (R.map f).number = R.number.map (Prod.map f id) := by
  simp only [number, map, Set.image_image, List.zipIdx_map]

/-- The rows numbered beyond `n` are those behind the first `n`. -/
theorem filter_zipIdx_map_fst (n start : ℕ) (xs : List α) :
    ((xs.zipIdx start).filter (fun x => n < x.2)).map Prod.fst = xs.drop (n + 1 - start) := by
  induction xs generalizing start with
  | nil => simp
  | cons x xs ih =>
    rw [List.zipIdx_cons]
    by_cases hn : n < start
    · rw [List.filter_cons_of_pos (by simpa using hn), List.map_cons, ih,
        Nat.sub_eq_zero_of_le hn, Nat.sub_eq_zero_of_le (by omega), List.drop_zero, List.drop_zero]
    · rw [List.filter_cons_of_neg (by simpa using hn), ih,
        show n + 1 - start = (n + 1 - (start + 1)) + 1 by omega, List.drop_succ_cons]

/-- **Rows behind the first `n` are those numbered above `n`.** -/
theorem filter_number (n : ℕ) (R : Outcomes α) :
    (R.number.filter (fun x => n < x.2)).map Prod.fst = R.drop n := by
  simp only [number, filter, map, drop, Set.image_image, filter_zipIdx_map_fst,
    Nat.add_sub_cancel]

/-- No number exceeds the number of rows. -/
theorem le_length_of_mem_number {R : Outcomes α} {zs : List (α × ℕ)} (h : zs ∈ R.number)
    {x : α × ℕ} (hx : x ∈ zs) : ∃ xs ∈ R, x.2 ≤ xs.length := by
  obtain ⟨xs, hxs, rfl⟩ := h
  have hlt := List.snd_lt_add_of_mem_zipIdx hx
  exact ⟨xs, hxs, by omega⟩

end Outcomes

end EntityQuery
