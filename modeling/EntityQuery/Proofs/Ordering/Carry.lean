/-
# Keys carried through a projection

When a sort moves above a projection, its keys become columns of the projection.  `carryKeys` adds
hidden columns for those that are missing.  This file says what comes out:

* `freshName_first`: the name of an added column is the first numbered name that is free;
* `exists_added`, `nodup_carryKeys`: the old columns stay in front, the added ones are hidden and
  compute keys, and names stay distinct;
* `lifted_firstComputing`: every new key is the first column that computes the old one;
* `carryKeys_faithful`: the keys are restated, and restating them again changes nothing.
-/
import EntityQuery.Ordering.Carry
import EntityQuery.Proofs.Meaning
import Mathlib

namespace EntityQuery

/-! ## Fresh names -/

/-- The names tried for a column are all different. -/
theorem numberedName_injective (base : String) : Function.Injective (numberedName base) := by
  have hne : ∀ n : ℕ, base ≠ base ++ toString n := by
    intro n h
    have hdigits : Nat.toDigits 10 n = [] := by
      simpa [Nat.toString_eq_repr] using congrArg String.toList h
    exact Nat.toDigits_ne_nil hdigits
  intro m n h
  unfold numberedName at h
  split at h <;> split at h
  · omega
  · exact absurd h (hne n)
  · exact absurd h.symm (hne m)
  · exact Nat.repr_inj.mp ((String.append_right_inj base).mp h)

/-- Among one more names than columns one is not taken. -/
theorem exists_free_name (columns : List OutputColumn) (base : String) :
    ∃ n < columns.length + 1, numberedName base n ∉ columnNames columns := by
  by_contra htaken
  push Not at htaken
  have hnodup : ((List.range (columns.length + 1)).map (numberedName base)).Nodup :=
    List.Nodup.map (numberedName_injective base) List.nodup_range
  have hsubset : (List.range (columns.length + 1)).map (numberedName base) ⊆
      columnNames columns := by
    intro name hname
    obtain ⟨n, hn, rfl⟩ := List.mem_map.mp hname
    exact htaken n (List.mem_range.mp hn)
  have hlength := (List.subperm_of_subset hnodup hsubset).length_le
  simp only [List.length_map, List.length_range, columnNames] at hlength
  omega

/-- **The search for a name ends**: a fresh name is the first of the numbered names that no column
has, and no more of them are taken than there are columns. -/
theorem freshName_first (columns : List OutputColumn) (base : String) :
    ∃ n ≤ columns.length, freshName columns base = numberedName base n ∧
      numberedName base n ∉ columnNames columns ∧
      ∀ m < n, numberedName base m ∈ columnNames columns := by
  have htest : ∀ name, columns.any (·.name = name) = true ↔ name ∈ columnNames columns := by
    intro name
    simp [columnNames]
  simp only [freshName, List.find?_map]
  cases hfind : (List.range (columns.length + 1)).find?
      ((fun name => !columns.any (·.name = name)) ∘ numberedName base) with
  | none =>
    obtain ⟨n, hn, hfree⟩ := exists_free_name columns base
    have htaken := List.find?_eq_none.mp hfind n (List.mem_range.mpr hn)
    simp only [Function.comp_apply, Bool.not_eq_true', Bool.not_eq_false] at htaken
    exact absurd ((htest _).mp htaken) hfree
  | some n =>
    obtain ⟨hfree, hn, hbefore⟩ := List.find?_range_eq_some.mp hfind
    refine ⟨n, Nat.lt_succ_iff.mp (List.mem_range.mp hn), rfl, ?_, ?_⟩
    · intro hmem
      rw [Function.comp_apply, (htest _).mpr hmem] at hfree
      cases hfree
    · intro m hm
      have htaken := hbefore m hm
      rw [Function.comp_apply, Bool.not_not] at htaken
      exact (htest _).mp htaken

/-- Whether a name is no name of an added column unless a key is that column: computed keys have
another base name, and the name does not end in a number. -/
def neverFresh (name : String) : Bool :=
  name ≠ "OrderKey" && name.toList.getLast?.all (!·.isDigit)

/-- A numbered name ends in a number. -/
theorem numberedName_ne {name base : String} (hname : neverFresh name = true) (hbase : base ≠ name)
    (n : ℕ) : numberedName base n ≠ name := by
  unfold numberedName
  split
  · exact hbase
  · -- the name would end in the last digit of the number
    rintro rfl
    simp only [neverFresh, Bool.and_eq_true, String.toList_append, List.getLast?_append,
      Nat.toString_eq_repr, Nat.toList_repr, List.getLast?_eq_some_getLast Nat.toDigits_ne_nil,
      Option.some_or, Option.all_some, Bool.not_eq_true'] at hname
    have hdigit := Nat.isDigit_of_mem_toDigits (by omega) (by omega)
      (List.getLast_mem (Nat.toDigits_ne_nil (b := 10) (n := n)))
    exact Bool.false_ne_true (hname.2.symm.trans hdigit)

/-- A key is given the name of a column or of a computed key. -/
theorem baseName_ne {name : String} {key : SortKey} (hname : neverFresh name = true)
    (hkey : key.expr ≠ .column name) : key.baseName ≠ name := by
  obtain ⟨e, direction⟩ := key
  cases e with
  | column column =>
    rintro rfl
    exact hkey rfl
  | literal | binary | not | isNull | isNotNull | inList | caseWhen =>
    simp only [neverFresh, Bool.and_eq_true, decide_eq_true_eq] at hname
    exact hname.1.symm

/-! ## Carried keys -/

/-- A hidden column that computes one of the keys, under a name made for it. -/
def AddedFor (keys : List SortKey) (c : OutputColumn) : Prop :=
  c.hidden = true ∧
    ∃ key ∈ keys, c.expr = key.expr ∧ ∃ n, c.name = numberedName key.baseName n

/-- A column added for a key stays added for it among more keys. -/
theorem AddedFor.cons {keys : List SortKey} {c : OutputColumn} (h : AddedFor keys c)
    (key : SortKey) : AddedFor (key :: keys) c := by
  obtain ⟨hhidden, k, hk, hrest⟩ := h
  exact ⟨hhidden, k, List.mem_cons_of_mem key hk, hrest⟩

section CarryKeys

variable (columns : List OutputColumn) (keys : List SortKey)

/-- Columns are added behind the old ones, also where several columns have one name. -/
theorem exists_added :
    ∃ added, (carryKeys columns keys).1 = columns ++ added ∧ ∀ c ∈ added, AddedFor keys c := by
  induction keys generalizing columns with
  | nil => exact ⟨[], (List.append_nil columns).symm, by simp⟩
  | cons key keys ih =>
    rw [carryKeys]
    split
    next =>
      obtain ⟨added, happend, hadded⟩ := ih columns
      exact ⟨added, happend, fun c hc => (hadded c hc).cons key⟩
    next =>
      obtain ⟨n, -, hname, -⟩ := freshName_first columns key.baseName
      obtain ⟨added, happend, hadded⟩ :=
        ih (columns ++ [⟨freshName columns key.baseName, key.expr, true⟩])
      refine ⟨_ :: added, by rw [happend, List.append_assoc, List.singleton_append], ?_⟩
      intro c hc
      rcases List.mem_cons.mp hc with rfl | hc
      · exact ⟨rfl, key, List.mem_cons_self, rfl, n, hname⟩
      · exact (hadded c hc).cons key

/-- Carrying keys repeats no name. -/
theorem nodup_carryKeys {columns : List OutputColumn} (hnodup : (columnNames columns).Nodup) :
    (columnNames (carryKeys columns keys).1).Nodup := by
  induction keys generalizing columns with
  | nil => exact hnodup
  | cons key keys ih =>
    rw [carryKeys]
    split
    next => exact ih hnodup
    next =>
      obtain ⟨n, -, hname, hfree, -⟩ := freshName_first columns key.baseName
      apply ih
      simp only [columnNames, List.map_append, List.map_cons, List.map_nil]
      rw [hname]
      exact List.Nodup.append hnodup (List.nodup_singleton _) (List.disjoint_singleton.mpr hfree)

/-- The new key is the first of some columns that computes the old one. -/
def FirstComputing (columns : List OutputColumn) (key new : SortKey) : Prop :=
  ∃ c, columns.find? (·.expr = key.expr) = some c ∧
    new = { expr := .column c.name, direction := key.direction }

/-- Every new key is the first column that computes the old one: what is added for later keys stands
behind it. -/
theorem lifted_firstComputing :
    List.Forall₂ (FirstComputing (carryKeys columns keys).1) keys (carryKeys columns keys).2 := by
  induction keys generalizing columns with
  | nil => exact List.Forall₂.nil
  | cons key keys ih =>
    have hstays : ∀ {old : List OutputColumn} {c : OutputColumn},
        old.find? (·.expr = key.expr) = some c →
          (carryKeys old keys).1.find? (·.expr = key.expr) = some c := by
      intro old c hfound
      obtain ⟨added, happend, -⟩ := exists_added old keys
      rw [happend, List.find?_append, hfound, Option.some_or]
    rw [carryKeys]
    split
    next found hfound => exact List.Forall₂.cons ⟨found, hstays hfound, rfl⟩ (ih columns)
    next hnone =>
      have hfound : ∀ c : OutputColumn, c.expr = key.expr →
          (columns ++ [c]).find? (·.expr = key.expr) = some c := by
        intro c hc
        rw [List.find?_append, hnone, Option.none_or]
        exact List.find?_cons_of_pos (decide_eq_true hc)
      exact List.Forall₂.cons ⟨_, hstays (hfound ⟨_, key.expr, true⟩ rfl), rfl⟩ (ih _)

/-- Keys that columns compute already add nothing. -/
theorem carryKeys_of_firstComputing {columns : List OutputColumn} {keys lifted : List SortKey}
    (h : List.Forall₂ (FirstComputing columns) keys lifted) :
    carryKeys columns keys = (columns, lifted) := by
  induction h with
  | nil => rfl
  | cons hkey _ ih =>
    obtain ⟨c, hfound, rfl⟩ := hkey
    simp only [carryKeys, hfound, ih]

/-- Carried keys have the directions of the keys. -/
theorem directions_carryKeys :
    (carryKeys columns keys).2.map (·.direction) = keys.map (·.direction) := by
  have hlifted := lifted_firstComputing columns keys
  generalize (carryKeys columns keys).1 = carried, (carryKeys columns keys).2 = lifted
    at hlifted ⊢
  induction hlifted with
  | nil => rfl
  | cons hkey _ ih =>
    obtain ⟨c, -, rfl⟩ := hkey
    rw [List.map_cons, List.map_cons, ih]

/-- Carried keys add nothing to see, also where several columns have one name. -/
theorem visibleNames_carryKeys :
    visibleNames (carryKeys columns keys).1 = visibleNames columns := by
  obtain ⟨added, happend, hadded⟩ := exists_added columns keys
  have hnone : added.filter (fun c => !c.hidden) = [] := by
    rw [List.filter_eq_nil_iff]
    intro c hc
    simp [(hadded c hc).1]
  rw [happend, visibleNames, visibleNames, List.filter_append, hnone, List.append_nil]

end CarryKeys

/-- What the columns and keys that a projection carries have to do with the old ones. -/
structure Carried (columns : List OutputColumn) (keys : List SortKey)
    (carried : List OutputColumn) (lifted : List SortKey) : Prop where
  /-- Hidden columns that compute keys, under fresh names, stand behind the old columns. -/
  columns_append : ∃ added, carried = columns ++ added ∧ ∀ c ∈ added, c.hidden = true ∧
    ∃ key ∈ keys, c.expr = key.expr ∧ ∃ n, c.name = numberedName key.baseName n
  nodup : (columnNames carried).Nodup
  /-- Each key is now a column that computes it. -/
  lifted_keys : List.Forall₂ (fun key new => new.direction = key.direction ∧
    ∃ c ∈ carried, new.expr = .column c.name ∧ c.expr = key.expr) keys lifted

/-- **Keys are carried faithfully**, whatever keys there are. -/
theorem carryKeys_spec {columns : List OutputColumn} (keys : List SortKey)
    (hnodup : (columnNames columns).Nodup) :
    Carried columns keys (carryKeys columns keys).1 (carryKeys columns keys).2 := by
  refine ⟨exists_added columns keys, nodup_carryKeys keys hnodup, ?_⟩
  refine (lifted_firstComputing columns keys).imp ?_
  rintro key new ⟨c, hfound, rfl⟩
  refine ⟨rfl, c, List.mem_of_find?_eq_some hfound, rfl, ?_⟩
  simpa using List.find?_some hfound

namespace Carried

variable {columns carried : List OutputColumn} {keys lifted : List SortKey}

/-- No old column is lost. -/
theorem names_subset (h : Carried columns keys carried lifted) :
    columnNames columns ⊆ columnNames carried := by
  obtain ⟨added, rfl, -⟩ := h.columns_append
  simp [columnNames]

/-- No column gets a name that is never fresh, unless a key is the column of that name. -/
theorem notMem_names (h : Carried columns keys carried lifted) {name : String}
    (hname : neverFresh name = true) (hcolumns : name ∉ columnNames columns)
    (hkeys : ∀ key ∈ keys, key.expr ≠ .column name) : name ∉ columnNames carried := by
  obtain ⟨added, rfl, hadded⟩ := h.columns_append
  intro hmem
  obtain ⟨c, hc, rfl⟩ := List.mem_map.mp hmem
  rcases List.mem_append.mp hc with hc | hc
  · exact hcolumns (List.mem_map_of_mem hc)
  · obtain ⟨-, key, hkey, -, n, hfresh⟩ := hadded c hc
    exact numberedName_ne hname (baseName_ne hname (hkeys key hkey)) n hfresh.symm

/-- The carried columns read what the columns and the keys read. -/
theorem references_subset (h : Carried columns keys carried lifted) {names : List String}
    (hcolumns : ∀ c ∈ columns, c.expr.references ⊆ names)
    (hkeys : ∀ key ∈ keys, key.expr.references ⊆ names) :
    ∀ c ∈ carried, c.expr.references ⊆ names := by
  obtain ⟨added, rfl, hadded⟩ := h.columns_append
  intro c hc
  rcases List.mem_append.mp hc with hc | hc
  · exact hcolumns c hc
  · obtain ⟨-, key, hkey, hexpr, -⟩ := hadded c hc
    rw [hexpr]
    exact hkeys key hkey

/-- The new keys read carried columns. -/
theorem lifted_references (h : Carried columns keys carried lifted) :
    ∀ new ∈ lifted, new.expr.references ⊆ columnNames carried := by
  intro new hnew
  obtain ⟨i, hi, rfl⟩ := List.mem_iff_getElem.mp hnew
  obtain ⟨-, c, hc, hexpr, -⟩ := (List.forall₂_iff_get.mp h.lifted_keys).2 i
    (h.lifted_keys.length_eq ▸ hi) hi
  simp only [List.get_eq_getElem] at hexpr
  have hmem : c.name ∈ columnNames carried := List.mem_map_of_mem hc
  rw [hexpr]
  simpa [Expr.references] using hmem

/-- **The new keys order the projected rows as the old ones order the rows.** -/
theorem precedes_project (h : Carried columns keys carried lifted) (engine : Engine) (a b : Row) :
    Precedes engine lifted (Row.project engine carried a) (Row.project engine carried b) ↔
      Precedes engine keys a b := by
  have horder : keyOrder engine lifted (Row.project engine carried a)
      (Row.project engine carried b) = keyOrder engine keys a b := by
    obtain ⟨-, hnodup, hlifted⟩ := h
    induction hlifted with
    | nil => rfl
    | @cons key new keys lifted hkey _ ih =>
      obtain ⟨hdir, c, hc, hexpr, hsame⟩ := hkey
      have heval : ∀ row, new.expr.eval engine .native (Row.project engine carried row) =
          key.expr.eval engine .native row := by
        intro row
        rw [hexpr, ← hsame, Expr.eval]
        exact Row.project_of_find (find_eq_some_of_nodup hnodup hc) row
      have hnew : new.order engine (Row.project engine carried a) (Row.project engine carried b) =
          key.order engine a b := by
        unfold SortKey.order
        rw [hdir, heval, heval]
      rw [keyOrder, keyOrder, hnew, ih]
  rw [Precedes, Precedes, horder]

/-- On the old columns the carried projection is the old one. -/
theorem cut_project (h : Carried columns keys carried lifted) (engine : Engine) (row : Row) :
    Row.cut (columnNames columns) (Row.project engine carried row) =
      Row.project engine columns row := by
  obtain ⟨added, rfl, -⟩ := h.columns_append
  rw [← Row.cut_project engine columns row]
  refine Row.cut_congr fun name hname => ?_
  obtain ⟨c, -, -, hfind⟩ := exists_find_of_mem_columnNames hname
  have hfind' : (columns ++ added).find? (fun c => c.name = name) = some c := by
    rw [List.find?_append, hfind, Option.some_or]
  rw [Row.project_of_find hfind, Row.project_of_find hfind']

end Carried

/-! ## Keys carried again -/

/-- **Keys are restated faithfully**: hidden columns stand behind the old ones, no name is used
twice, every key becomes a bare column that is defined as the key, in the same direction, and
carrying the keys again adds nothing.  Every search for a name ends, at the first that is free. -/
theorem carryKeys_faithful {columns : List OutputColumn} (keys : List SortKey)
    (hnodup : (columnNames columns).Nodup) :
    ∃ added lifted, carryKeys columns keys = (columns ++ added, lifted) ∧
      (∀ c ∈ added, c.hidden = true) ∧
      (columnNames (columns ++ added)).Nodup ∧
      lifted.length = keys.length ∧
      lifted.map (·.direction) = keys.map (·.direction) ∧
      List.Forall₂ (fun key new => ∃ name ∈ columnNames (columns ++ added),
        new.expr = .column name ∧ OutputColumn.definition (columns ++ added) name = key.expr)
        keys lifted ∧
      (∀ (present : List OutputColumn) (base : String),
        ∃ n ≤ present.length, freshName present base = numberedName base n ∧
          numberedName base n ∉ columnNames present ∧
          ∀ m < n, numberedName base m ∈ columnNames present) ∧
      carryKeys (columns ++ added) keys = (columns ++ added, lifted) := by
  obtain ⟨⟨added, happend, hadded⟩, hnodup', hlifted⟩ := carryKeys_spec keys hnodup
  have hdirections := directions_carryKeys columns keys
  have hagain := carryKeys_of_firstComputing (lifted_firstComputing columns keys)
  rw [happend] at hnodup' hlifted hagain
  refine ⟨added, (carryKeys columns keys).2, Prod.ext happend rfl, ?_, hnodup',
    hlifted.length_eq.symm, hdirections, ?_, freshName_first, hagain⟩
  · intro c hc
    exact (hadded c hc).1
  · refine hlifted.imp ?_
    rintro key new ⟨-, c, hc, hexpr, hsame⟩
    refine ⟨c.name, List.mem_map_of_mem hc, hexpr, ?_⟩
    rw [OutputColumn.definition, find_eq_some_of_nodup hnodup' hc]
    exact hsame

/-- Columns that take the name of a key and the name that would be tried next for it. -/
def shiftedOwners : List OutputColumn :=
  [⟨"Id", .binary .add (.column "Id") (.literal (.int 1)), false⟩, ⟨"Id1", .column "Name", false⟩]

/-- Two keys get columns under names that are free, and the third one has a column already. -/
theorem carryKeys_faithful_shiftedOwners :
    let fivefold : Expr := .binary .mul (.column "Id") (.literal (.int 5))
    let keys : List SortKey := [⟨.column "Id", .desc⟩, ⟨fivefold, .asc⟩, ⟨.column "Name", .asc⟩]
    let carried :=
      shiftedOwners ++ [⟨"Id2", .column "Id", true⟩, ⟨"OrderKey", fivefold, true⟩]
    let lifted : List SortKey :=
      [⟨.column "Id2", .desc⟩, ⟨.column "OrderKey", .asc⟩, ⟨.column "Id1", .asc⟩]
    (columnNames shiftedOwners).Nodup ∧ carryKeys shiftedOwners keys = (carried, lifted) ∧
      (columnNames carried).Nodup ∧ carryKeys carried keys = (carried, lifted) := by
  intro fivefold keys carried lifted
  have hnodup : (columnNames shiftedOwners).Nodup := by decide
  have hcarry : carryKeys shiftedOwners keys = (carried, lifted) := rfl
  obtain ⟨added, lifted', heq, -, hnodup', -, -, -, -, hagain⟩ := carryKeys_faithful keys hnodup
  obtain ⟨happend, rfl⟩ := Prod.mk.inj (hcarry.symm.trans heq)
  rw [← happend] at hnodup' hagain
  exact ⟨hnodup, hcarry, hnodup', hagain⟩

end EntityQuery
