/-
# Aliases

Aliases are numbered per kind of statement, and the name of a kind has no digits, so an alias tells
its kind and its number (`StatementKind.numbered_inj`).  `Drawn first last` says of aliases that they
are handed out while the counters go from `first` to `last`.  The counters only go up, also in a run
that fails (`Emission.Advances`), so what is drawn later differs from all that was drawn before
(`Drawn.append`).

* `Emission.advances_statement`: the aliases at all levels of a statement are drawn while it is made;
* `Plan.exists_drawn_statementsFrom`: so are those of statements that are made one after the other;
* `Plan.nodup_aliases_statementsFrom`: no two FROM items in these have the same alias.
-/
import EntityQuery.Proofs.Ordering.Carry
import EntityQuery.Proofs.Select.Form

namespace EntityQuery

/-! ## Kinds and numbers -/

namespace StatementKind

variable {kind kind' : StatementKind} {m n : ℕ}

/-- The alias of a kind that has a number. -/
def numbered (kind : StatementKind) (n : ℕ) : String :=
  kind.label ++ toString n

/-- Kinds of statements are told by their labels. -/
theorem label_injective (h : kind.label = kind'.label) : kind = kind' := by
  cases kind <;> cases kind' <;> simp_all [label]

/-- The name of the kind is what is left of an alias without its digits. -/
theorem filter_numbered (kind : StatementKind) (n : ℕ) :
    (kind.numbered n).toList.filter (!·.isDigit) = kind.label.toList := by
  have hlabel : kind.label.toList.filter (!·.isDigit) = kind.label.toList := by
    cases kind <;> rfl
  have hnumber : (toString n).toList.filter (!·.isDigit) = [] := by
    rw [List.filter_eq_nil_iff, Nat.toString_eq_repr, Nat.toList_repr]
    intro c hc
    simp [Nat.isDigit_of_mem_toDigits (by decide) (by decide) hc]
  rw [numbered, String.toList_append, List.filter_append, hlabel, hnumber, List.append_nil]

/-- **An alias tells its kind and its number.** -/
theorem numbered_inj (h : kind.numbered m = kind'.numbered n) : kind = kind' ∧ m = n := by
  have hlabel : kind.label = kind'.label := by
    rw [← String.toList_inj, ← filter_numbered kind m, h, filter_numbered]
  obtain rfl := label_injective hlabel
  exact ⟨rfl, Nat.repr_inj.mp ((String.append_right_inj kind.label).mp h)⟩

end StatementKind

/-- Counters only go up. -/
theorem AliasCounters.le_advance (counters : AliasCounters) (kind : StatementKind) :
    counters ≤ counters.advance kind := by
  intro k
  show counters k ≤ if k = kind then counters k + 1 else counters k
  split <;> omega

/-! ## Drawn aliases -/

/-- The aliases are different ones out of those that are handed out between two states of the
counters. -/
structure Drawn (first last : AliasCounters) (aliases : List String) : Prop where
  le : first ≤ last
  nodup : aliases.Nodup
  between : ∀ a ∈ aliases, ∃ (kind : StatementKind) (n : ℕ), a = kind.numbered n ∧
    first kind < n ∧ n ≤ last kind

namespace Drawn

variable {first middle last : AliasCounters} {as bs : List String}

theorem nil (h : first ≤ last) : Drawn first last [] where
  le := h
  nodup := List.nodup_nil
  between := fun _ ha => absurd ha List.not_mem_nil

theorem next (counters : AliasCounters) (kind : StatementKind) :
    Drawn counters (counters.advance kind) [counters.next kind] where
  le := counters.le_advance kind
  nodup := List.nodup_singleton _
  between := by
    intro a ha
    refine ⟨kind, counters kind + 1, List.mem_singleton.mp ha, Nat.lt_succ_self _, ?_⟩
    rw [AliasCounters.advance, if_pos rfl]

/-- What is drawn later differs from what was drawn before: of its kind it has a greater number. -/
theorem append (has : Drawn first middle as) (hbs : Drawn middle last bs) :
    Drawn first last (as ++ bs) where
  le := le_trans has.le hbs.le
  nodup := by
    refine List.nodup_append.mpr ⟨has.nodup, hbs.nodup, ?_⟩
    rintro a ha b hb rfl
    obtain ⟨kind, m, rfl, -, hm⟩ := has.between a ha
    obtain ⟨kind', n, hsame, hn, -⟩ := hbs.between _ hb
    obtain ⟨rfl, rfl⟩ := StatementKind.numbered_inj hsame
    omega
  between := by
    intro a ha
    rcases List.mem_append.mp ha with ha | ha
    · obtain ⟨kind, n, rfl, hfirst, hmiddle⟩ := has.between a ha
      exact ⟨kind, n, rfl, hfirst, le_trans hmiddle (hbs.le kind)⟩
    · obtain ⟨kind, n, rfl, hmiddle, hlast⟩ := hbs.between a ha
      exact ⟨kind, n, rfl, lt_of_le_of_lt (has.le kind) hmiddle, hlast⟩

/-- In which order aliases are listed does not matter. -/
theorem perm (has : Drawn first last as) (h : as.Perm bs) : Drawn first last bs where
  le := has.le
  nodup := h.nodup_iff.mp has.nodup
  between := fun a ha => has.between a (h.mem_iff.mpr ha)

end Drawn

/-! ## Aliases of a statement -/

namespace Select

/-- The aliases of the FROM items at all levels, the outermost first. -/
def aliases (statement : Select) : List String :=
  statement.levels.map item

@[simp] theorem aliases_map (f : Clauses → Clauses) (statement : Select) :
    (statement.map f).aliases = statement.aliases := by
  cases statement <;> rfl

/-- A statement around another one has one more alias. -/
theorem aliases_ofQuery (clauses : Clauses) (query : Select) (item : String) :
    (ofQuery clauses query item).aliases = item :: query.aliases :=
  rfl

end Select

/-! ## Runs of the emitter -/

namespace Emission

section Advances

variable {α β : Type} {x : Emission α} {counters : AliasCounters} {P : AliasCounters → α → Prop}
  {Q : AliasCounters → β → Prop}

/-- From these counters the computation goes on to others that are not behind them, and if it has a
result, then this has the property together with the counters reached. -/
def Advances (x : Emission α) (counters : AliasCounters) (P : AliasCounters → α → Prop) : Prop :=
  counters ≤ (x.run counters).2 ∧ ∀ a, (x.run counters).1 = .ok a → P (x.run counters).2 a

/-- Counters stay where they are if nothing is emitted. -/
theorem Advances.pure {a : α} (h : P counters a) : Advances (pure a) counters P := by
  refine ⟨le_refl counters, ?_⟩
  rintro _ ⟨⟩
  exact h

/-- Without a result there is nothing to show. -/
theorem Advances.throw {fault : Fault} : Advances (throw fault) counters P := by
  refine ⟨le_refl counters, ?_⟩
  rintro _ ⟨⟩

/-- Counters go on from where the first part left them. -/
theorem Advances.bind {f : α → Emission β} (hx : Advances x counters P)
    (hf : ∀ a next, P next a → Advances (f a) next Q) : Advances (x >>= f) counters Q := by
  obtain ⟨hle, hresult⟩ := hx
  rw [Advances, run_bind]
  rcases hrun : x.run counters with ⟨fault | a, middle⟩
  · -- the counters stay where the failure left them
    rw [hrun] at hle
    refine ⟨hle, ?_⟩
    rintro _ ⟨⟩
  · rw [hrun] at hle hresult
    obtain ⟨hnext, hlast⟩ := hf a middle (hresult a rfl)
    exact ⟨le_trans hle hnext, hlast⟩

end Advances

section Statements

variable {first counters : AliasCounters} {s : Select}

/-- Taking an alias draws it. -/
theorem advances_takeAlias (kind : StatementKind) :
    Advances (takeAlias kind) counters fun next item => Drawn counters next [item] := by
  refine ⟨counters.le_advance kind, ?_⟩
  rintro _ ⟨⟩
  exact Drawn.next counters kind

/-- A new statement around another one has an alias that was not drawn before. -/
theorem advances_wrap (kind : StatementKind) (h : Drawn first counters s.aliases) :
    Advances (wrap kind s) counters fun next t => Drawn first next t.aliases := by
  refine (advances_takeAlias s.clauses.kind).bind fun item next hitem => Advances.pure ?_
  rw [Select.aliases_ofQuery, Select.aliases_map]
  exact (h.append hitem).perm (List.perm_append_singleton item s.aliases)

/-- A statement is wrapped for a projection or used as it is. -/
theorem advances_projectable (h : Drawn first counters s.aliases) :
    Advances (projectable s) counters fun next t => Drawn first next t.aliases := by
  unfold projectable
  split
  · exact Advances.pure h
  · exact advances_wrap .project h

/-- Changing the clauses of the result changes no alias. -/
theorem Advances.map {x : Emission Select} (f : Clauses → Clauses)
    (hx : Advances x counters fun next t => Drawn first next t.aliases) :
    Advances (do return (← x).map f) counters fun next t => Drawn first next t.aliases := by
  refine hx.bind fun t next ht => Advances.pure ?_
  rw [Select.aliases_map]
  exact ht

/-- The innermost statement draws the first alias. -/
theorem advances_extent (model : Model) (relation : String) :
    Advances (extent model relation) counters fun next t => Drawn counters next t.aliases := by
  unfold extent
  cases model.relation relation with
  | error fault => exact Advances.bind (P := fun _ _ => False) Advances.throw fun _ _ h => h.elim
  | ok set =>
    refine Advances.bind (P := fun next _ => next = counters) (Advances.pure rfl) ?_
    rintro found _ rfl
    exact (advances_takeAlias .extent).bind fun item next hitem => Advances.pure hitem

/-- A filter is added to a statement, or to a new one around it. -/
theorem advances_filter (predicate : Expr) (h : Drawn first counters s.aliases) :
    Advances (filter predicate s) counters fun next t => Drawn first next t.aliases := by
  unfold filter
  split
  · exact Advances.map _ (Advances.pure h)
  · exact Advances.map _ (advances_wrap .filter h)

theorem advances_sort (keys : List SortKey) (h : Drawn first counters s.aliases) :
    Advances (sort keys s) counters fun next t => Drawn first next t.aliases := by
  unfold sort
  split
  · exact Advances.map _ (Advances.pure h)
  · split
    · exact Advances.pure h
    · exact Advances.map _ (advances_wrap .project h)

/-- Rows are numbered in one statement and kept by the next one around it. -/
theorem advances_window (count : UInt64) (keys : List SortKey)
    (h : Drawn first counters s.aliases) :
    Advances (window count keys s) counters fun next t => Drawn first next t.aliases := by
  refine (advances_projectable h).bind fun t middle ht => Advances.map _ (advances_wrap .skip ?_)
  rw [Select.aliases_map]
  exact ht

/-- **The aliases of a statement are drawn while it is made.** -/
theorem advances_statement (model : Model) (plan : Plan) (counters : AliasCounters) :
    Advances (statement model plan) counters fun next t => Drawn counters next t.aliases := by
  fun_induction statement model plan with
  | case1 relation => exact advances_extent model relation
  | case2 predicate p ih => exact ih.bind fun s next hs => advances_filter predicate hs
  | case3 columns p ih =>
    exact ih.bind fun s next hs => Advances.map _ (advances_projectable hs)
  | case4 keys p ih => exact ih.bind fun s next hs => advances_sort keys hs
  | case5 count keys p ih => exact ih.bind fun s next hs => advances_window count keys hs
  | case7 count keys p ih =>
    exact ih.bind fun s next hs => Advances.map _ (advances_projectable hs)
  | case8 count offset keys p ih =>
    exact ih.bind fun s next hs => Advances.map _ (advances_window offset keys hs)
  -- a type filter, and a cut that does not stand on its sort, have no statement
  | case6 | case9 | case10 | case11 => exact Advances.throw

end Statements

end Emission

/-! ## Statements one after the other -/

namespace Plan

/-- Statements of several plans go on with the counters of the ones before them. -/
theorem exists_drawn_statementsFrom (model : Model) (counters : AliasCounters) (plans : List Plan) :
    ∃ last, Drawn counters last
      (((statementsFrom model counters plans).filterMap Except.toOption).flatMap Select.aliases) := by
  induction plans generalizing counters with
  | nil => exact ⟨counters, Drawn.nil (le_refl counters)⟩
  | cons plan plans ih =>
    obtain ⟨hle, hresult⟩ := Emission.advances_statement model plan counters
    obtain ⟨last, hlast⟩ := ih (plan.statementFrom model counters).2
    refine ⟨last, ?_⟩
    have hcons : statementsFrom model counters (plan :: plans) =
        (plan.statementFrom model counters).1 ::
          statementsFrom model (plan.statementFrom model counters).2 plans := rfl
    rw [hcons]
    cases hrun : (plan.statementFrom model counters).1 with
    | error fault =>
      -- the plans behind draw from where the failure left the counters
      exact (Drawn.nil hle).append hlast
    | ok s => exact (hresult s hrun).append hlast

/-- **Aliases are unique.**  Whatever plans are turned into statements one after the other, and
whichever of them fail: the aliases of all FROM items, at all levels of all statements, differ. -/
theorem nodup_aliases_statementsFrom (model : Model) (counters : AliasCounters)
    (plans : List Plan) :
    (((statementsFrom model counters plans).filterMap Except.toOption).flatMap
      Select.aliases).Nodup := by
  obtain ⟨last, hdrawn⟩ := exists_drawn_statementsFrom model counters plans
  exact hdrawn.nodup

end Plan

end EntityQuery
