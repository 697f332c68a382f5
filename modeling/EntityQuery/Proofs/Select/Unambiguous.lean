/-
# Unambiguous SQL

The SQL of an expression tells the expression, whatever characters its column names and strings
have: two expressions have the same text exactly if they differ in nothing but the grouping of
their chains of one connective, in membership tests with one value against equalities, and in truth
values against the numbers 1 and 0 (`Expr.Alike`).  No name and no string can leave its quotes and
be taken for a part of the expression around it.

* `Expr.Alike.sameText`: alike expressions have the same text;
* `Expr.alike_standard`: an expression is alike to its standard form, which is what its text is
  read as;
* `Expr.sql_eq_iff_alike`: hence the text determines the expression.
-/
import EntityQuery.Proofs.Select.Reading

namespace EntityQuery.Expr

open Sql

/-- Expressions that differ only in the grouping of chains of a connective, in membership tests
with one value against equalities, and in truth values against numbers. -/
inductive Alike : Expr → Expr → Prop where
  | refl (e : Expr) : Alike e e
  | symm {e e' : Expr} : Alike e e' → Alike e' e
  | trans {e e' e'' : Expr} : Alike e e' → Alike e' e'' → Alike e e''
  | assoc {op : Op} (hop : op.isConnective = true) (a b c : Expr) :
    Alike (binary op (binary op a b) c) (binary op a (binary op b c))
  | oneValue (e : Expr) (v : Value) : Alike (inList e [v]) (binary .eq e (literal v))
  | literal {v v' : Value} : v.numeral = v'.numeral → Alike (literal v) (literal v')
  | binary (op : Op) {l l' r r' : Expr} :
    Alike l l' → Alike r r' → Alike (binary op l r) (binary op l' r')
  | not {e e' : Expr} : Alike e e' → Alike (not e) (not e')
  | isNull {e e' : Expr} : Alike e e' → Alike (isNull e) (isNull e')
  | isNotNull {e e' : Expr} : Alike e e' → Alike (isNotNull e) (isNotNull e')
  | inList {e e' : Expr} {values values' : List Value} : Alike e e' →
    values.map Value.numeral = values'.map Value.numeral →
    Alike (inList e values) (inList e' values')
  | caseWhen {c c' r r' : Expr} :
    Alike c c' → Alike r r' → Alike (caseWhen c r) (caseWhen c' r')

/-! ## Alike expressions have the same text -/

/-- Expressions with the same text, also as operands. -/
structure SameText (item : String) (e e' : Expr) : Prop where
  sql_eq : e.sql item = e'.sql item
  isSqlAtom_eq : e.isSqlAtom = e'.isSqlAtom
  bareUnder_eq : ∀ op, e.bareUnder op = e'.bareUnder op
  bareInNullTest_eq : e.bareInNullTest = e'.bareInNullTest

/-- The text of a membership test from the texts of its parts. -/
def membershipSql (operand : String) : List String → String
  | [value] => operand ++ " = " ++ value
  | values => operand ++ " IN (" ++ String.intercalate "," values ++ ")"

/-- A membership test is written by its operand and its values. -/
theorem sql_inList (item : String) (e : Expr) (values : List Value) :
    (inList e values).sql item = membershipSql (e.operandSql item) (values.map Value.sql) := by
  rcases values with _ | ⟨v, _ | ⟨w, vs⟩⟩ <;> rfl

theorem map_sql_numeral (values : List Value) :
    (values.map Value.numeral).map Value.sql = values.map Value.sql := by
  rw [List.map_map]
  exact List.map_congr_left fun v _ => v.sql_numeral

/-- Like expressions have the same text. -/
theorem Alike.sameText {e e' : Expr} (h : Alike e e') (item : String) : SameText item e e' := by
  induction h with
  | refl e => exact ⟨rfl, rfl, fun _ => rfl, rfl⟩
  | symm _ ih =>
    exact ⟨ih.sql_eq.symm, ih.isSqlAtom_eq.symm, fun op => (ih.bareUnder_eq op).symm,
      ih.bareInNullTest_eq.symm⟩
  | trans _ _ ih ih' =>
    exact ⟨ih.sql_eq.trans ih'.sql_eq, ih.isSqlAtom_eq.trans ih'.isSqlAtom_eq,
      fun op => (ih.bareUnder_eq op).trans (ih'.bareUnder_eq op),
      ih.bareInNullTest_eq.trans ih'.bareInNullTest_eq⟩
  | @assoc op hop a b c =>
    refine ⟨?_, rfl, fun _ => rfl, rfl⟩
    rw [sql_connective, chainSql_join hop, sql_connective, sql_connective, chainSql_join hop,
      sql_connective]
    simp only [String.append_assoc]
  | oneValue e v =>
    refine ⟨sql_inList_singleton item e v, rfl, fun op => ?_, rfl⟩
    cases op <;> rfl
  | @literal v v' hv =>
    refine ⟨?_, rfl, fun _ => rfl, rfl⟩
    rw [sql, sql, ← v.sql_numeral, hv, v'.sql_numeral]
  | binary op _ _ ihl ihr =>
    refine ⟨?_, rfl, fun _ => rfl, rfl⟩
    rw [sql, sql, ihl.sql_eq, ihr.sql_eq, ihl.bareUnder_eq, ihr.bareUnder_eq]
  | not _ ih =>
    refine ⟨?_, rfl, fun _ => rfl, rfl⟩
    rw [sql, sql, ih.sql_eq, ih.isSqlAtom_eq]
  | isNull _ ih =>
    refine ⟨?_, rfl, fun _ => rfl, rfl⟩
    rw [sql, sql, ih.sql_eq, ih.bareInNullTest_eq]
  | isNotNull _ ih =>
    refine ⟨?_, rfl, fun _ => rfl, rfl⟩
    rw [sql, sql, ih.sql_eq, ih.bareInNullTest_eq]
  | @inList e e' values values' _ hvalues ih =>
    refine ⟨?_, rfl, fun _ => rfl, rfl⟩
    rw [sql_inList, sql_inList, operandSql, operandSql, ih.sql_eq, ih.isSqlAtom_eq,
      ← map_sql_numeral values, hvalues, map_sql_numeral]
  | caseWhen _ _ ihc ihr =>
    refine ⟨?_, rfl, fun _ => rfl, rfl⟩
    rw [sql, sql, ihc.sql_eq, ihr.sql_eq, ihr.isSqlAtom_eq]

/-! ## The standard form is alike -/

/-- A chain grouped to the right. -/
theorem alike_foldr_chain {op : Op} (hop : op.isConnective = true) (l r : Expr) :
    Alike (binary op l r) ((l.chain op).foldr (binary op) r) := by
  induction l using chainInduction op generalizing r with
  | join a b iha ihb =>
    rw [chain_binary, List.foldr_append]
    have hregroup : Alike (binary op (binary op a b) r) (binary op a (binary op b r)) :=
      .assoc hop a b r
    have hinner : Alike (binary op a (binary op b r))
        (binary op a ((b.chain op).foldr (binary op) r)) := .binary op (.refl a) (ihb r)
    exact (hregroup.trans hinner).trans (iha _)
  | single e he =>
    rw [he]
    exact .refl _

/-- An expression is like its standard form. -/
theorem alike_standard (e : Expr) : Alike e e.standard := by
  induction e with
  | column name => exact .refl _
  | literal v =>
    exact .literal v.numeral_numeral.symm
  | binary op l r ihl ihr =>
    cases hop : op.isConnective with
    | true =>
      rw [standard_connective hop]
      exact (Alike.binary op ihl ihr).trans (alike_foldr_chain hop _ _)
    | false =>
      rw [standard_binary hop]
      exact .binary op ihl ihr
  | not e ih => exact .not ih
  | isNull e ih => exact .isNull ih
  | isNotNull e ih => exact .isNotNull ih
  | inList e values ih =>
    have hvalues : values.map Value.numeral = (values.map Value.numeral).map Value.numeral := by
      rw [List.map_map]
      exact List.map_congr_left fun v _ => v.numeral_numeral.symm
    rcases values with _ | ⟨v, _ | ⟨w, vs⟩⟩
    · exact .inList ih hvalues
    · exact (Alike.oneValue e v).trans (.binary .eq ih (.literal v.numeral_numeral.symm))
    · exact .inList ih hvalues
  | caseWhen c r ihc ihr => exact .caseWhen ihc ihr

/-- **The SQL of an expression tells the expression**, up to what the text cannot show: the
grouping of chains of a connective, a membership test with one value against an equality, and a
truth value against a number. -/
theorem sql_eq_iff_alike (item : String) (e₁ e₂ : Expr) :
    e₁.sql item = e₂.sql item ↔ e₁.Alike e₂ := by
  constructor
  · intro hsql
    -- one reader reads both texts, so the standard forms are equal
    have hread₁ := read_sql item (Nat.le_max_left e₁.size e₂.size)
    have hread₂ := read_sql item (Nat.le_max_right e₁.size e₂.size)
    rw [hsql, hread₂] at hread₁
    have hstandard : e₂.standard = e₁.standard := congrArg Prod.fst (Option.some.inj hread₁)
    have hback : Alike e₂.standard e₂ := e₂.alike_standard.symm
    rw [hstandard] at hback
    exact e₁.alike_standard.trans hback
  · intro halike
    exact (halike.sameText item).sql_eq

-- a column name that spells an equality is not taken for one
example : (column "a] = [T].[b").sql "T" ≠ (binary .eq (column "a") (column "b")).sql "T" := by
  decide

end EntityQuery.Expr
