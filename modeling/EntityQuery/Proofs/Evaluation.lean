/-
# The value of an expression

Expressions are evaluated over one row the way a database engine does it: a comparison with a null
is unknown, connectives follow three-valued logic, and a filter keeps a row only where its
predicate is true.  Under `NullMode.host` comparisons, and nothing else, follow the host language
instead and are never unknown.

What differs between engines is kept as a parameter: `Engine` holds the arithmetic and the order of
values (a collation, nulls first or last), of which only the order laws are used.

* `Expr.eval_congr`: the value depends on the referenced columns only.
* `Expr.eval_substitute`: replacing columns by expressions is evaluating over the row of their
  values.
* `Expr.holds_and`, `Expr.holds_iff_conjuncts`: a conjunction holds where its parts do.
-/
import EntityQuery.Nulls

namespace EntityQuery

/-! ## Three-valued logic -/

/-- A truth value of three-valued logic. -/
inductive Truth where
  | holds
  | fails
  | unknown
deriving DecidableEq, Repr, Inhabited

namespace Truth

/-- The truth value of a decided question. -/
def ofBool : Bool → Truth
  | true => holds
  | false => fails

/-- Conjunction: false as soon as one side is. -/
def and : Truth → Truth → Truth
  | fails, _ => fails
  | _, fails => fails
  | holds, holds => holds
  | _, _ => unknown

/-- Disjunction: true as soon as one side is. -/
def or : Truth → Truth → Truth
  | holds, _ => holds
  | _, holds => holds
  | fails, fails => fails
  | _, _ => unknown

/-- Negation, which leaves unknown alone. -/
def not : Truth → Truth
  | holds => fails
  | fails => holds
  | unknown => unknown

/-- The truth value as a value. -/
def value : Truth → Value
  | holds => .bool true
  | fails => .bool false
  | unknown => .null

/-- A conjunction holds where both parts do. -/
theorem and_eq_holds {s t : Truth} : s.and t = holds ↔ s = holds ∧ t = holds := by
  cases s <;> cases t <;> decide

theorem or_eq_holds {s t : Truth} : s.or t = holds ↔ s = holds ∨ t = holds := by
  cases s <;> cases t <;> decide

theorem and_eq_fails {s t : Truth} : s.and t = fails ↔ s = fails ∨ t = fails := by
  cases s <;> cases t <;> decide

theorem or_eq_fails {s t : Truth} : s.or t = fails ↔ s = fails ∧ t = fails := by
  cases s <;> cases t <;> decide

/-- A negation holds where its operand fails, and not where that is unknown. -/
theorem not_eq_holds {t : Truth} : t.not = holds ↔ t = fails := by
  cases t <;> decide

theorem not_eq_fails {t : Truth} : t.not = fails ↔ t = holds := by
  cases t <;> decide

@[simp] theorem ofBool_eq_holds {b : Bool} : ofBool b = holds ↔ b = true := by
  cases b <;> decide

end Truth

/-- The truth value of a value; only the booleans decide anything. -/
def Value.truth : Value → Truth
  | bool true => .holds
  | bool false => .fails
  | _ => .unknown

@[simp] theorem Truth.truth_value (t : Truth) : t.value.truth = t := by
  cases t <;> rfl

@[simp] theorem Value.truth_bool (b : Bool) : (Value.bool b).truth = Truth.ofBool b := by
  cases b <;> rfl

/-! ## Engines -/

/-- What is left to the database engine: its arithmetic, and the order of its values, which is
total up to ties and agrees with the numbers on integers. -/
structure Engine where
  arithmetic : Op → Value → Value → Value
  order : Value → Value → Ordering
  order_trans : Std.TransCmp order
  order_int : ∀ m n : Int64, order (.int m) (.int n) = compare m.toInt n.toInt

/-- Where the standard engine sorts a value: first by kind, then by number, then by text. -/
def Value.position : Value → Nat × Int × String
  | null => (0, 0, "")
  | bool b => (1, b.toNat, "")
  | int n => (2, n.toInt, "")
  | string s => (3, 0, s)

/-- The standard engine: wrapping 64-bit arithmetic with null for what has no value, and nulls
sorted first, then booleans, numbers and strings. -/
def Engine.standard : Engine where
  arithmetic
    | .add, .int m, .int n => .int (m + n)
    | .sub, .int m, .int n => .int (m - n)
    | .mul, .int m, .int n => .int (m * n)
    | .div, .int m, .int n => if n = 0 then .null else .int (m / n)
    | .mod, .int m, .int n => if n = 0 then .null else .int (m % n)
    | _, _, _ => .null
  order := compareLex (compareOn (·.position.1))
    (compareLex (compareOn (·.position.2.1)) (compareOn (·.position.2.2)))
  order_trans := inferInstance
  order_int m n := by
    show (compare 2 2).then ((compare m.toInt n.toInt).then (compare "" "")) = _
    simp

instance : Inhabited Engine := ⟨Engine.standard⟩

/-- Whether a comparison accepts the order of its operands. -/
def Op.accepts : Op → Ordering → Bool
  | eq, o => o.isEq
  | ne, o => o.isNe
  | lt, o => o.isLT
  | le, o => o.isLE
  | gt, o => o.isGT
  | ge, o => o.isGE
  | _, _ => false

/-- What a comparison answers in the host language when an operand is null: two nulls are equal, a
null differs from every value, and no order holds. -/
def Op.acceptsNulls : Op → (leftNull rightNull : Bool) → Bool
  | eq, l, r => l && r
  | ne, l, r => l != r
  | _, _, _ => false

namespace Engine

variable (engine : Engine)

/-- The answer of a comparison. -/
def comparison (mode : NullMode) (op : Op) (l r : Value) : Truth :=
  if l.isNull || r.isNull then
    match mode with
    | .host => .ofBool (op.acceptsNulls l.isNull r.isNull)
    | .native => .unknown
  else .ofBool (op.accepts (engine.order l r))

/-- Whether a value is in a list: the disjunction of the single equalities. -/
def member (v : Value) (values : List Value) : Truth :=
  values.foldr (fun w t => (engine.comparison .native .eq v w).or t) .fails

/-- The value of a binary operator. -/
def binary (mode : NullMode) (op : Op) (l r : Value) : Value :=
  match op with
  | .and => (l.truth.and r.truth).value
  | .or => (l.truth.or r.truth).value
  | .eq | .ne | .lt | .le | .gt | .ge => (engine.comparison mode op l r).value
  | .add | .sub | .mul | .div | .mod => engine.arithmetic op l r

end Engine

/-! ## Evaluation -/

/-- The values of the columns of one row; a column that the row does not have is null. -/
abbrev Row := String → Value

namespace Expr

/-- The value of an expression over a row. -/
def eval (engine : Engine) (mode : NullMode) (row : Row) : Expr → Value
  | column name => row name
  | literal v => v
  | binary op l r => engine.binary mode op (l.eval engine mode row) (r.eval engine mode row)
  | not e => (e.eval engine mode row).truth.not.value
  | isNull e => .bool (e.eval engine mode row).isNull
  | isNotNull e => .bool !(e.eval engine mode row).isNull
  | inList e values => (engine.member (e.eval engine mode row) values).value
  | caseWhen c r =>
    if (c.eval engine mode row).truth = .holds then r.eval engine mode row else .null

/-- The truth value of a predicate over a row. -/
def truth (engine : Engine) (mode : NullMode) (row : Row) (e : Expr) : Truth :=
  (e.eval engine mode row).truth

/-- Whether a filter by the predicate keeps the row. -/
def holds (engine : Engine) (mode : NullMode) (row : Row) (e : Expr) : Bool :=
  e.truth engine mode row = .holds

section

variable {engine : Engine} {mode : NullMode} {row : Row}

@[simp] theorem truth_and (l r : Expr) :
    (binary .and l r).truth engine mode row =
      (l.truth engine mode row).and (r.truth engine mode row) := by
  simp [truth, eval, Engine.binary]

@[simp] theorem truth_or (l r : Expr) :
    (binary .or l r).truth engine mode row =
      (l.truth engine mode row).or (r.truth engine mode row) := by
  simp [truth, eval, Engine.binary]

@[simp] theorem truth_not (e : Expr) :
    (not e).truth engine mode row = (e.truth engine mode row).not := by
  simp [truth, eval]

@[simp] theorem holds_and (l r : Expr) :
    (binary .and l r).holds engine mode row =
      (l.holds engine mode row && r.holds engine mode row) := by
  simp [holds, Truth.and_eq_holds]

/-- The value of an expression depends on the columns it reads only. -/
theorem eval_congr {a b : Row} {e : Expr} (h : ∀ c ∈ e.references, a c = b c) :
    e.eval engine mode a = e.eval engine mode b := by
  induction e with
  | column name => exact h name (by simp [references])
  | literal v => rfl
  | binary op l r ihl ihr =>
    simp only [references, List.mem_append] at h
    simp only [eval]
    rw [ihl (fun c hc => h c (Or.inl hc)), ihr (fun c hc => h c (Or.inr hc))]
  | not e ih | isNull e ih | isNotNull e ih | inList e values ih =>
    simp only [references] at h
    simp only [eval]
    rw [ih h]
  | caseWhen c r ihc ihr =>
    simp only [references, List.mem_append] at h
    simp only [eval]
    rw [ihc (fun c hc => h c (Or.inl hc)), ihr (fun c hc => h c (Or.inr hc))]

/-- Replacing the columns of an expression is evaluating it over the row of the replacements'
values. -/
theorem eval_substitute (f : String → Expr) (e : Expr) :
    (e.substitute f).eval engine mode row =
      e.eval engine mode (fun name => (f name).eval engine mode row) := by
  induction e with
  | column name => rfl
  | literal v => rfl
  | binary op l r ihl ihr => simp only [substitute, eval, ihl, ihr]
  | not e ih | isNull e ih | isNotNull e ih | inList e values ih => simp only [substitute, eval, ih]
  | caseWhen c r ihc ihr => simp only [substitute, eval, ihc, ihr]

/-- The columns that a replaced expression reads are read by the replacements. -/
theorem mem_references_substitute {f : String → Expr} {e : Expr} {name : String} :
    name ∈ (e.substitute f).references ↔ ∃ c ∈ e.references, name ∈ (f c).references := by
  induction e with
  | column c => simp [substitute, references]
  | literal v => simp [substitute, references]
  | binary op l r ihl ihr =>
    simp only [substitute, references, List.mem_append, ihl, ihr, or_and_right, exists_or]
  | not e ih | isNull e ih | isNotNull e ih | inList e values ih =>
    simp only [substitute, references, ih]
  | caseWhen c r ihc ihr =>
    simp only [substitute, references, List.mem_append, ihc, ihr, or_and_right, exists_or]

/-- A predicate holds where all its conjuncts do. -/
theorem holds_iff_conjuncts (e : Expr) :
    e.holds engine mode row ↔ ∀ c ∈ e.conjuncts, c.holds engine mode row := by
  induction e with
  | binary op l r ihl ihr =>
    by_cases hop : op = .and
    · subst hop
      simp only [conjuncts, chain, if_true, List.mem_append, or_imp, forall_and, holds_and,
        Bool.and_eq_true]
      rw [ihl, ihr]
    · simp [conjuncts, chain, hop]
  | column | literal | not | isNull | isNotNull | inList | caseWhen => simp [conjuncts, chain]

/-- A joined list of conjuncts holds where the first part and every further one do. -/
theorem holds_foldl_and (es : List Expr) (e : Expr) :
    (es.foldl (binary .and) e).holds engine mode row ↔
      e.holds engine mode row ∧ ∀ c ∈ es, c.holds engine mode row := by
  induction es generalizing e with
  | nil => simp
  | cons c es ih =>
    rw [List.foldl_cons, ih, holds_and, Bool.and_eq_true, List.forall_mem_cons, and_assoc]

end

/-- Joined expressions read the columns of the parts. -/
theorem references_foldl_subset {op : Op} {names : List String} {es : List Expr} {e : Expr}
    (he : e.references ⊆ names) (hes : ∀ c ∈ es, c.references ⊆ names) :
    (es.foldl (binary op) e).references ⊆ names := by
  induction es generalizing e with
  | nil => exact he
  | cons c es ih =>
    refine ih ?_ (fun d hd => hes d (List.mem_cons_of_mem c hd))
    exact List.append_subset.mpr ⟨he, hes c List.mem_cons_self⟩

end Expr

end EntityQuery
