/-
# Chains of one operator

The operands that one operator joins, however the joins are grouped, are the chain of an
expression (`Expr.chain`).  A fact about chains follows from two cases: the expression is a join of
two chains, or it is the only operand of its own.
-/
import EntityQuery.Expr.Basic

namespace EntityQuery.Expr

variable {op : Op} {e : Expr}

theorem chain_binary (op : Op) (l r : Expr) :
    (binary op l r).chain op = l.chain op ++ r.chain op := by
  simp [chain]

theorem chain_binary_of_ne {op inner : Op} (h : inner ≠ op) (l r : Expr) :
    (binary inner l r).chain op = [binary inner l r] := by
  simp [chain, h]

/-- Induction over chains: an expression joins two chains or is its own only operand. -/
@[elab_as_elim]
theorem chainInduction (op : Op) {motive : Expr → Prop} (e : Expr)
    (join : ∀ l r, motive l → motive r → motive (binary op l r))
    (single : ∀ e, e.chain op = [e] → motive e) : motive e := by
  induction e with
  | binary inner l r ihl ihr =>
    by_cases hop : inner = op
    · subst hop
      exact join l r ihl ihr
    · exact single (binary inner l r) (chain_binary_of_ne hop l r)
  | column | literal | not | isNull | isNotNull | inList | caseWhen => exact single _ rfl

theorem chain_ne_nil (op : Op) (e : Expr) : e.chain op ≠ [] := by
  induction e using chainInduction op with
  | join l r ihl _ =>
    rw [chain_binary]
    exact List.append_ne_nil_of_left_ne_nil ihl _
  | single e he =>
    rw [he]
    exact List.cons_ne_nil _ _

/-- A join has at least two operands. -/
theorem chain_binary_ne_singleton (op : Op) (l r e : Expr) : (binary op l r).chain op ≠ [e] := by
  intro h
  have hl := List.length_pos_iff.mpr (l.chain_ne_nil op)
  have hr := List.length_pos_iff.mpr (r.chain_ne_nil op)
  have hlength := congrArg List.length h
  rw [chain_binary, List.length_append, List.length_singleton] at hlength
  omega

/-- The operands of a chain have no longer chain of their own. -/
theorem chain_of_mem_chain {d : Expr} (h : d ∈ e.chain op) : d.chain op = [d] := by
  induction e using chainInduction op with
  | join l r ihl ihr =>
    rw [chain_binary] at h
    exact (List.mem_append.mp h).elim ihl ihr
  | single e he =>
    rw [he] at h
    rw [List.mem_singleton.mp h, he]

/-- Operands joined from the right: their chains follow one another. -/
theorem chain_foldr (op : Op) (last : Expr) (es : List Expr) :
    (es.foldr (binary op) last).chain op = es.flatMap (chain op) ++ last.chain op := by
  induction es with
  | nil => rfl
  | cons e es ih =>
    rw [List.foldr_cons, chain_binary, ih, List.flatMap_cons, List.append_assoc]

/-- Joining the operands of a chain with one more operand makes the chain longer by its chain. -/
theorem chain_foldr_chain (op : Op) (last e : Expr) :
    ((e.chain op).foldr (binary op) last).chain op = e.chain op ++ last.chain op := by
  have hself : (e.chain op).flatMap (chain op) = (e.chain op).flatMap fun d => [d] := by
    rw [List.flatMap_def, List.flatMap_def,
      List.map_congr_left fun d hd => chain_of_mem_chain hd]
  rw [chain_foldr, hself, List.flatMap_singleton']

end EntityQuery.Expr
