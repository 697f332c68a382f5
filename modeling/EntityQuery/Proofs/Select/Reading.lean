/-
# Reading SQL expressions

The SQL of an expression is written with few brackets: atoms and chains of one connective have
none, and neither has arithmetic under a null test.  This file reads the text back, in a grammar of
two levels.  An operand is a value, a column, a bracketed expression or a CASE; an expression is a
negated operand, or an operand and what follows it.

What is read is the standard form of the expression that was written (`Expr.standard`): chains of a
connective are grouped to the right, a membership test with one value is an equality, and truth
values are numbers, since the text shows no more than that.

* `Sql.readChain_sql`: a chain of one connective is read as its standard form;
* `Sql.readExpr_sql`: so is every expression in front of a closing bracket, if its operands are;
* `Sql.readOperand_sql`: so is every operand in front of what can follow one;
* `Sql.read_sql`: hence so is the whole text of an expression.
-/
import EntityQuery.Proofs.Chains
import EntityQuery.Proofs.Tokens
import EntityQuery.Select.Sql
import Mathlib.Data.List.Basic

namespace EntityQuery

open Text

namespace Sql

/-- What can follow an operand. -/
inductive Link where
  | op (op : Op)
  | nullTest (negated : Bool)
  | membership

/-- The text between an operand and the next one or the end. -/
def Link.sql : Link → String
  | op o => " " ++ o.sql ++ " "
  | nullTest true => " IS NOT NULL"
  | nullTest false => " IS NULL"
  | membership => " IN ("

end Sql

open Sql

/-! ## The standard form -/

/-- A truth value as the number it is written as. -/
def Value.numeral : Value → Value
  | bool b => int (if b then 1 else 0)
  | v => v

theorem Value.numeral_numeral (v : Value) : v.numeral.numeral = v.numeral := by
  cases v <;> rfl

/-- A truth value is written as its numeral, so nothing is lost in the text. -/
theorem Value.sql_numeral (v : Value) : v.numeral.sql = v.sql := by
  cases v with
  | bool b => cases b <;> decide
  | null | int | string => rfl

namespace Expr

/-- A null test, which may be negated. -/
def nullTest (negated : Bool) (e : Expr) : Expr :=
  if negated then isNotNull e else isNull e

/-- The standard form: chains of a connective are grouped to the right, a membership test with one
value is an equality, and truth values are numbers. -/
def standard : Expr → Expr
  | column name => column name
  | literal v => literal v.numeral
  | binary op l r =>
    if op.isConnective then (l.standard.chain op).foldr (binary op) r.standard
    else binary op l.standard r.standard
  | not e => not e.standard
  | isNull e => isNull e.standard
  | isNotNull e => isNotNull e.standard
  | inList e [v] => binary .eq e.standard (literal v.numeral)
  | inList e values => inList e.standard (values.map Value.numeral)
  | caseWhen c r => caseWhen c.standard r.standard

/-- In standard form a chain of connectives is grouped to the right. -/
theorem standard_connective {op : Op} (hop : op.isConnective = true) (l r : Expr) :
    (binary op l r).standard = (l.standard.chain op).foldr (binary op) r.standard := by
  rw [standard, if_pos hop]

theorem standard_binary {op : Op} (hop : op.isConnective = false) (l r : Expr) :
    (binary op l r).standard = binary op l.standard r.standard := by
  rw [standard, hop]
  rfl

theorem standard_nullTest (negated : Bool) (e : Expr) :
    (nullTest negated e).standard = nullTest negated e.standard := by
  cases negated <;> rfl

/-- What is no join of a connective is none in standard form. -/
theorem chain_standard_of_single {op : Op} (hop : op.isConnective = true) {e : Expr}
    (he : e.chain op = [e]) : e.standard.chain op = [e.standard] := by
  cases e with
  | binary inner l r =>
    have hinner : inner ≠ op := by
      rintro rfl
      exact chain_binary_ne_singleton inner l r _ he
    cases hconnective : inner.isConnective with
    | true =>
      obtain ⟨d, ds, hds⟩ := List.exists_cons_of_ne_nil (l.standard.chain_ne_nil inner)
      rw [standard_connective hconnective, hds, List.foldr_cons]
      exact chain_binary_of_ne hinner d _
    | false =>
      rw [standard_binary hconnective]
      exact chain_binary_of_ne hinner _ _
  | inList e values =>
    have heq : Op.eq ≠ op := by
      rintro rfl
      cases hop
    rcases values with _ | ⟨v, _ | ⟨w, vs⟩⟩
    · rfl
    · exact chain_binary_of_ne heq _ _
    · rfl
  | column | literal | not | isNull | isNotNull | caseWhen => rfl

/-! ## The text of operands -/

/-- The text of an expression as an operand. -/
def operandSql (item : String) (e : Expr) : String :=
  bracketed e.isSqlAtom (e.sql item)

/-- The text of an expression as an operand of a chain. -/
def chainSql (op : Op) (item : String) (e : Expr) : String :=
  bracketed (e.bareUnder op) (e.sql item)

/-- Only chains of connectives go without brackets. -/
theorem bareUnder_of_not_connective {op : Op} (hop : op.isConnective = false) (e : Expr) :
    e.bareUnder op = e.isSqlAtom := by
  cases e with
  | binary => simp [bareUnder, isSqlAtom, hop]
  | column | literal | not | isNull | isNotNull | inList | caseWhen => rfl

/-- A chain of one member is written like an operand. -/
theorem chainSql_of_single {op : Op} {e : Expr} (he : e.chain op = [e]) (item : String) :
    e.chainSql op item = e.operandSql item := by
  cases e with
  | binary inner l r =>
    have hinner : inner ≠ op := by
      rintro rfl
      exact chain_binary_ne_singleton inner l r _ he
    simp [chainSql, operandSql, bareUnder, isSqlAtom, hinner]
  | column | literal | not | isNull | isNotNull | inList | caseWhen => rfl

/-- A member that is a chain of the same connective goes without brackets. -/
theorem chainSql_join {op : Op} (hop : op.isConnective = true) (item : String) (l r : Expr) :
    (binary op l r).chainSql op item = (binary op l r).sql item := by
  simp [chainSql, bareUnder, bracketed, hop]

/-- The text of two operands under an operator, whichever it is. -/
theorem sql_connective {op : Op} (item : String) (l r : Expr) :
    (binary op l r).sql item =
      l.chainSql op item ++ (Link.op op).sql ++ r.chainSql op item := by
  simp only [sql, chainSql, Link.sql, String.append_assoc]

/-- Operands of other operators than connectives are bracketed unless they are atoms. -/
theorem sql_binary {op : Op} (hop : op.isConnective = false) (item : String) (l r : Expr) :
    (binary op l r).sql item = l.operandSql item ++ (Link.op op).sql ++ r.operandSql item := by
  simp only [sql, operandSql, Link.sql, String.append_assoc, bareUnder_of_not_connective hop]

/-- A membership test with one value is written as an equality. -/
theorem sql_inList_singleton (item : String) (e : Expr) (v : Value) :
    (inList e [v]).sql item = (binary .eq e (literal v)).sql item := by
  rw [sql_binary rfl, show (Link.op .eq).sql = " = " by decide]
  rfl

/-- Under a null test only arithmetic is written without the brackets of an operand. -/
theorem bareInNullTest_cases (e : Expr) :
    (∃ op l r, e = binary op l r ∧ op.isArithmetic = true) ∨ e.bareInNullTest = e.isSqlAtom := by
  cases e with
  | binary op l r =>
    cases hop : op.isArithmetic with
    | true => exact .inl ⟨op, l, r, rfl, hop⟩
    | false => exact .inr hop
  | column | literal | not | isNull | isNotNull | inList | caseWhen => exact .inr rfl

/-- The number of operators, tokens and listed values of an expression. -/
def size : Expr → Nat
  | column _ | literal _ => 1
  | binary _ l r | caseWhen l r => l.size + r.size + 1
  | not e | isNull e | isNotNull e => e.size + 1
  | inList e values => e.size + values.length + 1

theorem size_pos (e : Expr) : 0 < e.size := by
  cases e <;> simp [size]

/-- Members of a chain are not larger than the chain. -/
theorem size_le_of_mem_chain {op : Op} {e d : Expr} (h : d ∈ e.chain op) : d.size ≤ e.size := by
  induction e using chainInduction op with
  | join l r ihl ihr =>
    rw [chain_binary] at h
    rw [size]
    rcases List.mem_append.mp h with h | h
    · have := ihl h
      omega
    · have := ihr h
      omega
  | single e he =>
    rw [he] at h
    exact Nat.le_of_eq (congrArg size (List.mem_singleton.mp h))

/-- A chain has no more members than its size. -/
theorem length_chain_le_size (op : Op) (e : Expr) : (e.chain op).length ≤ e.size := by
  induction e using chainInduction op with
  | join l r ihl ihr =>
    rw [chain_binary, List.length_append, size]
    omega
  | single e he =>
    rw [he]
    cases e <;> simp [size]

end Expr

/-! ## Readers -/

namespace Sql

/-- All that can follow an operand; no text of it starts with the text of another. -/
def links : List Link :=
  [.op .add, .op .sub, .op .mul, .op .div, .op .mod, .op .eq, .op .ne, .op .lt, .op .le, .op .gt,
    .op .ge, .op .and, .op .or, .nullTest true, .nullTest false, .membership]

/-- A link between operands, or nothing. -/
def readLink : Reader Link := fun cs =>
  links.findSome? fun link => (cs.dropPrefix? link.sql.toList).map (link, ·)

/-- A name in square brackets, where closing brackets are doubled. -/
def readIdentifier : Reader String
  | '[' :: cs => (quotedContent ']' cs).map (Prod.map String.ofList id)
  | _ => none

/-- A column; the alias in front of it is not kept. -/
def readColumn : Reader Expr := fun cs => do
  let (_, cs) ← readIdentifier cs
  let cs ← cs.dropPrefix? ['.']
  let (name, cs) ← readIdentifier cs
  some (.column name, cs)

/-- A value: a number, a string with its mark for national characters, or null. -/
def readValue : Reader Value := fun cs =>
  match Pipeline.integer cs with
  | .read n cs => some (.int n, cs)
  | _ =>
    match cs with
    | 'N' :: '\'' :: cs => (quotedContent '\'' cs).map (Prod.map (Value.string ∘ String.ofList) id)
    | 'N' :: 'U' :: 'L' :: 'L' :: cs => some (.null, cs)
    | _ => none

/-- At most `limit` values up to the bracket that closes their list. -/
def readValues : (limit : Nat) → Reader (List Value)
  | 0, cs => (cs.dropPrefix? [')']).map ([], ·)
  | limit + 1, cs =>
    match readValue cs with
    | none => (cs.dropPrefix? [')']).map ([], ·)
    | some (v, ',' :: cs) => (readValues limit cs).map (Prod.map (v :: ·) id)
    | some (v, cs) => (cs.dropPrefix? [')']).map ([v], ·)

section

variable (operand : Reader Expr)

/-- At most `limit` operands joined by one connective, grouped to the right. -/
def readChain (op : Op) : (limit : Nat) → Reader Expr
  | 0, _ => none
  | limit + 1, cs => do
    let (l, cs) ← operand cs
    match cs.dropPrefix? (Link.op op).sql.toList with
    | some cs =>
      let (r, cs) ← readChain op limit cs
      some (.binary op l r, cs)
    | none => some (l, cs)

/-- Goes on with a null test of what was read, if there is one. -/
def readNullTest (e : Expr) (cs : List Char) : Expr × List Char :=
  match readLink cs with
  | some (.nullTest negated, cs) => (e.nullTest negated, cs)
  | _ => (e, cs)

/-- An expression whose operands are read by `operand`; chains and lists of values are read up to
`limit`. -/
def readExpr (limit : Nat) : Reader Expr := fun cs =>
  match operand cs with
  | none => do
    let cs ← cs.dropPrefix? "NOT ".toList
    let (e, cs) ← operand cs
    some (.not e, cs)
  | some (l, cs) =>
    match readLink cs with
    | none => some (l, cs)
    | some (.nullTest negated, cs) => some (l.nullTest negated, cs)
    | some (.membership, cs) => do
      let (values, cs) ← readValues limit cs
      some (.inList l values, cs)
    | some (.op op, cs) =>
      if op.isConnective then do
        let (r, cs) ← readChain operand op limit cs
        some (.binary op l r, cs)
      else do
        let (r, cs) ← operand cs
        some (readNullTest (.binary op l r) cs)

end

/-- An operand with brackets and CASE nested less than `depth` deep. -/
def readOperand : (depth : Nat) → Reader Expr
  | 0, _ => none
  | depth + 1, cs =>
    match readValue cs with
    | some (v, cs) => some (.literal v, cs)
    | none =>
      match cs with
      | '[' :: _ => readColumn cs
      | '(' :: cs => do
        let (e, cs) ← readExpr (readOperand depth) (depth + 1) cs
        let cs ← cs.dropPrefix? [')']
        some (e, cs)
      | cs => do
        let cs ← cs.dropPrefix? "CASE WHEN (".toList
        let (c, cs) ← readExpr (readOperand depth) (depth + 1) cs
        let cs ← cs.dropPrefix? ") THEN ".toList
        let (r, cs) ← readOperand depth cs
        let cs ← cs.dropPrefix? " END".toList
        some (.caseWhen c r, cs)

/-- An expression of size `limit` at most. -/
def read (limit : Nat) : Reader Expr :=
  readExpr (readOperand limit) limit

/-! ## What follows a piece of text -/

/-- The end of the text, or a character that no token goes on with. -/
def Ends (rest : List Char) : Prop := ∀ c ∈ rest.head?, c = ' ' ∨ c = ')' ∨ c = ','

/-- The end of the text, or a closing bracket. -/
def Closes (rest : List Char) : Prop := ∀ c ∈ rest.head?, c = ')'

variable {rest cs : List Char}

/-- Where an expression may end, an operand may. -/
theorem Closes.ends (h : Closes rest) : Ends rest := fun c hc => .inr (.inl (h c hc))

theorem Link.exists_toList_sql (link : Link) : ∃ tail, link.sql.toList = ' ' :: tail := by
  rcases link with op | ⟨_ | _⟩ | _ <;> simp [Link.sql]

theorem ends_link (link : Link) (cs : List Char) : Ends (link.sql.toList ++ cs) := by
  intro c hc
  obtain ⟨tail, htail⟩ := link.exists_toList_sql
  rw [htail] at hc
  exact .inl (Option.some.inj hc).symm

/-- No number goes on where an operand ends. -/
theorem Ends.not_digit (h : Ends rest) : ∀ c ∈ rest.head?, c.isDigit = false := by
  intro c hc
  rcases h c hc with rfl | rfl | rfl <;> decide

/-- No name and no string goes on where an operand ends. -/
theorem Ends.not_mark (h : Ends rest) {mark : Char} (hmark : mark = ']' ∨ mark = '\'') :
    mark ∉ rest.head? := by
  intro hc
  rcases hmark with rfl | rfl <;> rcases h _ hc with hc | hc | hc <;> cases hc

theorem dropPrefix_append (word cs : List Char) : (word ++ cs).dropPrefix? word = some cs :=
  List.dropPrefix?_append_of_beq cs BEq.rfl

/-- A link is read back: none is the beginning of another one. -/
theorem readLink_sql (link : Link) (cs : List Char) :
    readLink (link.sql.toList ++ cs) = some (link, cs) := by
  rcases link with op | ⟨_ | _⟩ | _
  · cases op <;> simp [readLink, links, Link.sql, Op.sql, Op.text, List.dropPrefix?]
  all_goals simp [readLink, links, Link.sql, Op.sql, Op.text, List.dropPrefix?]

/-- No link starts where an expression ends. -/
theorem dropPrefix_link_of_closes (h : Closes rest) (link : Link) :
    rest.dropPrefix? link.sql.toList = none := by
  obtain ⟨tail, htail⟩ := link.exists_toList_sql
  rw [htail]
  cases rest with
  | nil => rfl
  | cons c cs =>
    obtain rfl := h c rfl
    rfl

/-- Nothing links an expression to what stands behind its end. -/
theorem readLink_of_closes (h : Closes rest) : readLink rest = none := by
  rw [readLink, List.findSome?_eq_none_iff]
  intro link _
  rw [dropPrefix_link_of_closes h]
  rfl

/-! ## Tokens -/

/-- A name in brackets is read back. -/
theorem readIdentifier_identifier (name : String) (hrest : ']' ∉ rest.head?) :
    readIdentifier ((identifier name).toList ++ rest) = some (name, rest) := by
  have htext : (identifier name).toList ++ rest =
      '[' :: (doubledChars ']' name.toList ++ ']' :: rest) := by
    simp [identifier]
  rw [htext, readIdentifier, quotedContent_doubledChars _ _ hrest]
  simp

/-- A column is read back without the item that it is taken from. -/
theorem readColumn_sql (item name : String) (hrest : Ends rest) :
    readColumn (((Expr.column name).sql item).toList ++ rest) = some (.column name, rest) := by
  have htext : ((Expr.column name).sql item).toList ++ rest =
      (identifier item).toList ++ ('.' :: ((identifier name).toList ++ rest)) := by
    simp [Expr.sql]
  rw [htext, readColumn, readIdentifier_identifier item (by simp)]
  simp [List.dropPrefix?, readIdentifier_identifier name (hrest.not_mark (.inl rfl))]

theorem readValue_int (n : Int64) (hrest : Ends rest) :
    readValue ((Value.int n).sql.toList ++ rest) = some (.int n, rest) := by
  unfold readValue
  rw [Value.sql, Pipeline.integer_toString n hrest.not_digit]

theorem readValue_string (s : String) (hrest : Ends rest) :
    readValue ((Value.string s).sql.toList ++ rest) = some (.string s, rest) := by
  have htext : (Value.string s).sql.toList ++ rest =
      'N' :: '\'' :: (doubledChars '\'' s.toList ++ '\'' :: rest) := by
    simp [Value.sql]
  have hno : Pipeline.integer ('N' :: '\'' :: (doubledChars '\'' s.toList ++ '\'' :: rest)) =
      .refused ('N' :: '\'' :: (doubledChars '\'' s.toList ++ '\'' :: rest)) := rfl
  rw [htext, readValue, hno]
  simp [quotedContent_doubledChars _ _ (hrest.not_mark (.inr rfl))]

/-- A value is read back as its numeral. -/
theorem readValue_sql (v : Value) (hrest : Ends rest) :
    readValue (v.sql.toList ++ rest) = some (v.numeral, rest) := by
  rw [← v.sql_numeral]
  cases v with
  | null => rfl
  | bool b => exact readValue_int _ hrest
  | int n => exact readValue_int n hrest
  | string s => exact readValue_string s hrest

/-! ## Lists and chains -/

theorem ends_comma (cs : List Char) : Ends (',' :: cs) := by
  intro c hc
  exact .inr (.inr (Option.some.inj hc).symm)

theorem closes_bracket (cs : List Char) : Closes (')' :: cs) := by
  intro c hc
  exact (Option.some.inj hc).symm

/-- Values between commas are read back up to the closing bracket. -/
theorem readValues_sql (values : List Value) {limit : Nat} (hlimit : values.length ≤ limit)
    (rest : List Char) :
    readValues limit ((String.intercalate "," (values.map Value.sql)).toList ++ ')' :: rest) =
      some (values.map Value.numeral, rest) := by
  induction values generalizing limit with
  | nil =>
    have hno : readValue (')' :: rest) = none := rfl
    cases limit <;> simp [readValues, hno, List.dropPrefix?]
  | cons v vs ih =>
    obtain ⟨limit, rfl⟩ := Nat.exists_eq_add_one.mpr (Nat.lt_of_lt_of_le (Nat.succ_pos _) hlimit)
    cases vs with
    | nil =>
      have hread := readValue_sql v (closes_bracket rest).ends
      simp [readValues, hread, List.dropPrefix?]
    | cons w ws =>
      have hread := readValue_sql v
        (ends_comma ((String.intercalate "," ((w :: ws).map Value.sql)).toList ++ ')' :: rest))
      have hrest := ih (Nat.le_of_succ_le_succ hlimit)
      have htext : (String.intercalate "," ((v :: w :: ws).map Value.sql)).toList ++ ')' :: rest =
          v.sql.toList ++
            ',' :: ((String.intercalate "," ((w :: ws).map Value.sql)).toList ++ ')' :: rest) := by
        simp [String.intercalate_cons_cons]
      unfold readValues
      rw [htext, hread]
      simp only [hrest]
      rfl

variable {operand : Reader Expr} {item : String} {op : Op} {limit : Nat}

/-- The text of `e` as an operand is read as its standard form. -/
def ReadsBack (operand : Reader Expr) (item : String) (e : Expr) : Prop :=
  ∀ rest, Ends rest → operand ((e.operandSql item).toList ++ rest) = some (e.standard, rest)

/-- One operand more in front of a chain. -/
theorem readChain_cons {e r : Expr} (he : ReadsBack operand item e)
    (hnext : readChain operand op limit cs = some (r, rest)) :
    readChain operand op (limit + 1)
        ((e.operandSql item).toList ++ ((Link.op op).sql.toList ++ cs)) =
      some (.binary op e.standard r, rest) := by
  rw [readChain, he _ (ends_link _ cs)]
  simp [dropPrefix_append, hnext]

/-- The last operand of a chain. -/
theorem readChain_last {e : Expr} (he : ReadsBack operand item e) (hrest : Closes rest) :
    readChain operand op (limit + 1) ((e.operandSql item).toList ++ rest) =
      some (e.standard, rest) := by
  rw [readChain, he _ hrest.ends]
  simp [dropPrefix_link_of_closes hrest]

/-- The operands of `e` in front of a chain. -/
theorem readChain_append (hop : op.isConnective = true) {e r : Expr}
    (he : ∀ d ∈ e.chain op, ReadsBack operand item d) {least : Nat}
    (hnext : ∀ limit, least ≤ limit → readChain operand op limit cs = some (r, rest)) (limit : Nat)
    (hlimit : least + (e.chain op).length ≤ limit) :
    readChain operand op limit ((e.chainSql op item).toList ++ ((Link.op op).sql.toList ++ cs)) =
      some ((e.standard.chain op).foldr (.binary op) r, rest) := by
  induction e using Expr.chainInduction op generalizing cs r least limit with
  | join a b iha ihb =>
    rw [Expr.chain_binary, List.forall_mem_append] at he
    rw [Expr.chain_binary, List.length_append] at hlimit
    rw [Expr.chainSql_join hop, Expr.sql_connective, Expr.standard_connective hop,
      Expr.chain_foldr_chain, List.foldr_append]
    simp only [String.toList_append, List.append_assoc]
    -- what follows is arbitrary, so the operands of `b` count as what follows those of `a`
    exact iha he.1 (ihb he.2 hnext) limit (by omega)
  | single e hsingle =>
    rw [hsingle, List.length_singleton] at hlimit
    obtain ⟨limit, rfl⟩ := Nat.exists_eq_add_one.mpr (show 0 < limit by omega)
    rw [Expr.chainSql_of_single hsingle, Expr.chain_standard_of_single hop hsingle]
    exact readChain_cons (he e (hsingle ▸ List.mem_singleton_self e)) (hnext limit (by omega))

/-- **A chain is read as its standard form.** -/
theorem readChain_sql (hop : op.isConnective = true) {e : Expr}
    (he : ∀ d ∈ e.chain op, ReadsBack operand item d) (hrest : Closes rest) (limit : Nat)
    (hlimit : (e.chain op).length ≤ limit) :
    readChain operand op limit ((e.chainSql op item).toList ++ rest) = some (e.standard, rest) := by
  induction e using Expr.chainInduction op generalizing limit with
  | join a b _ ihb =>
    rw [Expr.chain_binary, List.forall_mem_append] at he
    rw [Expr.chain_binary, List.length_append] at hlimit
    rw [Expr.chainSql_join hop, Expr.sql_connective, Expr.standard_connective hop]
    simp only [String.toList_append, List.append_assoc]
    exact readChain_append hop he.1 (ihb he.2) limit (by omega)
  | single e hsingle =>
    rw [hsingle, List.length_singleton] at hlimit
    obtain ⟨limit, rfl⟩ := Nat.exists_eq_add_one.mpr (show 0 < limit by omega)
    rw [Expr.chainSql_of_single hsingle]
    exact readChain_last (he e (hsingle ▸ List.mem_singleton_self e)) hrest

/-- The first operand of a chain is followed by its connective. -/
theorem exists_first_operand (hop : op.isConnective = true) {e : Expr}
    (he : ∀ d ∈ e.chain op, ReadsBack operand item d) (cs : List Char) :
    ∃ first cs', operand ((e.chainSql op item).toList ++ ((Link.op op).sql.toList ++ cs)) =
      some (first, (Link.op op).sql.toList ++ cs') := by
  induction e using Expr.chainInduction op generalizing cs with
  | join a b iha _ =>
    rw [Expr.chain_binary, List.forall_mem_append] at he
    rw [Expr.chainSql_join hop, Expr.sql_connective]
    simp only [String.toList_append, List.append_assoc]
    exact iha he.1 _
  | single e hsingle =>
    rw [Expr.chainSql_of_single hsingle]
    exact ⟨e.standard, cs, he e (hsingle ▸ List.mem_singleton_self e) _ (ends_link _ cs)⟩

/-! ## Expressions -/

/-- An operand with nothing behind it is an expression. -/
theorem readExpr_of_operand {e : Expr} (h : operand cs = some (e, rest)) (hrest : Closes rest) :
    readExpr operand limit cs = some (e, rest) := by
  simp [readExpr, h, readLink_of_closes hrest]

/-- A connective behind the first operand opens a chain. -/
theorem readExpr_eq_readChain (hop : op.isConnective = true) {first : Expr} {cs' : List Char}
    (h : operand cs = some (first, (Link.op op).sql.toList ++ cs')) :
    readExpr operand limit cs = readChain operand op (limit + 1) cs := by
  simp [readExpr, readChain, h, readLink_sql, dropPrefix_append, hop]

/-- A chain of connectives is read back in standard form. -/
theorem readExpr_connective (hop : op.isConnective = true) {l r : Expr}
    (he : ∀ d ∈ (Expr.binary op l r).chain op, ReadsBack operand item d) (hrest : Closes rest)
    (hlimit : (Expr.binary op l r).size ≤ limit) :
    readExpr operand limit (((Expr.binary op l r).sql item).toList ++ rest) =
      some ((Expr.binary op l r).standard, rest) := by
  -- reading goes on as a chain behind the first operand, as reading a chain does
  have hlength := (Expr.binary op l r).length_chain_le_size op
  have hchain := readChain_sql hop he hrest (limit + 1) (by omega)
  rw [Expr.chainSql_join hop] at hchain
  rw [← hchain]
  rw [Expr.chain_binary, List.forall_mem_append] at he
  rw [Expr.sql_connective]
  simp only [String.toList_append, List.append_assoc]
  obtain ⟨first, cs', hfirst⟩ := exists_first_operand hop he.1 ((r.chainSql op item).toList ++ rest)
  exact readExpr_eq_readChain hop hfirst

/-- Two operands of another operator, which a null test may follow. -/
theorem readExpr_binary (hop : op.isConnective = false) {l r : Expr} (hl : ReadsBack operand item l)
    (hr : ReadsBack operand item r) (hrest : Ends rest) :
    readExpr operand limit (((Expr.binary op l r).sql item).toList ++ rest) =
      some (readNullTest (Expr.binary op l r).standard rest) := by
  rw [Expr.sql_binary hop, Expr.standard_binary hop]
  simp only [String.toList_append, List.append_assoc]
  unfold readExpr
  rw [hl _ (ends_link _ _)]
  simp [readLink_sql, hop, hr rest hrest]

/-- There is no null test at the end of an expression. -/
theorem readNullTest_of_closes (e : Expr) (hrest : Closes rest) :
    readNullTest e rest = (e, rest) := by
  simp [readNullTest, readLink_of_closes hrest]

theorem readNullTest_sql (e : Expr) (negated : Bool) (cs : List Char) :
    readNullTest e ((Link.nullTest negated).sql.toList ++ cs) = (e.nullTest negated, cs) := by
  simp [readNullTest, readLink_sql]

/-- A null test is read back, whatever stands behind it. -/
theorem readExpr_nullTest {e : Expr} (negated : Bool)
    (hsub : ∀ d, d.size ≤ e.size → ReadsBack operand item d) :
    readExpr operand limit (((e.nullTest negated).sql item).toList ++ rest) =
      some ((e.nullTest negated).standard, rest) := by
  have hsql : (e.nullTest negated).sql item =
      bracketed e.bareInNullTest (e.sql item) ++ (Link.nullTest negated).sql := by
    cases negated <;> rfl
  rw [hsql, Expr.standard_nullTest]
  simp only [String.toList_append, List.append_assoc]
  rcases e.bareInNullTest_cases with ⟨op, l, r, rfl, hop⟩ | hoperand
  · have hconnective : op.isConnective = false := by
      revert hop
      cases op <;> decide
    have hbare : bracketed (Expr.binary op l r).bareInNullTest ((Expr.binary op l r).sql item) =
        (Expr.binary op l r).sql item := by
      simp [Expr.bareInNullTest, bracketed, hop]
    have hl : l.size ≤ (Expr.binary op l r).size := by
      rw [Expr.size]
      omega
    have hr : r.size ≤ (Expr.binary op l r).size := by
      rw [Expr.size]
      omega
    rw [hbare, readExpr_binary hconnective (hsub l hl) (hsub r hr) (ends_link _ rest),
      readNullTest_sql]
  · rw [hoperand]
    have hread := hsub e (Nat.le_refl _) _ (ends_link (.nullTest negated) rest)
    unfold readExpr
    rw [show bracketed e.isSqlAtom (e.sql item) = e.operandSql item from rfl, hread]
    simp [readLink_sql]

/-- A membership test is read back with its values as numerals. -/
theorem readExpr_membership {e : Expr} (he : ReadsBack operand item e) (values : List Value)
    (hlimit : values.length ≤ limit) :
    readExpr operand limit ((e.operandSql item ++ " IN (" ++
        String.intercalate "," (values.map Value.sql) ++ ")").toList ++ rest) =
      some (.inList e.standard (values.map Value.numeral), rest) := by
  have htext : (e.operandSql item ++ " IN (" ++
      String.intercalate "," (values.map Value.sql) ++ ")").toList ++ rest =
        (e.operandSql item).toList ++ (Link.membership.sql.toList ++
          ((String.intercalate "," (values.map Value.sql)).toList ++ ')' :: rest)) := by
    simp [Link.sql]
  rw [htext]
  unfold readExpr
  rw [he _ (ends_link _ _)]
  simp [readLink_sql, readValues_sql values hlimit, -String.toList_intercalate]

/-- A negation is read back, since no operand starts like the word for it. -/
theorem readExpr_not {e : Expr} (hnot : ∀ cs, operand ('N' :: 'O' :: cs) = none)
    (he : ReadsBack operand item e) (hrest : Ends rest) :
    readExpr operand limit (((Expr.not e).sql item).toList ++ rest) =
      some ((Expr.not e).standard, rest) := by
  have htext : ((Expr.not e).sql item).toList ++ rest =
      'N' :: 'O' :: 'T' :: ' ' :: ((e.operandSql item).toList ++ rest) := by
    simp [Expr.sql, Expr.operandSql]
  unfold readExpr
  rw [htext, hnot]
  simp [List.dropPrefix?, he rest hrest, Expr.standard]

/-- **The text of an expression is read as its standard form** in front of a closing bracket, if its
operands are. -/
theorem readExpr_sql {e : Expr} (hnot : ∀ cs, operand ('N' :: 'O' :: cs) = none)
    (hself : e.isSqlAtom = true → ReadsBack operand item e)
    (hsub : ∀ d, d.size < e.size → ReadsBack operand item d) (hlimit : e.size ≤ limit)
    (hrest : Closes rest) :
    readExpr operand limit ((e.sql item).toList ++ rest) = some (e.standard, rest) := by
  cases e with
  | column | literal | caseWhen =>
    exact readExpr_of_operand (hself rfl rest hrest.ends) hrest
  | binary op l r =>
    cases hop : op.isConnective with
    | true =>
      refine readExpr_connective hop ?_ hrest hlimit
      intro d hd
      refine hsub d ?_
      rw [Expr.chain_binary] at hd
      rw [Expr.size]
      rcases List.mem_append.mp hd with hd | hd
      all_goals
        have := Expr.size_le_of_mem_chain hd
        omega
    | false =>
      have hl : ReadsBack operand item l := hsub l (by rw [Expr.size]; omega)
      have hr : ReadsBack operand item r := hsub r (by rw [Expr.size]; omega)
      rw [readExpr_binary hop hl hr hrest.ends, readNullTest_of_closes _ hrest]
  | not e => exact readExpr_not hnot (hsub e (Nat.lt_succ_self _)) hrest.ends
  | isNull e => exact readExpr_nullTest false fun d hd => hsub d (Nat.lt_succ_of_le hd)
  | isNotNull e => exact readExpr_nullTest true fun d hd => hsub d (Nat.lt_succ_of_le hd)
  | inList e values =>
    have he : ReadsBack operand item e := hsub e (by rw [Expr.size]; omega)
    have hlength : values.length ≤ limit := by
      rw [Expr.size] at hlimit
      omega
    rcases values with _ | ⟨v, _ | ⟨w, vs⟩⟩
    · exact readExpr_membership he [] hlength
    · have hv : ReadsBack operand item (.literal v) := hsub _ (by simp [Expr.size])
      rw [Expr.sql_inList_singleton, readExpr_binary rfl he hv hrest.ends,
        readNullTest_of_closes _ hrest]
      rfl
    · exact readExpr_membership he (v :: w :: vs) hlength

/-! ## Operands -/

/-- No operand starts with the word for a negation. -/
theorem readOperand_not (depth : Nat) (cs : List Char) :
    readOperand depth ('N' :: 'O' :: cs) = none := by
  cases depth with
  | zero => rfl
  | succ depth => rfl

variable {depth : Nat}

theorem readsBack_literal (v : Value) : ReadsBack (readOperand (depth + 1)) item (.literal v) := by
  intro rest hrest
  have hread : readValue (((Expr.literal v).operandSql item).toList ++ rest) =
      some (v.numeral, rest) := readValue_sql v hrest
  unfold readOperand
  rw [hread]
  rfl

theorem readsBack_column (name : String) :
    ReadsBack (readOperand (depth + 1)) item (.column name) := by
  intro rest hrest
  obtain ⟨cs, hcs⟩ : ∃ cs, ((Expr.column name).sql item).toList ++ rest = '[' :: cs := by
    simp [Expr.sql, identifier]
  have hno : readValue ('[' :: cs) = none := rfl
  have hread := readColumn_sql item name hrest
  rw [hcs] at hread
  rw [show (Expr.column name).operandSql item = (Expr.column name).sql item from rfl, hcs,
    readOperand, hno]
  exact hread

/-- A case is an operand if its two parts are read back one level deeper. -/
theorem readsBack_caseWhen {c r : Expr}
    (hc : ∀ rest, Closes rest → readExpr (readOperand depth) (depth + 1)
      ((c.sql item).toList ++ rest) = some (c.standard, rest))
    (hr : ReadsBack (readOperand depth) item r) :
    ReadsBack (readOperand (depth + 1)) item (.caseWhen c r) := by
  intro rest hrest
  have hend : Ends (" END".toList ++ rest) := by
    intro c hc
    exact .inl (Option.some.inj hc).symm
  have htext : ((Expr.caseWhen c r).operandSql item).toList ++ rest =
      "CASE WHEN (".toList ++ ((c.sql item).toList ++ (") THEN ".toList ++
        ((r.operandSql item).toList ++ (" END".toList ++ rest)))) := by
    simp only [Expr.operandSql, Expr.isSqlAtom, bracketed, if_true, Expr.sql,
      String.toList_append, List.append_assoc]
  have hno : ∀ cs, readValue ("CASE WHEN (".toList ++ cs) = none := fun cs => rfl
  have hthen := hc (") THEN ".toList ++ ((r.operandSql item).toList ++ (" END".toList ++ rest)))
    (closes_bracket _)
  unfold readOperand
  rw [htext, hno]
  -- the text starts with neither bracket
  change (do
    let cs ← ("CASE WHEN (".toList ++ _).dropPrefix? "CASE WHEN (".toList
    _) = _
  simp only [dropPrefix_append, hthen, hr _ hend, Option.bind_eq_bind, Option.bind_some]
  rfl

/-- An operand in brackets is read back if the expression in them is, one level deeper. -/
theorem readsBack_bracketed {e : Expr} (hatom : e.isSqlAtom = false)
    (he : ∀ rest, Closes rest → readExpr (readOperand depth) (depth + 1)
      ((e.sql item).toList ++ rest) = some (e.standard, rest)) :
    ReadsBack (readOperand (depth + 1)) item e := by
  intro rest _
  have htext : (e.operandSql item).toList ++ rest =
      '(' :: ((e.sql item).toList ++ ')' :: rest) := by
    simp [Expr.operandSql, bracketed, hatom]
  have hno : readValue ('(' :: ((e.sql item).toList ++ ')' :: rest)) = none := rfl
  rw [htext, readOperand, hno]
  simp [he _ (closes_bracket rest), List.dropPrefix?]

/-- **Operands are read as their standard forms.** -/
theorem readOperand_sql (item : String) (depth : Nat) (e : Expr) (hdepth : e.size ≤ depth) :
    ReadsBack (readOperand depth) item e := by
  induction depth generalizing e with
  | zero => exact absurd e.size_pos (by omega)
  | succ depth ih =>
    cases hatom : e.isSqlAtom with
    | true =>
      cases e with
      | literal v => exact readsBack_literal v
      | column name => exact readsBack_column name
      | caseWhen c r =>
        rw [Expr.size] at hdepth
        refine readsBack_caseWhen (fun rest hrest => ?_) (ih r (by omega))
        exact readExpr_sql (readOperand_not depth) (fun _ => ih c (by omega))
          (fun d hd => ih d (by omega)) (by omega) hrest
      | binary | not | isNull | isNotNull | inList => cases hatom
    | false =>
      refine readsBack_bracketed hatom (fun rest hrest => ?_)
      exact readExpr_sql (readOperand_not depth) (fun h => absurd (hatom.symm.trans h) (by decide))
        (fun d hd => ih d (by omega)) hdepth hrest

/-- **The text of an expression is read as its standard form.** -/
theorem read_sql (item : String) {e : Expr} (hlimit : e.size ≤ limit) :
    read limit (e.sql item).toList = some (e.standard, []) := by
  have hread := readExpr_sql (readOperand_not limit) (fun _ => readOperand_sql item limit e hlimit)
    (fun d hd => readOperand_sql item limit d (by omega)) hlimit
    (show Closes [] from fun c hc => absurd hc (by simp))
  rwa [List.append_nil] at hread

end Sql

end EntityQuery
