/-
# Expressions that are read alike

Related texts that no token tells apart (`Indistinct`) hold the same expressions.  The levels of
precedence are gone through from the inside to the outside.  Brackets start again at the outermost
level, but on a shorter text, so that the induction is on the lengths.

* `Indistinct.agree_nullTest`: null tests agree, although blanks that have to stand behind their
  words may be missing at the end of one text only;
* `Indistinct.agree_disjunction`: expressions agree if those in brackets do;
* `Indistinct.agree_expression`: expressions agree.
-/
import EntityQuery.Proofs.Pipeline.Agreement

namespace EntityQuery.Pipeline

open Text Reader Trail

variable {α : Type} {S : List Char → List Char → Prop} {n : Nat} {cs ds : List Char}
  {nested : Reader Expr} {word : String}

/-! ## Operators -/

/-- One of several symbols takes something if none of them is empty. -/
theorem progresses_oneOf {symbols : List (String × α)} (h : ∀ s ∈ symbols, s.1.toList ≠ []) :
    Progresses (oneOf symbols) := by
  induction symbols with
  | nil =>
    intro cs a rest hread
    cases hread
  | cons s symbols ih =>
    obtain ⟨hs, hsymbols⟩ := List.forall_mem_cons.mp h
    exact ((progresses_symbol hs).bind fun _ => shrinks_pure s.2).orElse (ih hsymbols)

theorem progresses_factorOperator : Progresses factorOperator :=
  (progresses_oneOf (by decide)).amidBlanks

theorem progresses_termOperator : Progresses termOperator :=
  (progresses_oneOf (by decide)).amidBlanks

theorem progresses_connective (hword : isPlainWord word = true) (hsome : word.toList ≠ [])
    (op : Op) : Progresses (connective word op) :=
  ((progresses_keyword hword hsome).bind fun _ => shrinks_pure op).amidBlanks

namespace Indistinct

theorem agree_factorOperator (hS : Indistinct S) : AgreesBelow S n factorOperator :=
  hS.agree_amidBlanks (hS.agree_oneOf (by decide))

theorem agree_termOperator (hS : Indistinct S) : AgreesBelow S n termOperator :=
  hS.agree_amidBlanks (hS.agree_oneOf (by decide))

theorem agree_comparisonOperator (hS : Indistinct S) : AgreesBelow S n comparisonOperator :=
  hS.agree_amidBlanks (hS.agree_oneOf (by decide))

/-- A connective agrees: its letters have no second spelling. -/
theorem agree_connective (hS : Indistinct S) (hword : isPlainWord word = true) (op : Op) :
    AgreesBelow S n (connective word op) :=
  hS.agree_amidBlanks (hS.agree_word hword op)

end Indistinct

/-- A chain agrees if its operators and its members do; every operator takes something, so the
members read behind it get shorter texts. -/
theorem AgreesBelow.chain {operator : Reader Op} {next : Reader Expr}
    (hoperator : AgreesBelow S n operator) (hprogress : Progresses operator)
    (hnext : AgreesBelow S n next) (hends : ends.Keeps next) :
    AgreesBelow S n (chain operator next) := by
  refine hnext.bind fun _ => AgreesBelow.bind (.many ?_ ?_) fun _ => .pure _
  · exact hoperator.bind fun _ => hnext.bind fun _ => .pure _
  · exact hprogress.bind fun _ => (hends.bind fun _ => .pure _).shrinks

/-! ## Operands -/

namespace Indistinct

/-- A value agrees; strings do by what it is to be indistinct. -/
theorem agree_value (hS : Indistinct S) : AgreesBelow S n value :=
  (hS.agree_word (by decide) _).orElse <|
    (hS.agree_word (by decide) _).orElse <|
      (hS.agree_word (by decide) _).orElse <| hS.agree_integer.map.orElse (hS.agree_quoted n).map

/-- The bracket is taken off before the inside is read, so that is shorter. -/
theorem agree_inBrackets (hS : Indistinct S) (hnested : AgreesBelow S n nested) :
    AgreesBelow S (n + 1) (inBrackets nested) := by
  refine (hS.agree_symbol (by decide)).behind (progresses_symbol (by decide)) fun _ => ?_
  exact hS.agree_blanks.bind fun _ => hnested.bind fun e => hS.agree_blanks.bind fun _ =>
    (hS.agree_symbol (by decide)).bind fun _ => .pure e

/-- What stands in brackets is read one character further on, so it has to agree below a smaller
bound. -/
theorem agree_operand (hS : Indistinct S) (hnested : AgreesBelow S n nested) :
    AgreesBelow S (n + 1) (operand nested) :=
  (hS.agree_inBrackets hnested).orElse (hS.agree_value.map.orElse hS.agree_name.map)

/-- Sums agree if expressions in brackets do. -/
theorem agree_sum (hS : Indistinct S) (hnested : AgreesBelow S n nested)
    (hends : ends.Keeps nested) : AgreesBelow S (n + 1) (sum nested) := by
  have hproduct : AgreesBelow S (n + 1) (product nested) :=
    hS.agree_factorOperator.chain progresses_factorOperator (hS.agree_operand hnested)
      (keeps_operand ends_quoted hends)
  exact hS.agree_termOperator.chain progresses_termOperator hproduct
    (keeps_product ends_quoted hends)

end Indistinct

/-! ## Null tests -/

/-- What a null test has behind the word `is` and blanks; gives whether it is negated. -/
def nullEnding : Reader Bool := do
  let negation ← optional do
    keyword "not"
    someBlanks
  keyword "null"
  return negation.isSome

/-- A null test in two parts, which the texts need not enter together. -/
theorem nullTest_eq :
    nullTest = (do
      blanks
      keyword "is"
      someBlanks
      nullEnding) :=
  rfl

/-- The words `not` and `null` part at their second letter. -/
theorem refuses_null_of_not {u : Unit} {rest : List Char} (h : keyword "not" cs = .read u rest) :
    (keyword "null").Refuses cs := by
  obtain ⟨⟨s, hs, rfl⟩, hrest⟩ := (keyword_eq_read_iff (by decide)).mp h
  refine refuses_keyword_of_name (by decide) (by decide) (isName_of_toLower (by decide) hs) hrest ?_
  rw [hs]
  decide

namespace Indistinct

/-- Where one text ends, the other one has no keyword. -/
theorem refuses_keyword (hS : Indistinct S) (hword : isPlainWord word = true)
    (hname : isName word = true) (h : S [] ds) : (keyword word).Refuses ds := by
  refine refuses_keyword_of_head hword hname fun c hc => ?_
  have hplain := (hS.nil h).2 c hc
  have hkind : " \t\r\n|'".toList.any isNameStart = false := by decide
  refine Bool.eq_false_iff.mpr fun hstart => ?_
  rw [isPlain_of_imp hkind hstart] at hplain
  cases hplain

/-- Where blanks are asked for and one text ends, there may be some in the other one, but nothing
behind them. -/
theorem someBlanks_cases (hS : Indistinct S) (h : S cs ds) :
    (∃ rest rest', someBlanks cs = .read () rest ∧ someBlanks ds = .read () rest' ∧
        S rest rest' ∧ rest.length ≤ cs.length) ∨
      someBlanks.Refuses cs ∧ (someBlanks.Refuses ds ∨
        ∃ rest', someBlanks ds = .read () rest' ∧ S [] rest') := by
  have hread : ∀ {c} cs, isBlank c = true → someBlanks (c :: cs) = .read () (skipBlanks cs) :=
    fun cs hc => bind_of_read (someRun_cons cs hc)
  have hrefuses : ∀ {c cs}, ¬ isBlank c = true → someBlanks.Refuses (c :: cs) := by
    intro c cs hc
    refine Refuses.bind (refuses_someRun fun d hd => ?_)
    obtain rfl : c = d := Option.some.inj hd
    exact Bool.eq_false_iff.mpr hc
  have hnil : someBlanks.Refuses [] := ⟨[], rfl⟩
  cases cs with
  | nil =>
    refine .inr ⟨hnil, ?_⟩
    cases ds with
    | nil => exact .inl hnil
    | cons d ds =>
      by_cases hd : isBlank d = true
      · have hskip := (hS.nil h).1
        rw [skipBlanks, List.dropWhile_cons_of_pos hd] at hskip
        exact .inr ⟨skipBlanks ds, hread ds hd, hskip⟩
      · exact .inl (hrefuses hd)
  | cons c cs =>
    obtain ⟨es, rfl, htail⟩ := hS.cons h
    by_cases hc : isBlank c = true
    · have hrest := hS.related_skipBlanks (htail (ne_mark_of_isBlank hc))
      exact .inl ⟨_, _, hread cs hc, hread es hc, hrest,
        (length_skipBlanks_le cs).trans (Nat.le_succ _)⟩
    · exact .inr ⟨hrefuses hc, .inl (hrefuses hc)⟩

/-- A reader behind blanks agrees, if it finds nothing where one of the texts ends. -/
theorem agree_someBlanks_bind (hS : Indistinct S) {p : Reader α} (hp : AgreesBelow S n p)
    (hnil : ∀ {ds}, S [] ds → p.Refuses ds) :
    AgreesBelow S n (someBlanks >>= fun _ => p) := by
  intro cs ds h hn
  rcases hS.someBlanks_cases h with ⟨rest, rest', hx, hy, hrest, hle⟩ | ⟨hx, hy | ⟨rest', hy, hend⟩⟩
  · rw [bind_of_read hx, bind_of_read hy]
    exact (hp hrest (Nat.lt_of_le_of_lt hle hn)).mono hle
  · exact .of_refuses hx.bind hy.bind
  · exact .of_refuses hx.bind (refuses_bind_of_read hy (hnil hend))

/-- Where one text ends, no null test ends in the other one. -/
theorem refuses_nullEnding (hS : Indistinct S) (h : S [] ds) : nullEnding.Refuses ds := by
  have hnot : (keyword "not").Refuses ds := hS.refuses_keyword (by decide) (by decide) h
  have hnull : (keyword "null").Refuses ds := hS.refuses_keyword (by decide) (by decide) h
  exact refuses_bind_of_read hnot.bind.optional hnull.bind

/-- The end of a null test agrees, although the blanks behind `not` need not be in both texts. -/
theorem agree_nullEnding (hS : Indistinct S) : AgreesBelow S n nullEnding := by
  intro cs ds h hn
  have hnot : AgreesBelow S n (keyword "not") := hS.agree_keyword (by decide)
  have hnull : ∀ negated : Bool, AgreesBelow S n (keyword "null" >>= fun _ => pure negated) :=
    fun negated => (hS.agree_keyword (by decide)).bind fun _ => .pure negated
  have hending : ∀ {cs negation rest},
      optional (keyword "not" >>= fun _ => someBlanks) cs = .read negation rest →
      nullEnding cs = (keyword "null" >>= fun _ => pure negation.isSome) rest :=
    fun hread => bind_of_read hread
  rcases hnot.cases h hn with ⟨u, mid, mid', hx, hy, hmid, hle⟩ | ⟨hx, hy⟩ | hx
  · rcases hS.someBlanks_cases hmid with
      ⟨rest, rest', hr, hr', hrest, hle'⟩ | ⟨hr, hr' | ⟨rest', hr', hend⟩⟩
    · rw [hending (optional_of_read ((bind_of_read hx).trans hr)),
        hending (optional_of_read ((bind_of_read hy).trans hr'))]
      exact (hnull true hrest (by omega)).mono (hle'.trans hle)
    · rw [hending (refuses_bind_of_read hx hr).optional,
        hending (refuses_bind_of_read hy hr').optional]
      exact hnull false h hn
    · -- one text ends behind `not`, and the other one has no word behind its blanks
      have hend' : (keyword "null").Refuses rest' := hS.refuses_keyword (by decide) (by decide) hend
      refine .of_refuses ?_ ?_
      · exact refuses_bind_of_read (refuses_bind_of_read hx hr).optional
          (refuses_null_of_not hx).bind
      · exact refuses_bind_of_read (optional_of_read ((bind_of_read hy).trans hr')) hend'.bind
  · rw [hending hx.bind.optional, hending hy.bind.optional]
    exact hnull false h hn
  · have hbroken : nullEnding cs = .broken :=
      bind_of_broken (orElse_of_broken (bind_of_broken (bind_of_broken hx)))
    rw [hbroken]
    exact .broken _

/-- Null tests agree. -/
theorem agree_nullTest (hS : Indistinct S) : AgreesBelow S n nullTest := by
  rw [nullTest_eq]
  exact hS.agree_blanks.bind fun _ => (hS.agree_keyword (by decide)).bind fun _ =>
    hS.agree_someBlanks_bind hS.agree_nullEnding hS.refuses_nullEnding

/-! ## Comparisons and connectives -/

/-- A sum is tested or compared alike. -/
theorem agree_comparison (hS : Indistinct S) (hnested : AgreesBelow S n nested)
    (hends : ends.Keeps nested) : AgreesBelow S (n + 1) (comparison nested) := by
  have hsum := hS.agree_sum hnested hends
  have hcompared : AgreesBelow S (n + 1) (comparedTo nested) :=
    hS.agree_comparisonOperator.bind fun _ => hsum.bind fun _ => .pure _
  refine hsum.bind fun left => hS.agree_nullTest.attempt.bind fun test => ?_
  cases test with
  | some negated => cases negated <;> exact .pure _
  | none =>
    refine hcompared.optional.bind fun compared => ?_
    cases compared <;> exact .pure _

/-- Every `not` that is read makes the text shorter, so the induction is on the bound. -/
theorem agree_negation (hS : Indistinct S) (hends : ends.Keeps nested)
    (hcomparison : AgreesBelow S n (comparison nested)) : AgreesBelow S n (negation nested) := by
  have hnot : Progresses (keyword "not") := progresses_keyword (by decide) (by decide)
  induction n with
  | zero => exact fun cs ds _ hn => absurd hn (Nat.not_lt_zero _)
  | succ n ih =>
    have hshorter := ih (hcomparison.mono (Nat.le_succ n))
    rw [negation_eq hends]
    refine AgreesBelow.orElse ((hS.agree_keyword (by decide)).behind hnot fun _ => ?_) hcomparison
    exact hS.agree_blanks.bind fun _ => hshorter.map

/-- **Expressions are read alike**, if those in brackets are, which are shorter. -/
theorem agree_disjunction (hS : Indistinct S) (hnested : AgreesBelow S n nested)
    (hends : ends.Keeps nested) : AgreesBelow S (n + 1) (disjunction nested) := by
  have hnegation := hS.agree_negation hends (hS.agree_comparison hnested hends)
  have hconjunction : AgreesBelow S (n + 1) (conjunction nested) :=
    (hS.agree_connective (by decide) .and).chain (progresses_connective (by decide) (by decide) _)
      hnegation (keeps_negation ends_quoted hends)
  exact (hS.agree_connective (by decide) .or).chain
    (progresses_connective (by decide) (by decide) _) hconjunction
    (keeps_conjunction ends_quoted hends)

/-- **Expressions agree on related texts.** -/
theorem agree_expression (hS : Indistinct S) (n : Nat) : AgreesBelow S n expression := by
  induction n with
  | zero => exact fun cs ds _ hn => absurd hn (Nat.not_lt_zero _)
  | succ n ih =>
    rw [expression_eq_disjunction]
    exact hS.agree_disjunction ih (keeps_expression ends_quoted)

end Indistinct

end EntityQuery.Pipeline
