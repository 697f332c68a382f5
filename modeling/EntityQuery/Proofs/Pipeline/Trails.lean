/-
# Where readings end

Every reader of the grammar keeps to every trail that its strings keep to.  Which text is left and
where a reading fails is thereby shown in one go for any depth of alternatives, optional parts,
repetitions and brackets.

* `Trail.keeps_expression`, `Trail.keeps_plan`: expressions and pipelines keep to a trail;
* `Trail.ends`: of a text an end is left, on success and on failure;
* `Trail.unbroken`: expressions never break off;
* `expression_eq_disjunction`: the bound on the nesting of brackets plays no part, and an expression
  is a disjunction whose brackets hold expressions.
-/
import EntityQuery.Pipeline.Basic
import EntityQuery.Proofs.Tokens

namespace EntityQuery.Pipeline

open Text Reader

namespace Trail

variable {α : Type} {T : Trail} {word : String} {nested : Reader Expr}

/-! ## Tokens -/

/-- The bytes of a word are taken from characters that were compared with its letters. -/
theorem leaves_of_dropBytes (T : Trail) {n : Nat} {letters cs rest : List Char}
    (hletters : ∀ letter ∈ letters, isSmallLetter letter = true) (hn : n ≤ letters.length)
    (hall : (cs.zip letters).all (fun (c, letter) => isCaseOf letter c) = true)
    (h : dropBytes n cs = some rest) : T.Leaves cs rest := by
  induction cs generalizing n letters with
  | nil =>
    cases n with
    | zero => exact Option.some.inj h ▸ T.refl []
    | succ n => cases h
  | cons c cs ih =>
    cases n with
    | zero => exact Option.some.inj h ▸ T.refl _
    | succ n =>
      cases letters with
      | nil => exact absurd hn (Nat.not_succ_le_zero n)
      | cons letter letters =>
        obtain ⟨hletter, hletters⟩ := List.forall_mem_cons.mp hletters
        rw [List.zip_cons_cons, List.all_cons, Bool.and_eq_true] at hall
        obtain ⟨hc, hall⟩ := hall
        rw [dropBytes] at h
        split at h
        next =>
          -- a character takes at least the byte of its letter, so there are letters for the others
          have hpos := c.utf8Size_pos
          have hle : n + 1 - c.utf8Size ≤ letters.length := by
            rw [List.length_cons] at hn
            omega
          exact T.trans (T.cons cs (ne_mark_of_isCaseOf hletter hc)) (ih hletters hle hall h)
        next => cases h

/-- Small letters are written in one byte each. -/
theorem byteLength_of_isSmallLetter {letters : List Char}
    (h : ∀ letter ∈ letters, isSmallLetter letter = true) :
    byteLength letters = letters.length := by
  induction letters with
  | nil => rfl
  | cons letter letters ih =>
    obtain ⟨hletter, hletters⟩ := List.forall_mem_cons.mp h
    rw [byteLength, utf8Size_of_isSmallLetter hletter, ih hletters, List.length_cons, Nat.add_comm]

/-- A word may only break off at the Kelvin sign. -/
theorem keeps_spelled (hword : isBasic word = true)
    (hbreaks : ∀ {cs}, spelled word cs = .broken → T.Breaks cs) : T.Keeps (spelled word) := by
  intro cs
  have hletters := List.all_eq_true.mp hword
  have hbroken : spelled word cs = .broken → T.Breaks cs := hbreaks
  unfold spelled at hbroken ⊢
  simp only at hbroken ⊢
  split
  next hfits =>
    -- the letters fit, but their bytes may end inside of a character
    rw [if_pos hfits] at hbroken
    split
    next rest hrest =>
      rw [Bool.and_eq_true] at hfits
      rw [byteLength_of_isSmallLetter hletters] at hrest
      exact T.leaves_of_dropBytes hletters le_rfl hfits.1 hrest
    next hnone =>
      rw [hnone] at hbroken
      exact hbroken rfl
  next => exact T.fails_refl cs

/-- A keyword keeps to a trail if its letters do; that no name goes on behind them takes nothing. -/
theorem keeps_keyword_of_spelled (h : T.Keeps (spelled word)) : T.Keeps (keyword word) :=
  h.bind fun _ => .absent (keeps_someRun (by decide))

/-- A keyword none of whose letters has a second spelling keeps to every trail. -/
theorem keeps_keyword (hword : isPlainWord word = true) : T.Keeps (keyword word) := by
  have hbasic := ((Bool.and_eq_true _ _).mp hword).1
  refine keeps_keyword_of_spelled (keeps_spelled hbasic fun {cs} hbroken => ?_)
  exact absurd hbroken (plainly_of_isPlainWord hword cs).ne_broken

theorem keeps_word (hword : isPlainWord word = true) (a : α) : T.Keeps (Pipeline.word word a) :=
  (keeps_keyword hword).bind fun _ => .pure a

theorem keeps_name : T.Keeps name :=
  (keeps_someRun (by decide)).bind fun _ => (keeps_run (by decide)).bind fun _ => .pure _

/-- One of several symbols keeps to every trail if none of them holds a quotation mark. -/
theorem keeps_oneOf {symbols : List (String × α)} (h : ∀ s ∈ symbols, '\'' ∉ s.1.toList) :
    T.Keeps (oneOf symbols) := by
  induction symbols with
  | nil => exact T.fails_refl
  | cons s symbols ih =>
    obtain ⟨hs, hsymbols⟩ := List.forall_mem_cons.mp h
    exact ((keeps_symbol hs).bind fun _ => .pure s.2).orElse (ih hsymbols)

theorem keeps_digits : T.Keeps digits :=
  keeps_someRun (by decide)

theorem keeps_count : T.Keeps count :=
  keeps_digits.converted _

/-- An integer keeps to every trail, its sign included. -/
theorem keeps_integer : T.Keeps integer := by
  refine Keeps.converted ?_ _
  exact (keeps_symbol (by decide)).optional.bind fun _ => keeps_digits.bind fun _ => .pure _

/-! ## Expressions -/

section Expressions

variable (hquoted : T.Keeps quoted)
include hquoted

/-- A value keeps to a trail that quoted texts keep to. -/
theorem keeps_value : T.Keeps value :=
  (keeps_word (by decide) _).orElse <|
    (keeps_word (by decide) _).orElse <|
      (keeps_word (by decide) _).orElse <| keeps_integer.map.orElse hquoted.map

omit hquoted in
theorem keeps_inBrackets (hnested : T.Keeps nested) : T.Keeps (inBrackets nested) :=
  (keeps_symbol (by decide)).bind fun _ => keeps_blanks.bind fun _ => hnested.bind fun e =>
    keeps_blanks.bind fun _ => (keeps_symbol (by decide)).bind fun _ => .pure e

theorem keeps_operand (hnested : T.Keeps nested) : T.Keeps (operand nested) :=
  (keeps_inBrackets hnested).orElse ((keeps_value hquoted).map.orElse keeps_name.map)

omit hquoted in
/-- A chain keeps to a trail if its operators and its members do. -/
theorem Keeps.chain {operator : Reader Op} {next : Reader Expr} (hoperator : T.Keeps operator)
    (hnext : T.Keeps next) : T.Keeps (chain operator next) :=
  hnext.bind fun _ =>
    (hoperator.bind fun _ => hnext.bind fun _ => .pure _).many.bind fun _ => .pure _

omit hquoted in
theorem keeps_factorOperator : T.Keeps factorOperator :=
  (keeps_oneOf (by decide)).amidBlanks

omit hquoted in
theorem keeps_termOperator : T.Keeps termOperator :=
  (keeps_oneOf (by decide)).amidBlanks

omit hquoted in
theorem keeps_comparisonOperator : T.Keeps comparisonOperator :=
  (keeps_oneOf (by decide)).amidBlanks

omit hquoted in
/-- A connective keeps to every trail: its letters have no second spelling. -/
theorem keeps_connective (hword : isPlainWord word = true) (op : Op) :
    T.Keeps (connective word op) :=
  (keeps_word hword op).amidBlanks

theorem keeps_product (hnested : T.Keeps nested) : T.Keeps (product nested) :=
  keeps_factorOperator.chain (keeps_operand hquoted hnested)

theorem keeps_sum (hnested : T.Keeps nested) : T.Keeps (sum nested) :=
  keeps_termOperator.chain (keeps_product hquoted hnested)

omit hquoted in
theorem keeps_nullTest : T.Keeps nullTest := by
  refine keeps_blanks.bind fun _ => (keeps_keyword (by decide)).bind fun _ =>
    keeps_someBlanks.bind fun _ => Keeps.bind (.optional ?_) fun _ =>
      (keeps_keyword (by decide)).bind fun _ => .pure _
  exact (keeps_keyword (by decide)).bind fun _ => keeps_someBlanks

/-- What an operand is compared to keeps to a trail that expressions in brackets keep to. -/
theorem keeps_comparedTo (hnested : T.Keeps nested) : T.Keeps (comparedTo nested) :=
  keeps_comparisonOperator.bind fun _ => (keeps_sum hquoted hnested).bind fun _ => .pure _

/-- A comparison keeps to it as well, be it a null test, two operands or a single one. -/
theorem keeps_comparison (hnested : T.Keeps nested) : T.Keeps (comparison nested) := by
  refine (keeps_sum hquoted hnested).bind fun left => keeps_nullTest.attempt.bind fun test => ?_
  cases test with
  | some negated => cases negated <;> exact .pure _
  | none =>
    refine (keeps_comparedTo hquoted hnested).optional.bind fun compared => ?_
    cases compared <;> exact .pure _

/-- The induction is on the number of negations, behind the last of which a comparison stands. -/
theorem keeps_negationUpTo (hnested : T.Keeps nested) (limit : Nat) :
    T.Keeps (negationUpTo nested limit) := by
  have hcomparison := keeps_comparison hquoted hnested
  induction limit with
  | zero => exact hcomparison
  | succ limit ih =>
    refine Keeps.orElse ?_ hcomparison
    exact (keeps_keyword (by decide)).bind fun _ => keeps_blanks.bind fun _ => ih.map

theorem keeps_negation (hnested : T.Keeps nested) : T.Keeps (negation nested) :=
  fun cs => keeps_negationUpTo hquoted hnested cs.length cs

theorem keeps_conjunction (hnested : T.Keeps nested) : T.Keeps (conjunction nested) :=
  (keeps_connective (by decide) .and).chain (keeps_negation hquoted hnested)

theorem keeps_disjunction (hnested : T.Keeps nested) : T.Keeps (disjunction nested) :=
  (keeps_connective (by decide) .or).chain (keeps_conjunction hquoted hnested)

/-- The induction is on the depth of brackets; at depth zero nothing is read. -/
theorem keeps_expressionUpTo (depth : Nat) : T.Keeps (expressionUpTo depth) := by
  induction depth with
  | zero => exact T.fails_refl
  | succ depth ih => exact keeps_disjunction hquoted ih

/-- **Expressions keep to every trail that strings keep to.** -/
theorem keeps_expression : T.Keeps expression :=
  fun cs => keeps_expressionUpTo hquoted (cs.length + 1) cs

/-! ## Stages -/

omit hquoted in
theorem Keeps.items {item : Reader α} (h : T.Keeps item) : T.Keeps (items item) := by
  have hcomma : T.Keeps comma := (keeps_symbol (by decide)).amidBlanks
  exact h.bind fun _ => (hcomma.bind fun _ => h).many.bind fun _ => .pure _

theorem keeps_selection : T.Keeps selection := by
  have hchosen : T.Keeps chosenName :=
    keeps_blanks.bind fun _ => (keeps_keyword (by decide)).bind fun _ =>
      keeps_blanks.bind fun _ => keeps_name
  exact (keeps_expression hquoted).bind fun _ => hchosen.optional.bind fun _ => .pure _

theorem keeps_sortKey : T.Keeps sortKey := by
  have hdirection : T.Keeps direction :=
    keeps_blanks.bind fun _ => (keeps_word (by decide) _).orElse (keeps_word (by decide) _)
  exact (keeps_expression hquoted).bind fun _ => hdirection.optional.bind fun _ => .pure _

theorem keeps_sortKeys : T.Keeps sortKeys := by
  refine Keeps.bind (.optional ?_) fun _ => (keeps_sortKey hquoted).items
  exact (keeps_keyword (by decide)).bind fun _ => keeps_blanks

omit hquoted in
/-- An argument keeps to a trail if its keyword and what follows do. -/
theorem Keeps.argument {reader : Reader α} (hword : T.Keeps (keyword word))
    (hreader : T.Keeps reader) : T.Keeps (argument word reader) :=
  hword.bind fun _ => keeps_blanks.bind fun _ => hreader

/-- Only the words `skip` and `take` have a letter with another form than its capital. -/
theorem keeps_stage (hskip : T.Keeps (keyword "skip")) (htake : T.Keeps (keyword "take")) :
    T.Keeps stage :=
  ((keeps_keyword (by decide)).argument (keeps_expression hquoted)).map.orElse <|
    ((keeps_keyword (by decide)).argument (keeps_selection hquoted).items).map.orElse <|
      ((keeps_keyword (by decide)).argument (keeps_sortKeys hquoted)).map.orElse <|
        (hskip.argument keeps_count).map.orElse <|
          (htake.argument keeps_count).map.orElse <|
            ((keeps_keyword (by decide)).argument keeps_name).map

/-- A stage behind a bar keeps to a trail if the two keywords do that can be spelled with the Kelvin
sign. -/
theorem keeps_furtherStage (hskip : T.Keeps (keyword "skip")) (htake : T.Keeps (keyword "take")) :
    T.Keeps furtherStage :=
  keeps_blanks.bind fun _ => (keeps_symbol (by decide)).bind fun _ =>
    keeps_blanks.bind fun _ => (keeps_stage hquoted hskip htake).committed

/-- **Pipelines keep to every trail that strings and the words with the letter `k` keep to.** -/
theorem keeps_plan (hskip : T.Keeps (keyword "skip")) (htake : T.Keeps (keyword "take")) :
    T.Keeps plan :=
  keeps_blanks.bind fun _ => keeps_name.bind fun _ =>
    (keeps_furtherStage hquoted hskip htake).many.bind fun _ => keeps_blanks.bind fun _ => .pure _

end Expressions

/-! ## Ends of texts -/

/-- An end of the text is left, on success and on failure, and only the Kelvin sign breaks. -/
def ends : Trail where
  Leaves cs rest := rest <:+ cs
  Fails cs left := left <:+ cs
  Breaks cs := kelvinSign ∈ cs
  refl _ := List.suffix_rfl
  trans hmid hrest := hrest.trans hmid
  fails_refl _ := List.suffix_rfl
  fails_trans hmid hleft := hleft.trans hmid
  breaks_trans hmid hsign := hmid.subset hsign
  cons cs _ := List.suffix_cons _ cs

/-- Reading does not break off, whatever is left. -/
def unbroken : Trail where
  Leaves _ _ := True
  Fails _ _ := True
  Breaks _ := False
  refl _ := trivial
  trans _ _ := trivial
  fails_refl _ := trivial
  fails_trans _ _ := trivial
  breaks_trans _ h := h
  cons _ _ := trivial

/-- A quoted text leaves an end of the text, also where its closing mark is missing. -/
theorem ends_quoted : ends.Keeps quoted := by
  intro cs
  rcases quoted_cases cs with ⟨s, rest, hread⟩ | hrefused | hrefused
  · rw [hread]
    obtain ⟨rfl, -⟩ := quoted_eq_read_iff.mp hread
    have hrest : rest <:+ '\'' :: rest := List.suffix_cons '\'' rest
    exact (hrest.trans (List.suffix_append _ _)).trans (List.suffix_cons '\'' _)
  · rw [hrefused]
    exact List.suffix_rfl
  · rw [hrefused]
    exact List.nil_suffix

theorem unbroken_quoted : unbroken.Keeps quoted := by
  intro cs
  rcases quoted_cases cs with ⟨s, rest, hread⟩ | hrefused | hrefused
  · rw [hread]
    trivial
  · rw [hrefused]
    trivial
  · rw [hrefused]
    trivial

/-- A word breaks off at the Kelvin sign only. -/
theorem ends_keyword (hword : isBasic word = true) : ends.Keeps (keyword word) := by
  refine keeps_keyword_of_spelled (keeps_spelled hword fun {cs} hbroken => ?_)
  by_contra hsign
  exact (plainly_of_sign_notMem hword hsign).ne_broken hbroken

/-- **A reader of pipelines leaves an end of its text, on success and on failure.** -/
theorem ends_plan : ends.Keeps plan :=
  keeps_plan ends_quoted (ends_keyword (by decide)) (ends_keyword (by decide))

/-- An end of a text is not longer than the text. -/
theorem Keeps.shrinks {p : Reader α} (h : ends.Keeps p) : Shrinks p :=
  fun _ _ _ hread => (h.leaves hread).length_le

end Trail

/-! ## Brackets at any depth -/

section Brackets

open Trail

variable {α : Type} {n : Nat} {word : String} {nested nested' : Reader Expr}

theorem progresses_keyword (hword : isPlainWord word = true) (hsome : word.toList ≠ []) :
    Progresses (keyword word) := by
  intro cs u rest h
  obtain ⟨⟨s, hs, rfl⟩, -⟩ := (keyword_eq_read_iff hword).mp h
  have hletters : s.toList ≠ [] := by
    intro hnil
    rw [hnil] at hs
    exact hsome hs.symm
  rw [List.length_append]
  exact Nat.lt_add_of_pos_left (List.length_pos_iff.mpr hletters)

/-- Chains of like members are alike. -/
theorem AlikeBelow.chain {operator : Reader Op} {next next' : Reader Expr}
    (hoperator : ends.Keeps operator) (hnext : AlikeBelow n next next')
    (hends : ends.Keeps next) : AlikeBelow n (chain operator next) (chain operator next') := by
  refine hnext.bind hends.shrinks fun first => ?_
  refine AlikeBelow.bind (.many ?_) (Keeps.many ?_).shrinks fun _ => .refl n _
  · exact (refl n operator).bind hoperator.shrinks fun op =>
      hnext.bind hends.shrinks fun right => .refl n _
  · exact hoperator.bind fun _ => hends.bind fun _ => .pure _

/-- Brackets are taken off before their inside is read, so that is shorter. -/
theorem alike_operand (h : AlikeBelow n nested nested') (hends : ends.Keeps nested) :
    AlikeBelow (n + 1) (operand nested) (operand nested') := by
  have hopen : Progresses (symbol "(") := progresses_symbol (by decide)
  refine AlikeBelow.orElse ?_ (.refl _ _)
  refine AlikeBelow.behind hopen fun _ => ?_
  refine AlikeBelow.bind (.refl n _) shrinks_blanks fun _ => ?_
  exact h.bind hends.shrinks fun _ => .refl n _

/-- Sums look for the expression in brackets one character further on. -/
theorem alike_sum (h : AlikeBelow n nested nested') (hends : ends.Keeps nested) :
    AlikeBelow (n + 1) (sum nested) (sum nested') :=
  .chain keeps_termOperator
    (.chain keeps_factorOperator (alike_operand h hends) (keeps_operand ends_quoted hends))
    (keeps_product ends_quoted hends)

theorem alike_comparison (h : AlikeBelow n nested nested') (hends : ends.Keeps nested) :
    AlikeBelow (n + 1) (comparison nested) (comparison nested') := by
  have hsum := alike_sum h hends
  have hshrinks := (keeps_sum ends_quoted hends).shrinks
  have hcompared : AlikeBelow (n + 1) (comparedTo nested) (comparedTo nested') :=
    AlikeBelow.bind (.refl _ _) keeps_comparisonOperator.shrinks fun op =>
      hsum.bind hshrinks fun right => .refl _ _
  have hends' := keeps_comparedTo ends_quoted hends
  refine hsum.bind hshrinks fun left => ?_
  refine AlikeBelow.bind (.refl _ _) keeps_nullTest.attempt.shrinks fun test => ?_
  cases test with
  | some negated => cases negated <;> exact .refl _ _
  | none =>
    refine (hcompared.optional hends'.shrinks).bind hends'.optional.shrinks fun _ => ?_
    exact .refl _ _

/-- Negations look for it there as well, however many there are. -/
theorem alike_negation (h : AlikeBelow n nested nested') (hends : ends.Keeps nested) :
    AlikeBelow (n + 1) (negation nested) (negation nested') := by
  have hnot : Shrinks (keyword "not") := (progresses_keyword (by decide) (by decide)).shrinks
  have hlimit : ∀ limit, AlikeBelow (n + 1) (negationUpTo nested limit)
      (negationUpTo nested' limit) := by
    intro limit
    induction limit with
    | zero => exact alike_comparison h hends
    | succ limit ih =>
      refine AlikeBelow.orElse ?_ (alike_comparison h hends)
      refine AlikeBelow.bind (.refl _ _) hnot fun _ => ?_
      refine AlikeBelow.bind (.refl _ _) shrinks_blanks fun _ => ?_
      exact ih.map (keeps_negationUpTo ends_quoted hends limit).shrinks
  intro cs hcs
  exact hlimit cs.length hcs

/-- **Expressions are read alike below some length if those in brackets are**, which are shorter. -/
theorem alike_disjunction (h : AlikeBelow n nested nested') (hends : ends.Keeps nested) :
    AlikeBelow (n + 1) (disjunction nested) (disjunction nested') :=
  .chain (keeps_connective (by decide) .or)
    (.chain (keeps_connective (by decide) .and) (alike_negation h hends)
      (keeps_negation ends_quoted hends))
    (keeps_conjunction ends_quoted hends)

/-- Any bound on the nesting of brackets will do that exceeds the length of the text. -/
theorem alike_expressionUpTo (n m : Nat) :
    AlikeBelow (min n m) (expressionUpTo n) (expressionUpTo m) := by
  induction n generalizing m with
  | zero =>
    intro cs hcs
    rw [Nat.zero_min] at hcs
    exact absurd hcs (Nat.not_lt_zero _)
  | succ n ih =>
    cases m with
    | zero =>
      intro cs hcs
      exact absurd hcs (Nat.not_lt_zero _)
    | succ m =>
      rw [Nat.add_min_add_right]
      exact alike_disjunction (ih m) (keeps_expressionUpTo ends_quoted n)

/-- **An expression is a disjunction whose brackets hold expressions**, however deep they are. -/
theorem expression_eq_disjunction : expression = disjunction expression := by
  funext cs
  have hnested : AlikeBelow cs.length (expressionUpTo cs.length) expression := by
    intro ds hds
    exact alike_expressionUpTo cs.length (ds.length + 1) (by omega)
  exact alike_disjunction hnested (keeps_expressionUpTo ends_quoted cs.length) (Nat.lt_succ_self _)

/-- Every `not` that is read makes the text shorter, so a bound of its length is never met. -/
theorem alike_negationUpTo (hends : ends.Keeps nested) (limit limit' : Nat) :
    AlikeBelow (min limit limit' + 1) (negationUpTo nested limit) (negationUpTo nested limit') := by
  have hnot : Progresses (keyword "not") := progresses_keyword (by decide) (by decide)
  have hnil : ∀ limit, negationUpTo nested limit [] = comparison nested [] := by
    intro limit
    cases limit with
    | zero => rfl
    | succ limit =>
      have hrefused : (keyword "not").Refuses [] := ⟨[], rfl⟩
      exact hrefused.bind.orElse
  have hempty : ∀ limit limit',
      AlikeBelow 1 (negationUpTo nested limit) (negationUpTo nested limit') := by
    intro limit limit' cs hcs
    obtain rfl : cs = [] := List.length_eq_zero_iff.mp (Nat.lt_one_iff.mp hcs)
    rw [hnil, hnil]
  induction limit generalizing limit' with
  | zero =>
    rw [Nat.zero_min]
    exact hempty 0 limit'
  | succ limit ih =>
    cases limit' with
    | zero => exact hempty (limit + 1) 0
    | succ limit' =>
      rw [Nat.add_min_add_right]
      refine AlikeBelow.orElse (.behind hnot fun _ => ?_) (.refl _ _)
      refine AlikeBelow.bind (.refl _ _) shrinks_blanks fun _ => ?_
      exact (ih limit').map (keeps_negationUpTo ends_quoted hends limit).shrinks

/-- A negation is the word `not` and a negation, or a comparison. -/
theorem negation_eq (hends : ends.Keeps nested) :
    negation nested =
      ((do
        keyword "not"
        blanks
        Expr.not <$> negation nested)
      <|> comparison nested) := by
  funext cs
  have hnot : Progresses (keyword "not") := progresses_keyword (by decide) (by decide)
  have hmore : negation nested cs = negationUpTo nested (cs.length + 1) cs :=
    alike_negationUpTo hends cs.length (cs.length + 1) (by omega)
  have hshorter : AlikeBelow cs.length (negationUpTo nested cs.length) (negation nested) := by
    intro ds hds
    exact alike_negationUpTo hends cs.length ds.length (by omega)
  have hbranch : AlikeBelow (cs.length + 1) (negationUpTo nested (cs.length + 1))
      ((do
        keyword "not"
        blanks
        Expr.not <$> negation nested)
      <|> comparison nested) := by
    refine AlikeBelow.orElse (.behind hnot fun _ => ?_) (.refl _ _)
    refine AlikeBelow.bind (.refl _ _) shrinks_blanks fun _ => ?_
    exact hshorter.map (keeps_negationUpTo ends_quoted hends cs.length).shrinks
  rw [hmore, hbranch (Nat.lt_succ_self _)]

end Brackets

end EntityQuery.Pipeline
