/-
# Expressions read back

An expression that is written down is read back as it was.  Operands are single tokens or stand in
brackets, so an expression has one operator outside of all brackets.  Its operands are read up to a
blank or a closing bracket, and then the operator is refused on every level of precedence below its
own.

* `value_text`, `operand_spelling`: literals and operands are read back before a blank, a closing
  bracket or the end of the text;
* `expression_text`: expressions are read back before a closing bracket or the end of the text;
* `Expr.parse_text`: reading is a left inverse of writing.
-/
import EntityQuery.Expr.Text
import EntityQuery.Proofs.Pipeline.Expressions

namespace EntityQuery.Pipeline

open Text Reader

/-! ## Literals and columns -/

/-- Where a token may end: at a blank, at a closing bracket or with the text. -/
def EndsToken (rest : List Char) : Prop :=
  ∀ c ∈ rest.head?, c = ' ' ∨ c = ')'

namespace EndsToken

variable {rest : List Char}

/-- A token ends before a character of some other kind. -/
theorem head_of (h : EndsToken rest) {p : Char → Bool} (hblank : p ' ' = false)
    (hbracket : p ')' = false) : ∀ c ∈ rest.head?, p c = false := by
  intro c hc
  rcases h c hc with rfl | rfl
  · exact hblank
  · exact hbracket

/-- No name goes on where a token ends. -/
theorem continuesName (h : EndsToken rest) : continuesName rest = false := by
  cases rest with
  | nil => rfl
  | cons c rest => exact h.head_of (p := isNamePart) (by decide) (by decide) c rfl

/-- No string goes on where a token ends. -/
theorem mark_notMem (h : EndsToken rest) : '\'' ∉ rest.head? := by
  intro hmark
  rcases h '\'' hmark with heq | heq <;> exact absurd heq (by decide)

end EndsToken

theorem inRanges_of_isDigit {c : Char} (h : c.isDigit = true) :
    inRanges [(0x30, 0x39)] c.toNat = true := by
  obtain ⟨hlow, hhigh⟩ := (Bool.and_eq_true _ _).mp h
  exact inRanges_of_head rfl (of_decide_eq_true hlow) (of_decide_eq_true hhigh)

/-- Neither a digit nor a sign starts a name. -/
theorem not_isNameStart {c : Char} (h : c = '-' ∨ c.isDigit = true) : isNameStart c = false := by
  rcases h with rfl | hdigit
  · decide
  · have halphabetic : isAlphabetic c = false :=
      inRanges_eq_false_of_areApart (by decide +kernel) (inRanges_of_isDigit hdigit)
    have hunderscore : c ≠ '_' := by
      rintro rfl
      exact absurd hdigit (by decide)
    simp [isNameStart, halphabetic, hunderscore]

/-- An integer starts with a digit or a sign. -/
theorem refuses_integer {cs : List Char}
    (h : ∀ c ∈ cs.head?, c ≠ '-' ∧ c.isDigit = false) : integer.Refuses cs := by
  have hsign : (symbol "-").Refuses cs := by
    refine refuses_symbol fun hstarts => ?_
    obtain ⟨rest, rfl⟩ := hstarts
    exact (h '-' rfl).1 rfl
  have hdigits : digits.Refuses cs := refuses_someRun fun c hc => (h c hc).2
  exact Refuses.converted (refuses_bind_of_read hsign.optional hdigits.bind)

/-- What starts like a name is no integer. -/
theorem refuses_integer_of_isNameStart {c : Char} {cs : List Char} (h : isNameStart c = true) :
    integer.Refuses (c :: cs) := by
  have hother : ¬ (c = '-' ∨ c.isDigit = true) := by
    intro hc
    rw [not_isNameStart hc] at h
    cases h
  rw [not_or, Bool.not_eq_true] at hother
  refine refuses_integer fun d hd => ?_
  obtain rfl : c = d := Option.some.inj hd
  exact hother

/-- The text of a value has no blanks at its ends. -/
theorem solid_value (v : Value) : Solid v.text.toList := by
  cases v with
  | null => exact solid_of_isName (by decide)
  | bool b => cases b <;> exact solid_of_isName (by decide)
  | int n =>
    refine .of_forall (toString_ne_nil _) fun c hc => ?_
    rcases isDigit_of_mem_toString hc with rfl | hdigit
    · decide
    · exact inRanges_eq_false_of_areApart (by decide) (inRanges_of_isDigit hdigit)
  | string s =>
    have htext : (Value.string s).text.toList =
        ['\''] ++ (doubledChars '\'' s.toList ++ ['\'']) := by
      simp [Value.text]
    rw [htext]
    exact .append ⟨⟨'\'', rfl, by decide⟩, ⟨'\'', rfl, by decide⟩⟩
      ⟨⟨'\'', rfl, by decide⟩, ⟨'\'', rfl, by decide⟩⟩

section Literals

variable {rest : List Char}

theorem head_int (n : Int64) :
    ∀ c ∈ ((Value.int n).text.toList ++ rest).head?, isNameStart c = false := by
  intro c hc
  obtain ⟨d, ds, hds⟩ := List.exists_cons_of_ne_nil (toString_ne_nil n.toInt)
  rw [Value.text, hds] at hc
  obtain rfl : d = c := Option.some.inj hc
  exact not_isNameStart (isDigit_of_mem_toString (hds ▸ List.mem_cons_self))

/-- A string does not start like a name. -/
theorem head_string (s : String) :
    ∀ c ∈ ((Value.string s).text.toList ++ rest).head?, isNameStart c = false := by
  intro c hc
  have hmark : ((Value.string s).text.toList ++ rest).head? = some '\'' := by
    simp [Value.text]
  obtain rfl : '\'' = c := Option.some.inj (hmark.symm.trans hc)
  decide

/-- A keyword that is read stands for something. -/
theorem word_of_read {α : Type} {text : String} {cs : List Char}
    (h : keyword text cs = .read () rest) (a : α) : word text a cs = .read a rest :=
  bind_of_read h

theorem refuses_word {α : Type} {text : String} {cs : List Char} (h : (keyword text).Refuses cs)
    (a : α) : (word text a).Refuses cs :=
  h.bind

/-- Where no name starts, only an integer or a string can be read. -/
theorem value_of_head {cs : List Char} (h : ∀ c ∈ cs.head?, isNameStart c = false) :
    value cs = (Value.int <$> integer <|> Value.string <$> quoted) cs := by
  rw [value, (refuses_word (refuses_keyword_of_head (by decide) (by decide) h) _).orElse,
    (refuses_word (refuses_keyword_of_head (by decide) (by decide) h) _).orElse,
    (refuses_word (refuses_keyword_of_head (by decide) (by decide) h) _).orElse]

/-- **Literals are read back.** -/
theorem value_text (v : Value) (hrest : EndsToken rest) :
    value (v.text.toList ++ rest) = .read v rest := by
  have hname := hrest.continuesName
  have hword : ∀ {α : Type} (text : String) (a : α), isBasic text = true →
      text.toList.map Char.toLower = text.toList → word text a (text.toList ++ rest) = .read a rest :=
    fun text a hbasic hlower => word_of_read (keyword_append hbasic hlower hname) a
  have hother : ∀ {α : Type} (text other : String) (a : α), isPlainWord text = true →
      isName text = true → isName other = true → other.toList.map Char.toLower ≠ text.toList →
      (word text a).Refuses (other.toList ++ rest) :=
    fun text other a hplain htext hisName hne =>
      refuses_word (refuses_keyword_of_name hplain htext hisName hname hne) a
  cases v with
  | null => exact orElse_of_read (hword "null" _ (by decide) (by decide))
  | bool b =>
    cases b with
    | true =>
      rw [value, Value.text,
        (hother "null" "true" _ (by decide) (by decide) (by decide) (by decide)).orElse]
      exact orElse_of_read (hword "true" _ (by decide) (by decide))
    | false =>
      rw [value, Value.text,
        (hother "null" "false" _ (by decide) (by decide) (by decide) (by decide)).orElse,
        (hother "true" "false" _ (by decide) (by decide) (by decide) (by decide)).orElse]
      exact orElse_of_read (hword "false" _ (by decide) (by decide))
  | int n =>
    have hread : integer ((Value.int n).text.toList ++ rest) = .read n rest :=
      integer_toString n (hrest.head_of (by decide) (by decide))
    rw [value_of_head (head_int n)]
    exact orElse_of_read (map_of_read hread)
  | string s =>
    have hread : quoted ((Value.string s).text.toList ++ rest) = .read s rest := by
      refine quoted_eq_read_iff.mpr ⟨?_, hrest.mark_notMem⟩
      simp [Value.text]
    have hinteger : integer.Refuses ((Value.string s).text.toList ++ rest) := by
      refine refuses_integer fun c hc => ?_
      rw [(quoted_eq_read_iff.mp hread).1] at hc
      obtain rfl : '\'' = c := Option.some.inj hc
      decide
    rw [value_of_head (head_string s), hinteger.map.orElse]
    exact map_of_read hread

/-- The text of a value is not read as the word `not`. -/
theorem refuses_not_value (v : Value) (hrest : EndsToken rest) :
    (keyword "not").Refuses (v.text.toList ++ rest) := by
  have hname := hrest.continuesName
  have hother : ∀ other : String, isName other = true →
      other.toList.map Char.toLower ≠ "not".toList → (keyword "not").Refuses (other.toList ++ rest) :=
    fun other hisName hne => refuses_keyword_of_name (by decide) (by decide) hisName hname hne
  cases v with
  | null => exact hother "null" (by decide) (by decide)
  | bool b =>
    cases b with
    | true => exact hother "true" (by decide) (by decide)
    | false => exact hother "false" (by decide) (by decide)
  | int n => exact refuses_keyword_of_head (by decide) (by decide) (head_int n)
  | string s => exact refuses_keyword_of_head (by decide) (by decide) (head_string s)

end Literals

end EntityQuery.Pipeline

/-! ## Expressions that can be written -/

namespace EntityQuery

open Pipeline Text Reader

/-- The words that are not read as columns, in any case. -/
def reservedWords : List String :=
  ["null", "true", "false", "not"]

/-- The level of precedence of an operator, the innermost level first. -/
def Op.level : Op → Nat
  | mul | div | mod => 0
  | add | sub => 1
  | eq | ne | lt | le | gt | ge => 2
  | and => 3
  | or => 4

namespace Expr

/-- Whether an expression can be written so that it is read back: columns have names that are not
reserved, and there are no lists and no cases. -/
def isWritable : Expr → Bool
  | column name =>
    isName name && reservedWords.all fun word => name.toList.map Char.toLower ≠ word.toList
  | literal _ => true
  | binary _ l r => l.isWritable && r.isWritable
  | not e | isNull e | isNotNull e => e.isWritable
  | inList _ _ | caseWhen _ _ => false

/-- The characters of an expression as an operand. -/
def spelling (e : Expr) : List Char :=
  (bracketed e.isAtom e.text).toList

section Spelling

variable {e l r : Expr} {op : Op}

/-- An atom stands without brackets. -/
theorem spelling_of_isAtom (h : e.isAtom = true) : e.spelling = e.text.toList := by
  rw [spelling, bracketed, if_pos h]

/-- Any other operand stands in brackets. -/
theorem spelling_of_not_isAtom (h : e.isAtom = false) :
    e.spelling = '(' :: (e.text.toList ++ [')']) := by
  rw [spelling, bracketed, h]
  simp

theorem text_binary :
    (binary op l r).text.toList =
      l.spelling ++ (' ' :: (op.text.toList ++ [' ']) ++ r.spelling) := by
  simp [text, spelling]

theorem text_not : (not e).text.toList = "not".toList ++ ([' '] ++ e.spelling) := by
  simp [text, spelling]

theorem text_isNull : (isNull e).text.toList = e.spelling ++ (" is ".toList ++ "null".toList) := by
  simp [text, spelling]

theorem text_isNotNull :
    (isNotNull e).text.toList = e.spelling ++ (" is not ".toList ++ "null".toList) := by
  simp [text, spelling]

theorem isName_of_isWritable {name : String} (h : (column name).isWritable = true) :
    isName name = true :=
  ((Bool.and_eq_true _ _).mp h).1

/-- Nothing that is written starts or ends with a blank. -/
theorem solid_spelling (h : e.isWritable = true) : Solid e.spelling := by
  cases hatom : e.isAtom with
  | true =>
    rw [spelling_of_isAtom hatom]
    cases e with
    | column name => exact solid_of_isName (isName_of_isWritable h)
    | literal v => exact solid_value v
    | _ => cases hatom
  | false =>
    rw [spelling_of_not_isAtom hatom]
    refine ⟨⟨'(', rfl, by decide⟩, ')', ?_, by decide⟩
    rw [← List.cons_append]
    exact List.getLast?_concat

/-- The text of an expression has no blanks at its ends. -/
theorem solid_text (h : e.isWritable = true) : Solid e.text.toList := by
  have hnot : Solid "not".toList := solid_of_isName (by decide)
  have hnull : Solid "null".toList := solid_of_isName (by decide)
  cases e with
  | column name => exact solid_of_isName (isName_of_isWritable h)
  | literal v => exact solid_value v
  | binary op l r =>
    obtain ⟨hl, hr⟩ := (Bool.and_eq_true _ _).mp h
    rw [text_binary]
    exact (solid_spelling hl).append (solid_spelling hr)
  | not e =>
    rw [text_not]
    exact hnot.append (solid_spelling h)
  | isNull e =>
    have he : e.isWritable = true := h
    rw [text_isNull]
    exact (solid_spelling he).append hnull
  | isNotNull e =>
    have he : e.isWritable = true := h
    rw [text_isNotNull]
    exact (solid_spelling he).append hnull
  | inList e values => cases h
  | caseWhen c r => cases h

end Spelling

end Expr

/-! ## Operands -/

namespace Pipeline

section Operands

variable {e : Expr} {rest : List Char} {nested : Reader Expr}

/-- A column is not read as a reserved word. -/
theorem refuses_keyword_of_column {column : String} (h : (Expr.column column).isWritable = true)
    (hrest : EndsToken rest) {word : String} (hword : word ∈ reservedWords) :
    (keyword word).Refuses (column.toList ++ rest) := by
  obtain ⟨hname, hreserved⟩ := (Bool.and_eq_true _ _).mp h
  have hreservedWords : ∀ word ∈ reservedWords, isPlainWord word = true ∧ isName word = true := by
    decide
  obtain ⟨hplain, hisName⟩ := hreservedWords word hword
  have hother : column.toList.map Char.toLower ≠ word.toList :=
    of_decide_eq_true (List.all_eq_true.mp hreserved word hword)
  exact refuses_keyword_of_name hplain hisName hname hrest.continuesName hother

/-- A column that can be written is no value: its name is none of the reserved words. -/
theorem refuses_value_of_column {column : String} (h : (Expr.column column).isWritable = true)
    (hrest : EndsToken rest) : value.Refuses (column.toList ++ rest) := by
  obtain ⟨c, cs, hcs, hstart, -⟩ := exists_cons_of_isName (Expr.isName_of_isWritable h)
  have hinteger : integer.Refuses (column.toList ++ rest) := by
    rw [hcs]
    exact refuses_integer_of_isNameStart hstart
  have hquoted : quoted (column.toList ++ rest) = .refused (column.toList ++ rest) := by
    refine quoted_of_head fun hhead => ?_
    rw [hcs] at hhead
    obtain rfl : c = '\'' := Option.some.inj hhead
    exact absurd hstart (by decide)
  have hword : ∀ {word : String} (v : Value), word ∈ reservedWords →
      (Pipeline.word word v).Refuses (column.toList ++ rest) :=
    fun v hmem => refuses_word (refuses_keyword_of_column h hrest hmem) v
  rw [Refuses, value, (hword _ (by decide)).orElse, (hword _ (by decide)).orElse,
    (hword _ (by decide)).orElse, hinteger.map.orElse]
  exact Refuses.map ⟨_, hquoted⟩

/-- An operand is not read as the word `not`. -/
theorem refuses_not_spelling (h : e.isWritable = true) (hrest : EndsToken rest) :
    (keyword "not").Refuses (e.spelling ++ rest) := by
  cases hatom : e.isAtom with
  | true =>
    rw [Expr.spelling_of_isAtom hatom]
    cases e with
    | column column => exact refuses_keyword_of_column h hrest (by decide)
    | literal v => exact refuses_not_value v hrest
    | _ => cases hatom
  | false =>
    rw [Expr.spelling_of_not_isAtom hatom]
    refine refuses_keyword_of_head (by decide) (by decide) fun c hc => ?_
    obtain rfl : '(' = c := Option.some.inj hc
    decide

/-- What is read as a literal or a name is not in brackets. -/
theorem refuses_inBrackets_of_read {α : Type} {token : Reader α} {a : α} {cs : List Char}
    (hrefused : ∀ tail, token.Refuses ('(' :: tail)) (h : token cs = .read a rest) :
    (inBrackets nested).Refuses cs := by
  refine Refuses.bind (refuses_symbol fun hstarts => ?_)
  obtain ⟨tail, rfl⟩ := hstarts
  obtain ⟨left, hleft⟩ := hrefused tail
  rw [show token ("(".toList ++ tail) = .refused left from hleft] at h
  cases h

/-- **Operands are read back**, if expressions in brackets are. -/
theorem operand_spelling (h : e.isWritable = true) (hrest : EndsToken rest)
    (hinside : e.isAtom = false →
      nested (e.text.toList ++ ')' :: rest) = .read e (')' :: rest)) :
    operand nested (e.spelling ++ rest) = .read e rest := by
  cases hatom : e.isAtom with
  | true =>
    rw [Expr.spelling_of_isAtom hatom]
    cases e with
    | column column =>
      have hname := Expr.isName_of_isWritable h
      have hread : name (column.toList ++ rest) = .read column rest :=
        name_eq_read_iff.mpr ⟨rfl, hname, hrest.continuesName⟩
      have hopen : (inBrackets nested).Refuses (column.toList ++ rest) := by
        refine refuses_inBrackets_of_read (fun tail => ?_) hread
        exact ⟨'(' :: tail, rfl⟩
      rw [Expr.text, operand, hopen.orElse, (refuses_value_of_column h hrest).map.orElse]
      exact map_of_read hread
    | literal v =>
      have hread := value_text v hrest
      have hopen : (inBrackets nested).Refuses (v.text.toList ++ rest) := by
        refine refuses_inBrackets_of_read (fun tail => ?_) hread
        exact ⟨'(' :: tail, rfl⟩
      rw [Expr.text, operand, hopen.orElse]
      exact orElse_of_read (map_of_read hread)
    | _ => cases hatom
  | false =>
    have hcs : e.spelling ++ rest = '(' :: (e.text.toList ++ ')' :: rest) := by
      simp [Expr.spelling_of_not_isAtom hatom]
    have hopen : symbol "(" ('(' :: (e.text.toList ++ ')' :: rest)) =
        .read () (e.text.toList ++ ')' :: rest) := symbol_append "(" _
    have hblanks : blanks (e.text.toList ++ ')' :: rest) =
        .read () (e.text.toList ++ ')' :: rest) :=
      congrArg (Reading.read ()) ((Expr.solid_text h).skipBlanks_append _)
    have hclose : symbol ")" (')' :: rest) = .read () rest := symbol_append ")" rest
    rw [hcs]
    refine orElse_of_read ?_
    rw [inBrackets, bind_of_read hopen, bind_of_read hblanks, bind_of_read (hinside hatom),
      bind_of_read (blanks_apply _)]
    exact bind_of_read hclose

end Operands

/-! ## Operators -/

section Operators

variable {rest cs : List Char} {nested : Reader Expr} {e l r : Expr} {op : Op}

/-- An operator with blanks around it. -/
def amidText (op : Op) (cs : List Char) : List Char :=
  ' ' :: (op.text.toList ++ ' ' :: cs)

/-- An operator is read where its level of precedence has its turn, and refused elsewhere. -/
def ReadsLevel (level : Nat) (operator : Reader Op) : Prop :=
  ∀ (op : Op) (cs : List Char), if op.level = level
    then operator (amidText op cs) = .read op (skipBlanks cs)
    else operator.Refuses (amidText op cs)

/-- Products have the tightest operators. -/
theorem readsLevel_factorOperator : ReadsLevel 0 factorOperator := by
  intro op cs
  cases op with
  | mul | div | mod => rfl
  | add | sub | eq | ne | lt | le | gt | ge | and | or => exact (⟨_, rfl⟩ : Refuses _ _)

theorem readsLevel_termOperator : ReadsLevel 1 termOperator := by
  intro op cs
  cases op with
  | add | sub => rfl
  | mul | div | mod | eq | ne | lt | le | gt | ge | and | or => exact (⟨_, rfl⟩ : Refuses _ _)

theorem readsLevel_comparisonOperator : ReadsLevel 2 comparisonOperator := by
  intro op cs
  cases op with
  | eq | ne | lt | le | gt | ge => rfl
  | mul | div | mod | add | sub | and | or => exact (⟨_, rfl⟩ : Refuses _ _)

/-- Behind its blank an operator is at the front. -/
theorem skipBlanks_amidText (op : Op) (cs : List Char) :
    skipBlanks (amidText op cs) = op.text.toList ++ ' ' :: cs := by
  cases op <;> rfl

/-- An operator that is no word starts with a character that no name starts with. -/
theorem isName_or_head (op : Op) :
    isName op.text = true ∨ op.text.toList.head?.any isNameStart = false := by
  cases op with
  | and | or => exact .inl (by decide)
  | mul | div | mod | add | sub | eq | ne | lt | le | gt | ge => exact .inr (by decide)

/-- A connective is the one operator of its level, and no other is spelled like it. -/
theorem readsLevel_connective {o : Op} (hword : isPlainWord o.text = true)
    (hname : isName o.text = true) (hsmall : o.text.toList.map Char.toLower = o.text.toList)
    (hlevel : ∀ op : Op, op.level = o.level → op = o)
    (hother : ∀ op : Op, op.text.toList.map Char.toLower = o.text.toList → op = o) :
    ReadsLevel o.level (connective o.text o) := by
  intro op cs
  have hblanks : blanks (amidText op cs) = .read () (op.text.toList ++ ' ' :: cs) :=
    congrArg (Reading.read ()) (skipBlanks_amidText op cs)
  split
  next heq =>
    obtain rfl := hlevel op heq
    have hkeyword : keyword op.text (op.text.toList ++ ' ' :: cs) = .read () (' ' :: cs) :=
      keyword_append ((Bool.and_eq_true _ _).mp hword).1 hsmall rfl
    rw [connective, amidBlanks, bind_of_read hblanks, bind_of_read (word_of_read hkeyword op)]
    rfl
  next hne =>
    have hkeyword : (keyword o.text).Refuses (op.text.toList ++ ' ' :: cs) := by
      rcases isName_or_head op with hisName | hhead
      · refine refuses_keyword_of_name hword hname hisName rfl fun heq => hne ?_
        rw [hother op heq]
      · refine refuses_keyword_of_head hword hname fun c hc => ?_
        have hfirst : op.text.toList.head? = some c := by
          cases op <;> exact hc
        simpa [hfirst] using hhead
    exact refuses_bind_of_read hblanks (refuses_word hkeyword o).bind

/-- The word `and` binds more tightly than the word `or`. -/
theorem readsLevel_and : ReadsLevel 3 (connective "and" .and) :=
  readsLevel_connective (o := .and) (by decide) (by decide) (by decide)
    (by intro op; cases op <;> decide) (by intro op; cases op <;> decide)

theorem readsLevel_or : ReadsLevel 4 (connective "or" .or) :=
  readsLevel_connective (o := .or) (by decide) (by decide) (by decide)
    (by intro op; cases op <;> decide) (by intro op; cases op <;> decide)

/-- No operator is spelled like a null test. -/
theorem refuses_nullTest_amidText (op : Op) (cs : List Char) :
    nullTest.Refuses (amidText op cs) := by
  cases op <;> exact ⟨_, rfl⟩

section ReadsLevel

variable {level : Nat} {operator : Reader Op}

/-- An operator is read at its own level. -/
theorem ReadsLevel.read (h : ReadsLevel level operator) (hlevel : op.level = level)
    (hskip : skipBlanks cs = cs) : operator (amidText op cs) = .read op cs := by
  have hread := h op cs
  rwa [if_pos hlevel, hskip] at hread

theorem ReadsLevel.refuses (h : ReadsLevel level operator) (hlevel : op.level ≠ level)
    (cs : List Char) : operator.Refuses (amidText op cs) := by
  have hrefuses := h op cs
  rwa [if_neg hlevel] at hrefuses

end ReadsLevel

/-- No operator goes on with an expression here. -/
structure Stops (rest : List Char) : Prop where
  factor : factorOperator.Refuses rest
  term : termOperator.Refuses rest
  test : nullTest.Refuses rest
  comparison : comparisonOperator.Refuses rest
  and : (connective "and" .and).Refuses rest
  or : (connective "or" .or).Refuses rest

/-- Where an expression may end: at a closing bracket or with the text. -/
def Closes (rest : List Char) : Prop :=
  ∀ c ∈ rest.head?, c = ')'

theorem Closes.stops (h : Closes rest) : Stops rest := by
  cases rest with
  | nil => exact ⟨⟨_, rfl⟩, ⟨_, rfl⟩, ⟨_, rfl⟩, ⟨_, rfl⟩, ⟨_, rfl⟩, ⟨_, rfl⟩⟩
  | cons c rest =>
    obtain rfl := h c rfl
    exact ⟨⟨_, rfl⟩, ⟨_, rfl⟩, ⟨_, rfl⟩, ⟨_, rfl⟩, ⟨_, rfl⟩, ⟨_, rfl⟩⟩

/-- Where an expression may end, a token may. -/
theorem Closes.endsToken (h : Closes rest) : EndsToken rest :=
  fun c hc => .inr (h c hc)

end Operators

/-! ## Levels of precedence -/

section Levels

variable {cs mid behind rest : List Char} {nested : Reader Expr} {e l r : Expr} {op : Op}

section Chain

variable {operator : Reader Op} {next : Reader Expr}

theorem chain_of_operand (h : next cs = .read e rest) (hstop : operator.Refuses rest) :
    chain operator next cs = .read e rest := by
  rw [chain, bind_of_read h, bind_of_read hstop.bind.many]
  rfl

theorem chain_of_operator (hl : next cs = .read l mid) (hop : operator mid = .read op behind)
    (hr : next behind = .read r rest) (hlt : rest.length < mid.length)
    (hstop : operator.Refuses rest) : chain operator next cs = .read (.binary op l r) rest := by
  have hone : (operator >>= fun op => next >>= fun right => pure (op, right)) mid =
      .read (op, r) rest := by
    rw [bind_of_read hop, bind_of_read hr]
    rfl
  have hmany := (many_of_read hone hlt).trans (map_of_read hstop.bind.many)
  rw [chain, bind_of_read hl, bind_of_read hmany]
  rfl

end Chain

/-- A single operand is a sum. -/
theorem sum_of_operand (h : operand nested cs = .read e rest)
    (hfactor : factorOperator.Refuses rest) (hterm : termOperator.Refuses rest) :
    sum nested cs = .read e rest :=
  chain_of_operand (chain_of_operand h hfactor) hterm

/-- A sum with nothing behind it is a comparison. -/
theorem comparison_of_sum (h : sum nested cs = .read e rest) (htest : nullTest.Refuses rest)
    (hop : comparisonOperator.Refuses rest) : comparison nested cs = .read e rest := by
  have hcompared : (comparedTo nested).Refuses rest := hop.bind
  rw [comparison, bind_of_read h, bind_of_read htest.attempt]
  exact bind_of_read hcompared.optional

theorem comparison_of_operator (hl : sum nested cs = .read l mid) (htest : nullTest.Refuses mid)
    (hop : comparisonOperator mid = .read op behind) (hr : sum nested behind = .read r rest) :
    comparison nested cs = .read (.binary op l r) rest := by
  have hcompared : comparedTo nested mid = .read (op, r) rest := by
    rw [comparedTo, bind_of_read hop, bind_of_read hr]
    rfl
  rw [comparison, bind_of_read hl, bind_of_read htest.attempt]
  exact bind_of_read (optional_of_read hcompared)

/-- Without the word `not` in front there is nothing to negate. -/
theorem negationUpTo_of_refuses (hnot : (keyword "not").Refuses cs) (limit : Nat) :
    negationUpTo nested limit cs = comparison nested cs := by
  cases limit with
  | zero => rfl
  | succ limit => exact hnot.bind.orElse

/-- A comparison is read where no negation starts. -/
theorem negation_of_comparison (hnot : (keyword "not").Refuses cs)
    (h : comparison nested cs = .read e rest) : negation nested cs = .read e rest := by
  rw [negation, negationUpTo_of_refuses hnot, h]

/-! What is read on one level is read on the levels above it where no operator follows. -/

/-- A negation with nothing behind it is read on every level above. -/
theorem disjunction_of_negation (h : negation nested cs = .read e rest) (hstops : Stops rest) :
    disjunction nested cs = .read e rest :=
  chain_of_operand (chain_of_operand h hstops.and) hstops.or

/-- A comparison with nothing behind it is read on every level above. -/
theorem disjunction_of_comparison (hnot : (keyword "not").Refuses cs)
    (h : comparison nested cs = .read e rest) (hstops : Stops rest) :
    disjunction nested cs = .read e rest :=
  disjunction_of_negation (negation_of_comparison hnot h) hstops

theorem disjunction_of_sum (hnot : (keyword "not").Refuses cs) (h : sum nested cs = .read e rest)
    (hstops : Stops rest) : disjunction nested cs = .read e rest :=
  disjunction_of_comparison hnot (comparison_of_sum h hstops.test hstops.comparison) hstops

theorem disjunction_of_operand (hnot : (keyword "not").Refuses cs)
    (h : operand nested cs = .read e rest) (hstops : Stops rest) :
    disjunction nested cs = .read e rest :=
  disjunction_of_sum hnot (sum_of_operand h hstops.factor hstops.term) hstops

/-- **An operator is read on its own level**, whichever this is. -/
theorem disjunction_of_operator (hnot : (keyword "not").Refuses cs)
    (hl : operand nested cs = .read l (amidText op behind)) (hskip : skipBlanks behind = behind)
    (hnot' : (keyword "not").Refuses behind) (hr : operand nested behind = .read r rest)
    (hle : rest.length ≤ behind.length) (hstops : Stops rest) :
    disjunction nested cs = .read (.binary op l r) rest := by
  have hlt : rest.length < (amidText op behind).length := by
    simp only [amidText, List.length_cons, List.length_append]
    omega
  have htest := refuses_nullTest_amidText op behind
  have hrsum : sum nested behind = .read r rest := sum_of_operand hr hstops.factor hstops.term
  have hrnegation : negation nested behind = .read r rest :=
    negation_of_comparison hnot' (comparison_of_sum hrsum hstops.test hstops.comparison)
  have hlevel : op.level ≤ 4 := by
    cases op <;> decide
  -- an operator is refused on the levels below its own, where the left operand is taken alone
  by_cases hzero : op.level = 0
  · have hproduct : product nested cs = .read (.binary op l r) rest :=
      chain_of_operator hl (readsLevel_factorOperator.read hzero hskip) hr hlt hstops.factor
    exact disjunction_of_sum hnot (chain_of_operand hproduct hstops.term) hstops
  have hfactor := readsLevel_factorOperator.refuses hzero behind
  by_cases hone : op.level = 1
  · have hlproduct : product nested cs = .read l (amidText op behind) := chain_of_operand hl hfactor
    have hrproduct : product nested behind = .read r rest := chain_of_operand hr hstops.factor
    have hsum : sum nested cs = .read (.binary op l r) rest :=
      chain_of_operator hlproduct (readsLevel_termOperator.read hone hskip) hrproduct hlt hstops.term
    exact disjunction_of_sum hnot hsum hstops
  have hlsum : sum nested cs = .read l (amidText op behind) :=
    sum_of_operand hl hfactor (readsLevel_termOperator.refuses hone behind)
  by_cases htwo : op.level = 2
  · have hop := readsLevel_comparisonOperator.read htwo hskip
    exact disjunction_of_comparison hnot (comparison_of_operator hlsum htest hop hrsum) hstops
  have hcomparison := readsLevel_comparisonOperator.refuses htwo behind
  have hlnegation : negation nested cs = .read l (amidText op behind) :=
    negation_of_comparison hnot (comparison_of_sum hlsum htest hcomparison)
  by_cases hthree : op.level = 3
  · have hconjunction : conjunction nested cs = .read (.binary op l r) rest :=
      chain_of_operator hlnegation (readsLevel_and.read hthree hskip) hrnegation hlt hstops.and
    exact chain_of_operand hconjunction hstops.or
  · have hfour : op.level = 4 := by omega
    have hlconjunction : conjunction nested cs = .read l (amidText op behind) :=
      chain_of_operand hlnegation (readsLevel_and.refuses hthree behind)
    have hrconjunction : conjunction nested behind = .read r rest :=
      chain_of_operand hrnegation hstops.and
    exact chain_of_operator hlconjunction (readsLevel_or.read hfour hskip) hrconjunction hlt
      hstops.or

/-- A negation is read from the word `not` and what is negated. -/
theorem disjunction_of_not (h : keyword "not" cs = .read () mid) (hskip : skipBlanks mid = behind)
    (hnot : (keyword "not").Refuses behind) (hr : operand nested behind = .read e rest)
    (hstops : Stops rest) : disjunction nested cs = .read (.not e) rest := by
  have hcompared : comparison nested behind = .read e rest :=
    comparison_of_sum (sum_of_operand hr hstops.factor hstops.term) hstops.test hstops.comparison
  have hblanks : blanks mid = .read () behind := congrArg (Reading.read ()) hskip
  obtain ⟨limit, hlimit⟩ : ∃ limit, cs.length = limit + 1 := by
    cases cs with
    | nil => cases h
    | cons c cs => exact ⟨cs.length, rfl⟩
  have hinner : negationUpTo nested limit behind = .read e rest :=
    (negationUpTo_of_refuses hnot limit).trans hcompared
  refine disjunction_of_negation ?_ hstops
  rw [negation, hlimit, negationUpTo]
  refine orElse_of_read ?_
  rw [bind_of_read h, bind_of_read hblanks, map_of_read hinner]

theorem disjunction_of_nullTest (negated : Bool) (hnot : (keyword "not").Refuses cs)
    (hl : operand nested cs = .read e mid) (hfactor : factorOperator.Refuses mid)
    (hterm : termOperator.Refuses mid) (htest : nullTest mid = .read negated rest)
    (hstops : Stops rest) :
    disjunction nested cs =
      .read (if negated then .isNotNull e else .isNull e) rest := by
  refine disjunction_of_comparison hnot ?_ hstops
  rw [comparison, bind_of_read (sum_of_operand hl hfactor hterm),
    bind_of_read (attempt_of_read htest)]
  cases negated <;> rfl

end Levels

/-! ## Expressions -/

section Expressions

variable {e : Expr} {rest : List Char}

/-- The word `null` is read at the end of an expression. -/
theorem keyword_null (hrest : Closes rest) :
    keyword "null" ("null".toList ++ rest) = .read () rest :=
  keyword_append (by decide) (by decide) hrest.endsToken.continuesName

/-- A null test starts with the word `is` and a blank. -/
theorem nullTest_is (cs : List Char) :
    nullTest (" is ".toList ++ cs) = nullEnding (skipBlanks cs) := by
  have hblanks : blanks (" is ".toList ++ cs) = .read () ("is".toList ++ ' ' :: cs) := rfl
  have hkeyword : keyword "is" ("is".toList ++ ' ' :: cs) = .read () (' ' :: cs) :=
    keyword_append (by decide) (by decide) rfl
  have hsome : someBlanks (' ' :: cs) = .read () (skipBlanks cs) :=
    bind_of_read (someRun_cons cs rfl)
  rw [nullTest_eq, bind_of_read hblanks, bind_of_read hkeyword, bind_of_read hsome]

/-- A null test is read at the end of an expression. -/
theorem nullTest_is_null (hrest : Closes rest) :
    nullTest (" is ".toList ++ ("null".toList ++ rest)) = .read false rest := by
  have hnot : (keyword "not").Refuses ("null".toList ++ rest) :=
    refuses_not_value .null hrest.endsToken
  have hskip : skipBlanks ("null".toList ++ rest) = "null".toList ++ rest := rfl
  rw [nullTest_is, hskip, nullEnding, bind_of_read hnot.bind.optional]
  exact bind_of_read (keyword_null hrest)

theorem nullTest_is_not_null (hrest : Closes rest) :
    nullTest (" is not ".toList ++ ("null".toList ++ rest)) = .read true rest := by
  have hcs : " is not ".toList ++ ("null".toList ++ rest) =
      " is ".toList ++ ("not".toList ++ ' ' :: ("null".toList ++ rest)) := rfl
  have hskip : skipBlanks ("not".toList ++ ' ' :: ("null".toList ++ rest)) =
      "not".toList ++ ' ' :: ("null".toList ++ rest) := rfl
  have hkeyword : keyword "not" ("not".toList ++ ' ' :: ("null".toList ++ rest)) =
      .read () (' ' :: ("null".toList ++ rest)) :=
    keyword_append (by decide) (by decide) rfl
  have hsome : someBlanks (' ' :: ("null".toList ++ rest)) = .read () ("null".toList ++ rest) :=
    bind_of_read (someRun_cons _ rfl)
  have hnot : (keyword "not" >>= fun _ => someBlanks)
      ("not".toList ++ ' ' :: ("null".toList ++ rest)) = .read () ("null".toList ++ rest) :=
    (bind_of_read hkeyword).trans hsome
  rw [hcs, nullTest_is, hskip, nullEnding, bind_of_read (optional_of_read hnot)]
  exact bind_of_read (keyword_null hrest)

/-- **An atom is read back.** -/
theorem expression_of_isAtom (hatom : e.isAtom = true) (h : e.isWritable = true)
    (hrest : Closes rest) : expression (e.text.toList ++ rest) = .read e rest := by
  have hends := hrest.endsToken
  rw [← Expr.spelling_of_isAtom hatom, expression_eq_disjunction]
  exact disjunction_of_operand (refuses_not_spelling h hends)
    (operand_spelling h hends (by simp [hatom])) hrest.stops

/-- An operand that is no single token is an expression before a closing bracket. -/
theorem operand_of_expression (h : e.isWritable = true)
    (hread : ∀ {rest}, Closes rest → expression (e.text.toList ++ rest) = .read e rest)
    (hrest : EndsToken rest) : operand expression (e.spelling ++ rest) = .read e rest := by
  refine operand_spelling h hrest fun _ => hread ?_
  intro c hc
  exact (Option.some.inj hc).symm

/-- **Expressions are read back** before a closing bracket or the end of the text. -/
theorem expression_text (h : e.isWritable = true) (hrest : Closes rest) :
    expression (e.text.toList ++ rest) = .read e rest := by
  have hblank : ∀ cs, EndsToken (' ' :: cs) := by
    intro cs c hc
    exact .inl (Option.some.inj hc).symm
  induction e generalizing rest with
  | column column => exact expression_of_isAtom rfl h hrest
  | literal v => exact expression_of_isAtom rfl h hrest
  | binary op l r ihl ihr =>
    obtain ⟨hl, hr⟩ := (Bool.and_eq_true _ _).mp h
    have hcs : (Expr.binary op l r).text.toList ++ rest =
        l.spelling ++ amidText op (r.spelling ++ rest) := by
      simp [Expr.text_binary, amidText]
    rw [hcs, expression_eq_disjunction]
    exact disjunction_of_operator (refuses_not_spelling hl (hblank _))
      (operand_of_expression hl (ihl hl) (hblank _))
      ((Expr.solid_spelling hr).skipBlanks_append rest) (refuses_not_spelling hr hrest.endsToken)
      (operand_of_expression hr (ihr hr) hrest.endsToken) (List.suffix_append _ rest).length_le
      hrest.stops
  | not e ih =>
    have he : e.isWritable = true := h
    have hnot : keyword "not" ((Expr.not e).text.toList ++ rest) =
        .read () (' ' :: (e.spelling ++ rest)) := by
      have hcs : (Expr.not e).text.toList ++ rest =
          "not".toList ++ (' ' :: (e.spelling ++ rest)) := by
        simp [Expr.text_not]
      rw [hcs]
      exact keyword_append (by decide) (by decide) (hblank _).continuesName
    rw [expression_eq_disjunction]
    exact disjunction_of_not hnot ((Expr.solid_spelling he).skipBlanks_append rest)
      (refuses_not_spelling he hrest.endsToken) (operand_of_expression he (ih he) hrest.endsToken)
      hrest.stops
  | isNull e ih =>
    have he : e.isWritable = true := h
    have hcs : (Expr.isNull e).text.toList ++ rest =
        e.spelling ++ (" is ".toList ++ ("null".toList ++ rest)) := by
      simp [Expr.text_isNull]
    rw [hcs, expression_eq_disjunction]
    exact disjunction_of_nullTest false (refuses_not_spelling he (hblank _))
      (operand_of_expression he (ih he) (hblank _)) ⟨_, rfl⟩ ⟨_, rfl⟩ (nullTest_is_null hrest)
      hrest.stops
  | isNotNull e ih =>
    have he : e.isWritable = true := h
    have hcs : (Expr.isNotNull e).text.toList ++ rest =
        e.spelling ++ (" is not ".toList ++ ("null".toList ++ rest)) := by
      simp [Expr.text_isNotNull]
    rw [hcs, expression_eq_disjunction]
    exact disjunction_of_nullTest true (refuses_not_spelling he (hblank _))
      (operand_of_expression he (ih he) (hblank _)) ⟨_, rfl⟩ ⟨_, rfl⟩ (nullTest_is_not_null hrest)
      hrest.stops
  | inList e values => cases h
  | caseWhen c r => cases h

end Expressions

end Pipeline

/-- **Reading is a left inverse of writing**: an expression that can be written is read back as it
was. -/
theorem Expr.parse_text (e : Expr) (h : e.isWritable = true) : Expr.parse e.text = .ok e := by
  have hsolid := solid_text h
  have hstart := hsolid.skipBlanks_append []
  have hread : expression (e.text.toList ++ []) = .read e [] :=
    expression_text h (by intro c hc; cases hc)
  rw [List.append_nil] at hstart hread
  have hblanks : blanks e.text.toList = .read () e.text.toList :=
    congrArg (Reading.read ()) hstart
  rw [Expr.parse, Reader.parse_eq_ok_iff, hsolid.trimEnd_eq, amidBlanks, bind_of_read hblanks,
    bind_of_read hread]
  rfl

/-- Among the columns are `is` and `nothing`, among the literals the least integer and a text with
an apostrophe. -/
theorem Expr.parse_text_leastInteger :
    Expr.parse "((is - -9223372036854775808) is not null) and (not (nothing <> 'it''s (or) not'))" =
      .ok (.and (.isNotNull (.binary .sub (.column "is") (.literal (.int Int64.minValue))))
        (.not (.binary .ne (.column "nothing") (.literal (.string "it's (or) not"))))) :=
  Expr.parse_text
    (.and (.isNotNull (.binary .sub (.column "is") (.literal (.int Int64.minValue))))
      (.not (.binary .ne (.column "nothing") (.literal (.string "it's (or) not")))))
    rfl

end EntityQuery
