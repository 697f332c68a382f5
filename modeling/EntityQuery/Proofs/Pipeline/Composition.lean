/-
# Pipelines put behind one another

A pipeline may be written down in parts: the stages that a text adds to one plan it adds to any
other.  What has to be shown is that the text behind a bar has no say in how the text before it is
read, although readers look ahead and backtrack.  A string that is opened and not closed could reach
across the bar; but a text that is read to its end has its apostrophes in pairs, and so has every
rest that is met on the way.

* `indistinct_goesOn`: no reader sees whether such a text ends or goes on behind a bar;
* `Staged.append`: stages read from two texts are read from both in a row;
* `Plan.parse_append_stages`: pipelines compose.
-/
import EntityQuery.Proofs.Pipeline.Stages

namespace EntityQuery.Pipeline

open Text Reader Trail

/-! ## Apostrophes in pairs -/

/-- Apostrophes are taken in pairs. -/
def inPairs : Trail where
  Leaves cs rest := cs.count '\'' % 2 = rest.count '\'' % 2
  Fails _ _ := True
  Breaks _ := True
  refl _ := rfl
  trans := Eq.trans
  fails_refl _ := trivial
  fails_trans _ _ := trivial
  breaks_trans _ _ := trivial
  cons cs hc := by rw [List.count_cons_of_ne hc]

/-- A string takes its two marks and doubles every apostrophe in it. -/
theorem inPairs_quoted : inPairs.Keeps quoted := by
  intro cs
  rcases quoted_cases cs with ⟨s, rest, hread⟩ | hrefused | hrefused
  · rw [hread]
    obtain ⟨rfl, -⟩ := quoted_eq_read_iff.mp hread
    have hcount := count_doubledChars '\'' '\'' s.toList
    rw [if_pos rfl] at hcount
    show List.count _ _ % 2 = List.count _ _ % 2
    simp only [List.count_cons_self, List.count_append, hcount]
    omega
  · rw [hrefused]
    trivial
  · rw [hrefused]
    trivial

/-- A keyword takes no apostrophe. -/
theorem inPairs_keyword {word : String} (hword : isBasic word = true) :
    inPairs.Keeps (keyword word) :=
  keeps_keyword_of_spelled (keeps_spelled hword fun _ => trivial)

/-- The number of apostrophes is even. -/
def Paired (cs : List Char) : Prop :=
  cs.count '\'' % 2 = 0

theorem paired_cons {c : Char} {cs : List Char} (hc : c ≠ '\'') : Paired (c :: cs) ↔ Paired cs := by
  rw [Paired, Paired, List.count_cons_of_ne hc]

/-- Blanks have no apostrophes among them. -/
theorem paired_of_blank {cs : List Char} (h : skipBlanks cs = []) : Paired cs := by
  have hblank : ∀ c ∈ cs, isBlank c = true := List.dropWhile_eq_nil_iff.mp h
  have hcount : cs.count '\'' = 0 := by
    rw [List.count_eq_zero]
    intro hmem
    exact ne_mark_of_isBlank (hblank _ hmem) rfl
  rw [Paired, hcount]

/-- **A text that is read to its end has its apostrophes in pairs.** -/
theorem paired_of_staged {cs last : List Char} {stages : List Stage}
    (h : Staged cs stages last) (hend : skipBlanks last = []) : Paired cs := by
  have hkeeps : inPairs.Keeps (many furtherStage) :=
    (keeps_furtherStage inPairs_quoted (inPairs_keyword (by decide))
      (inPairs_keyword (by decide))).many
  exact (hkeeps.leaves (many_furtherStage_eq_read_iff.mpr h)).trans (paired_of_blank hend)

/-! ## Going on behind a bar -/

/-- The first text has its apostrophes in pairs, and the second goes on behind it with blanks, a bar
and a further text. -/
def GoesOn (tail cs ds : List Char) : Prop :=
  Paired cs ∧ ∃ blanks, (∀ c ∈ blanks, isBlank c = true) ∧ ds = cs ++ (blanks ++ '|' :: tail)

section GoesOn

variable {tail cs ds : List Char}

section Blanks

variable {blanks : List Char} (hblanks : ∀ c ∈ blanks, isBlank c = true)
include hblanks

/-- Behind blanks the bar comes first. -/
theorem skipBlanks_append_bar : skipBlanks (blanks ++ '|' :: tail) = '|' :: tail := by
  rw [skipBlanks, List.dropWhile_append_of_pos hblanks]
  rfl

/-- Where a text goes on, it goes on with a blank or a bar. -/
theorem not_isPlain_of_mem_head? {c : Char} (hc : c ∈ (blanks ++ '|' :: tail).head?) :
    isPlain c = false ∧ c ≠ '\'' := by
  cases blanks with
  | nil =>
    obtain rfl : '|' = c := Option.some.inj hc
    decide
  | cons b blanks =>
    obtain rfl : b = c := Option.some.inj hc
    have hblank := hblanks b List.mem_cons_self
    exact ⟨isPlain_of_isBlank hblank, ne_mark_of_isBlank hblank⟩

end Blanks

/-- A string that is closed is closed in both texts, and the marks do not allow for another one. -/
theorem agree_quoted_goesOn (tail : List Char) (n : Nat) : AgreesBelow (GoesOn tail) n quoted := by
  rintro cs ds ⟨hpaired, blanks, hblanks, rfl⟩ -
  have hmark : '\'' ∉ (blanks ++ '|' :: tail).head? := by
    intro hhead
    exact (not_isPlain_of_mem_head? hblanks hhead).2 rfl
  by_cases hopen : cs.head? = some '\''
  · obtain ⟨body, rfl⟩ := List.head?_eq_some_iff.mp hopen
    cases hcontent : quotedContent '\'' body with
    | none =>
      -- the mark opens a string that is not closed, so that it is the odd one
      have heven := even_marks_of_quotedContent_none hcontent
      rw [Paired, List.count_cons_self] at hpaired
      omega
    | some read =>
      obtain ⟨content, rest⟩ := read
      have hread : quoted ('\'' :: body) = .read (String.ofList content) rest := by
        rw [quoted_cons, hcontent]
      obtain ⟨hcs, hrest⟩ := quoted_eq_read_iff.mp hread
      have hlonger : quoted ('\'' :: body ++ (blanks ++ '|' :: tail)) =
          .read (String.ofList content) (rest ++ (blanks ++ '|' :: tail)) := by
        rw [quoted_eq_read_iff]
        constructor
        · simp [hcs]
        · cases rest with
          | nil => exact hmark
          | cons c rest => exact hrest
      have hpaired' : Paired rest := (inPairs_quoted.leaves hread).symm.trans hpaired
      rw [hread, hlonger]
      exact .read _ ⟨hpaired', blanks, hblanks, rfl⟩ (ends_quoted.leaves hread).length_le
  · have hopen' : (cs ++ (blanks ++ '|' :: tail)).head? ≠ some '\'' := by
      cases cs with
      | nil => exact hmark
      | cons c body => exact hopen
    rw [quoted_of_head hopen, quoted_of_head hopen']
    exact .refused _ _

/-- **No reader sees whether a text ends or goes on behind a bar.** -/
theorem indistinct_goesOn (tail : List Char) : Indistinct (GoesOn tail) where
  cons := by
    rintro c cs ds ⟨hpaired, blanks, hblanks, rfl⟩
    refine ⟨cs ++ (blanks ++ '|' :: tail), rfl, fun hc => ?_⟩
    exact ⟨(paired_cons hc).mp hpaired, blanks, hblanks, rfl⟩
  nil := by
    rintro ds ⟨hpaired, blanks, hblanks, rfl⟩
    rw [List.nil_append, skipBlanks_append_bar hblanks]
    exact ⟨⟨hpaired, [], by simp, rfl⟩, fun c hc => (not_isPlain_of_mem_head? hblanks hc).1⟩
  agree_quoted := agree_quoted_goesOn tail

/-! ## Stages in a row -/

/-- Blanks before the first bar do not count. -/
theorem Staged.of_bar {last : List Char} {stages : List Stage} (h : Staged cs stages last)
    (hcs : skipBlanks cs = '|' :: tail) (hds : skipBlanks ds = '|' :: tail) :
    Staged ds stages last := by
  cases h with
  | done hend =>
    rw [hcs] at hend
    exact absurd rfl hend
  | more hbar hstage hothers => exact .more (hds.trans (hcs.symm.trans hbar)) hstage hothers

/-- **Stages that are read from two texts are read from both in a row.** -/
theorem Staged.append {last last' : List Char} {stages more : List Stage}
    (h : Staged cs stages last) (hend : skipBlanks last = []) (hgoes : GoesOn tail cs ds)
    (hmore : Staged ('|' :: tail) more last') : Staged ds (stages ++ more) last' := by
  have hS := indistinct_goesOn tail
  -- every stage of the first text is read from the longer one as well, up to the added bar
  induction h generalizing ds with
  | @done cs _ =>
    obtain ⟨-, blanks, hblanks, rfl⟩ := hgoes
    have hcs : ∀ c ∈ cs, isBlank c = true := List.dropWhile_eq_nil_iff.mp hend
    have hbar : skipBlanks (cs ++ (blanks ++ '|' :: tail)) = '|' :: tail := by
      rw [skipBlanks, List.dropWhile_append_of_pos hcs]
      exact skipBlanks_append_bar hblanks
    exact hmore.of_bar rfl hbar
  | more hbar hstage _ ih =>
    have hskipped := hS.related_skipBlanks hgoes
    rw [hbar] at hskipped
    obtain ⟨behindBar, hds, hbehind⟩ := hS.cons hskipped
    have hafter := hS.related_skipBlanks (hbehind (by decide))
    have hagree := hS.agree_stage hafter (Nat.lt_succ_self _)
    rw [hstage] at hagree
    rcases hagree.cases with ⟨_, _, rest', hx, hy, hrest, -⟩ | ⟨⟨_, hx⟩, -⟩ | hx
    · obtain ⟨rfl, rfl⟩ := Reading.read.inj hx
      exact .more hds hy (ih hend hrest)
    · cases hx
    · cases hx

end GoesOn

/-- A text with a further one behind a bar is trimmed behind the bar. -/
theorem trimEnd_append_bar (text rest : String) :
    trimEnd (text ++ " | " ++ rest).toList =
      text.toList ++ ' ' :: '|' :: trimEnd (' ' :: rest.toList) := by
  have hsplit : (text ++ " | " ++ rest).toList =
      (text.toList ++ [' ']) ++ '|' :: ' ' :: rest.toList := by
    simp
  rw [hsplit, trimEnd_append_cons (by decide)]
  simp

/-- Blanks at the front are skipped whatever stands at the end. -/
theorem skipBlanks_append {cs : List Char} (h : skipBlanks cs ≠ []) (ds : List Char) :
    skipBlanks (cs ++ ds) = skipBlanks cs ++ ds := by
  have hsome : (cs.dropWhile isBlank).isEmpty = false := List.isEmpty_eq_false_iff.mpr h
  rw [skipBlanks, List.dropWhile_append, hsome]
  rfl

end EntityQuery.Pipeline

/-! ## Pipelines in a row -/

namespace EntityQuery

open Pipeline Text

namespace Plan

/-- The stages of a plan in the order in which a pipeline names them. -/
def pipeline : Plan → List Stage
  | source _ => []
  | filter predicate p => p.pipeline ++ [.filter predicate]
  | project columns p => p.pipeline ++ [.project columns]
  | sort keys p => p.pipeline ++ [.sort keys]
  | skip n p => p.pipeline ++ [.skip n]
  | take n p => p.pipeline ++ [.take n]
  | ofType subtype p => p.pipeline ++ [.ofType subtype]

/-- Stages that are applied one after the other stand behind those of the plan. -/
theorem pipeline_foldl (p : Plan) (added : List Stage) :
    (added.foldl Stage.apply p).pipeline = p.pipeline ++ added := by
  induction added generalizing p with
  | nil => simp
  | cons first others ih =>
    have hfirst : (Stage.apply p first).pipeline = p.pipeline ++ [first] := by
      cases first <;> rfl
    rw [List.foldl_cons, ih, hfirst, List.append_assoc, List.singleton_append]

/-- No stage changes the relation that a plan starts from. -/
theorem relation_foldl (p : Plan) (added : List Stage) :
    (added.foldl Stage.apply p).relation = p.relation := by
  induction added generalizing p with
  | nil => rfl
  | cons first others ih =>
    have hfirst : (Stage.apply p first).relation = p.relation := by
      cases first <;> rfl
    rw [List.foldl_cons, ih, hfirst]

/-- A text that adds stages to a relation named right before it is the bar and these stages. -/
theorem staged_of_parse {relation rest : String} {added : List Stage}
    (h : Plan.parse (relation ++ " | " ++ rest) =
      .ok (added.foldl Stage.apply (.source relation))) :
    ∃ last, Staged ('|' :: trimEnd (' ' :: rest.toList)) added last ∧ skipBlanks last = [] := by
  obtain ⟨relation', behind, added', last, hname, hstages, hend, hplan⟩ := parse_eq_ok_iff.mp h
  have hrelation : relation = relation' := by
    simpa only [relation_foldl, Plan.relation] using congrArg Plan.relation hplan
  have hadded : added = added' := by
    simpa only [pipeline_foldl, pipeline, List.nil_append] using congrArg Plan.pipeline hplan
  subst hrelation hadded
  obtain ⟨hcs, hisName, -⟩ := name_eq_read_iff.mp hname
  rw [trimEnd_append_bar, (solid_of_isName hisName).skipBlanks_append,
    List.append_cancel_left_eq] at hcs
  subst hcs
  exact ⟨last, hstages.of_bar rfl rfl, hend⟩

/-- **Pipelines compose**: the stages that a text adds to a relation it adds to every plan that was
read before it. -/
theorem parse_append_stages {first rest relation : String} {plan : Plan} {added : List Stage}
    (htrimmed : ∀ c ∈ first.toList.getLast?, isWhiteSpace c = false)
    (hfirst : Plan.parse first = .ok plan)
    (hrest : Plan.parse (relation ++ " | " ++ rest) =
      .ok (added.foldl Stage.apply (.source relation))) :
    Plan.parse (first ++ " | " ++ rest) = .ok (added.foldl Stage.apply plan) := by
  obtain ⟨last', hadded, hend'⟩ := staged_of_parse hrest
  obtain ⟨source, behind, stages, last, hname, hstages, hend, rfl⟩ := parse_eq_ok_iff.mp hfirst
  rw [trimEnd_of_getLast? htrimmed] at hname
  have hsome : skipBlanks first.toList ≠ [] := by
    intro hnil
    rw [hnil] at hname
    cases hname
  obtain ⟨hcs, hisName, hbehind⟩ := name_eq_read_iff.mp hname
  -- the name of the relation does not grow, since a blank follows where it ended the text
  have hfollows : continuesName (behind ++ ' ' :: '|' :: trimEnd (' ' :: rest.toList)) = false := by
    cases behind with
    | nil => rfl
    | cons c cs => exact hbehind
  have hgoes : GoesOn (trimEnd (' ' :: rest.toList)) behind
      (behind ++ ' ' :: '|' :: trimEnd (' ' :: rest.toList)) :=
    ⟨paired_of_staged hstages hend, [' '], List.forall_mem_singleton.mpr rfl, rfl⟩
  refine parse_eq_ok_iff.mpr ⟨source, _, stages ++ added, last', ?_,
    hstages.append hend hgoes hadded, hend', (List.foldl_append ..).symm⟩
  rw [trimEnd_append_bar, skipBlanks_append hsome, name_eq_read_iff, hcs]
  exact ⟨List.append_assoc .., hisName, hfollows⟩

/-- A bar in a string is no bar between stages, and a connective may be left over before the real
one. -/
theorem parse_append_stages_barInText :
    Plan.parse ("Pets | where Name <> 'Tom | Bob' and not" ++ " | " ++ "order Id desc | skip 2") =
      .ok (.skip 2 (.sort [⟨.column "Id", .desc⟩]
        (.filter (.and (.binary .ne (.column "Name") (.literal (.string "Tom | Bob"))) (.column "not"))
          (.source "Pets")))) := by
  have hfirst : Plan.parse "Pets | where Name <> 'Tom | Bob' and not" =
      .ok (.filter (.and (.binary .ne (.column "Name") (.literal (.string "Tom | Bob"))) (.column "not"))
        (.source "Pets")) := by
    decide +kernel
  have hrest : Plan.parse ("X" ++ " | " ++ "order Id desc | skip 2") =
      .ok ([Stage.sort [⟨.column "Id", .desc⟩], .skip 2].foldl Stage.apply (.source "X")) := by
    decide +kernel
  refine parse_append_stages ?_ hfirst hrest
  intro c hc
  obtain rfl : 't' = c := Option.some.inj hc
  rfl

end Plan

end EntityQuery
