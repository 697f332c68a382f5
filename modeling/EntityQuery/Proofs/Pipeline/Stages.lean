/-
# Stages that are read alike

Related texts that no token tells apart (`Indistinct`) hold the same lists of items and the same
stages.  The words `skip` and `take` have the letter `k`, for which the Kelvin sign may stand.  How
such a word is read depends on what follows, but no stage ever comes of it.

* `Indistinct.agree_stage`: stages agree;
* `many_furtherStage_eq_read_iff`: several stages are read one after the other (`Staged`);
* `Plan.parse_eq_ok_iff`: the form of a pipeline.
-/
import EntityQuery.Proofs.Pipeline.Expressions

namespace EntityQuery.Pipeline

open Text Reader Trail

variable {α : Type} {S : List Char → List Char → Prop} {n : Nat} {cs ds : List Char}
  {word : String}

/-! ## Words with the letter `k` -/

/-- The text has the letters before a `k` and then the Kelvin sign. -/
def HasSign (front cs : List Char) : Prop :=
  ∃ s tail, s.map Char.toLower = front ∧ cs = s ++ kelvinSign :: tail

/-- Where the Kelvin sign does not stand for the only `k`, a word is read plainly. -/
theorem plainly_of_not_hasSign {front back : List Char} (hword : isBasic word = true)
    (hletters : word.toList = front ++ 'k' :: back) (hfront : 'k' ∉ front) (hback : 'k' ∉ back)
    (hsign : ¬ HasSign front cs) : Plainly word cs := by
  have hplain : ∀ {letter c}, letter ≠ 'k' → isCaseOf letter c = true → c.toLower = letter := by
    intro letter c hk hcase
    rcases isCaseOf_iff.mp hcase with hlower | ⟨hkelvin, -⟩
    · exact hlower
    · exact absurd hkelvin hk
  refine plainly_of_forms hword ?_
  rw [hletters]
  clear hletters hword
  -- the induction is on the letters before the `k`, each of which stands against one character
  induction front generalizing cs with
  | nil =>
    intro hall
    cases cs with
    | nil => simp
    | cons c cs =>
      rw [List.nil_append, List.zip_cons_cons, List.all_cons, Bool.and_eq_true] at hall
      obtain ⟨hc, hall⟩ := hall
      rw [List.nil_append, List.zip_cons_cons, List.forall_mem_cons]
      constructor
      · rcases isCaseOf_iff.mp hc with hlower | ⟨-, hkelvin⟩
        · exact hlower
        · exact absurd ⟨[], cs, rfl, congrArg (· :: cs) hkelvin⟩ hsign
      · intro pair hpair
        refine hplain (fun hk => hback ?_) (List.all_eq_true.mp hall pair hpair)
        rw [← hk]
        exact (List.of_mem_zip hpair).2
  | cons letter front ih =>
    intro hall
    cases cs with
    | nil => simp
    | cons c cs =>
      rw [List.mem_cons, not_or] at hfront
      rw [List.cons_append, List.zip_cons_cons, List.all_cons, Bool.and_eq_true] at hall
      rw [List.cons_append, List.zip_cons_cons, List.forall_mem_cons]
      have hc := hplain (Ne.symm hfront.1) hall.1
      refine ⟨hc, ih hfront.2 (fun h => hsign ?_) hall.2⟩
      obtain ⟨s, tail, hs, rfl⟩ := h
      exact ⟨c :: s, tail, by rw [List.map_cons, hc, hs], rfl⟩

/-- The Kelvin sign is three bytes long, the letter `k` one. -/
theorem utf8Size_kelvinSign : kelvinSign.utf8Size = 3 :=
  rfl

/-- Behind the Kelvin sign the word `skip` leaves the text, if that goes on as the word does. -/
theorem spelled_skip_of_sign {c : Char} (hc : c.toLower = 's') (tail : List Char) :
    spelled "skip" (c :: kelvinSign :: tail) =
      if (tail.zip ['i', 'p']).all (fun (c, letter) => isCaseOf letter c) then .read () tail
      else .refused (c :: kelvinSign :: tail) := by
  have hs : [c].map Char.toLower = ['s'] := congrArg (fun c => [c]) hc
  have hletters : "skip".toList = ['s'] ++ ['k', 'i', 'p'] := rfl
  have hspelled := spelled_append_append (by decide) hletters hs (kelvinSign :: tail)
  have hsign : isCaseOf 'k' kelvinSign = true := rfl
  have hbytes : byteLength ['k', 'i', 'p'] = 3 := rfl
  have hle : 3 ≤ byteLength (kelvinSign :: tail) := Nat.le_add_right 3 _
  -- the bytes of the word end behind the sign
  have hdrop : dropBytes 3 (kelvinSign :: tail) = some tail := by
    simp [dropBytes, utf8Size_kelvinSign]
  simpa only [List.singleton_append, List.zip_cons_cons, List.all_cons, hsign, hbytes, hle, hdrop,
    decide_true, Bool.true_and, Bool.and_true, Option.elim] using hspelled

/-- Where the Kelvin sign stands in the word `skip`, no count follows: the text ends behind the
sign, or a name goes on there. -/
theorem refuses_skip_of_sign {c : Char} (hc : c.toLower = 's') (tail : List Char) :
    (argument "skip" count).Refuses (c :: kelvinSign :: tail) := by
  have hspelled := spelled_skip_of_sign hc tail
  split at hspelled
  next hall =>
    cases tail with
    | nil =>
      have hkeyword : keyword "skip" [c, kelvinSign] = .read () [] := bind_of_read hspelled
      have hcount : count.Refuses [] := ⟨[], rfl⟩
      exact refuses_bind_of_read hkeyword (refuses_bind_of_read rfl hcount)
    | cons d tail =>
      rw [List.zip_cons_cons, List.all_cons, Bool.and_eq_true] at hall
      -- the letter `i` follows the sign, and with it a name goes on
      have hd : d.toLower = 'i' := by
        rcases isCaseOf_iff.mp hall.1 with hlower | ⟨hk, -⟩
        · exact hlower
        · exact absurd hk (by decide)
      have hpart : isNamePart d = true := isNamePart_of_toLower (by rw [hd]; decide)
      refine Refuses.bind (refuses_bind_of_read hspelled ⟨d :: tail, ?_⟩)
      rw [absent_namePart, if_pos]
      simpa [continuesName] using hpart
  next => exact Refuses.bind (Refuses.bind ⟨_, hspelled⟩)

/-- The word `take` is cut inside of the Kelvin sign, if the text goes on as the word does or
ends. -/
theorem take_of_sign {c d : Char} (hc : c.toLower = 't') (hd : d.toLower = 'a')
    (tail : List Char) :
    argument "take" count (c :: d :: kelvinSign :: tail) =
      if (tail.zip ['e']).all (fun (c, letter) => isCaseOf letter c) then .broken
      else .refused (c :: d :: kelvinSign :: tail) := by
  have hs : [c, d].map Char.toLower = ['t', 'a'] := by
    rw [List.map_cons, List.map_singleton, hc, hd]
  have hletters : "take".toList = ['t', 'a'] ++ ['k', 'e'] := rfl
  have hrest := spelled_append_append (by decide) hletters hs (kelvinSign :: tail)
  have hsign : isCaseOf 'k' kelvinSign = true := rfl
  have hbytes : byteLength ['k', 'e'] = 2 := rfl
  have hle : 2 ≤ byteLength (kelvinSign :: tail) :=
    (Nat.le_succ 2).trans (Nat.le_add_right 3 _)
  -- two bytes are left for a character of three
  have hdrop : dropBytes 2 (kelvinSign :: tail) = none := by
    simp [dropBytes, utf8Size_kelvinSign]
  have hspelled : spelled "take" (c :: d :: kelvinSign :: tail) =
      if (tail.zip ['e']).all (fun (c, letter) => isCaseOf letter c) then .broken
      else .refused (c :: d :: kelvinSign :: tail) := by
    simpa only [List.cons_append, List.nil_append, List.zip_cons_cons, List.all_cons, hsign, hbytes,
      hle, hdrop, decide_true, Bool.true_and, Bool.and_true, Option.elim] using hrest
  rw [argument, bind_apply, keyword, bind_apply, hspelled]
  split <;> rfl

namespace Indistinct

/-- The sign stands in both texts or in none. -/
theorem hasSign_cases (hS : Indistinct S) {front : List Char}
    (hfront : ∀ letter ∈ front, isSmallLetter letter = true) (h : S cs ds) :
    (∃ s tail tail', s.map Char.toLower = front ∧ cs = s ++ kelvinSign :: tail ∧
        ds = s ++ kelvinSign :: tail' ∧ S tail tail') ∨
      ¬ HasSign front cs ∧ ¬ HasSign front ds := by
  have hplain : ∀ {s : List Char}, s.map Char.toLower = front →
      ∀ c ∈ s ++ [kelvinSign], isPlain c = true := by
    intro s hs c hc
    rcases List.mem_append.mp hc with hc | hc
    · exact isPlain_of_toLower (hfront _ (hs ▸ List.mem_map_of_mem hc))
    · obtain rfl := List.mem_singleton.mp hc
      decide
  have hiff : ∀ {s : List Char}, s.map Char.toLower = front →
      ((∃ tail, cs = (s ++ [kelvinSign]) ++ tail) ↔ ∃ tail, ds = (s ++ [kelvinSign]) ++ tail) :=
    fun hs => hS.related_append_iff (hplain hs) h
  by_cases hcs : HasSign front cs
  · obtain ⟨s, tail, hs, rfl⟩ := hcs
    obtain ⟨tail', rfl⟩ := (hiff hs).mp ⟨tail, by simp⟩
    refine .inl ⟨s, tail, tail', hs, rfl, by simp, ?_⟩
    exact hS.related_append (hplain hs) (by simpa using h)
  · refine .inr ⟨hcs, fun hds => hcs ?_⟩
    obtain ⟨s, tail', hs, rfl⟩ := hds
    obtain ⟨tail, rfl⟩ := (hiff hs).mpr ⟨tail', by simp⟩
    exact ⟨s, tail, hs, by simp⟩

/-- The word is read plainly from both texts, or the sign stands in both. -/
theorem agree_spelled_or_sign (hS : Indistinct S) (word : String) (front back : List Char)
    (hword : isBasic word = true) (hletters : word.toList = front ++ 'k' :: back)
    (hfront : 'k' ∉ front) (hback : 'k' ∉ back) (h : S cs ds) :
    Agree S cs (spelled word cs) (spelled word ds) ∨
      ∃ s tail tail', s.map Char.toLower = front ∧ cs = s ++ kelvinSign :: tail ∧
        ds = s ++ kelvinSign :: tail' ∧ S tail tail' := by
  have hsmall : ∀ letter ∈ front, isSmallLetter letter = true := by
    intro letter hletter
    refine List.all_eq_true.mp hword letter ?_
    rw [hletters]
    exact List.mem_append_left _ hletter
  rcases hS.hasSign_cases hsmall h with hsign | ⟨hcs, hds⟩
  · exact .inr hsign
  · exact .inl (hS.agree_spelled hword h
      (plainly_of_not_hasSign hword hletters hfront hback hcs)
      (plainly_of_not_hasSign hword hletters hfront hback hds))

/-- A word that agrees on two texts, and a count behind it. -/
theorem agree_countBehind (hS : Indistinct S)
    (h : Agree S cs (spelled word cs) (spelled word ds)) (hn : cs.length < n) :
    Agree S cs (argument word count cs) (argument word count ds) := by
  have hnamed : AgreesBelow S n (absent (someRun isNamePart)) :=
    (hS.agree_someRun (by decide)).absent
  have hcount : AgreesBelow S n (blanks >>= fun _ => count) :=
    hS.agree_blanks.bind fun _ => hS.agree_count
  have hkeyword : Agree S cs (keyword word cs) (keyword word ds) :=
    h.andThen fun u rest rest' hrest hle => (hnamed hrest (Nat.lt_of_le_of_lt hle hn)).mono hle
  exact hkeyword.andThen fun u rest rest' hrest hle =>
    (hcount hrest (Nat.lt_of_le_of_lt hle hn)).mono hle

/-- A `skip` agrees: behind the Kelvin sign it is refused in both texts. -/
theorem agree_skip (hS : Indistinct S) : AgreesBelow S n (argument "skip" count) := by
  intro cs ds h hn
  have hcases := hS.agree_spelled_or_sign "skip" ['s'] ['i', 'p'] (by decide) rfl (by decide)
    (by decide) h
  rcases hcases with hagree | ⟨s, tail, tail', hs, rfl, rfl, -⟩
  · exact hS.agree_countBehind hagree hn
  · obtain ⟨c, s, rfl, hc, hnil⟩ := List.map_eq_cons_iff.mp hs
    obtain rfl := List.map_eq_nil_iff.mp hnil
    exact .of_refuses (refuses_skip_of_sign hc tail) (refuses_skip_of_sign hc tail')

/-- A `take` agrees: with the Kelvin sign it breaks off in the first text or is refused in both. -/
theorem agree_take (hS : Indistinct S) : AgreesBelow S n (argument "take" count) := by
  intro cs ds h hn
  have hcases := hS.agree_spelled_or_sign "take" ['t', 'a'] ['e'] (by decide) rfl (by decide)
    (by decide) h
  rcases hcases with hagree | ⟨s, tail, tail', hs, rfl, rfl, htail⟩
  · exact hS.agree_countBehind hagree hn
  · obtain ⟨c, s, rfl, hc, hs⟩ := List.map_eq_cons_iff.mp hs
    obtain ⟨d, s, rfl, hd, hnil⟩ := List.map_eq_cons_iff.mp hs
    obtain rfl := List.map_eq_nil_iff.mp hnil
    show Agree S _ (argument "take" count (c :: d :: kelvinSign :: tail))
      (argument "take" count (c :: d :: kelvinSign :: tail'))
    rw [take_of_sign hc hd, take_of_sign hc hd]
    cases tail with
    | nil => exact .broken _
    | cons e tail =>
      -- what follows the sign is the same in both texts
      obtain ⟨es, rfl, -⟩ := hS.cons htail
      simp only [List.zip_cons_cons, List.zip_nil_right, List.all_cons, List.all_nil, Bool.and_true]
      split
      · exact .broken _
      · exact .refused _ _

/-! ## Lists of items -/

/-- Items agree if each of them does, since every comma takes something. -/
theorem agree_items (hS : Indistinct S) {item : Reader α} (hitem : AgreesBelow S n item)
    (hends : ends.Keeps item) : AgreesBelow S n (items item) := by
  have hcomma : AgreesBelow S n comma := hS.agree_amidBlanks (hS.agree_symbol (by decide))
  have hprogress : Progresses comma := (progresses_symbol (by decide)).amidBlanks
  refine hitem.bind fun _ => AgreesBelow.bind (.many ?_ ?_) fun _ => .pure _
  · exact hcomma.bind fun _ => hitem
  · exact hprogress.bind fun _ => hends.shrinks

/-- A selection agrees: it is an expression and perhaps a name. -/
theorem agree_selection (hS : Indistinct S) : AgreesBelow S n selection := by
  have hchosen : AgreesBelow S n chosenName :=
    hS.agree_blanks.bind fun _ => (hS.agree_keyword (by decide)).bind fun _ =>
      hS.agree_blanks.bind fun _ => hS.agree_name
  exact (hS.agree_expression n).bind fun _ => hchosen.optional.bind fun _ => .pure _

/-- A sort key agrees: it is an expression and perhaps a direction. -/
theorem agree_sortKey (hS : Indistinct S) : AgreesBelow S n sortKey := by
  have hdirection : AgreesBelow S n direction :=
    hS.agree_blanks.bind fun _ =>
      (hS.agree_word (by decide) _).orElse (hS.agree_word (by decide) _)
  exact (hS.agree_expression n).bind fun _ => hdirection.optional.bind fun _ => .pure _

/-- Sort keys agree, with the word `by` before them or without it. -/
theorem agree_sortKeys (hS : Indistinct S) : AgreesBelow S n sortKeys := by
  refine AgreesBelow.bind (.optional ?_) fun _ =>
    hS.agree_items hS.agree_sortKey (keeps_sortKey ends_quoted)
  exact (hS.agree_keyword (by decide)).bind fun _ => hS.agree_blanks

/-! ## Stages -/

/-- An argument agrees if its keyword has no second spelling and what follows agrees. -/
theorem agree_argument (hS : Indistinct S) (hword : isPlainWord word = true) {reader : Reader α}
    (hreader : AgreesBelow S n reader) : AgreesBelow S n (argument word reader) :=
  (hS.agree_keyword hword).bind fun _ => hS.agree_blanks.bind fun _ => hreader

/-- **Stages are read alike.** -/
theorem agree_stage (hS : Indistinct S) : AgreesBelow S n stage :=
  (hS.agree_argument (by decide) (hS.agree_expression n)).map.orElse <|
    (hS.agree_argument (by decide)
      (hS.agree_items hS.agree_selection (keeps_selection ends_quoted))).map.orElse <|
      (hS.agree_argument (by decide) hS.agree_sortKeys).map.orElse <|
        hS.agree_skip.map.orElse <|
          hS.agree_take.map.orElse <| (hS.agree_argument (by decide) hS.agree_name).map

end Indistinct

/-! ## Several stages -/

/-- A text holds some stages, each behind a bar, up to a rest that goes on without a bar. -/
inductive Staged : List Char → List Stage → List Char → Prop where
  | done {cs : List Char} (hend : (skipBlanks cs).head? ≠ some '|') : Staged cs [] cs
  | more {cs afterBar behind rest : List Char} {first : Stage} {others : List Stage}
      (hbar : skipBlanks cs = '|' :: afterBar)
      (hstage : stage (skipBlanks afterBar) = .read first behind)
      (hothers : Staged behind others rest) : Staged cs (first :: others) rest

section Staged

variable {rest afterBar behind : List Char} {first : Stage} {stages : List Stage}

/-- Behind a bar there has to be a stage. -/
theorem furtherStage_of_bar (hbar : skipBlanks cs = '|' :: afterBar) :
    furtherStage cs = committed stage (skipBlanks afterBar) := by
  have hblanks : blanks cs = .read () ('|' :: afterBar) := congrArg (Reading.read ()) hbar
  have hsymbol : symbol "|" ('|' :: afterBar) = .read () afterBar := symbol_append "|" afterBar
  rw [furtherStage, bind_of_read hblanks, bind_of_read hsymbol]
  rfl

/-- Without a bar there is no further stage. -/
theorem refuses_furtherStage (hend : (skipBlanks cs).head? ≠ some '|') :
    furtherStage.Refuses cs := by
  have hsymbol : (symbol "|").Refuses (skipBlanks cs) := by
    refine refuses_symbol fun hstarts => hend ?_
    obtain ⟨afterBar, hbar⟩ := hstarts
    rw [← hbar]
    rfl
  exact refuses_bind_of_read (blanks_apply cs) hsymbol.bind

/-- A stage and the bar before it make the text shorter. -/
theorem length_lt_of_stage (hbar : skipBlanks cs = '|' :: afterBar)
    (hstage : stage (skipBlanks afterBar) = .read first behind) : behind.length < cs.length := by
  have hends : ends.Keeps stage :=
    keeps_stage ends_quoted (ends_keyword (by decide)) (ends_keyword (by decide))
  have hle := length_skipBlanks_le cs
  have hle' := length_skipBlanks_le afterBar
  have hbehind := hends.shrinks hstage
  rw [hbar, List.length_cons] at hle
  omega

/-- What a repetition of stages reads is staged, by induction on the length of the text. -/
theorem staged_of_many (h : many furtherStage cs = .read stages rest) : Staged cs stages rest := by
  induction hlength : cs.length using Nat.strong_induction_on generalizing cs stages with
  | h n ih =>
    by_cases hbar : (skipBlanks cs).head? = some '|'
    · obtain ⟨afterBar, hbar⟩ := List.head?_eq_some_iff.mp hbar
      have hfurther := furtherStage_of_bar hbar
      cases hstage : stage (skipBlanks afterBar) with
      | read first behind =>
        rw [committed, hstage] at hfurther
        have hlt := length_lt_of_stage hbar hstage
        rw [many_of_read hfurther hlt] at h
        obtain ⟨others, mid, hothers, hpure⟩ := bind_eq_read_iff.mp h
        obtain ⟨rfl, rfl⟩ := Reading.read.inj hpure
        exact .more hbar hstage (ih behind.length (hlength ▸ hlt) hothers rfl)
      | refused | stopped | unfinished | broken =>
        rw [committed, hstage] at hfurther
        rw [many_eq, hfurther] at h
        cases h
    · rw [(refuses_furtherStage hbar).many] at h
      obtain ⟨rfl, rfl⟩ := Reading.read.inj h
      exact .done hbar

/-- What is staged is read by a repetition of stages. -/
theorem many_of_staged (h : Staged cs stages rest) : many furtherStage cs = .read stages rest := by
  induction h with
  | done hend => exact (refuses_furtherStage hend).many
  | more hbar hstage _ ih =>
    have hfurther := furtherStage_of_bar hbar
    rw [committed, hstage] at hfurther
    rw [many_of_read hfurther (length_lt_of_stage hbar hstage), map_of_read ih]

/-- **Stages are read as far as there are any.** -/
theorem many_furtherStage_eq_read_iff :
    many furtherStage cs = .read stages rest ↔ Staged cs stages rest :=
  ⟨staged_of_many, many_of_staged⟩

end Staged

end EntityQuery.Pipeline

/-! ## Pipelines -/

namespace EntityQuery

open Pipeline Reader

/-- **What a pipeline is**: the name of a relation, stages, and nothing but blanks behind them. -/
theorem Plan.parse_eq_ok_iff {text : String} {p : Plan} :
    Plan.parse text = .ok p ↔
      ∃ relation rest stages last,
        name (skipBlanks (Text.trimEnd text.toList)) = .read relation rest ∧
        Staged rest stages last ∧ skipBlanks last = [] ∧
        p = stages.foldl Stage.apply (.source relation) := by
  rw [Plan.parse, Reader.parse_eq_ok_iff]
  constructor
  · intro h
    obtain ⟨_, _, hblanks, h⟩ := bind_eq_read_iff.mp h
    obtain ⟨-, rfl⟩ := Reading.read.inj hblanks
    obtain ⟨relation, rest, hname, h⟩ := bind_eq_read_iff.mp h
    obtain ⟨stages, last, hstages, h⟩ := bind_eq_read_iff.mp h
    obtain ⟨_, _, hblanks, h⟩ := bind_eq_read_iff.mp h
    obtain ⟨-, rfl⟩ := Reading.read.inj hblanks
    obtain ⟨hplan, hend⟩ := Reading.read.inj h
    exact ⟨relation, rest, stages, last, hname, many_furtherStage_eq_read_iff.mp hstages, hend,
      hplan.symm⟩
  · rintro ⟨relation, rest, stages, last, hname, hstages, hend, rfl⟩
    have hblanks : blanks last = .read () [] := congrArg (Reading.read ()) hend
    rw [plan, bind_of_read (blanks_apply _), bind_of_read hname,
      bind_of_read (many_furtherStage_eq_read_iff.mpr hstages), bind_of_read hblanks]
    rfl

end EntityQuery
