/-
# Texts that are read alike

A reader looks at its text from the front and backtracks, so it is not obvious what a change further
back does to a reading.  This file answers that once for all readers of pipelines.  A relation
between texts is `Indistinct` if related texts start with the same characters, if only blanks or a
bar can stand where one of them ends, and if strings are read alike.  Readers then agree on related
texts: they refuse both, or read the same from both and leave related rests.  Where the reading of
the first text breaks off, nothing is said about the second.

* `AgreesBelow.bind`, `AgreesBelow.orElse`, `AgreesBelow.many`, …: combinators agree if their parts
  do;
* `Indistinct.agree_keyword`, `Indistinct.agree_name`, `Indistinct.agree_integer`, …: tokens agree;
  expressions and stages follow in the files behind this one.
-/
import EntityQuery.Proofs.Pipeline.Trails

namespace EntityQuery.Pipeline

open Text Reader

/-! ## Agreement -/

/-- Two readings agree: both refuse, or both read the same and leave related rests, of which the
first is not longer than its text was. -/
inductive Agree {α : Type} (S : List Char → List Char → Prop) (cs : List Char) :
    Reading α → Reading α → Prop where
  | read (a : α) {rest rest' : List Char} (hrest : S rest rest') (hle : rest.length ≤ cs.length) :
    Agree S cs (.read a rest) (.read a rest')
  | refused (left left' : List Char) : Agree S cs (.refused left) (.refused left')
  | broken (reading : Reading α) : Agree S cs .broken reading

/-- A reader agrees on related texts if the first is shorter than a bound. -/
def AgreesBelow {α : Type} (S : List Char → List Char → Prop) (n : Nat) (p : Reader α) : Prop :=
  ∀ ⦃cs ds⦄, S cs ds → cs.length < n → Agree S cs (p cs) (p ds)

section Agree

variable {α β : Type} {S : List Char → List Char → Prop} {n m : Nat} {cs ds mid : List Char}
  {x y : Reading α} {p q : Reader α} {f : α → Reader β}

namespace Agree

/-- How readings agree, spelled out. -/
theorem cases (h : Agree S cs x y) :
    (∃ a rest rest', x = .read a rest ∧ y = .read a rest' ∧ S rest rest' ∧
        rest.length ≤ cs.length) ∨
      ((∃ left, x = .refused left) ∧ ∃ left', y = .refused left') ∨ x = .broken := by
  cases h with
  | read a hrest hle => exact .inl ⟨a, _, _, rfl, rfl, hrest, hle⟩
  | refused left left' => exact .inr (.inl ⟨⟨left, rfl⟩, left', rfl⟩)
  | broken => exact .inr (.inr rfl)

/-- Readings that agree behind others agree from the start. -/
theorem mono (h : Agree S mid x y) (hle : mid.length ≤ cs.length) : Agree S cs x y := by
  cases h with
  | read a hrest hle' => exact .read a hrest (hle'.trans hle)
  | refused left left' => exact .refused left left'
  | broken => exact .broken y

/-- Readings that agree so far agree if they go on in the same way. -/
theorem andThen {next next' : α → List Char → Reading β} (h : Agree S cs x y)
    (hnext : ∀ a {rest rest'}, S rest rest' → rest.length ≤ cs.length →
      Agree S cs (next a rest) (next' a rest')) :
    Agree S cs (x.andThen next) (y.andThen next') := by
  cases h with
  | read a hrest hle => exact hnext a hrest hle
  | refused left left' => exact .refused left left'
  | broken => exact .broken _

/-- A reader that refuses both texts agrees on them. -/
theorem of_refuses (hcs : p.Refuses cs) (hds : p.Refuses ds) : Agree S mid (p cs) (p ds) := by
  obtain ⟨left, hleft⟩ := hcs
  obtain ⟨left', hleft'⟩ := hds
  rw [hleft, hleft']
  exact .refused left left'

end Agree

namespace AgreesBelow

theorem mono (h : AgreesBelow S n p) (hle : m ≤ n) : AgreesBelow S m p :=
  fun _ _ hS hm => h hS (Nat.lt_of_lt_of_le hm hle)

/-- What a reader does on two texts that it agrees on. -/
theorem cases (hp : AgreesBelow S n p) (h : S cs ds) (hn : cs.length < n) :
    (∃ a rest rest', p cs = .read a rest ∧ p ds = .read a rest' ∧ S rest rest' ∧
        rest.length ≤ cs.length) ∨
      p.Refuses cs ∧ p.Refuses ds ∨ p cs = .broken :=
  (hp h hn).cases

theorem pure (a : α) : AgreesBelow S n (Pure.pure a : Reader α) :=
  fun _ _ h _ => .read a h le_rfl

/-- A sequence agrees if its parts do: the rests are related, and the first is below the bound
still. -/
theorem bind (hp : AgreesBelow S n p) (hf : ∀ a, AgreesBelow S n (f a)) :
    AgreesBelow S n (p >>= f) := by
  intro cs ds h hn
  refine (hp h hn).andThen fun a rest rest' hrest hle => ?_
  exact (hf a hrest (Nat.lt_of_le_of_lt hle hn)).mono hle

theorem map {g : α → β} (hp : AgreesBelow S n p) : AgreesBelow S n (g <$> p) :=
  hp.bind fun a => pure (g a)

/-- Behind something that was taken, the text is shorter. -/
theorem behind (hp : AgreesBelow S (n + 1) p) (hprogress : Progresses p)
    (hf : ∀ a, AgreesBelow S n (f a)) : AgreesBelow S (n + 1) (p >>= f) := by
  intro cs ds h hn
  rcases hp.cases h hn with ⟨a, rest, rest', hx, hy, hrest, hle⟩ | ⟨hx, hy⟩ | hx
  · have hshort := Nat.lt_of_lt_of_le (hprogress hx) (Nat.le_of_lt_succ hn)
    rw [bind_of_read hx, bind_of_read hy]
    exact (hf a hrest hshort).mono hle
  · exact .of_refuses hx.bind hy.bind
  · rw [bind_of_broken hx]
    exact .broken _

/-- Alternatives agree if both do, since the first of them refuses both texts or neither. -/
theorem orElse (hp : AgreesBelow S n p) (hq : AgreesBelow S n q) :
    AgreesBelow S n (p <|> q) := by
  intro cs ds h hn
  rcases hp.cases h hn with ⟨a, rest, rest', hx, hy, hrest, hle⟩ | ⟨hx, hy⟩ | hx
  · rw [orElse_of_read hx, orElse_of_read hy]
    exact .read a hrest hle
  · rw [hx.orElse, hy.orElse]
    exact hq h hn
  · rw [orElse_of_broken hx]
    exact .broken _

/-- An optional part is there in both texts or in neither. -/
theorem optional (hp : AgreesBelow S n p) : AgreesBelow S n (optional p) :=
  hp.map.orElse (pure none)

theorem attempt (hp : AgreesBelow S n p) : AgreesBelow S n (attempt p) := by
  intro cs ds h hn
  rcases hp.cases h hn with ⟨a, rest, rest', hx, hy, hrest, hle⟩ | ⟨hx, hy⟩ | hx
  · rw [attempt_of_read hx, attempt_of_read hy]
    exact .read (some a) hrest hle
  · rw [hx.attempt, hy.attempt]
    exact .read none h le_rfl
  · rw [Reader.attempt, hx]
    exact .broken _

/-- That something is absent holds of both texts or of neither. -/
theorem absent (hp : AgreesBelow S n p) : AgreesBelow S n (absent p) := by
  intro cs ds h hn
  unfold Reader.absent
  rcases hp.cases h hn with ⟨a, rest, rest', hx, hy, -, -⟩ | ⟨⟨left, hx⟩, left', hy⟩ | hx
  · rw [hx, hy]
    exact .refused cs ds
  · rw [hx, hy]
    exact .read () h le_rfl
  · rw [hx]
    exact .broken _

/-- What is converted is the same for both texts. -/
theorem converted (hp : AgreesBelow S n p) (meaning : α → Option β) :
    AgreesBelow S n (converted p meaning) := by
  intro cs ds h hn
  refine (hp h hn).andThen fun a rest rest' hrest hle => ?_
  split
  · exact .read _ hrest hle
  · exact .refused cs ds

/-- Every reading makes the text shorter, so the induction is on its length. -/
theorem many (hp : AgreesBelow S n p) (hprogress : Progresses p) : AgreesBelow S n (many p) := by
  intro cs ds h hn
  induction hlength : cs.length using Nat.strong_induction_on generalizing cs ds with
  | h k ih =>
    rcases hp.cases h hn with ⟨a, rest, rest', hx, hy, hrest, hle⟩ | ⟨hx, hy⟩ | hx
    · have hlt := hprogress hx
      have hothers := ih rest.length (hlength ▸ hlt) hrest (hlt.trans hn) rfl
      rw [many_of_read hx hlt, many_of_read hy (hprogress hy)]
      refine Agree.mono ?_ hle
      exact hothers.andThen fun others _ _ hrest hle => .read (a :: others) hrest hle
    · rw [hx.many, hy.many]
      exact .read [] h le_rfl
    · rw [many_eq, hx]
      exact .broken _

end AgreesBelow

end Agree

/-! ## Characters -/

/-- A character that can stand in a token, strings apart. -/
def isPlain (c : Char) : Bool :=
  c ≠ '\'' && c ≠ '|' && !isBlank c

theorem isPlain_of_isBlank {c : Char} (h : isBlank c = true) : isPlain c = false := by
  simp [isPlain, h]

/-- A character that is not plain is a blank, a bar or an apostrophe. -/
theorem eq_of_not_isPlain {c : Char} (h : isPlain c = false) :
    c = ' ' ∨ c = '\t' ∨ c = '\r' ∨ c = '\n' ∨ c = '|' ∨ c = '\'' := by
  by_contra hother
  simp only [not_or] at hother
  obtain ⟨hspace, htab, hreturn, hfeed, hbar, hmark⟩ := hother
  simp [isPlain, isBlank, hspace, htab, hreturn, hfeed, hbar, hmark] at h

/-- What none of these six characters is, a plain character is only. -/
theorem isPlain_of_imp {kind : Char → Bool} (hkind : " \t\r\n|'".toList.any kind = false)
    {c : Char} (h : kind c = true) : isPlain c = true := by
  by_contra hplain
  have hmem : c ∈ " \t\r\n|'".toList := by
    rcases eq_of_not_isPlain (Bool.eq_false_iff.mpr hplain) with
      rfl | rfl | rfl | rfl | rfl | rfl <;> decide
  exact List.any_eq_false.mp hkind c hmem h

/-- A letter from `a` to `z` is plain, and so is its capital. -/
theorem isPlain_of_toLower {c : Char} (h : isSmallLetter c.toLower = true) : isPlain c = true := by
  have hkind : " \t\r\n|'".toList.any (fun c => isSmallLetter c.toLower) = false := by decide
  exact isPlain_of_imp hkind h

theorem ne_mark_of_isPlain {c : Char} (h : isPlain c = true) : c ≠ '\'' := by
  rintro rfl
  exact absurd h (by decide)

theorem ne_mark_of_isBlank {c : Char} (h : isBlank c = true) : c ≠ '\'' := by
  rintro rfl
  exact absurd h (by decide)

theorem length_skipBlanks_le (cs : List Char) : (skipBlanks cs).length ≤ cs.length :=
  List.length_dropWhile_le isBlank cs

/-! ## Texts that tokens do not tell apart -/

/-- A relation between texts that no reader can tell apart. -/
structure Indistinct (S : List Char → List Char → Prop) : Prop where
  /-- Related texts start alike, and are related behind a character that opens no string. -/
  cons : ∀ {c cs ds}, S (c :: cs) ds → ∃ es, ds = c :: es ∧ (c ≠ '\'' → S cs es)
  /-- Where one text ends, blanks may follow in the other one, and then only a bar. -/
  nil : ∀ {ds}, S [] ds → S [] (skipBlanks ds) ∧ ∀ c ∈ ds.head?, isPlain c = false
  /-- Strings are read alike. -/
  agree_quoted : ∀ n, AgreesBelow S n quoted

namespace Indistinct

variable {α : Type} {S : List Char → List Char → Prop} {n : Nat} {cs ds rest : List Char}
  {kind : Char → Bool} {word : String}

/-- Related texts are related behind their blanks. -/
theorem related_skipBlanks (hS : Indistinct S) (h : S cs ds) :
    S (skipBlanks cs) (skipBlanks ds) := by
  induction cs generalizing ds with
  | nil => exact (hS.nil h).1
  | cons c cs ih =>
    obtain ⟨es, rfl, htail⟩ := hS.cons h
    by_cases hblank : isBlank c = true
    · have hskip := ih (htail (ne_mark_of_isBlank hblank))
      simpa [skipBlanks, List.dropWhile_cons, hblank] using hskip
    · simpa [skipBlanks, List.dropWhile_cons, hblank] using h

theorem agree_blanks (hS : Indistinct S) : AgreesBelow S n blanks := by
  intro cs ds h hn
  exact .read () (hS.related_skipBlanks h) (length_skipBlanks_le cs)

/-- Blanks around a token are skipped in both texts. -/
theorem agree_amidBlanks (hS : Indistinct S) {token : Reader α} (h : AgreesBelow S n token) :
    AgreesBelow S n (amidBlanks token) :=
  hS.agree_blanks.bind fun _ => h.bind fun a => hS.agree_blanks.bind fun _ => .pure a

/-- A run of plain characters ends in both texts at the same place. -/
theorem related_run (hS : Indistinct S) (hkind : ∀ {c}, kind c = true → isPlain c = true)
    (h : S cs ds) :
    cs.takeWhile kind = ds.takeWhile kind ∧ S (cs.dropWhile kind) (ds.dropWhile kind) := by
  induction cs generalizing ds with
  | nil =>
    cases ds with
    | nil => exact ⟨rfl, h⟩
    | cons d ds =>
      have hplain := (hS.nil h).2 d rfl
      have hd : kind d = false := by
        refine Bool.eq_false_iff.mpr fun hd => ?_
        rw [hkind hd] at hplain
        cases hplain
      simpa [List.takeWhile_cons, List.dropWhile_cons, hd] using h
  | cons c cs ih =>
    obtain ⟨es, rfl, htail⟩ := hS.cons h
    by_cases hc : kind c = true
    · obtain ⟨htake, hdrop⟩ := ih (htail (ne_mark_of_isPlain (hkind hc)))
      simpa [List.takeWhile_cons, List.dropWhile_cons, hc] using ⟨htake, hdrop⟩
    · simpa [List.takeWhile_cons, List.dropWhile_cons, hc] using h

/-- A run that stops at blanks, bars and apostrophes is the same in both texts. -/
theorem agree_run (hS : Indistinct S) (hkind : " \t\r\n|'".toList.any kind = false) :
    AgreesBelow S n (run kind) := by
  intro cs ds h hn
  obtain ⟨htake, hdrop⟩ := hS.related_run (isPlain_of_imp hkind) h
  unfold run
  rw [htake]
  exact .read _ hdrop (List.length_dropWhile_le kind cs)

theorem agree_someRun (hS : Indistinct S) (hkind : " \t\r\n|'".toList.any kind = false) :
    AgreesBelow S n (someRun kind) := by
  intro cs ds h hn
  obtain ⟨htake, hdrop⟩ := hS.related_run (isPlain_of_imp hkind) h
  unfold someRun
  rw [htake]
  cases ds.takeWhile kind with
  | nil => exact .refused cs ds
  | cons c taken =>
    exact .read _ hdrop (List.length_dropWhile_le kind cs)

/-- Plain characters at the start of one text are at the start of the other. -/
theorem related_append_iff (hS : Indistinct S) {taken : List Char}
    (htaken : ∀ c ∈ taken, isPlain c = true) (h : S cs ds) :
    (∃ rest, cs = taken ++ rest) ↔ ∃ rest, ds = taken ++ rest := by
  induction taken generalizing cs ds with
  | nil => exact ⟨fun _ => ⟨ds, rfl⟩, fun _ => ⟨cs, rfl⟩⟩
  | cons c taken ih =>
    obtain ⟨hc, hothers⟩ := List.forall_mem_cons.mp htaken
    cases cs with
    | nil =>
      constructor
      · rintro ⟨rest, hrest⟩
        cases hrest
      · rintro ⟨rest, rfl⟩
        have hplain := (hS.nil h).2 c rfl
        rw [hc] at hplain
        cases hplain
    | cons d cs =>
      obtain ⟨es, rfl, htail⟩ := hS.cons h
      by_cases hd : d = c
      · subst hd
        simpa using ih hothers (htail (ne_mark_of_isPlain hc))
      · simp [hd]

/-- Behind the same plain characters related texts stay related. -/
theorem related_append (hS : Indistinct S) {taken : List Char}
    (htaken : ∀ c ∈ taken, isPlain c = true) {rest rest' : List Char}
    (h : S (taken ++ rest) (taken ++ rest')) : S rest rest' := by
  induction taken with
  | nil => exact h
  | cons c taken ih =>
    obtain ⟨hc, htaken⟩ := List.forall_mem_cons.mp htaken
    obtain ⟨es, heq, htail⟩ := hS.cons h
    obtain ⟨-, rfl⟩ := List.cons.inj heq
    exact ih htaken (htail (ne_mark_of_isPlain hc))

/-- A symbol of plain characters stands in both texts or in neither. -/
theorem agree_symbol (hS : Indistinct S) {text : String} (h : text.toList.all isPlain = true) :
    AgreesBelow S n (symbol text) := by
  have htext := List.all_eq_true.mp h
  intro cs ds h hn
  have hiff := hS.related_append_iff htext h
  rcases symbol_cases text cs with ⟨rest, rfl, hx⟩ | ⟨hstarts, hx⟩
  · obtain ⟨rest', rfl⟩ := hiff.mp ⟨rest, rfl⟩
    rw [hx, symbol_append]
    exact .read () (hS.related_append htext h) (List.suffix_append _ rest).length_le
  · refine .of_refuses hx (refuses_symbol fun hstarts' => hstarts ?_)
    obtain ⟨rest', hds⟩ := hstarts'
    obtain ⟨rest, rfl⟩ := hiff.mpr ⟨rest', hds.symm⟩
    exact List.prefix_append _ _

/-- The spellings of a word are plain. -/
theorem isPlain_of_spelling {s : String} (hword : isBasic word = true)
    (hs : s.toList.map Char.toLower = word.toList) : ∀ c ∈ s.toList, isPlain c = true := by
  intro c hc
  refine isPlain_of_toLower (List.all_eq_true.mp hword c.toLower ?_)
  rw [← hs]
  exact List.mem_map_of_mem hc

/-- A word that is read from its spelling or refused is read from both texts or from none. -/
theorem agree_spelled (hS : Indistinct S) (hword : isBasic word = true) (h : S cs ds)
    (hcs : Plainly word cs) (hds : Plainly word ds) :
    Agree S cs (spelled word cs) (spelled word ds) := by
  rcases hcs with ⟨s, rest, hs, rfl, hx⟩ | hx
  · have hplain := isPlain_of_spelling hword hs
    obtain ⟨rest', rfl⟩ := (hS.related_append_iff hplain h).mp ⟨rest, rfl⟩
    rw [hx, spelled_append hword hs]
    exact .read () (hS.related_append hplain h) (List.suffix_append _ rest).length_le
  · rcases hds with ⟨s, rest', hs, rfl, hy⟩ | hy
    · have hplain := isPlain_of_spelling hword hs
      obtain ⟨rest, rfl⟩ := (hS.related_append_iff hplain h).mpr ⟨rest', rfl⟩
      rw [spelled_append hword hs] at hx
      cases hx
    · rw [hx, hy]
      exact .refused cs ds

/-- A keyword agrees if its letters do: a name goes on in both texts or in neither. -/
theorem agree_keyword_of_spelled (hS : Indistinct S) (h : AgreesBelow S n (spelled word)) :
    AgreesBelow S n (keyword word) :=
  h.bind fun _ => (hS.agree_someRun (by decide)).absent

/-- A keyword without a letter that has a second spelling agrees. -/
theorem agree_keyword (hS : Indistinct S) (hword : isPlainWord word = true) :
    AgreesBelow S n (keyword word) := by
  have hbasic := ((Bool.and_eq_true _ _).mp hword).1
  refine hS.agree_keyword_of_spelled fun cs ds h hn => ?_
  exact hS.agree_spelled hbasic h (plainly_of_isPlainWord hword cs)
    (plainly_of_isPlainWord hword ds)

theorem agree_word (hS : Indistinct S) (hword : isPlainWord word = true) (a : α) :
    AgreesBelow S n (Pipeline.word word a) :=
  (hS.agree_keyword hword).bind fun _ => .pure a

/-- The first of several symbols that a text starts with. -/
theorem agree_oneOf (hS : Indistinct S) {symbols : List (String × α)}
    (hsymbols : ∀ s ∈ symbols, s.1.toList.all isPlain = true) :
    AgreesBelow S n (oneOf symbols) := by
  induction symbols with
  | nil => exact fun cs ds _ _ => .refused cs ds
  | cons s symbols ih =>
    obtain ⟨hs, hsymbols⟩ := List.forall_mem_cons.mp hsymbols
    exact ((hS.agree_symbol hs).bind fun _ => .pure s.2).orElse (ih hsymbols)

theorem agree_name (hS : Indistinct S) : AgreesBelow S n name :=
  (hS.agree_someRun (by decide)).bind fun _ => (hS.agree_run (by decide)).bind fun _ => .pure _

theorem agree_digits (hS : Indistinct S) : AgreesBelow S n digits :=
  hS.agree_someRun (by decide)

theorem agree_count (hS : Indistinct S) : AgreesBelow S n count :=
  hS.agree_digits.converted _

/-- An integer is a sign and a run of digits, converted. -/
theorem agree_integer (hS : Indistinct S) : AgreesBelow S n integer := by
  refine AgreesBelow.converted ?_ _
  exact (hS.agree_symbol (by decide)).optional.bind fun _ => hS.agree_digits.bind fun _ => .pure _

end Indistinct

end EntityQuery.Pipeline
