/-
# Laws of readers

What the combinators of readers do to a text is said here once for all readers.

* `Reader.many_eq`: a repetition is one reading and the repetition behind it; the bound on the
  number of readings plays no part;
* `Trail`: a rule for what a reader may leave of a text, for where it may fail and for when it may
  break off.  Every combinator keeps to a trail if its parts do (`Trail.Keeps.bind`,
  `Trail.Keeps.many`, …), on success and on failure alike;
* `AlikeBelow`: two readers do the same on texts below some length.
-/
import EntityQuery.Pipeline.Reader
import Mathlib.Data.List.TakeWhile

namespace EntityQuery.Pipeline

open Text

variable {α β : Type}

/-! ## Successes and refusals -/

namespace Reader

variable {p q : Reader α} {f : α → Reader β} {cs rest left : List Char} {a : α}

/-- The reader fails on a text, but something else may be tried. -/
def Refuses (p : Reader α) (cs : List Char) : Prop :=
  ∃ left, p cs = .refused left

theorem bind_apply (p : Reader α) (f : α → Reader β) (cs : List Char) :
    (p >>= f) cs = (p cs).andThen f :=
  rfl

/-- What follows a reading starts on the rest of the text. -/
theorem bind_of_read (h : p cs = .read a rest) : (p >>= f) cs = f a rest := by
  rw [bind_apply, h]
  rfl

/-- A sequence refuses a text that its first reader refuses. -/
theorem Refuses.bind (h : p.Refuses cs) : (p >>= f).Refuses cs := by
  obtain ⟨left, hleft⟩ := h
  exact ⟨left, by rw [bind_apply, hleft]; rfl⟩

/-- A sequence also refuses if the second reader refuses the rest: what was read before is lost. -/
theorem refuses_bind_of_read (h : p cs = .read a rest) (hf : (f a).Refuses rest) :
    (p >>= f).Refuses cs := by
  obtain ⟨left, hleft⟩ := hf
  exact ⟨left, (bind_of_read h).trans hleft⟩

theorem bind_of_broken (h : p cs = .broken) : (p >>= f) cs = .broken := by
  rw [bind_apply, h]
  rfl

theorem map_of_read {g : α → β} (h : p cs = .read a rest) : (g <$> p) cs = .read (g a) rest :=
  bind_of_read h

theorem Refuses.map {g : α → β} (h : p.Refuses cs) : (g <$> p).Refuses cs :=
  h.bind

theorem orElse_apply (p q : Reader α) (cs : List Char) :
    (p <|> q) cs = (p cs).orElse fun _ => q cs :=
  rfl

/-- The first alternative is taken if it reads, whatever the second one would do. -/
theorem orElse_of_read (h : p cs = .read a rest) : (p <|> q) cs = .read a rest := by
  rw [orElse_apply, h]
  rfl

/-- The second alternative starts on the text that the first one was given. -/
theorem Refuses.orElse (h : p.Refuses cs) : (p <|> q) cs = q cs := by
  obtain ⟨left, hleft⟩ := h
  rw [orElse_apply, hleft]
  rfl

theorem orElse_of_broken (h : p cs = .broken) : (p <|> q) cs = .broken := by
  rw [orElse_apply, h]
  rfl

/-- An optional part that is there is read. -/
theorem optional_of_read (h : p cs = .read a rest) : optional p cs = .read (some a) rest :=
  orElse_of_read (map_of_read h)

/-- An optional part that is missing takes nothing of the text. -/
theorem Refuses.optional (h : p.Refuses cs) : optional p cs = .read none cs :=
  h.map.orElse

/-- An attempt at something that is there reads it. -/
theorem attempt_of_read (h : p cs = .read a rest) : attempt p cs = .read (some a) rest := by
  rw [attempt, h]

/-- An attempt that fails takes nothing of the text. -/
theorem Refuses.attempt (h : p.Refuses cs) : attempt p cs = .read none cs := by
  obtain ⟨left, hleft⟩ := h
  rw [Reader.attempt, hleft]

/-- A reading is converted if it has a meaning. -/
theorem converted_of_read {meaning : α → Option β} {b : β} (h : p cs = .read a rest)
    (hmeaning : meaning a = some b) : converted p meaning cs = .read b rest := by
  simp only [converted, h, Reading.andThen, hmeaning]

/-- There is nothing to convert where nothing is read. -/
theorem Refuses.converted {meaning : α → Option β} (h : p.Refuses cs) :
    (converted p meaning).Refuses cs := by
  obtain ⟨left, hleft⟩ := h
  exact ⟨left, by simp only [Reader.converted, hleft, Reading.andThen]⟩

/-- A symbol is read where it stands. -/
theorem symbol_append (text : String) (rest : List Char) :
    symbol text (text.toList ++ rest) = .read () rest := by
  have hstarts : text.toList.isPrefixOf (text.toList ++ rest) = true :=
    List.isPrefixOf_iff_prefix.mpr (List.prefix_append _ _)
  rw [symbol, if_pos hstarts, List.drop_left]

/-- A symbol is read where the text starts with it, and refused elsewhere. -/
theorem symbol_cases (text : String) (cs : List Char) :
    (∃ rest, cs = text.toList ++ rest ∧ symbol text cs = .read () rest) ∨
      ¬ text.toList <+: cs ∧ (symbol text).Refuses cs := by
  by_cases hstarts : text.toList <+: cs
  · obtain ⟨rest, rfl⟩ := hstarts
    exact .inl ⟨rest, rfl, symbol_append text rest⟩
  · refine .inr ⟨hstarts, cs, ?_⟩
    rw [symbol, if_neg (mt List.isPrefixOf_iff_prefix.mp hstarts)]

/-- **A symbol is read exactly where it stands**, and it is all that is taken. -/
theorem symbol_eq_read_iff {text : String} {u : Unit} :
    symbol text cs = .read u rest ↔ cs = text.toList ++ rest := by
  constructor
  · intro h
    rcases symbol_cases text cs with ⟨rest', hcs, hread⟩ | ⟨-, left, hrefused⟩
    · obtain ⟨-, rfl⟩ := Reading.read.inj (hread.symm.trans h)
      exact hcs
    · rw [hrefused] at h
      cases h
  · rintro rfl
    exact symbol_append text rest

/-- A symbol is refused where it does not stand. -/
theorem refuses_symbol {text : String} (h : ¬ text.toList <+: cs) : (symbol text).Refuses cs := by
  rcases symbol_cases text cs with ⟨rest, rfl, -⟩ | ⟨-, hrefused⟩
  · exact absurd (List.prefix_append _ _) h
  · exact hrefused

/-- Blanks are always read, also where there are none. -/
theorem blanks_apply (cs : List Char) : blanks cs = .read () (skipBlanks cs) :=
  rfl

/-- A run of characters of some kind is read up to the first other one. -/
theorem someRun_append {kind : Char → Bool} {taken : List Char} (hsome : taken ≠ [])
    (htaken : ∀ c ∈ taken, kind c = true) (hrest : ∀ c ∈ rest.head?, kind c = false) :
    someRun kind (taken ++ rest) = .read taken rest := by
  have hstop : rest.takeWhile kind = [] ∧ rest.dropWhile kind = rest := by
    cases rest with
    | nil => exact ⟨rfl, rfl⟩
    | cons c cs => simp [hrest c rfl]
  unfold someRun
  rw [List.takeWhile_append_of_pos htaken, List.dropWhile_append_of_pos htaken, hstop.1,
    hstop.2, List.append_nil]
  obtain ⟨c, taken, rfl⟩ := List.exists_cons_of_ne_nil hsome
  rfl

/-- A run takes the first character and whatever follows of its kind. -/
theorem someRun_cons {kind : Char → Bool} {c : Char} (cs : List Char) (hc : kind c = true) :
    someRun kind (c :: cs) = .read (c :: cs.takeWhile kind) (cs.dropWhile kind) := by
  unfold someRun
  rw [List.takeWhile_cons_of_pos hc, List.dropWhile_cons_of_pos hc]

/-- A run that must not be empty is refused before a character of another kind. -/
theorem refuses_someRun {kind : Char → Bool} (h : ∀ c ∈ cs.head?, kind c = false) :
    (someRun kind).Refuses cs := by
  refine ⟨cs, ?_⟩
  cases cs with
  | nil => rfl
  | cons c cs =>
    unfold someRun
    rw [List.takeWhile_cons_of_neg (by simp [h c rfl])]

/-! ## Repetitions -/

/-- One round of a repetition: it ends where the reader refuses, and it refuses the text altogether
if a round takes nothing. -/
theorem manyUpTo_succ (p : Reader α) (limit : Nat) (cs : List Char) :
    p.manyUpTo (limit + 1) cs = match p cs with
      | .refused _ => .read [] cs
      | reading => reading.andThen fun a rest =>
        if rest.length < cs.length then (List.cons a <$> p.manyUpTo limit) rest
        else .refused cs :=
  rfl

/-- Every reading makes the text shorter, so a bound above its length is never met. -/
theorem manyUpTo_congr (p : Reader α) {limit limit' : Nat} (h : cs.length < limit)
    (h' : cs.length < limit') : p.manyUpTo limit cs = p.manyUpTo limit' cs := by
  induction limit generalizing limit' cs with
  | zero => exact absurd h (Nat.not_lt_zero _)
  | succ limit ih =>
    obtain ⟨limit', rfl⟩ := Nat.exists_eq_add_one.mpr (Nat.zero_lt_of_lt h')
    rw [manyUpTo_succ, manyUpTo_succ]
    cases hread : p cs with
    | read a rest =>
      simp only [Reading.andThen]
      split
      next hlt =>
        -- the rest is shorter than the text, and so below both bounds less one
        have hothers : p.manyUpTo limit rest = p.manyUpTo limit' rest :=
          ih (by omega) (by omega)
        show (p.manyUpTo limit rest).andThen _ = (p.manyUpTo limit' rest).andThen _
        rw [hothers]
      next => rfl
    | refused | stopped | unfinished | broken => rfl

/-- **A repetition is one reading and the repetition behind it.** -/
theorem many_eq (p : Reader α) (cs : List Char) :
    p.many cs = match p cs with
      | .refused _ => .read [] cs
      | reading => reading.andThen fun a rest =>
        if rest.length < cs.length then (List.cons a <$> p.many) rest else .refused cs := by
  rw [many, manyUpTo_succ]
  cases hread : p cs with
  | read a rest =>
    simp only [Reading.andThen]
    split
    next hlt =>
      have hothers : p.manyUpTo cs.length rest = p.many rest :=
        manyUpTo_congr p hlt (Nat.lt_succ_self _)
      show (p.manyUpTo cs.length rest).andThen _ = (p.many rest).andThen _
      rw [hothers]
    next => rfl
  | refused | stopped | unfinished | broken => rfl

/-- A repetition is empty where its reader refuses. -/
theorem Refuses.many (h : p.Refuses cs) : p.many cs = .read [] cs := by
  obtain ⟨left, hleft⟩ := h
  rw [many_eq, hleft]

/-- A repetition goes on behind a reading that took something. -/
theorem many_of_read (h : p cs = .read a rest) (hlt : rest.length < cs.length) :
    p.many cs = (List.cons a <$> p.many) rest := by
  rw [many_eq, h]
  simp only [Reading.andThen, if_pos hlt]

/-! ## Whole texts -/

/-- A text holds a value if all of it is read, up to the white space at its end. -/
theorem parse_eq_ok_iff {text : String} :
    p.parse text = .ok a ↔ p (trimEnd text.toList) = .read a [] := by
  unfold Reader.parse
  simp only
  constructor
  · intro h
    split at h
    next b hread => rw [hread, Parsed.ok.inj h]
    next => cases h
    next => cases h
    next => cases h
    next => cases h
    next => cases h
  · intro h
    rw [h]

/-! ## Progress -/

/-- Whatever is read takes something from the text. -/
def Progresses (p : Reader α) : Prop :=
  ∀ ⦃cs a rest⦄, p cs = .read a rest → rest.length < cs.length

/-- What is read does not make the text longer. -/
def Shrinks (p : Reader α) : Prop :=
  ∀ ⦃cs a rest⦄, p cs = .read a rest → rest.length ≤ cs.length

/-- **A sequence reads exactly what its parts read**, one behind the other. -/
theorem bind_eq_read_iff {b : β} :
    (p >>= f) cs = .read b rest ↔ ∃ a mid, p cs = .read a mid ∧ f a mid = .read b rest := by
  constructor
  · intro h
    rw [bind_apply] at h
    cases hread : p cs with
    | read a mid =>
      rw [hread] at h
      exact ⟨a, mid, rfl, h⟩
    | refused | stopped | unfinished | broken =>
      rw [hread] at h
      cases h
  · rintro ⟨a, mid, hread, h⟩
    rw [bind_of_read hread, h]

/-- What one of two alternatives reads was read by one of them. -/
theorem orElse_eq_read (h : (p <|> q) cs = .read a rest) :
    p cs = .read a rest ∨ q cs = .read a rest := by
  cases hread : p cs with
  | read b mid =>
    rw [orElse_of_read hread] at h
    exact .inl h
  | refused left =>
    rw [Refuses.orElse ⟨left, hread⟩] at h
    exact .inr h
  | stopped | unfinished | broken =>
    rw [orElse_apply, hread] at h
    cases h

/-- A reader that takes something leaves a text that is not longer. -/
theorem Progresses.shrinks (h : Progresses p) : Shrinks p :=
  fun _ _ _ hread => (h hread).le

/-- A sequence takes something if its first reader does. -/
theorem Progresses.bind (hp : Progresses p) (hf : ∀ a, Shrinks (f a)) : Progresses (p >>= f) := by
  intro cs b rest h
  obtain ⟨a, mid, hread, hmid⟩ := bind_eq_read_iff.mp h
  exact Nat.lt_of_le_of_lt (hf a hmid) (hp hread)

/-- A sequence takes something if each of its second readers does. -/
theorem Shrinks.bind_progresses (hp : Shrinks p) (hf : ∀ a, Progresses (f a)) :
    Progresses (p >>= f) := by
  intro cs b rest h
  obtain ⟨a, mid, hread, hmid⟩ := bind_eq_read_iff.mp h
  exact Nat.lt_of_lt_of_le (hf a hmid) (hp hread)

theorem shrinks_pure (a : α) : Shrinks (pure a : Reader α) := by
  intro cs b rest h
  obtain ⟨-, rfl⟩ := Reading.read.inj h
  exact le_rfl

/-- A choice takes something if both alternatives do. -/
theorem Progresses.orElse (hp : Progresses p) (hq : Progresses q) : Progresses (p <|> q) := by
  intro cs a rest h
  rcases orElse_eq_read h with hread | hread
  · exact hp hread
  · exact hq hread

theorem progresses_symbol {text : String} (htext : text.toList ≠ []) :
    Progresses (symbol text) := by
  intro cs u rest h
  rw [symbol_eq_read_iff.mp h, List.length_append]
  exact Nat.lt_add_of_pos_left (List.length_pos_iff.mpr htext)

/-- Blanks may take nothing, but they add nothing. -/
theorem shrinks_blanks : Shrinks blanks := by
  intro cs u rest h
  obtain ⟨-, rfl⟩ := Reading.read.inj h
  exact List.length_dropWhile_le isBlank cs

/-- A token takes something also among blanks. -/
theorem Progresses.amidBlanks {token : Reader α} (h : Progresses token) :
    Progresses (amidBlanks token) :=
  shrinks_blanks.bind_progresses fun _ => h.bind fun a => by
    intro cs b rest hread
    obtain ⟨u, mid, hmid, hpure⟩ := bind_eq_read_iff.mp hread
    exact (shrinks_pure a hpure).trans (shrinks_blanks hmid)

end Reader

open Reader

/-! ## Trails -/

/-- How a reading may end that starts at some text.  What is left on success is followed up, so the
rule has to be closed under going on from there. -/
structure Trail where
  /-- The second text may be left where the first is read. -/
  Leaves : List Char → List Char → Prop
  /-- The second text may be left where the first cannot be read. -/
  Fails : List Char → List Char → Prop
  /-- Reading the text may break off. -/
  Breaks : List Char → Prop
  refl : ∀ cs, Leaves cs cs
  trans : ∀ {cs mid rest}, Leaves cs mid → Leaves mid rest → Leaves cs rest
  fails_refl : ∀ cs, Fails cs cs
  fails_trans : ∀ {cs mid left}, Leaves cs mid → Fails mid left → Fails cs left
  breaks_trans : ∀ {cs mid}, Leaves cs mid → Breaks mid → Breaks cs
  /-- Any character may be taken that opens no string. -/
  cons : ∀ {c} cs, c ≠ '\'' → Leaves (c :: cs) cs

namespace Trail

/-- A reading of a text ends as the trail has it, and never for want of more text. -/
def Allows (T : Trail) (cs : List Char) : Reading α → Prop
  | .read _ rest => T.Leaves cs rest
  | .refused left => T.Fails cs left
  | .stopped left => T.Fails cs left
  | .unfinished => False
  | .broken => T.Breaks cs

/-- A reader keeps to a trail on every text. -/
def Keeps (T : Trail) (p : Reader α) : Prop :=
  ∀ cs, T.Allows cs (p cs)

variable {T : Trail} {p q : Reader α} {f : α → Reader β} {cs mid rest : List Char} {a : α}

/-- However the reading of a text ends, the trail allows it. -/
theorem Keeps.allows (h : T.Keeps p) {reading : Reading α} (hread : p cs = reading) :
    T.Allows cs reading :=
  hread ▸ h cs

theorem Keeps.leaves (h : T.Keeps p) (hread : p cs = .read a rest) : T.Leaves cs rest :=
  h.allows hread

/-- What a trail allows behind a text that was left it allows from the start. -/
theorem Allows.after {reading : Reading α} (h : T.Leaves cs mid) (hmid : T.Allows mid reading) :
    T.Allows cs reading := by
  cases reading with
  | read a rest => exact T.trans h hmid
  | refused left => exact T.fails_trans h hmid
  | stopped left => exact T.fails_trans h hmid
  | unfinished => exact hmid
  | broken => exact T.breaks_trans h hmid

/-- A reading that is gone on with. -/
theorem Allows.andThen {reading : Reading α} {next : α → List Char → Reading β}
    (h : T.Allows cs reading)
    (hnext : ∀ a rest, T.Leaves cs rest → T.Allows cs (next a rest)) :
    T.Allows cs (reading.andThen next) := by
  cases reading with
  | read a rest => exact hnext a rest h
  | refused left => exact h
  | stopped left => exact h
  | unfinished => exact h
  | broken => exact h

namespace Keeps

/-- Nothing is taken, and nothing fails. -/
theorem pure (a : α) : T.Keeps (Pure.pure a : Reader α) :=
  T.refl

/-- What the second reader leaves of the rest, is what may be left of the text. -/
theorem bind (hp : T.Keeps p) (hf : ∀ a, T.Keeps (f a)) : T.Keeps (p >>= f) := by
  intro cs
  exact (hp cs).andThen fun a rest hrest => (hf a rest).after hrest

theorem map {g : α → β} (hp : T.Keeps p) : T.Keeps (g <$> p) :=
  hp.bind fun a => pure (g a)

/-- The refusal of the second alternative is met on the same text as that of the first. -/
theorem orElse (hp : T.Keeps p) (hq : T.Keeps q) : T.Keeps (p <|> q) := by
  intro cs
  rw [orElse_apply]
  cases hread : p cs with
  | refused left => exact hq cs
  | read | stopped | unfinished | broken => exact hp.allows hread

/-- An optional part is one of two alternatives, the other of which takes nothing. -/
theorem optional (hp : T.Keeps p) : T.Keeps (optional p) :=
  hp.map.orElse (pure none)

theorem attempt (hp : T.Keeps p) : T.Keeps (attempt p) := by
  intro cs
  unfold Reader.attempt
  cases hread : p cs with
  | read a rest => exact hp.leaves hread
  | broken => exact hp.allows hread
  | refused | stopped | unfinished => exact T.refl cs

/-- That something is absent takes nothing of the text, and that it is present is reported at its
start. -/
theorem absent (hp : T.Keeps p) : T.Keeps (absent p) := by
  intro cs
  unfold Reader.absent
  cases hread : p cs with
  | refused left => exact T.refl cs
  | read a rest => exact T.fails_refl cs
  | stopped | unfinished | broken => exact hp.allows hread

/-- A committed reader stops where it would have refused. -/
theorem committed (hp : T.Keeps p) : T.Keeps (committed p) := by
  intro cs
  unfold Reader.committed
  cases hread : p cs with
  | refused left =>
    have hfails : T.Fails cs left := hp.allows hread
    exact hfails
  | read | stopped | unfinished | broken => exact hp.allows hread

/-- A reading without a meaning is reported at the start of what was read. -/
theorem converted (hp : T.Keeps p) (meaning : α → Option β) : T.Keeps (converted p meaning) := by
  intro cs
  refine (hp cs).andThen fun a rest hrest => ?_
  split
  · exact hrest
  · exact T.fails_refl cs

/-- What is left behind one reading is the start of the others, so the induction is on the length of
the text. -/
theorem many (hp : T.Keeps p) : T.Keeps (many p) := by
  intro cs
  induction hlength : cs.length using Nat.strong_induction_on generalizing cs with
  | h n ih =>
    rw [many_eq]
    cases hread : p cs with
    | refused left => exact T.refl cs
    | read a rest =>
      -- what the others leave is left of `rest`, and `rest` is left of the text
      show T.Allows cs (if rest.length < cs.length then _ else _)
      split
      next hlt =>
        have hothers : T.Allows rest (p.many rest) := ih rest.length (hlength ▸ hlt) rest rfl
        have hall : T.Allows rest ((List.cons a <$> p.many) rest) :=
          hothers.andThen fun _ _ h => h
        exact hall.after (hp.leaves hread)
      next => exact T.fails_refl cs
    | stopped | unfinished | broken => exact hp.allows hread

end Keeps

/-! ### Characters -/

section Characters

variable {kind : Char → Bool}

/-- A run of characters that open no string may be taken. -/
theorem leaves_dropWhile (T : Trail) (hkind : kind '\'' = false) (cs : List Char) :
    T.Leaves cs (cs.dropWhile kind) := by
  induction cs with
  | nil => exact T.refl []
  | cons c cs ih =>
    rw [List.dropWhile_cons]
    split
    next hc =>
      refine T.trans (T.cons cs ?_) ih
      rintro rfl
      rw [hkind] at hc
      cases hc
    next => exact T.refl _

/-- Characters other than the quotation mark may be taken in any number. -/
theorem leaves_append (T : Trail) {taken : List Char} (h : '\'' ∉ taken) (rest : List Char) :
    T.Leaves (taken ++ rest) rest := by
  induction taken with
  | nil => exact T.refl rest
  | cons c taken ih =>
    rw [List.mem_cons, not_or] at h
    exact T.trans (T.cons _ (Ne.symm h.1)) (ih h.2)

/-- A run of characters that are no quotation marks keeps to every trail. -/
theorem keeps_run (hkind : kind '\'' = false) : T.Keeps (run kind) :=
  T.leaves_dropWhile hkind

theorem keeps_someRun (hkind : kind '\'' = false) : T.Keeps (someRun kind) := by
  intro cs
  unfold someRun
  split
  · exact T.fails_refl cs
  · exact T.leaves_dropWhile hkind cs

/-- A symbol without a quotation mark keeps to every trail. -/
theorem keeps_symbol {text : String} (htext : '\'' ∉ text.toList) : T.Keeps (symbol text) := by
  intro cs
  unfold symbol
  split
  next hstarts =>
    obtain ⟨rest, rfl⟩ := List.isPrefixOf_iff_prefix.mp hstarts
    rw [List.drop_left]
    exact T.leaves_append htext rest
  next => exact T.fails_refl cs

theorem keeps_blanks : T.Keeps blanks :=
  T.leaves_dropWhile (by decide)

theorem keeps_someBlanks : T.Keeps someBlanks :=
  (keeps_someRun (by decide)).bind fun _ => .pure ()

/-- Blanks around a token do not lead off the trail. -/
theorem Keeps.amidBlanks {token : Reader α} (h : T.Keeps token) : T.Keeps (amidBlanks token) :=
  keeps_blanks.bind fun _ => h.bind fun a => keeps_blanks.bind fun _ => .pure a

end Characters

end Trail

/-! ## Readers that do the same on short texts -/

/-- Two readers do the same on texts below some length. -/
def AlikeBelow (n : Nat) (p p' : Reader α) : Prop :=
  ∀ ⦃cs⦄, cs.length < n → p cs = p' cs

namespace AlikeBelow

variable {n : Nat} {p p' q q' : Reader α} {f f' : α → Reader β}

theorem refl (n : Nat) (p : Reader α) : AlikeBelow n p p :=
  fun _ _ => rfl

/-- Sequences are alike where their parts are, since the second reader meets no longer text than the
first. -/
theorem bind (hp : AlikeBelow n p p') (hshrinks : Shrinks p)
    (hf : ∀ a, AlikeBelow n (f a) (f' a)) : AlikeBelow n (p >>= f) (p' >>= f') := by
  intro cs hcs
  rw [bind_apply, bind_apply, ← hp hcs]
  cases hread : p cs with
  | read a rest => exact hf a (Nat.lt_of_le_of_lt (hshrinks hread) hcs)
  | refused | stopped | unfinished | broken => rfl

theorem map {g : α → β} (hp : AlikeBelow n p p') (hshrinks : Shrinks p) :
    AlikeBelow n (g <$> p) (g <$> p') :=
  hp.bind hshrinks fun a => refl n (pure (g a))

/-- Behind something that was taken, the text is shorter. -/
theorem behind (hprogress : Progresses p) (hf : ∀ a, AlikeBelow n (f a) (f' a)) :
    AlikeBelow (n + 1) (p >>= f) (p >>= f') := by
  intro cs hcs
  rw [bind_apply, bind_apply]
  cases hread : p cs with
  | read a rest =>
    exact hf a (Nat.lt_of_lt_of_le (hprogress hread) (Nat.le_of_lt_succ hcs))
  | refused | stopped | unfinished | broken => rfl

/-- Alternatives are alike where their parts are: both start on the same text. -/
theorem orElse (hp : AlikeBelow n p p') (hq : AlikeBelow n q q') :
    AlikeBelow n (p <|> q) (p' <|> q') := by
  intro cs hcs
  rw [orElse_apply, orElse_apply, hp hcs, hq hcs]

theorem optional (hp : AlikeBelow n p p') (hshrinks : Shrinks p) :
    AlikeBelow n (optional p) (optional p') :=
  (hp.map hshrinks).orElse (refl n _)

/-- Repetitions of like readers are alike, by induction on the length of the text. -/
theorem many (hp : AlikeBelow n p p') : AlikeBelow n (many p) (many p') := by
  intro cs hcs
  induction hlength : cs.length using Nat.strong_induction_on generalizing cs with
  | h k ih =>
    rw [many_eq, many_eq, ← hp hcs]
    cases hread : p cs with
    | read a rest =>
      simp only [Reading.andThen]
      split
      next hlt =>
        have hothers : p.many rest = p'.many rest :=
          ih rest.length (hlength ▸ hlt) (hlt.trans hcs) rfl
        show (p.many rest).andThen _ = (p'.many rest).andThen _
        rw [hothers]
      next => rfl
    | refused | stopped | unfinished | broken => rfl

end AlikeBelow

end EntityQuery.Pipeline
