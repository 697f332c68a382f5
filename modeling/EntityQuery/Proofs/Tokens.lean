/-
# Tokens read back

A token that is written and followed by something that cannot go on with it is read back as it was
written.

* `Pipeline.integer_toString`: the decimal spelling of a 64-bit integer;
* `Text.quotedContent_doubledChars`: text whose closing mark is doubled inside;
* `Pipeline.name_eq_read_iff`: names, which are read in no other form;
* `Pipeline.Solid`: texts that lose nothing when they are trimmed or blanks are skipped;
* `Pipeline.keyword_eq_read_iff`: keywords, which are names in any case;
* `Pipeline.quoted_eq_read_iff`: strings between apostrophes, which are read in this form only.
-/
import EntityQuery.Pipeline.Lexis
import EntityQuery.Proofs.Pipeline.Readers
import EntityQuery.Text.Quoted

namespace EntityQuery

open Text

/-! ## Numbers -/

namespace Text

/-- The digits of a number stand for it. -/
theorem decimal_toDigits (n : Nat) : decimal (Nat.toDigits 10 n) = n :=
  Nat.ofDigitChars_toDigits (by decide) (by decide)

end Text

namespace Pipeline

open Reader

variable {rest : List Char}

/-- The digits of a number are read up to the first character that is no digit. -/
theorem digits_toDigits (n : Nat) (hrest : ∀ c ∈ rest.head?, c.isDigit = false) :
    digits (Nat.toDigits 10 n ++ rest) = .read (Nat.toDigits 10 n) rest := by
  refine someRun_append Nat.toDigits_ne_nil (fun c hc => ?_) hrest
  exact Nat.isDigit_of_mem_toDigits (by decide) (by decide) hc

/-- The spelling of a number that is not negative starts with no sign. -/
theorem signedDigits_toDigits (n : Nat) (hrest : ∀ c ∈ rest.head?, c.isDigit = false) :
    signedDigits (Nat.toDigits 10 n ++ rest) = .read (n : Int) rest := by
  obtain ⟨d, ds, hds⟩ := List.exists_cons_of_ne_nil (Nat.toDigits_ne_nil (b := 10) (n := n))
  have hdigit : d.isDigit = true :=
    Nat.isDigit_of_mem_toDigits (n := n) (by decide) (by decide) (hds ▸ List.mem_cons_self)
  have hminus : d ≠ '-' := by
    rintro rfl
    cases hdigit
  have hsign : (symbol "-").Refuses (Nat.toDigits 10 n ++ rest) := by
    rw [hds]
    exact refuses_symbol (by simpa using hminus.symm)
  unfold signedDigits
  rw [bind_of_read hsign.optional, bind_of_read (digits_toDigits n hrest), decimal_toDigits]
  rfl

/-- A sign turns the number behind it around. -/
theorem signedDigits_neg (n : Nat) (hrest : ∀ c ∈ rest.head?, c.isDigit = false) :
    signedDigits ('-' :: (Nat.toDigits 10 n ++ rest)) = .read (-(n : Int)) rest := by
  have hsign : symbol "-" ('-' :: (Nat.toDigits 10 n ++ rest)) =
      .read () (Nat.toDigits 10 n ++ rest) := rfl
  unfold signedDigits
  rw [bind_of_read (optional_of_read hsign), bind_of_read (digits_toDigits n hrest),
    decimal_toDigits]
  rfl

/-- **The spelling of an integer is read back** before anything but a digit. -/
theorem integer_toString (n : Int64) (hrest : ∀ c ∈ rest.head?, c.isDigit = false) :
    integer ((toString n.toInt).toList ++ rest) = .read n rest := by
  have hsigned : signedDigits ((toString n.toInt).toList ++ rest) = .read n.toInt rest := by
    rw [Int.toString_eq_repr]
    cases n.toInt with
    | ofNat m =>
      rw [Int.repr, Nat.toList_repr]
      exact signedDigits_toDigits m hrest
    | negSucc m =>
      rw [Int.repr, String.toList_append, Nat.toList_repr]
      exact signedDigits_neg (m + 1) hrest
  have hrange : Int64.minValue.toInt ≤ n.toInt ∧ n.toInt ≤ Int64.maxValue.toInt :=
    ⟨n.minValue_le_toInt, n.toInt_le⟩
  rw [integer, converted_of_read hsigned (if_pos hrange), Int64.ofInt_toInt]

/-- An integer is written with digits and a minus sign. -/
theorem isDigit_of_mem_toString {n : Int} {c : Char} (h : c ∈ (toString n).toList) :
    c = '-' ∨ c.isDigit = true := by
  rw [Int.toString_eq_repr] at h
  cases n with
  | ofNat m =>
    rw [Int.repr, Nat.toList_repr] at h
    exact .inr (Nat.isDigit_of_mem_toDigits (by decide) (by decide) h)
  | negSucc m =>
    rw [Int.repr, String.toList_append, Nat.toList_repr] at h
    rcases List.mem_append.mp h with hminus | hdigit
    · exact .inl (List.mem_singleton.mp hminus)
    · exact .inr (Nat.isDigit_of_mem_toDigits (by decide) (by decide) hdigit)

/-- No integer is written with no characters. -/
theorem toString_ne_nil (n : Int) : (toString n).toList ≠ [] := by
  rw [Int.toString_eq_repr]
  cases n with
  | ofNat m =>
    rw [Int.repr, Nat.toList_repr]
    exact Nat.toDigits_ne_nil
  | negSucc m =>
    rw [Int.repr, String.toList_append]
    exact List.append_ne_nil_of_left_ne_nil (by decide) _

end Pipeline

/-! ## Quoted text -/

namespace Text

/-- The content of quoted text from behind its opening mark, up to the closing mark that stands
alone; a doubled mark is one mark of the content. -/
def quotedContent (mark : Char) : Reader (List Char)
  | [] => none
  | [c] => if c = mark then some ([], []) else none
  | c :: d :: cs =>
    if c = mark then
      if d = mark then (quotedContent mark cs).map (Prod.map (c :: ·) id) else some ([], d :: cs)
    else (quotedContent mark (d :: cs)).map (Prod.map (c :: ·) id)

section QuotedContent

variable {cs rest content : List Char} {mark : Char}

theorem quotedContent_cons {c : Char} (hc : c ≠ mark) (cs : List Char) :
    quotedContent mark (c :: cs) = (quotedContent mark cs).map (Prod.map (c :: ·) id) := by
  cases cs with
  | nil => simp [quotedContent, hc]
  | cons d cs => rw [quotedContent, if_neg hc]

theorem quotedContent_doubled (cs : List Char) :
    quotedContent mark (mark :: mark :: cs) =
      (quotedContent mark cs).map (Prod.map (mark :: ·) id) := by
  simp [quotedContent]

/-- A mark that stands alone closes the string. -/
theorem quotedContent_closed (h : mark ∉ rest.head?) :
    quotedContent mark (mark :: rest) = some ([], rest) := by
  cases rest with
  | nil => simp [quotedContent]
  | cons d rest =>
    have hd : d ≠ mark := by
      rintro rfl
      exact h rfl
    simp [quotedContent, hd]

/-- Content without marks is read as it stands. -/
theorem quotedContent_append {taken : List Char} (h : ∀ c ∈ taken, c ≠ mark) (rest : List Char) :
    quotedContent mark (taken ++ rest) =
      (quotedContent mark rest).map (Prod.map (taken ++ ·) id) := by
  induction taken with
  | nil =>
    rw [List.nil_append]
    cases quotedContent mark rest <;> rfl
  | cons c taken ih =>
    obtain ⟨hc, htaken⟩ := List.forall_mem_cons.mp h
    rw [List.cons_append, quotedContent_cons hc, ih htaken]
    cases quotedContent mark rest <;> rfl

/-- **Quoted content is read back** up to a mark that no other mark follows. -/
theorem quotedContent_doubledChars (mark : Char) (content : List Char) {rest : List Char}
    (hrest : mark ∉ rest.head?) :
    quotedContent mark (doubledChars mark content ++ mark :: rest) = some (content, rest) := by
  induction content with
  | nil => exact quotedContent_closed hrest
  | cons c cs ih =>
    by_cases hc : c = mark
    · subst hc
      have hdoubled : doubledChars c (c :: cs) = c :: c :: doubledChars c cs := by
        simp [doubledChars]
      rw [hdoubled, List.cons_append, List.cons_append, quotedContent_doubled, ih]
      rfl
    · have hsingle : doubledChars mark (c :: cs) = c :: doubledChars mark cs := by
        simp [doubledChars, hc]
      rw [hsingle, List.cons_append, quotedContent_cons hc, ih]
      rfl

/-- **A string is its content with doubled marks and a mark at its end** that stands alone. -/
theorem quotedContent_eq_some_iff :
    quotedContent mark cs = some (content, rest) ↔
      cs = doubledChars mark content ++ mark :: rest ∧ mark ∉ rest.head? := by
  constructor
  · intro h
    fun_induction quotedContent mark cs generalizing content with
    | case1 => cases h
    | case2 =>
      obtain ⟨rfl, rfl⟩ := Prod.mk.inj (Option.some.inj h)
      exact ⟨rfl, by simp⟩
    | case3 => cases h
    | case4 cs ih =>
      obtain ⟨⟨inner, r⟩, hinner, heq⟩ := Option.map_eq_some_iff.mp h
      obtain ⟨rfl, rfl⟩ := Prod.mk.inj heq
      obtain ⟨rfl, hrest⟩ := ih hinner
      exact ⟨by simp [doubledChars], hrest⟩
    | case5 d cs hd =>
      obtain ⟨rfl, rfl⟩ := Prod.mk.inj (Option.some.inj h)
      exact ⟨rfl, by simpa using hd⟩
    | case6 c d cs hc ih =>
      obtain ⟨⟨inner, r⟩, hinner, heq⟩ := Option.map_eq_some_iff.mp h
      obtain ⟨rfl, rfl⟩ := Prod.mk.inj heq
      obtain ⟨hcs, hrest⟩ := ih hinner
      exact ⟨by simp [doubledChars, hc, hcs], hrest⟩
  · rintro ⟨rfl, hrest⟩
    exact quotedContent_doubledChars mark content hrest

/-- A string that is not closed leaves its marks in pairs. -/
theorem even_marks_of_quotedContent_none (h : quotedContent mark cs = none) :
    cs.count mark % 2 = 0 := by
  fun_induction quotedContent mark cs with
  | case1 => rfl
  | case2 => cases h
  | case3 c hc => simp [hc]
  | case4 cs ih =>
    have heven := ih (Option.map_eq_none_iff.mp h)
    simp only [List.count_cons_self]
    omega
  | case5 => cases h
  | case6 c d cs hc ih =>
    rw [List.count_cons_of_ne hc]
    exact ih (Option.map_eq_none_iff.mp h)

end QuotedContent

/-! ## Ends of texts -/

section TrimEnd

variable {cs ds : List Char} {c : Char}

/-- A text that does not end in white space is left as it is. -/
theorem trimEnd_of_getLast? (h : ∀ c ∈ cs.getLast?, isWhiteSpace c = false) : trimEnd cs = cs := by
  have hkept : cs.reverse.dropWhile isWhiteSpace = cs.reverse := by
    rw [List.getLast?_eq_head?_reverse] at h
    cases hrev : cs.reverse with
    | nil => rfl
    | cons c rest =>
      have hc : isWhiteSpace c = false := h c (by rw [hrev]; rfl)
      exact List.dropWhile_cons_of_neg (by simp [hc])
  rw [trimEnd, hkept, List.reverse_reverse]

/-- White space is trimmed behind the last other character only. -/
theorem trimEnd_append_cons (h : isWhiteSpace c = false) :
    trimEnd (cs ++ c :: ds) = cs ++ c :: trimEnd ds := by
  have hstops : ∀ es, (c :: es).dropWhile isWhiteSpace = c :: es := by
    intro es
    exact List.dropWhile_cons_of_neg (by simp [h])
  simp only [trimEnd, List.reverse_append, List.reverse_cons, List.append_assoc,
    List.singleton_append, List.dropWhile_append, hstops, List.isEmpty_iff]
  split
  next hempty => simp [hempty]
  next => simp

end TrimEnd

/-! ## Ranges of characters -/

theorem inRanges_of_head {ranges : List (Nat × Nat)} {low high n : Nat}
    (h : ranges.head? = some (low, high)) (hlow : low ≤ n) (hhigh : n ≤ high) :
    inRanges ranges n = true := by
  obtain ⟨rest, rfl⟩ := List.head?_eq_some_iff.mp h
  simp [inRanges, hhigh, Nat.not_lt.mpr hlow]

/-- Whether no range of one list overlaps a range of another one. -/
def areApart (ranges others : List (Nat × Nat)) : Bool :=
  ranges.all fun r => others.all fun s => r.2 < s.1 || s.2 < r.1

/-- Tables that are apart have no number in common. -/
theorem inRanges_eq_false_of_areApart {ranges others : List (Nat × Nat)} {n : Nat}
    (happart : areApart ranges others = true) (h : inRanges ranges n = true) :
    inRanges others n = false := by
  cases hother : inRanges others n with
  | false => rfl
  | true =>
    obtain ⟨r, hr, hlow, hhigh⟩ := exists_mem_of_inRanges h
    obtain ⟨s, hs, hlow', hhigh'⟩ := exists_mem_of_inRanges hother
    have hrs := List.all_eq_true.mp (List.all_eq_true.mp happart r hr) s hs
    simp only [Bool.or_eq_true, decide_eq_true_eq] at hrs
    omega

end Text

namespace Pipeline

open Reader

/-! ## Names -/

/-- Whether a text is a name. -/
def isName (s : String) : Bool :=
  s.toList.head?.any isNameStart && s.toList.all isNamePart

/-- A name may go on with any character it may start with. -/
theorem isNamePart_of_isNameStart {c : Char} (h : isNameStart c = true) : isNamePart c = true := by
  simp only [isNameStart, isNamePart, Bool.or_eq_true] at h ⊢
  rcases h with halpha | hbar
  · exact .inl (.inl halpha)
  · exact .inr hbar

/-- A name has a first character, and all its characters may stand in a name. -/
theorem exists_cons_of_isName {s : String} (h : isName s = true) :
    ∃ c cs, s.toList = c :: cs ∧ isNameStart c = true ∧ ∀ d ∈ c :: cs, isNamePart d = true := by
  obtain ⟨hstart, hparts⟩ := (Bool.and_eq_true _ _).mp h
  cases hs : s.toList with
  | nil =>
    rw [hs] at hstart
    cases hstart
  | cons c cs =>
    rw [hs] at hstart hparts
    exact ⟨c, cs, rfl, hstart, List.all_eq_true.mp hparts⟩

/-- Whether the text goes on with a character of a name. -/
def continuesName (cs : List Char) : Bool :=
  cs.head?.any isNamePart

/-- The character behind a whole name is none of a name. -/
theorem continuesName_eq_false {cs : List Char} (h : continuesName cs = false) :
    ∀ c ∈ cs.head?, isNamePart c = false := by
  intro c hc
  simpa [continuesName, Option.mem_def.mp hc] using h

/-- Nothing is taken where no name goes on. -/
theorem dropWhile_isNamePart {rest : List Char} (h : continuesName rest = false) :
    rest.takeWhile isNamePart = [] ∧ rest.dropWhile isNamePart = rest := by
  cases rest with
  | nil => exact ⟨rfl, rfl⟩
  | cons c rest => simp [continuesName_eq_false h c rfl]

/-- A name is taken as a whole. -/
theorem continuesName_dropWhile (cs : List Char) :
    continuesName (cs.dropWhile isNamePart) = false := by
  cases hrest : cs.dropWhile isNamePart with
  | nil => rfl
  | cons c rest =>
    have hhead := List.head?_dropWhile_not isNamePart cs
    rw [hrest] at hhead
    simpa [continuesName] using hhead

/-- A name is its first character and all that can go on behind it. -/
theorem name_cons {c : Char} (cs : List Char) (hc : isNameStart c = true) :
    name (c :: cs) =
      .read (String.ofList (c :: cs.takeWhile isNamePart)) (cs.dropWhile isNamePart) := by
  have hinside : ∀ d ∈ cs.takeWhile isNameStart, isNamePart d = true := fun d hd =>
    isNamePart_of_isNameStart (List.mem_takeWhile_imp hd)
  have hcs : cs.takeWhile isNameStart ++ cs.dropWhile isNameStart = cs :=
    List.takeWhile_append_dropWhile
  -- what starts a name may go on in it, so the two runs are one
  have hothers : run isNamePart (cs.dropWhile isNameStart) =
      .read ((cs.dropWhile isNameStart).takeWhile isNamePart) (cs.dropWhile isNamePart) := by
    unfold run
    rw [← List.dropWhile_append_of_pos hinside, hcs]
  unfold name
  rw [bind_of_read (someRun_cons cs hc), bind_of_read hothers, List.cons_append,
    ← List.takeWhile_append_of_pos hinside, hcs]
  rfl

/-- A name is refused where none starts. -/
theorem refuses_name {cs : List Char} (h : ∀ c ∈ cs.head?, isNameStart c = false) :
    name.Refuses cs :=
  (refuses_someRun h).bind

/-- **A name is read exactly from its spelling**, up to a character that cannot go on in it. -/
theorem name_eq_read_iff {cs rest : List Char} {s : String} :
    name cs = .read s rest ↔
      cs = s.toList ++ rest ∧ isName s = true ∧ continuesName rest = false := by
  constructor
  · intro h
    have hstart : ∃ c tail, cs = c :: tail ∧ isNameStart c = true := by
      by_contra hno
      obtain ⟨left, hleft⟩ : name.Refuses cs := by
        refine refuses_name fun c hc => Bool.eq_false_iff.mpr fun hstart => hno ?_
        obtain ⟨tail, rfl⟩ := List.head?_eq_some_iff.mp hc
        exact ⟨c, tail, rfl, hstart⟩
      rw [hleft] at h
      cases h
    obtain ⟨c, tail, rfl, hstart⟩ := hstart
    rw [name_cons tail hstart] at h
    obtain ⟨rfl, rfl⟩ := Reading.read.inj h
    refine ⟨by simp, ?_, continuesName_dropWhile tail⟩
    have hpart := isNamePart_of_isNameStart hstart
    simp only [isName, String.toList_ofList, List.head?_cons, Option.any_some, hstart,
      List.all_cons, hpart, List.all_takeWhile, Bool.and_self]
  · rintro ⟨rfl, hname, hrest⟩
    obtain ⟨c, cs, hcs, hstart, hparts⟩ := exists_cons_of_isName hname
    have hinside : ∀ d ∈ cs, isNamePart d = true := by
      intro d hd
      exact hparts d (List.mem_cons_of_mem c hd)
    obtain ⟨htake, hdrop⟩ := dropWhile_isNamePart hrest
    rw [hcs, List.cons_append, name_cons _ hstart, List.takeWhile_append_of_pos hinside,
      List.dropWhile_append_of_pos hinside, htake, hdrop, List.append_nil, ← hcs,
      String.ofList_toList]

/-- White space and the characters of names are apart. -/
theorem isWhiteSpace_of_isNamePart {c : Char} (h : isNamePart c = true) :
    isWhiteSpace c = false := by
  simp only [isNamePart, Bool.or_eq_true, decide_eq_true_eq] at h
  rcases h with (halphabetic | hnumeral) | rfl
  · exact inRanges_eq_false_of_areApart (by decide +kernel) halphabetic
  · exact inRanges_eq_false_of_areApart (by decide +kernel) hnumeral
  · decide

/-! ## Texts without white space around them -/

/-- A text that neither starts nor ends with white space and is not empty. -/
def Solid (cs : List Char) : Prop :=
  (∃ c ∈ cs.head?, isWhiteSpace c = false) ∧ ∃ c ∈ cs.getLast?, isWhiteSpace c = false

namespace Solid

variable {cs ds between : List Char}

/-- A text without white space is solid. -/
theorem of_forall (hsome : cs ≠ []) (h : ∀ c ∈ cs, isWhiteSpace c = false) : Solid cs := by
  constructor
  · exact ⟨cs.head hsome, List.head?_eq_some_head hsome, h _ (List.head_mem hsome)⟩
  · exact ⟨cs.getLast hsome, List.getLast?_eq_some_getLast hsome, h _ (List.getLast_mem hsome)⟩

/-- Only the ends count. -/
theorem append (hcs : Solid cs) (hds : Solid ds) : Solid (cs ++ (between ++ ds)) := by
  obtain ⟨⟨c, hc, hfirst⟩, -⟩ := hcs
  obtain ⟨-, d, hd, hlast⟩ := hds
  constructor
  · exact ⟨c, by rw [List.head?_append, Option.mem_def.mp hc]; rfl, hfirst⟩
  · refine ⟨d, ?_, hlast⟩
    rw [← List.append_assoc, List.getLast?_append, Option.mem_def.mp hd]
    rfl

/-- There is nothing to be trimmed at the end of a solid text. -/
theorem trimEnd_eq (h : Solid cs) : trimEnd cs = cs := by
  obtain ⟨-, d, hd, hlast⟩ := h
  refine trimEnd_of_getLast? fun c hc => ?_
  obtain rfl : d = c := Option.some.inj (hd.symm.trans hc)
  exact hlast

theorem skipBlanks_append (h : Solid cs) (rest : List Char) :
    skipBlanks (cs ++ rest) = cs ++ rest := by
  obtain ⟨⟨c, hc, hfirst⟩, -⟩ := h
  obtain ⟨tail, rfl⟩ := List.head?_eq_some_iff.mp hc
  refine List.dropWhile_cons_of_neg fun hblank => ?_
  simp only [isBlank, Bool.or_eq_true, decide_eq_true_eq] at hblank
  rcases hblank with ((rfl | rfl) | rfl) | rfl <;> exact absurd hfirst (by decide)

end Solid

theorem solid_of_isName {s : String} (h : isName s = true) : Solid s.toList := by
  obtain ⟨c, cs, hs, -, hparts⟩ := exists_cons_of_isName h
  rw [hs]
  exact .of_forall (List.cons_ne_nil c cs) fun d hd => isWhiteSpace_of_isNamePart (hparts d hd)

/-! ## Keywords -/

/-- Only capitals have another small letter, and they are alphabetic. -/
theorem toLower_eq_or_isAlphabetic (c : Char) : c.toLower = c ∨ isAlphabetic c = true := by
  by_cases hupper : c.val ≥ 'A'.val ∧ c.val ≤ 'Z'.val
  · obtain ⟨hlow, hhigh⟩ := hupper
    exact .inr (inRanges_of_head rfl hlow hhigh)
  · exact .inl (dif_neg hupper)

/-- Capitals start names where small letters do. -/
theorem isNameStart_of_toLower {c : Char} (h : isNameStart c.toLower = true) :
    isNameStart c = true := by
  rcases toLower_eq_or_isAlphabetic c with heq | halphabetic
  · rwa [heq] at h
  · simp [isNameStart, halphabetic]

theorem isNamePart_of_toLower {c : Char} (h : isNamePart c.toLower = true) :
    isNamePart c = true := by
  rcases toLower_eq_or_isAlphabetic c with heq | halphabetic
  · rwa [heq] at h
  · simp [isNamePart, halphabetic]

/-- What is spelled like a name in small letters is a name. -/
theorem isName_of_toLower {word s : String} (hword : isName word = true)
    (h : s.toList.map Char.toLower = word.toList) : isName s = true := by
  obtain ⟨d, ds, hds, hstart, hparts⟩ := exists_cons_of_isName hword
  obtain ⟨c, cs, hcs, rfl, rfl⟩ := List.map_eq_cons_iff.mp (h.trans hds)
  have hall : ∀ d ∈ c :: cs, isNamePart d = true := by
    intro d hd
    rw [← List.map_cons] at hparts
    exact isNamePart_of_toLower (hparts d.toLower (List.mem_map_of_mem hd))
  rw [isName, hcs]
  exact (Bool.and_eq_true _ _).mpr ⟨isNameStart_of_toLower hstart, List.all_eq_true.mpr hall⟩

/-- Whether a character is a letter from `a` to `z`. -/
def isSmallLetter (c : Char) : Bool :=
  'a' ≤ c && c ≤ 'z'

/-- Whether a word is made of letters from `a` to `z`. -/
def isBasic (word : String) : Bool :=
  word.toList.all isSmallLetter

/-- Whether the letters of a word have no other forms than their capitals. -/
def isPlainWord (word : String) : Bool :=
  isBasic word && word.toList.all (· ≠ 'k')

/-- A letter has two forms, and the letter `k` has a third one, the Kelvin sign. -/
theorem isCaseOf_iff {letter c : Char} :
    isCaseOf letter c = true ↔ c.toLower = letter ∨ letter = 'k' ∧ c = kelvinSign := by
  simp [isCaseOf]

theorem utf8Size_of_le {c : Char} (h : c.val ≤ 'z'.val) : c.utf8Size = 1 :=
  Char.utf8Size_eq_one_iff.mpr (UInt32.le_trans h (by decide))

theorem utf8Size_of_isSmallLetter {letter : Char} (h : isSmallLetter letter = true) :
    letter.utf8Size = 1 := by
  simp only [isSmallLetter, Bool.and_eq_true, decide_eq_true_eq] at h
  exact utf8Size_of_le h.2

/-- A capital has one byte as its letter has. -/
theorem utf8Size_of_toLower {c : Char} (h : isSmallLetter c.toLower = true) : c.utf8Size = 1 := by
  by_cases hupper : c.val ≥ 'A'.val ∧ c.val ≤ 'Z'.val
  · exact utf8Size_of_le (UInt32.le_trans hupper.2 (by decide))
  · have heq : c.toLower = c := dif_neg hupper
    rw [heq] at h
    exact utf8Size_of_isSmallLetter h

/-- No form of a letter opens a string. -/
theorem ne_mark_of_isCaseOf {letter c : Char} (hletter : isSmallLetter letter = true)
    (h : isCaseOf letter c = true) : c ≠ '\'' := by
  rintro rfl
  rcases isCaseOf_iff.mp h with rfl | ⟨-, hkelvin⟩
  · cases hletter
  · exact absurd hkelvin (by decide)

section Spelled

variable {letters s cs rest : List Char} {word : String}

/-- Letters in any case are compared with success and take their bytes, so that the word goes on
with its other letters at the rest. -/
theorem dropBytes_of_toLower (hletters : ∀ w ∈ letters, isSmallLetter w = true)
    (h : s.map Char.toLower = letters) (others rest : List Char) :
    ((s ++ rest).zip (letters ++ others)).all (fun (c, letter) => isCaseOf letter c) =
        (rest.zip others).all (fun (c, letter) => isCaseOf letter c) ∧
      (byteLength (letters ++ others) ≤ byteLength (s ++ rest) ↔
        byteLength others ≤ byteLength rest) ∧
      dropBytes (byteLength (letters ++ others)) (s ++ rest) =
        dropBytes (byteLength others) rest := by
  induction letters generalizing s with
  | nil =>
    obtain rfl := List.map_eq_nil_iff.mp h
    exact ⟨rfl, Iff.rfl, rfl⟩
  | cons w letters ih =>
    obtain ⟨c, s, rfl, hc, hs⟩ := List.map_eq_cons_iff.mp h
    obtain ⟨hw, hletters⟩ := List.forall_mem_cons.mp hletters
    obtain ⟨hall, hle, hdrop⟩ := ih hletters hs
    have hsize := utf8Size_of_toLower (hc ▸ hw)
    have hsize' := utf8Size_of_isSmallLetter hw
    refine ⟨?_, ?_, ?_⟩
    · have hcase : isCaseOf w c = true := isCaseOf_iff.mpr (.inl hc)
      rw [List.cons_append, List.cons_append, List.zip_cons_cons, List.all_cons, hall]
      simp only [hcase, Bool.true_and]
    · simp only [List.cons_append, byteLength, hsize, hsize']
      omega
    · rw [List.cons_append, List.cons_append, byteLength, hsize', Nat.add_comm, dropBytes, hsize,
        if_pos (by omega), Nat.add_sub_cancel, hdrop]

/-- Where no other form of a letter stands, only the spelling of a word has its letters and as many
bytes. -/
theorem exists_of_zip (hletters : ∀ w ∈ letters, isSmallLetter w = true)
    (hall : ∀ pair ∈ cs.zip letters, pair.1.toLower = pair.2)
    (hle : byteLength letters ≤ byteLength cs) :
    ∃ s rest, cs = s ++ rest ∧ s.map Char.toLower = letters := by
  induction letters generalizing cs with
  | nil => exact ⟨[], cs, rfl, rfl⟩
  | cons w letters ih =>
    obtain ⟨hw, hletters⟩ := List.forall_mem_cons.mp hletters
    cases cs with
    | nil =>
      have hpos := w.utf8Size_pos
      simp only [byteLength] at hle
      omega
    | cons c cs =>
      rw [List.zip_cons_cons, List.forall_mem_cons] at hall
      obtain ⟨hc, hall⟩ := hall
      have hsize : c.utf8Size = 1 := utf8Size_of_toLower (hw.symm ▸ congrArg isSmallLetter hc)
      have hsize' := utf8Size_of_isSmallLetter hw
      simp only [byteLength, hsize, hsize'] at hle
      obtain ⟨s, rest, rfl, hs⟩ := ih hletters hall (by omega)
      exact ⟨c :: s, rest, rfl, by rw [List.map_cons, hc, hs]⟩

/-- Behind its first letters in any case, a word is read as its other letters are; a refusal is met
at the start. -/
theorem spelled_append_append {front back : List Char}
    (hfront : front.all isSmallLetter = true) (hword : word.toList = front ++ back)
    (h : s.map Char.toLower = front) (rest : List Char) :
    spelled word (s ++ rest) =
      if (rest.zip back).all (fun (c, letter) => isCaseOf letter c) &&
          byteLength back ≤ byteLength rest then
        (dropBytes (byteLength back) rest).elim .broken (.read ())
      else .refused (s ++ rest) := by
  obtain ⟨hall, hle, hdrop⟩ := dropBytes_of_toLower (List.all_eq_true.mp hfront) h back rest
  simp only [spelled, hword, hall, hle, hdrop]
  cases dropBytes (byteLength back) rest <;> rfl

/-- A word is read in capitals and small letters alike. -/
theorem spelled_append {s : String} (hword : isBasic word = true)
    (h : s.toList.map Char.toLower = word.toList) (rest : List Char) :
    spelled word (s.toList ++ rest) = .read () rest := by
  rw [spelled_append_append hword (List.append_nil _).symm h]
  simp [byteLength, dropBytes]

/-- A word is read from its spelling in any case, or else refused. -/
def Plainly (word : String) (cs : List Char) : Prop :=
  (∃ (s : String) (rest : List Char), s.toList.map Char.toLower = word.toList ∧
      cs = s.toList ++ rest ∧ spelled word cs = .read () rest) ∨
    spelled word cs = .refused cs

/-- So it is where no other form of a letter stands. -/
theorem plainly_of_forms (hword : isBasic word = true)
    (hforms : (cs.zip word.toList).all (fun (c, letter) => isCaseOf letter c) = true →
      ∀ pair ∈ cs.zip word.toList, pair.1.toLower = pair.2) : Plainly word cs := by
  by_cases hfits : (cs.zip word.toList).all (fun (c, letter) => isCaseOf letter c) = true ∧
      byteLength word.toList ≤ byteLength cs
  · obtain ⟨hall, hle⟩ := hfits
    obtain ⟨s, rest, rfl, hs⟩ := exists_of_zip (List.all_eq_true.mp hword) (hforms hall) hle
    have hchars : (String.ofList s).toList = s := String.toList_ofList
    have hread := spelled_append (s := String.ofList s) hword (hchars.symm ▸ hs) rest
    rw [hchars] at hread
    exact .inl ⟨String.ofList s, rest, hchars.symm ▸ hs, by rw [hchars], hread⟩
  · right
    rw [spelled, if_neg]
    simpa only [Bool.and_eq_true, decide_eq_true_eq] using hfits

/-- A word without the letter `k` is read plainly from every text. -/
theorem plainly_of_isPlainWord (hword : isPlainWord word = true) (cs : List Char) :
    Plainly word cs := by
  obtain ⟨hbasic, hletters⟩ := (Bool.and_eq_true _ _).mp hword
  refine plainly_of_forms hbasic fun hall pair hpair => ?_
  have hk : pair.2 ≠ 'k' :=
    of_decide_eq_true (List.all_eq_true.mp hletters pair.2 (List.of_mem_zip hpair).2)
  rcases isCaseOf_iff.mp (List.all_eq_true.mp hall pair hpair) with hlower | ⟨hkelvin, -⟩
  · exact hlower
  · exact absurd hkelvin hk

/-- A word that is not read plainly has the Kelvin sign in it. -/
theorem plainly_of_sign_notMem (hword : isBasic word = true) (hsign : kelvinSign ∉ cs) :
    Plainly word cs := by
  refine plainly_of_forms hword fun hall pair hpair => ?_
  rcases isCaseOf_iff.mp (List.all_eq_true.mp hall pair hpair) with hlower | ⟨-, hkelvin⟩
  · exact hlower
  · exact absurd (hkelvin ▸ (List.of_mem_zip hpair).1) hsign

/-- Plain reading does not break off. -/
theorem Plainly.ne_broken (h : Plainly word cs) : spelled word cs ≠ .broken := by
  intro hbroken
  rcases h with ⟨s, rest, -, -, hread⟩ | hrefused
  · rw [hread] at hbroken
    cases hbroken
  · rw [hrefused] at hbroken
    cases hbroken

end Spelled

/-- Behind a keyword the name must not go on. -/
theorem absent_namePart (cs : List Char) :
    absent (someRun isNamePart) cs = if continuesName cs then .refused cs else .read () cs := by
  cases cs with
  | nil => rfl
  | cons c cs =>
    by_cases hc : isNamePart c = true
    · simp [absent, someRun_cons cs hc, Reading.andThen, continuesName, hc]
    · obtain ⟨left, hleft⟩ : (someRun isNamePart).Refuses (c :: cs) := by
        refine refuses_someRun fun d hd => ?_
        obtain rfl : c = d := Option.some.inj hd
        exact Bool.eq_false_iff.mpr hc
      simp [absent, hleft, continuesName, hc]

section Keyword

variable {word : String} {cs rest : List Char}

/-- A keyword is read in any case before a character that cannot go on in a name. -/
theorem keyword_append {s : String} (hword : isBasic word = true)
    (h : s.toList.map Char.toLower = word.toList) (hrest : continuesName rest = false) :
    keyword word (s.toList ++ rest) = .read () rest := by
  rw [keyword, bind_of_read (spelled_append hword h rest), absent_namePart, hrest]
  rfl

/-- A plain keyword is read or refused. -/
theorem keyword_cases (hword : isPlainWord word = true) (cs : List Char) :
    (∃ (s : String) (rest : List Char), s.toList.map Char.toLower = word.toList ∧
        cs = s.toList ++ rest ∧ continuesName rest = false ∧ keyword word cs = .read () rest) ∨
      (keyword word).Refuses cs := by
  rcases plainly_of_isPlainWord hword cs with ⟨s, rest, hs, hcs, hread⟩ | hrefused
  · have hkeyword : keyword word cs = absent (someRun isNamePart) rest := bind_of_read hread
    rw [absent_namePart] at hkeyword
    cases hgoes : continuesName rest with
    | false =>
      rw [hgoes] at hkeyword
      exact .inl ⟨s, rest, hs, hcs, hgoes, hkeyword⟩
    | true =>
      rw [hgoes] at hkeyword
      exact .inr ⟨rest, hkeyword⟩
  · exact .inr (Refuses.bind ⟨cs, hrefused⟩)

/-- **A keyword is read from its spelling in any case**, up to a character that cannot go on in a
name. -/
theorem keyword_eq_read_iff (hword : isPlainWord word = true) {u : Unit} :
    keyword word cs = .read u rest ↔
      (∃ s : String, s.toList.map Char.toLower = word.toList ∧ cs = s.toList ++ rest) ∧
        continuesName rest = false := by
  constructor
  · intro h
    rcases keyword_cases hword cs with ⟨s, rest', hs, hcs, hrest, hread⟩ | ⟨left, hrefused⟩
    · obtain ⟨-, rfl⟩ := Reading.read.inj (hread.symm.trans h)
      exact ⟨⟨s, hs, hcs⟩, hrest⟩
    · rw [hrefused] at h
      cases h
  · rintro ⟨⟨s, hs, rfl⟩, hrest⟩
    exact keyword_append ((Bool.and_eq_true _ _).mp hword).1 hs hrest

/-- A name is not read as a keyword that it is not. -/
theorem refuses_keyword_of_name {s : String} (hword : isPlainWord word = true)
    (hname : isName word = true) (hs : isName s = true) (hrest : continuesName rest = false)
    (hother : s.toList.map Char.toLower ≠ word.toList) :
    (keyword word).Refuses (s.toList ++ rest) := by
  rcases keyword_cases hword (s.toList ++ rest) with ⟨t, r, ht, hcs, hr, -⟩ | hrefused
  · have hread : name (s.toList ++ rest) = .read s rest := name_eq_read_iff.mpr ⟨rfl, hs, hrest⟩
    have hread' : name (s.toList ++ rest) = .read t r :=
      name_eq_read_iff.mpr ⟨hcs, isName_of_toLower hname ht, hr⟩
    obtain ⟨rfl, -⟩ := Reading.read.inj (hread.symm.trans hread')
    exact absurd ht hother
  · exact hrefused

/-- No keyword is read where no name starts. -/
theorem refuses_keyword_of_head (hword : isPlainWord word = true) (hname : isName word = true)
    (h : ∀ c ∈ cs.head?, isNameStart c = false) : (keyword word).Refuses cs := by
  rcases keyword_cases hword cs with ⟨s, rest, hs, rfl, -, -⟩ | hrefused
  · obtain ⟨c, us, hus, hstart, -⟩ := exists_cons_of_isName (isName_of_toLower hname hs)
    rw [hus] at h
    rw [h c rfl] at hstart
    cases hstart
  · exact hrefused

end Keyword

/-! ## Strings -/

section Strings

variable {cs rest : List Char}

/-- The pieces of a string end with the text or at the mark that closes it. -/
def PiecesEnd (cs : List Char) (pieces : List (List Char)) (rest : List Char) : Prop :=
  rest = [] ∧ quotedContent '\'' cs = none ∨
    ∃ behind, rest = '\'' :: behind ∧ quotedContent '\'' cs = some (pieces.flatten, behind)

/-- A piece goes in front of what is read behind it. -/
theorem PiecesEnd.cons {piece behind : List Char} {pieces : List (List Char)}
    (h : PiecesEnd behind pieces rest)
    (hcontent : quotedContent '\'' cs =
      (quotedContent '\'' behind).map (Prod.map (piece ++ ·) id)) :
    PiecesEnd cs (piece :: pieces) rest := by
  rcases h with ⟨hrest, hnone⟩ | ⟨last, hrest, hsome⟩
  · exact .inl ⟨hrest, by rw [hcontent, hnone]; rfl⟩
  · exact .inr ⟨last, hrest, by rw [hcontent, hsome]; rfl⟩

/-- A piece is read and belongs to the content, or there is none. -/
theorem quotedPiece_cases (cs : List Char) :
    (∃ piece behind, quotedPiece cs = .read piece behind ∧ behind.length < cs.length ∧
        quotedContent '\'' cs = (quotedContent '\'' behind).map (Prod.map (piece ++ ·) id)) ∨
      quotedPiece.Refuses cs ∧ PiecesEnd cs [] cs := by
  cases cs with
  | nil => exact .inr ⟨⟨[], rfl⟩, .inl ⟨rfl, rfl⟩⟩
  | cons c cs =>
    by_cases hc : c = '\''
    · subst hc
      have hrun : (someRun (· ≠ '\'')).Refuses ('\'' :: cs) := by
        refine refuses_someRun fun d hd => ?_
        obtain rfl : '\'' = d := Option.some.inj hd
        rfl
      by_cases hmark : '\'' ∈ cs.head?
      · obtain ⟨cs, rfl⟩ := List.head?_eq_some_iff.mp hmark
        refine .inl ⟨['\''], cs, ?_, ?_, quotedContent_doubled cs⟩
        · exact hrun.orElse.trans (bind_of_read (symbol_append "''" cs))
        · simp only [List.length_cons]
          omega
      · have hsymbol : (symbol "''").Refuses ('\'' :: cs) := by
          refine refuses_symbol fun hstarts => hmark ?_
          obtain ⟨rest, hrest⟩ := hstarts
          obtain ⟨-, rfl⟩ := List.cons.inj hrest
          rfl
        obtain ⟨left, hleft⟩ := hsymbol.bind (f := fun _ => (pure ['\''] : Reader (List Char)))
        exact .inr ⟨⟨left, hrun.orElse.trans hleft⟩, .inr ⟨cs, rfl, quotedContent_closed hmark⟩⟩
    · have hkind : decide (c ≠ '\'') = true := decide_eq_true hc
      have hrun : someRun (· ≠ '\'') (c :: cs) =
          .read (c :: cs.takeWhile (· ≠ '\'')) (cs.dropWhile (· ≠ '\'')) := someRun_cons cs hkind
      have hinside : ∀ d ∈ c :: cs.takeWhile (· ≠ '\''), d ≠ '\'' := by
        intro d hd
        rcases List.mem_cons.mp hd with rfl | hd
        · exact hc
        · have hkind := List.mem_takeWhile_imp hd
          exact of_decide_eq_true hkind
      refine .inl ⟨_, _, orElse_of_read hrun, Nat.lt_succ_of_le (List.length_dropWhile_le _ cs), ?_⟩
      rw [← quotedContent_append hinside, List.cons_append, List.takeWhile_append_dropWhile]

/-- **The pieces of a string are its content.**  A piece takes a run of characters at once, so the
induction is on the length of the text. -/
theorem many_quotedPiece (cs : List Char) :
    ∃ pieces rest, many quotedPiece cs = .read pieces rest ∧ PiecesEnd cs pieces rest := by
  induction hlength : cs.length using Nat.strong_induction_on generalizing cs with
  | h n ih =>
    rcases quotedPiece_cases cs with ⟨piece, behind, hpiece, hlt, hcontent⟩ | ⟨hrefused, hend⟩
    · obtain ⟨pieces, rest, hmany, hend⟩ := ih behind.length (hlength ▸ hlt) behind rfl
      refine ⟨piece :: pieces, rest, ?_, hend.cons hcontent⟩
      rw [many_of_read hpiece hlt, map_of_read hmany]
    · exact ⟨[], cs, hrefused.many, hend⟩

/-- A string is read if it is closed; otherwise all of the text is looked at. -/
theorem quoted_cons (cs : List Char) :
    quoted ('\'' :: cs) = match quotedContent '\'' cs with
      | some (content, rest) => .read (String.ofList content) rest
      | none => .refused [] := by
  have hmark : ∀ cs, symbol "'" ('\'' :: cs) = .read () cs := symbol_append "'"
  obtain ⟨pieces, rest, hmany, hends⟩ := many_quotedPiece cs
  rw [quoted, bind_of_read (hmark cs), bind_of_read hmany]
  rcases hends with ⟨rfl, hnone⟩ | ⟨behind, rfl, hsome⟩
  · rw [hnone]
    rfl
  · rw [hsome, bind_of_read (hmark behind)]
    rfl

/-- A string is refused where no mark opens it. -/
theorem quoted_of_head (h : cs.head? ≠ some '\'') : quoted cs = .refused cs := by
  have hopen : symbol "'" cs = .refused cs := by
    rw [symbol, if_neg]
    intro hstarts
    obtain ⟨rest, rfl⟩ := List.isPrefixOf_iff_prefix.mp hstarts
    exact h rfl
  rw [quoted, bind_apply, hopen]
  rfl

/-- **A string is read exactly from its spelling**, before anything but another mark. -/
theorem quoted_eq_read_iff {s : String} :
    quoted cs = .read s rest ↔
      cs = '\'' :: (doubledChars '\'' s.toList ++ '\'' :: rest) ∧ '\'' ∉ rest.head? := by
  constructor
  · intro h
    by_cases hhead : cs.head? = some '\''
    · obtain ⟨cs, rfl⟩ := List.head?_eq_some_iff.mp hhead
      rw [quoted_cons] at h
      split at h
      next content r hcontent =>
        obtain ⟨rfl, rfl⟩ := Reading.read.inj h
        obtain ⟨rfl, hrest⟩ := quotedContent_eq_some_iff.mp hcontent
        exact ⟨by rw [String.toList_ofList], hrest⟩
      next => cases h
    · rw [quoted_of_head hhead] at h
      cases h
  · rintro ⟨rfl, hrest⟩
    rw [quoted_cons, quotedContent_eq_some_iff.mpr ⟨rfl, hrest⟩]
    simp

/-- A string is read, or refused at its start or at the end of the text. -/
theorem quoted_cases (cs : List Char) :
    (∃ s rest, quoted cs = .read s rest) ∨ quoted cs = .refused cs ∨ quoted cs = .refused [] := by
  by_cases hhead : cs.head? = some '\''
  · obtain ⟨cs, rfl⟩ := List.head?_eq_some_iff.mp hhead
    rw [quoted_cons]
    split
    next content rest _ => exact .inl ⟨_, _, rfl⟩
    next => exact .inr (.inr rfl)
  · exact .inr (.inl (quoted_of_head hhead))

end Strings

end Pipeline

end EntityQuery
