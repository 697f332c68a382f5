/-
# Where reading stops

A text that cannot be read is reported with a byte offset and with the text from there on.  Readers
backtrack, so the place may be met behind any number of attempts; but whatever a reader leaves, on
success and on failure, is an end of the text as it was given (`Trail.ends`), and the byte lengths
of the two say where it starts.

* `exists_place`: an end of a text starts at a place between two characters, and the difference of
  the byte lengths is its offset;
* `stopsAt_of_parse`: every fault of reading is met at such an end;
* `sign_of_parse_aborted`: reading breaks off only if the Kelvin sign is in the text;
* `parse_fault_place`: what is reported is a place in the text and what stands behind it.
-/
import EntityQuery.Proofs.Pipeline.Trails

namespace EntityQuery.Pipeline

open Text

/-! ## Places -/

/-- The byte length of characters is that of their string. -/
theorem byteLength_eq (cs : List Char) : byteLength cs = (String.ofList cs).utf8ByteSize := by
  induction cs with
  | nil => rfl
  | cons c cs ih => simp [byteLength, ih]

/-- **An end of a text starts between two characters**, as many bytes from the start as the text is
longer. -/
theorem exists_place {whole rest : List Char} (h : rest <:+ whole) :
    ∃ place : (String.ofList whole).Pos,
      place.offset.byteIdx + byteLength rest = byteLength whole ∧
      ((String.ofList whole).sliceFrom place).copy = String.ofList rest := by
  obtain ⟨before, rfl⟩ := h
  have hsplit : String.ofList (before ++ rest) = String.ofList before ++ String.ofList rest :=
    String.ofList_append
  have hvalid : String.Pos.Raw.IsValid (String.ofList (before ++ rest))
      (String.ofList before).rawEndPos :=
    String.Pos.Raw.isValid_iff_exists_append.mpr ⟨_, _, hsplit, rfl⟩
  have hlength : byteLength (before ++ rest) = byteLength before + byteLength rest := by
    simp only [byteLength_eq, hsplit, String.utf8ByteSize_append]
  refine ⟨⟨(String.ofList before).rawEndPos, hvalid⟩, ?_, ?_⟩
  · rw [hlength, byteLength_eq before]
    rfl
  · exact (String.Pos.Splits.mk hsplit rfl).copy_sliceFrom_eq

/-! ## Faults -/

/-- The fault is met at an end of the text. -/
def StopsAt (whole left : List Char) (fault : Fault) : Prop :=
  left <:+ whole ∧
    (fault = faultAt whole left .unexpected ∨ fault = faultAt whole left .trailing)

section Parse

variable {α : Type} {reader : Reader α} {text : String} {fault : Fault}

/-- **A fault of reading is met at an end of the text**, whether nothing could be read there or
something was left over; more text is never asked for. -/
theorem stopsAt_of_parse (hreader : Trail.ends.Keeps reader)
    (h : reader.parse text = .error fault) : ∃ left, StopsAt (trimEnd text.toList) left fault := by
  unfold Reader.parse at h
  simp only at h
  split at h
  next => cases h
  next a rest _ hread => exact ⟨rest, hreader.leaves hread, .inr (Parsed.error.inj h).symm⟩
  next left hread => exact ⟨left, hreader.allows hread, .inl (Parsed.error.inj h).symm⟩
  next left hread => exact ⟨left, hreader.allows hread, .inl (Parsed.error.inj h).symm⟩
  next hread => exact (hreader.allows hread).elim
  next => cases h

/-- A text is given up only where its reader breaks off. -/
theorem reader_of_parse_aborted (h : reader.parse text = .aborted) :
    reader (trimEnd text.toList) = .broken := by
  unfold Reader.parse at h
  simp only at h
  split at h
  · cases h
  · cases h
  · cases h
  · cases h
  · cases h
  · assumption

/-- Reading breaks off only if the Kelvin sign is in the text. -/
theorem sign_of_parse_aborted (hreader : Trail.ends.Keeps reader)
    (h : reader.parse text = .aborted) : kelvinSign ∈ text.toList := by
  have hsign : kelvinSign ∈ trimEnd text.toList := hreader.allows (reader_of_parse_aborted h)
  rw [trimEnd, List.mem_reverse] at hsign
  exact List.mem_reverse.mp ((List.dropWhile_suffix isWhiteSpace).subset hsign)

end Parse

/-- Expressions leave an end of the text, also among blanks. -/
theorem ends_amidBlanks_expression : Trail.ends.Keeps (amidBlanks expression) :=
  (Trail.keeps_expression Trail.ends_quoted).amidBlanks

end EntityQuery.Pipeline

namespace EntityQuery

open Pipeline Text

/-- Reading an expression never breaks off. -/
theorem Expr.parse_ne_aborted (text : String) : Expr.parse text ≠ .aborted := by
  intro h
  have hunbroken := (Trail.keeps_expression Trail.unbroken_quoted).amidBlanks
  exact hunbroken.allows (reader_of_parse_aborted h)

/-! ## Wording -/

namespace ReadFault

theorem message_unexpected (rest : String) :
    (unexpected rest).message = "Unexpected input: '" ++ rest ++ "'" := by
  show "Unexpected input: " ++ ("'" ++ rest ++ "'") = _
  rw [← String.toList_inj]
  simp

theorem message_trailing (rest : String) :
    (trailing rest).message = "Unexpected trailing content: '" ++ rest ++ "'" := by
  show "Unexpected trailing content: " ++ ("'" ++ rest ++ "'") = _
  rw [← String.toList_inj]
  simp

/-- A report that quotes a rest is no report of an early end. -/
theorem message_ne_end {cause : ReadFault} {rest : String}
    (h : cause = unexpected rest ∨ cause = trailing rest) :
    cause.message ≠ "Unexpected end of input" := by
  intro heq
  rcases h with rfl | rfl
  · rw [message_unexpected, ← String.toList_inj] at heq
    simp at heq
  · rw [message_trailing, ← String.toList_inj] at heq
    simp at heq

end ReadFault

/-! ## Reports -/

/-- **A text that cannot be read is reported with the place where reading stopped**: a place between
two characters of the trimmed text, given by its byte offset, and exactly the text from there on.
The trimmed text is not shorter than this rest, and the difference of their lengths is the offset.
A report is given whenever there is nothing to be read, unless the Kelvin sign stands in a pipeline,
where reading may break off. -/
theorem parse_fault_place (text : String) :
    let whole := trimEnd text.toList
    (∀ fault, Plan.parse text = .error fault ∨ Expr.parse text = .error fault →
      ∃ (place : (String.ofList whole).Pos) (rest : String) (cause : ReadFault),
        fault = .malformed place.offset.byteIdx cause ∧
        place.offset.byteIdx ≤ (String.ofList whole).utf8ByteSize ∧
        rest = ((String.ofList whole).sliceFrom place).copy ∧
        (cause = .unexpected rest ∧ cause.message = "Unexpected input: '" ++ rest ++ "'" ∨
          cause = .trailing rest ∧
            cause.message = "Unexpected trailing content: '" ++ rest ++ "'") ∧
        cause.message ≠ "Unexpected end of input" ∧
        byteLength rest.toList ≤ byteLength whole ∧
        place.offset.byteIdx = byteLength whole - byteLength rest.toList) ∧
      Expr.parse text ≠ .aborted ∧
      (Plan.parse text = .aborted → kelvinSign ∈ text.toList) := by
  intro whole
  refine ⟨fun fault h => ?_, Expr.parse_ne_aborted text, sign_of_parse_aborted Trail.ends_plan⟩
  obtain ⟨left, hend, hfault⟩ : ∃ left, StopsAt whole left fault := by
    rcases h with h | h
    · exact stopsAt_of_parse Trail.ends_plan h
    · exact stopsAt_of_parse ends_amidBlanks_expression h
  obtain ⟨place, hoffset, hrest⟩ := exists_place hend
  -- the offset is reported as a difference, which is exact because an end is not longer
  have hplace : byteLength whole - byteLength left = place.offset.byteIdx := by omega
  have hle : place.offset.byteIdx ≤ (String.ofList whole).utf8ByteSize := by
    rw [← byteLength_eq]
    omega
  have hchars : (String.ofList left).toList = left := String.toList_ofList
  have hlength : byteLength (String.ofList left).toList ≤ byteLength whole := by
    rw [hchars]
    omega
  have hposition : place.offset.byteIdx =
      byteLength whole - byteLength (String.ofList left).toList := by
    rw [hchars, hplace]
  rw [faultAt, faultAt, hplace] at hfault
  rcases hfault with rfl | rfl
  · exact ⟨place, String.ofList left, _, rfl, hle, hrest.symm,
      .inl ⟨rfl, ReadFault.message_unexpected _⟩, ReadFault.message_ne_end (.inl rfl), hlength,
      hposition⟩
  · exact ⟨place, String.ofList left, _, rfl, hle, hrest.symm,
      .inr ⟨rfl, ReadFault.message_trailing _⟩, ReadFault.message_ne_end (.inr rfl), hlength,
      hposition⟩

/-- The letters of a keyword that go on as a longer name, behind a letter of two bytes. -/
theorem parse_fault_place_longerName :
    let text := "Öle | oftypeß\u00a0"
    Plan.parse text = .error (.malformed 13 (.unexpected "ß")) ∧
      ∃ place : (String.ofList (trimEnd text.toList)).Pos, place.offset.byteIdx = 13 ∧
        ((String.ofList (trimEnd text.toList)).sliceFrom place).copy = "ß" := by
  have hparse : Plan.parse "Öle | oftypeß\u00a0" = .error (.malformed 13 (.unexpected "ß")) := rfl
  obtain ⟨place, rest, cause, hfault, -, hrest, hcause, -⟩ :=
    (parse_fault_place _).1 _ (.inl hparse)
  obtain ⟨hposition, rfl⟩ := Fault.malformed.inj hfault
  refine ⟨hparse, place, hposition.symm, ?_⟩
  rcases hcause with ⟨hcause, -⟩ | ⟨hcause, -⟩
  · rw [← hrest, ReadFault.unexpected.inj hcause]
  · cases hcause

example : Plan.parse "Owners | ta\u212ae 3" = .aborted :=
  rfl

end EntityQuery
