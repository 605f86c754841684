import WordMachine.Proofs.Payload.RoundTrip

/-!
# Payloads are unambiguous

A payload says how many words, labels and line records it has, and each of these
says where it ends.  So the bytes of a document cannot be read in two ways, also
when other bytes follow (`Document.bytes_append_inj`).  In particular no document
starts with another one that is shorter, and therefore a payload that was cut off
is refused, wherever the cut is.
-/

namespace WordMachine

namespace Payload

namespace Format

variable {α : Type} {format : Format α} {take : Cursor → Except PayloadFault (α × Cursor)}

/-- What can be read has an end that can be told from the bytes themselves. -/
theorem Reads.bytes_append_inj
    (reads : format.Reads take) {left right : α} {rest more : List UInt8}
    (leftStorable : format.IsStorable left) (rightStorable : format.IsStorable right)
    (same : format.bytes left ++ rest = format.bytes right ++ more) :
    left = right ∧ rest = more := by
  have taken (value : α) (behind : List UInt8) (storable : format.IsStorable value) :
      take ⟨0, format.bytes value ++ behind⟩ =
        .ok (value, ⟨0 + (format.bytes value).length, behind⟩) :=
    (reads _ _ _).mpr ⟨storable, rfl, rfl⟩
  have both := taken left rest leftStorable
  rw [same, taken right more rightStorable] at both
  simp only [Except.ok.injEq, Prod.mk.injEq, Cursor.mk.injEq] at both
  exact ⟨both.1.symm, both.2.2.symm⟩

/-- As many values that can be read have an end that can be told from the bytes themselves. -/
theorem Reads.flatMap_append_inj
    (reads : format.Reads take) {left right : List α} {rest more : List UInt8}
    (sameCount : left.length = right.length)
    (leftStorable : ∀ value ∈ left, format.IsStorable value)
    (rightStorable : ∀ value ∈ right, format.IsStorable value)
    (same : left.flatMap format.bytes ++ rest = right.flatMap format.bytes ++ more) :
    left = right ∧ rest = more := by
  induction left generalizing right with
  | nil =>
      cases List.length_eq_zero_iff.mp sameCount.symm
      exact ⟨rfl, same⟩
  | cons first others tailHolds =>
      match right, sameCount with
      | other :: right, sameCount =>
          rw [List.forall_mem_cons] at leftStorable rightStorable
          rw [List.flatMap_cons, List.flatMap_cons, List.append_assoc, List.append_assoc] at same
          rcases reads.bytes_append_inj leftStorable.1 rightStorable.1 same with ⟨rfl, behind⟩
          rcases tailHolds (Nat.succ.inj sameCount) leftStorable.2 rightStorable.2 behind with
            ⟨rfl, sameRest⟩
          exact ⟨rfl, sameRest⟩

end Format

theorem flatMap_wordBytes_append_inj
    {left right : List Int} {rest more : List UInt8}
    (sameCount : left.length = right.length)
    (leftFit : ∀ word ∈ left, Word.Fits word) (rightFit : ∀ word ∈ right, Word.Fits word)
    (same : left.flatMap wordBytes ++ rest = right.flatMap wordBytes ++ more) :
    left = right ∧ rest = more := by
  have sameLength : (left.flatMap wordBytes).length = (right.flatMap wordBytes).length := by
    rw [length_flatMap_wordBytes, length_flatMap_wordBytes, sameCount]
  rcases List.append_inj same sameLength with ⟨sameBytes, sameRest⟩
  have read := congrArg (wordsFrom #[]) sameBytes
  rw [wordsFrom_flatMap_wordBytes leftFit, wordsFrom_flatMap_wordBytes rightFit] at read
  exact ⟨by simpa using read, sameRest⟩

/-! ## Documents -/

theorem Document.ext_of_fields
    {left right : Document} (sameHeader : left.header = right.header)
    (sameWords : left.words = right.words) (sameLabels : left.labels = right.labels)
    (sameLines : left.lines = right.lines) :
    left = right := by
  rcases left with ⟨_, _, _, _, _, _⟩
  rcases right with ⟨_, _, _, _, _, _⟩
  simp only [Document.header, Header.mk.injEq] at sameHeader
  simp only [Document.mk.injEq]
  exact ⟨sameHeader.2.1, sameHeader.2.2.1, sameHeader.2.2.2.2.1, sameWords, sameLabels, sameLines⟩

/--
Bytes that start with a document start with no other one.  The header gives the
numbers of words, labels and line records, and with these numbers known the parts
can be cut off one after the other.
-/
theorem Document.bytes_append_inj
    {left right : Document} {rest more : List UInt8}
    (same : left.bytes ++ rest = right.bytes ++ more) :
    left = right ∧ rest = more := by
  simp only [Document.bytes, List.append_assoc] at same
  have sameHeader : left.header = right.header := by
    have read := congrArg Header.ofBytes same
    rwa [Header.ofBytes_bytes_append left.isAcceptable_header.isStorable,
      Header.ofBytes_bytes_append right.isAcceptable_header.isStorable] at read
  have counts := sameHeader
  simp only [Document.header, Header.mk.injEq] at counts
  rcases counts with ⟨_, _, _, wordCount, _, labelCount, lineCount⟩
  rw [sameHeader] at same
  have bodies := List.append_cancel_left same
  simp only [Document.body, List.append_assoc] at bodies
  rcases flatMap_wordBytes_append_inj wordCount left.words_storable right.words_storable bodies
    with ⟨sameWords, tables⟩
  rcases reads_takeLabel.flatMap_append_inj labelCount left.labels_storable right.labels_storable
    tables with ⟨sameLabels, records⟩
  rcases reads_takeLineRecord.flatMap_append_inj lineCount left.lines_storable
    right.lines_storable records with ⟨sameLines, sameRest⟩
  exact ⟨Document.ext_of_fields sameHeader sameWords sameLabels sameLines, sameRest⟩

/-! ## Cut-off payloads -/

theorem isStorable_headerOf {image : Image} (fits : HasHeader image) :
    (headerOf image).IsStorable where
  magic_eq := rfl
  version_lt := (by decide : Payload.version < 65536)
  entry_lt := (Int.toNat_lt fits.entry.1).mpr fits.entry.2
  length_lt := (Int.toNat_lt fits.length.1).mpr fits.length.2
  capacity_lt := (Int.toNat_lt fits.capacity.1).mpr fits.capacity.2
  labelCount_lt := fits.labelCount
  lineCount_lt := fits.lineCount

/-- A written payload that starts with a document is that document and nothing else. -/
theorem rest_eq_nil_of_encode?
    {image : Image} {payload rest : List UInt8} {document : Document}
    (encoded : encode? image = some payload) (starts : payload = document.bytes ++ rest) :
    rest = [] := by
  rcases encode?_eq_some_iff.mp encoded with ⟨writable, written⟩
  have sameHeader : document.header = headerOf image := by
    have read := congrArg Header.ofBytes (starts.symm.trans written)
    rwa [Document.bytes, List.append_assoc, bytesOf,
      Header.ofBytes_bytes_append document.isAcceptable_header.isStorable,
      Header.ofBytes_bytes_append (isStorable_headerOf writable.header)] at read
  -- The document is within the bounds of a document, and so is therefore the image.
  have acceptable := document.isAcceptable_header
  rw [sameHeader] at acceptable
  have capacitySmall : image.capacity ≤ maxCapacity :=
    Int.le_trans (Int.self_le_toNat _) acceptable.capacity_le
  have lengthInside : image.length ≤ image.capacity := by
    have inside : image.length.toNat ≤ image.capacity.toNat := acceptable.length_le
    have nonnegative := writable.header.capacity.1
    omega
  rcases exists_document_of_encode? encoded capacitySmall lengthInside with ⟨whole, bytes, _⟩
  have both : whole.bytes ++ [] = document.bytes ++ rest := by
    rw [List.append_nil, ← bytes, starts]
  exact (Document.bytes_append_inj both).2.symm

/-- A written payload that is cut off anywhere is refused. -/
theorem decode_cutOff_eq_error
    {image : Image} {payload : List UInt8} (encoded : encode? image = some payload)
    {count : Nat} (short : count < payload.length) :
    ∃ fault, decode (payload.take count) = .error fault := by
  rcases decode_eq_ok_or_error (payload.take count) with ⟨read, decoded⟩ | refused
  · rcases decode_eq_ok_iff.mp decoded with ⟨document, trailing, starts, _⟩
    have whole : payload = document.bytes ++ (trailing ++ payload.drop count) := by
      rw [← List.append_assoc, ← starts, List.take_append_drop]
    have behind := rest_eq_nil_of_encode? encoded whole
    have nothing : payload.drop count = [] := (List.append_eq_nil_iff.mp behind).2
    exact absurd (List.drop_eq_nil_iff.mp nothing) (Nat.not_le.mpr short)
  · exact refused

/-- The cut falls between the two bytes of a character of the first name. -/
theorem decode_cutOff_scatteredImage :
    ∃ payload,
      encode? scatteredImage = some payload ∧
        payload[37]? = some 0xC3 ∧ payload[38]? = some 0xA9 ∧ 38 < payload.length ∧
          ∃ fault, decode (payload.take 38) = .error fault := by
  have bytes :
      (encode? scatteredImage).map (fun payload => (payload[37]?, payload[38]?, payload.length)) =
        some (some 0xC3, some 0xA9, 96) := by
    decide +kernel
  rcases Option.map_eq_some_iff.mp bytes with ⟨payload, encoded, found⟩
  simp only [Prod.mk.injEq] at found
  have short : 38 < payload.length := by
    rw [found.2.2]
    decide
  exact ⟨payload, encoded, found.1, found.2.1, short, decode_cutOff_eq_error encoded short⟩

end Payload

end WordMachine
