import WordMachine.Proofs.Payload.Unambiguous

/-!
# Normal forms of payloads

Different payloads may store the same image: a name may be bound twice, records
of one line may stand apart, the version may be an old one, and other bytes may
follow.  Writing an image that was read takes all of this out.  What is written
is the bytes of the normal form of the document that was read; it stores the same
image, and it is the payload itself exactly when there was nothing to take out.
-/

namespace WordMachine

namespace Payload

namespace Document

/-! ## The normal form of a document -/

theorem mem_labels_of_mem_items {document : Document} {item : String × Int}
    (member : item ∈ document.image.labels.items) :
    item ∈ document.labels := by
  rcases LabelTable.mem_of_mem_items_foldl_bind member with stored | bound
  · exact stored
  · cases bound

theorem length_items_le (document : Document) :
    document.image.labels.items.length ≤ document.labels.length := by
  have bound := LabelTable.length_items_foldl_bind_le document.labels .empty
  rwa [show LabelTable.empty.items.length = 0 from rfl, Nat.zero_add] at bound

theorem records_perm_lines (document : Document) :
    document.image.lines.records.Perm document.lines :=
  LineTable.records_foldl_record_perm .empty document.lines

/-- The document by which the image of a document is written. -/
def normal (document : Document) : Document where
  version := Payload.version
  entry := document.entry
  capacity := document.capacity
  words := document.words
  labels := document.image.labels.items
  lines := document.image.lines.records
  version_le := Nat.le_refl _
  entry_lt := document.entry_lt
  capacity_le := document.capacity_le
  length_le := document.length_le
  labelCount_lt := Nat.lt_of_le_of_lt document.length_items_le document.labelCount_lt
  lineCount_lt := by
    rw [document.records_perm_lines.length_eq]
    exact document.lineCount_lt
  words_storable := document.words_storable
  labels_storable item member := document.labels_storable item (mem_labels_of_mem_items member)
  lines_storable entry member :=
    document.lines_storable entry (document.records_perm_lines.mem_iff.mp member)

/-- The normal form describes the same image. -/
theorem image_normal (document : Document) : document.normal.image = document.image := by
  have labels :
      document.image.labels.items.foldl (fun table item => table.bind item.1 item.2) .empty =
        document.image.labels :=
    LabelTable.foldl_bind_items _
  have lines :
      document.image.lines.records.foldl LineTable.record .empty = document.image.lines := by
    rw [← LineTable.recordAll_eq_foldl]
    exact LineTable.recordAll_records _
  rw [image, normal, labels, lines]
  rfl

/-- A document in which nothing is left out or moved when it is read and written again. -/
structure IsNormal (document : Document) : Prop where
  version_eq : document.version = Payload.version
  names_distinct : (document.labels.map Prod.fst).Nodup
  lines_grouped : LineTable.IsGrouped document.lines

theorem normal_eq_self_iff (document : Document) :
    document.normal = document ↔ document.IsNormal := by
  constructor
  · intro same
    have version : document.normal.version = document.version := by rw [same]
    have labels : document.normal.labels = document.labels := by rw [same]
    have lines : document.normal.lines = document.lines := by rw [same]
    exact ⟨version.symm, (LabelTable.items_foldl_bind_eq_iff _).mp labels,
      (LineTable.records_foldl_record_eq_iff _).mp lines⟩
  · intro isNormal
    have labels : document.normal.labels = document.labels :=
      (LabelTable.items_foldl_bind_eq_iff _).mpr isNormal.names_distinct
    have lines : document.normal.lines = document.lines :=
      (LineTable.records_foldl_record_eq_iff _).mpr isNormal.lines_grouped
    have version : document.normal.version = document.version := isNormal.version_eq.symm
    have words : document.normal.words = document.words := rfl
    have headers : document.normal.header = document.header := by
      rw [header, header, version, words, labels, lines]
      rfl
    exact ext_of_fields headers words labels lines

/-! ## Writing what was read -/

theorem usedCode_image (document : Document) : document.image.usedCode = document.words := by
  have nonnegative : 0 ≤ document.image.length := Int.natCast_nonneg _
  rw [usedCode_of_nonneg nonnegative]
  simp [image]

theorem isWritable_image (document : Document) : IsWritable document.image where
  header := by
    have storable := document.isAcceptable_header.isStorable
    exact ⟨⟨Int.natCast_nonneg _, Int.ofNat_lt.mpr storable.entry_lt⟩,
      ⟨Int.natCast_nonneg _, Int.ofNat_lt.mpr storable.length_lt⟩,
      ⟨Int.natCast_nonneg _, Int.ofNat_lt.mpr storable.capacity_lt⟩,
      document.normal.labelCount_lt, document.normal.lineCount_lt⟩
  length_eq := by
    rw [usedCode_image]
    rfl
  words := by
    rw [usedCode_image]
    exact document.words_storable
  labels := document.normal.labels_storable
  lines := document.normal.lines_storable

/-- The image of a document is written by the bytes of the normal form. -/
theorem encode?_image (document : Document) :
    encode? document.image = some document.normal.bytes := by
  have bytes : document.normal.bytes = bytesOf document.image := by
    rw [bytesOf, usedCode_image]
    rfl
  exact encode?_eq_some_iff.mpr ⟨document.isWritable_image, bytes⟩

end Document

/--
Writing what was read succeeds and stores the same image again.  The payload
starts with one document only, and writing gives back the payload itself exactly
when that document is normal and no bytes follow it.
-/
theorem encode_normalizes_decoded
    {payload : List UInt8} {image : Image} (decoded : decode payload = .ok image) :
    ∃ written,
      encode? image = some written ∧ decode written = .ok image ∧
        ∃ (document : Document) (trailing : List UInt8),
          payload = document.bytes ++ trailing ∧
            (∀ (other : Document) (rest : List UInt8), payload = other.bytes ++ rest →
              other = document ∧ rest = trailing) ∧
              (written = payload ↔ document.IsNormal ∧ trailing = []) := by
  rcases decode_eq_ok_iff.mp decoded with ⟨document, trailing, rfl, rfl⟩
  refine ⟨document.normal.bytes, document.encode?_image, ?_, document, trailing, rfl, ?_, ?_⟩
  · apply decode_eq_ok_iff.mpr
    exact ⟨document.normal, [], (List.append_nil _).symm, document.image_normal.symm⟩
  · intro other rest same
    exact Document.bytes_append_inj same.symm
  · rw [← document.normal_eq_self_iff]
    constructor
    · intro same
      rw [← List.append_nil document.normal.bytes] at same
      rcases Document.bytes_append_inj same with ⟨normal, nothing⟩
      exact ⟨normal, nothing.symm⟩
    · rintro ⟨normal, rfl⟩
      rw [normal, List.append_nil]

/-- An old document with a name that is bound twice and a line that comes back. -/
def foreignDocument : Document where
  version := 0
  entry := 9
  capacity := 3
  words := [-1, 7]
  labels := [("é", 1), ("x", 2), ("é", 3)]
  lines := [⟨⟨"a", 1⟩, ⟨0, 1⟩⟩, ⟨⟨"b", 1⟩, ⟨1, 2⟩⟩, ⟨⟨"a", 1⟩, ⟨2, 2⟩⟩]
  version_le := by decide
  entry_lt := by decide
  capacity_le := by decide
  length_le := by decide
  labelCount_lt := by decide
  lineCount_lt := by decide
  words_storable := by decide
  labels_storable := by decide
  lines_storable := by decide

theorem encode_normalizes_foreignDocument :
    decode (foreignDocument.bytes ++ [7]) = .ok foreignDocument.image ∧
      ∃ written,
        encode? foreignDocument.image = some written ∧
          decode written = .ok foreignDocument.image ∧ written ≠ foreignDocument.bytes ++ [7] := by
  have decoded : decode (foreignDocument.bytes ++ [7]) = .ok foreignDocument.image :=
    decode_eq_ok_iff.mpr ⟨foreignDocument, [7], rfl, rfl⟩
  rcases encode_normalizes_decoded decoded with
    ⟨written, encoded, again, document, trailing, _, unique, same⟩
  refine ⟨decoded, written, encoded, again, ?_⟩
  intro unchanged
  have nothing := (same.mp unchanged).2
  rw [← (unique foreignDocument [7] rfl).2] at nothing
  cases nothing

end Payload

end WordMachine
