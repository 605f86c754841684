import WordMachine.Token

/-!
# Words of a text

Splitting a text gives words: texts that are not empty and that no blank
breaks.  Words that are joined by single blanks are split into themselves.  A
word on its own is a line and, unless it holds a comment marker, a raw token.
A text has at most as many lines, and a line at most as many words, as it has
characters.
-/

namespace WordMachine

namespace Text

/-- No blank breaks the text. -/
def IsUnbroken (text : String) : Prop :=
  ∀ character ∈ text.toList, isBlank character = false

/-- A text that splitting leaves as it is. -/
structure IsWord (text : String) : Prop where
  ne_empty : text ≠ ""
  isUnbroken : IsUnbroken text

theorem isBlank_of_isDigit {character : Char} (digit : character.isDigit = true) :
    isBlank character = false := by
  have bounds := Char.isDigit_iff_toNat.mp digit
  have low : 48 ≤ character.toNat := bounds.1
  have high : character.toNat ≤ 57 := bounds.2
  have outside : ∀ range ∈ blankRanges, range.2 < 48 ∨ 57 < range.1 := by decide
  rw [isBlank, List.any_eq_false]
  intro range member
  have apart := outside range member
  simp only [Bool.and_eq_true, decide_eq_true_eq]
  omega

theorem isWord_of_mem_finishRun
    {finished : Array String} {current : List Char}
    (words : ∀ word ∈ finished, IsWord word)
    (unbroken : ∀ character ∈ current, isBlank character = false) :
    ∀ word ∈ finishRun finished current, IsWord word := by
  intro word member
  simp only [finishRun] at member
  split at member
  case isTrue => exact words word member
  case isFalse nonempty =>
    rcases Array.mem_push.mp member with earlier | rfl
    · exact words word earlier
    · refine ⟨by simpa using nonempty, ?_⟩
      intro character inRun
      rw [String.toList_ofList, List.mem_reverse] at inRun
      exact unbroken character inRun

/-- If the runs found so far are words, then all runs are. -/
theorem isWord_of_mem_runsFrom
    {finished : Array String} {current text : List Char}
    (words : ∀ word ∈ finished, IsWord word)
    (unbroken : ∀ character ∈ current, isBlank character = false) :
    ∀ word ∈ runsFrom isBlank finished current text, IsWord word := by
  induction text generalizing finished current with
  | nil => exact isWord_of_mem_finishRun words unbroken
  | cons character rest tailHolds =>
      rw [runsFrom]
      split
      case isTrue =>
        exact tailHolds (isWord_of_mem_finishRun words unbroken) (by simp)
      case isFalse present =>
        exact tailHolds words (List.forall_mem_cons.mpr ⟨by simpa using present, unbroken⟩)

theorem isWord_of_mem_words {line : List Char} {word : String} (member : word ∈ words line) :
    IsWord word :=
  isWord_of_mem_runsFrom (by simp) (by simp) word (Array.mem_toList_iff.mp member)

theorem runsFrom_append
    {isSeparator : Char → Bool} {run : List Char}
    (unbroken : ∀ character ∈ run, isSeparator character = false)
    (finished : Array String) (current rest : List Char) :
    runsFrom isSeparator finished current (run ++ rest) =
      runsFrom isSeparator finished (run.reverse ++ current) rest := by
  induction run generalizing current with
  | nil => rfl
  | cons character others tailHolds =>
      rw [List.forall_mem_cons] at unbroken
      rw [List.cons_append, runsFrom, if_neg (by simp [unbroken.1]), tailHolds unbroken.2]
      simp

/-- A separator ends the run in front of it, and splitting starts afresh behind it. -/
theorem runsFrom_append_cons
    {isSeparator : Char → Bool} {mark : Char} (separates : isSeparator mark = true)
    (finished : Array String) (current text rest : List Char) :
    runsFrom isSeparator finished current (text ++ mark :: rest) =
      runsFrom isSeparator (runsFrom isSeparator finished current text) [] rest := by
  induction text generalizing finished current with
  | nil => simp only [List.nil_append, runsFrom, separates, if_true]
  | cons character others tailHolds =>
      simp only [List.cons_append, runsFrom]
      split
      · exact tailHolds _ _
      · exact tailHolds _ _

/-- A text that no separator breaks is one run, unless it is empty. -/
theorem runsFrom_of_unbroken
    {isSeparator : Char → Bool} {run : List Char}
    (unbroken : ∀ character ∈ run, isSeparator character = false) (nonempty : run ≠ [])
    (finished : Array String) :
    runsFrom isSeparator finished [] run = finished.push (String.ofList run) := by
  have whole := runsFrom_append unbroken finished [] []
  rw [List.append_nil, List.append_nil] at whole
  rw [whole, runsFrom, finishRun, if_neg (by simpa using nonempty), List.reverse_reverse]

theorem runsFrom_of_isWord {word : String} (isWord : IsWord word) (finished : Array String) :
    runsFrom isBlank finished [] word.toList = finished.push word := by
  have nonempty : word.toList ≠ [] := by simpa using isWord.ne_empty
  rw [runsFrom_of_unbroken isWord.isUnbroken nonempty, String.ofList_toList]

theorem runsFrom_intercalate
    {joined : List String} (isWord : ∀ word ∈ joined, IsWord word) (finished : Array String) :
    runsFrom isBlank finished [] (String.intercalate " " joined).toList =
      finished ++ joined.toArray := by
  induction joined generalizing finished with
  | nil => simp [runsFrom, finishRun]
  | cons word rest tailHolds =>
      rw [List.forall_mem_cons] at isWord
      cases rest with
      | nil =>
          rw [String.intercalate_singleton, runsFrom_of_isWord isWord.1]
          simp
      | cons next others =>
          have separates : isBlank ' ' = true := by decide
          have split :
              (String.intercalate " " (word :: next :: others)).toList =
                word.toList ++ ' ' :: (String.intercalate " " (next :: others)).toList := by
            simp [String.intercalate_cons_cons]
          rw [split, runsFrom_append_cons separates, runsFrom_of_isWord isWord.1,
            tailHolds isWord.2]
          simp

/-- Words that are joined by single blanks are split into themselves. -/
theorem words_intercalate {joined : List String} (isWord : ∀ word ∈ joined, IsWord word) :
    words (String.intercalate " " joined).toList = joined := by
  rw [words, runs, runsFrom_intercalate isWord]
  simp

theorem linesFrom_of_unbroken
    {text : List Char} (unbroken : ∀ character ∈ text, isBlank character = false)
    (finished : Array (List Char)) (current : List Char) :
    linesFrom finished current text = linesFrom finished (text.reverse ++ current) [] := by
  induction text generalizing current with
  | nil => rfl
  | cons character rest tailHolds =>
      rw [List.forall_mem_cons] at unbroken
      have notReturn : character ≠ '\r' := by
        rintro rfl
        exact absurd unbroken.1 (by decide)
      have notFeed : character ≠ '\n' := by
        rintro rfl
        exact absurd unbroken.1 (by decide)
      have step :
          linesFrom finished current (character :: rest) =
            linesFrom finished (character :: current) rest := by
        rw [linesFrom, if_neg (by simp [notReturn, notFeed])]
        intro _ isReturn
        exact absurd isReturn notReturn
      rw [step, tailHolds unbroken.2]
      simp

/-- A word is a line of its own. -/
theorem lines_of_isWord {word : String} (isWord : IsWord word) :
    lines word.toList = [word.toList] := by
  have nonempty : ¬ word.toList.reverse.isEmpty = true := by
    simpa using isWord.ne_empty
  rw [lines, linesFrom_of_unbroken isWord.isUnbroken, List.append_nil, linesFrom, if_neg nonempty,
    List.reverse_reverse]
  rfl

theorem words_of_isWord {word : String} (isWord : IsWord word) : words word.toList = [word] := by
  have joined := words_intercalate (List.forall_mem_singleton.mpr isWord)
  rwa [String.intercalate_singleton] at joined

/-! ## Sizes -/

theorem size_finishRun_le (finished : Array String) (current : List Char) :
    (finishRun finished current).size ≤ finished.size + current.length := by
  cases current with
  | nil => exact Nat.le_refl _
  | cons character rest =>
      simp only [finishRun, List.isEmpty_cons, Bool.false_eq_true, if_false, Array.size_push,
        List.length_cons]
      omega

theorem size_runsFrom_le
    (isSeparator : Char → Bool) (finished : Array String) (current text : List Char) :
    (runsFrom isSeparator finished current text).size ≤
      finished.size + current.length + text.length := by
  induction text generalizing finished current with
  | nil => exact size_finishRun_le finished current
  | cons character rest tailHolds =>
      rw [runsFrom, List.length_cons]
      split
      · have ended := tailHolds (finishRun finished current) []
        have run := size_finishRun_le finished current
        rw [List.length_nil] at ended
        omega
      · have longer := tailHolds finished (character :: current)
        rw [List.length_cons] at longer
        omega

theorem length_words_le (line : List Char) : (words line).length ≤ line.length := by
  simpa [words, runs] using size_runsFrom_le isBlank #[] [] line

theorem size_linesFrom_le (finished : Array (List Char)) (current text : List Char) :
    (linesFrom finished current text).size ≤ finished.size + current.length + text.length := by
  fun_induction linesFrom finished current text with
  | case1 finished current => omega
  | case2 finished current nonempty =>
      have positive : 0 < current.length := by
        simpa [List.length_pos_iff] using nonempty
      rw [Array.size_push]
      omega
  | case3 finished current rest tailHolds =>
      simp only [Array.size_push, List.length_nil, List.length_cons] at tailHolds ⊢
      omega
  | case4 finished current character rest _ ends tailHolds =>
      simp only [Array.size_push, List.length_nil, List.length_cons] at tailHolds ⊢
      omega
  | case5 finished current character rest _ goesOn tailHolds =>
      simp only [List.length_cons] at tailHolds ⊢
      omega

theorem length_lines_le (text : List Char) : (lines text).length ≤ text.length := by
  simpa [lines] using size_linesFrom_le #[] [] text

theorem mem_or_length_eq_of_mem_push
    {finished : Array (List Char)} {current line : List Char}
    (member : line ∈ finished.push current.reverse) :
    line ∈ finished ∨ line.length = current.length := by
  rcases Array.mem_push.mp member with old | rfl
  · exact .inl old
  · exact .inr List.length_reverse

theorem mem_linesFrom
    {finished : Array (List Char)} {current text line : List Char}
    (member : line ∈ linesFrom finished current text) :
    line ∈ finished ∨ line.length ≤ current.length + text.length := by
  fun_induction linesFrom finished current text with
  | case1 finished current => exact .inl member
  | case2 finished current nonempty =>
      rcases mem_or_length_eq_of_mem_push member with old | same
      · exact .inl old
      · exact .inr (Nat.le_add_right_of_le (Nat.le_of_eq same))
  | case3 finished current rest tailHolds =>
      simp only [List.length_nil, List.length_cons] at tailHolds ⊢
      rcases tailHolds member with pushed | short
      · rcases mem_or_length_eq_of_mem_push pushed with old | same
        · exact .inl old
        · omega
      · omega
  | case4 finished current character rest _ ends tailHolds =>
      simp only [List.length_nil, List.length_cons] at tailHolds ⊢
      rcases tailHolds member with pushed | short
      · rcases mem_or_length_eq_of_mem_push pushed with old | same
        · exact .inl old
        · omega
      · omega
  | case5 finished current character rest _ goesOn tailHolds =>
      simp only [List.length_cons] at tailHolds ⊢
      rcases tailHolds member with old | short
      · exact .inl old
      · omega

theorem length_le_of_mem_lines {text line : List Char} (member : line ∈ lines text) :
    line.length ≤ text.length := by
  rcases mem_linesFrom (Array.mem_toList_iff.mp member) with impossible | short
  · simp at impossible
  · simpa using short

end Text

theorem Token.length_raw_le (line : List Char) : (Token.raw line).length ≤ line.length :=
  Nat.le_trans (Text.length_words_le _) (List.takeWhile_sublist _).length_le

theorem Token.raw_of_isWord
    {word : String} (isWord : Text.IsWord word) (uncommented : Token.commentMarker ∉ word.toList) :
    Token.raw word.toList = [word] := by
  have whole :
      word.toList.takeWhile (fun character => character != commentMarker) = word.toList := by
    have kept : ∀ character ∈ word.toList, (character != commentMarker) = true := by
      intro character member
      rw [bne_iff_ne]
      rintro rfl
      exact uncommented member
    have taken : (word.toList ++ []).takeWhile _ = _ := List.takeWhile_append_of_pos kept
    rwa [List.takeWhile_nil, List.append_nil] at taken
  rw [Token.raw, whole, Text.words_of_isWord isWord]

end WordMachine
