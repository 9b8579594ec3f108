import TypeAtlas.Text

namespace TypeAtlas.Blank

variable {word read cs : List Char} {ws : List (List Char)} {c : Char}

def IsToken (word : List Char) : Prop := word ≠ [] ∧ ∀ c ∈ word, Blank c = false

/-- A text is taken apart into runs of characters that are not blank, each of them up to a blank or
to the end. -/
inductive Parts : List Char → List (List Char) → Prop
  | nil : Parts [] []
  | blank {c : Char} {cs : List Char} {ws : List (List Char)} :
      Blank c = true → Parts cs ws → Parts (c :: cs) ws
  | last {word : List Char} : IsToken word → Parts word [word]
  | word {word : List Char} {c : Char} {cs : List Char} {ws : List (List Char)} :
      IsToken word → Blank c = true → Parts cs ws → Parts (word ++ c :: cs) (word :: ws)

theorem wordsFrom_append (read rest : List Char) (h : ∀ c ∈ word, Blank c = false) :
    wordsFrom read (word ++ rest) = wordsFrom (word.reverse ++ read) rest := by
  induction word generalizing read with
  | nil => rfl
  | cons c word ih =>
    simp only [List.cons_append, wordsFrom, h c (by simp), Bool.false_eq_true, if_false]
    rw [ih _ fun c hc => h c (List.mem_cons_of_mem _ hc)]
    simp

theorem words_blank (hc : Blank c = true) (cs : List Char) : words (c :: cs) = words cs := by
  simp [words, wordsFrom, hc]

theorem words_word (h : IsToken word) : words word = [word] := by
  have hread := wordsFrom_append [] [] h.2
  rw [List.append_nil, List.append_nil] at hread
  simp [words, hread, wordsFrom, h.1]

theorem words_cons (h : IsToken word) (hc : Blank c = true) (rest : List Char) :
    words (word ++ c :: rest) = word :: words rest := by
  rw [words, wordsFrom_append [] _ h.2, List.append_nil]
  simp [words, wordsFrom, hc, h.1]

theorem words_intercalate (h : ∀ w ∈ ws, IsToken w) : words ([' '].intercalate ws) = ws := by
  induction ws with
  | nil => rfl
  | cons w ws ih =>
    have hw := h w (by simp)
    have hws := ih fun w hw => h w (List.mem_cons_of_mem _ hw)
    have hblank : Blank ' ' = true := by decide
    cases ws with
    | nil => simpa using words_word hw
    | cons w' ws =>
      rw [List.intercalate_cons_cons, List.append_assoc, List.singleton_append,
        words_cons hw hblank, hws]

theorem Parts.words_eq (h : Parts cs ws) : words cs = ws := by
  induction h with
  | nil => rfl
  | blank hc _ ih => rw [words_blank hc, ih]
  | last hword => exact words_word hword
  | word hword hc _ ih => rw [words_cons hword hc, ih]

theorem isToken_reverse (hne : ¬ read.isEmpty = true) (h : ∀ c ∈ read, Blank c = false) :
    IsToken read.reverse := by
  constructor
  · simpa using hne
  · exact fun c hc => h c (List.mem_reverse.mp hc)

theorem parts_wordsFrom (h : ∀ c ∈ read, Blank c = false) :
    Parts (read.reverse ++ cs) (wordsFrom read cs) := by
  induction cs generalizing read with
  | nil =>
    rw [List.append_nil, wordsFrom]
    split
    case isTrue hnil =>
      rw [List.isEmpty_iff.mp hnil]
      exact .nil
    case isFalse hne => exact .last (isToken_reverse hne h)
  | cons c cs ih =>
    have hrest : Parts cs (wordsFrom [] cs) := @ih [] (by simp)
    rw [wordsFrom]
    split
    case isTrue hc =>
      split
      case isTrue hnil =>
        rw [List.isEmpty_iff.mp hnil]
        exact .blank hc hrest
      case isFalse hne => exact .word (isToken_reverse hne h) hc hrest
    case isFalse hc =>
      have hread : ∀ d ∈ c :: read, Blank d = false :=
        List.forall_mem_cons.mpr ⟨Bool.eq_false_iff.mpr hc, h⟩
      have hmore := ih hread
      rwa [List.reverse_cons, List.append_assoc, List.singleton_append] at hmore

theorem parts_iff : Parts cs ws ↔ words cs = ws := by
  constructor
  · exact Parts.words_eq
  · rintro rfl
    exact @parts_wordsFrom [] _ (by simp)

end TypeAtlas.Blank
