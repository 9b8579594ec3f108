import TypeAtlas.Proofs.Graph.Named
import TypeAtlas.Proofs.Graph.Numbered
import TypeAtlas.Sdk.Declaration.OfObject

namespace TypeAtlas.Identifier

variable {cs rest : List Char} {c : Char} {s : String}

def isStart (c : Char) : Bool := isLetter c || c == '_'

def isValid (s : String) : Bool :=
  match s.toList with
  | [] => false
  | c :: cs => isStart c && cs.all isPart

theorem not_isDigit_of_isLetter (h : isLetter c = true) : isDigit c = false := by
  simp only [isLetter, isDigit, Char.le_def, UInt32.le_iff_toNat_le, Bool.or_eq_true,
    Bool.and_eq_true, decide_eq_true_eq, Bool.and_eq_false_iff, decide_eq_false_iff_not,
    not_le] at h ⊢
  have hnine : ('9' : Char).val.toNat = 57 := rfl
  have hupper : ('A' : Char).val.toNat = 65 := rfl
  have hlower : ('a' : Char).val.toNat = 97 := rfl
  omega

theorem isStart_eq (c : Char) : isStart c = (isPart c && !isDigit c) := by
  by_cases hl : isLetter c = true
  · simp [isStart, isPart, hl, not_isDigit_of_isLetter hl]
  · by_cases hu : c = '_'
    · subst hu
      decide
    · cases hd : isDigit c <;> simp [isStart, isPart, hl, hu, hd]

theorem isValid_iff : isValid s = true ↔
    s ≠ "" ∧ (∀ c ∈ s.toList, isPart c = true) ∧ ∀ c ∈ s.toList.head?, isDigit c = false := by
  unfold isValid
  cases h : s.toList with
  | nil => simp [String.toList_eq_nil_iff.mp h]
  | cons c cs =>
    have hne : s ≠ "" := fun heq => by simp [heq] at h
    simp [isStart_eq, hne, and_right_comm]

theorem sanitizeChars_eq_nil_iff : sanitizeChars cs = [] ↔ cs = [] := by
  unfold sanitizeChars
  split
  case h_1 h => simpa using h
  case h_2 first rest h =>
    have hne : cs ≠ [] := fun heq => by simp [heq] at h
    split <;> simp [hne]

theorem not_isDigit_of_mem_head?_sanitizeChars (h : c ∈ (sanitizeChars cs).head?) :
    isDigit c = false := by
  unfold sanitizeChars at h
  split at h
  case h_1 => cases h
  case h_2 first rest _ =>
    split at h
    case isTrue =>
      obtain rfl : '_' = c := by simpa using h
      decide
    case isFalse hfirst =>
      obtain rfl : first = c := by simpa using h
      simpa using hfirst

theorem sanitizeChars_sanitizeChars (cs : List Char) :
    sanitizeChars (sanitizeChars cs) = sanitizeChars cs :=
  Graph.sanitizeChars_of_isPart (fun _ => isPart_of_mem_sanitizeChars)
    fun _ => not_isDigit_of_mem_head?_sanitizeChars

theorem toList_sanitize (raw : String) : (sanitize raw).toList = sanitizeChars raw.toList :=
  String.toList_ofList

theorem sanitize_sanitize (raw : String) : sanitize (sanitize raw) = sanitize raw := by
  rw [sanitize, toList_sanitize, sanitizeChars_sanitizeChars]
  rfl

theorem sanitize_eq_empty_iff {raw : String} : sanitize raw = "" ↔ raw = "" := by
  rw [← String.toList_eq_nil_iff, toList_sanitize, sanitizeChars_eq_nil_iff,
    String.toList_eq_nil_iff]

theorem isValid_sanitize_iff {raw : String} : isValid (sanitize raw) = true ↔ raw ≠ "" := by
  rw [isValid_iff, toList_sanitize, ne_eq, sanitize_eq_empty_iff]
  exact and_iff_left
    ⟨fun _ => isPart_of_mem_sanitizeChars, fun _ => not_isDigit_of_mem_head?_sanitizeChars⟩

theorem sanitize_of_isValid (h : isValid s = true) : sanitize s = s := by
  obtain ⟨-, hparts, hfirst⟩ := isValid_iff.mp h
  rw [sanitize, Graph.sanitizeChars_of_isPart hparts hfirst, String.ofList_toList]

/-- Every name but the empty one comes out as an identifier.  Identifiers come out as they are, and
beside them only the empty name does, so that nothing changes a second time. -/
theorem sanitize_valid_iff (raw : String) :
    (isValid (sanitize raw) = true ↔ raw ≠ "")
    ∧ (sanitize raw = raw ↔ isValid raw = true ∨ raw = "")
    ∧ sanitize (sanitize raw) = sanitize raw := by
  refine ⟨isValid_sanitize_iff, ⟨fun h => ?_, fun h => ?_⟩, sanitize_sanitize raw⟩
  · by_cases hraw : raw = ""
    · exact .inr hraw
    · exact .inl (h ▸ isValid_sanitize_iff.mpr hraw)
  · rcases h with h | rfl
    · exact sanitize_of_isValid h
    · rfl

theorem not_isValid_sanitize_empty : ¬ (∀ raw, isValid (sanitize raw) = true)
    ∧ EnumDecl.shortName "EMode::" = "" ∧ sanitize "" = "" := by
  refine ⟨fun h => isValid_sanitize_iff.mp (h "") rfl, by decide +kernel, rfl⟩

example : sanitize "3D Widget<K,V>" = "_3D_Widget_K_V_" := by decide +kernel

end TypeAtlas.Identifier
