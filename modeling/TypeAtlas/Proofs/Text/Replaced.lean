import TypeAtlas.Policy

/-! Replacing a word in a text: from the left, each time at the first occurrence in what is left.
This fixes the result, and it is what the substitution in a template does. -/

namespace TypeAtlas

inductive Replaced (word value : List Char) : List Char → List Char → Prop
  | none {text : List Char} : ¬ word <:+: text → Replaced word value text text
  | first {before text result : List Char} : ¬ word <:+: before ++ word.dropLast →
      Replaced word value text result →
      Replaced word value (before ++ word ++ text) (before ++ value ++ result)

variable {word value text result result' before cs : List Char} {c : Char}

theorem not_infix_dropLast (h : word ≠ []) : ¬ word <:+: word.dropLast := by
  intro hinfix
  have hle := hinfix.length_le
  have hpos := List.length_pos_iff.mpr h
  rw [List.length_dropLast] at hle
  omega

theorem Replaced.cons (h : Replaced word value cs result) (hc : ¬ word <+: c :: cs) :
    Replaced word value (c :: cs) (c :: result) := by
  cases h with
  | none hword =>
    refine .none fun hinfix => ?_
    rcases List.infix_cons_iff.mp hinfix with hhere | hlater
    · exact hc hhere
    · exact hword hlater
  | @first before text result hword hrest =>
    have hnone : ¬ word <:+: c :: before ++ word.dropLast := by
      intro hinfix
      rcases List.infix_cons_iff.mp hinfix with hhere | hlater
      · have hfront : c :: before ++ word.dropLast <+: c :: before ++ word :=
          (List.prefix_append_right_inj _).mpr (List.dropLast_prefix word)
        exact hc ((hhere.trans hfront).trans (List.prefix_append _ text))
      · exact hword hlater
    exact .first hnone hrest

theorem replaced_substitute (hword : word ≠ []) (skip : Nat) (cs : List Char) :
    Replaced word value (cs.drop skip) (substitute word value skip cs) := by
  induction cs generalizing skip with
  | nil =>
    rw [List.drop_nil, substitute]
    exact .none fun h => hword (List.infix_nil.mp h)
  | cons c cs ih =>
    cases skip with
    | succ skip => exact ih skip
    | zero =>
      rw [substitute]
      split
      case isTrue hhere =>
        obtain ⟨rest, hrest⟩ := List.isPrefixOf_iff_prefix.mp hhere
        have hpos := List.length_pos_iff.mpr hword
        have hdrop : cs.drop (word.length - 1) = rest := by
          rw [← List.drop_succ_cons (a := c), ← hrest, Nat.sub_add_cancel hpos, List.drop_left]
        have hlater := hdrop ▸ ih (word.length - 1)
        have hnone : ¬ word <:+: [] ++ word.dropLast := not_infix_dropLast hword
        rw [List.drop_zero, ← hrest]
        exact .first hnone hlater
      case isFalse hhere =>
        exact (ih 0).cons fun h => hhere (List.isPrefixOf_iff_prefix.mpr h)

theorem Replaced.eq_of_not_infix (h : Replaced word value text result) (hword : ¬ word <:+: text) :
    result = text := by
  cases h with
  | none => rfl
  | first => exact absurd (List.infix_append ..) hword

theorem length_le_of_first {before' text' : List Char}
    (h : ¬ word <:+: before' ++ word.dropLast)
    (heq : before ++ word ++ text = before' ++ word ++ text') :
    before'.length ≤ before.length := by
  refine Nat.not_lt.mp fun hlt => ?_
  have hpos : 0 < word.length :=
    List.length_pos_iff.mpr fun hnil => h (hnil ▸ List.nil_infix)
  have hone : before ++ word <+: before' ++ word ++ text' := heq ▸ List.prefix_append ..
  have htwo : before' ++ word.dropLast <+: before' ++ word ++ text' :=
    ((List.prefix_append_right_inj _).mpr (List.dropLast_prefix word)).trans
      (List.prefix_append ..)
  have hlength : (before ++ word).length ≤ (before' ++ word.dropLast).length := by
    simp only [List.length_append, List.length_dropLast]
    omega
  have hfront := List.prefix_of_prefix_length_le hone htwo hlength
  exact h ((List.suffix_append before word).isInfix.trans hfront.isInfix)

theorem Replaced.unique (h : Replaced word value text result)
    (h' : Replaced word value text result') : result = result' := by
  induction h generalizing result' with
  | none hword => exact (Replaced.eq_of_not_infix h' hword).symm
  | @first before text result hword hrest ih =>
    generalize htext : before ++ word ++ text = whole at h'
    cases h' with
    | none hnone => exact absurd (htext ▸ List.infix_append ..) hnone
    | @first before' text' result' hword' hrest' =>
      have hlength : before.length = before'.length :=
        Nat.le_antisymm (length_le_of_first hword htext.symm) (length_le_of_first hword' htext)
      obtain rfl : before = before' := by
        simp only [List.append_assoc] at htext
        exact (List.append_inj htext hlength).1
      obtain rfl := List.append_cancel_left htext
      rw [ih hrest']

end TypeAtlas
