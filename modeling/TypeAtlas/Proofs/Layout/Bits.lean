import TypeAtlas.Proofs.Graph.Numbered
import TypeAtlas.Proofs.Layout.Rearranged

namespace TypeAtlas

namespace Member

def bitWidth : String := " : 1"

def isBit (m : Member) : Bool := bitWidth.toList.isSuffixOf m.name.toList

def isBitAt (offset : Nat) (m : Member) : Bool := m.isBit && m.offset == offset

theorem isBit_eq_false_of_bracket {m : Member} (name : String) (h : m.name = name ++ "]") :
    m.isBit = false := by
  rw [isBit, ← Bool.not_eq_true, List.isSuffixOf_iff_suffix]
  rintro ⟨front, hname⟩
  have hlast := congrArg List.getLast? hname
  simp [h, bitWidth] at hlast

@[simp] theorem isBit_filler (number offset size : Nat) (reason : String) :
    (filler number offset size reason).isBit = false := isBit_eq_false_of_bracket _ rfl

@[simp] theorem isBitAt_filler (number offset' size offset : Nat) (reason : String) :
    (filler number offset' size reason).isBitAt offset = false := by
  rw [isBitAt, isBit_filler, Bool.false_and]

end Member

namespace Layout

variable {g : Graph} {owner : ObjectId} {s s' : State} {e : Entry} {es fs : List Entry} {m : Member}
  {own ms : List Member} {minOffset offset : Nat}

namespace Laid

theorem exists_append (h : Laid g s (es ++ fs) ms s') : ∃ ms₁ s₁ ms₂,
    ms = ms₁ ++ ms₂ ∧ Laid g s es ms₁ s₁ ∧ Laid g s₁ fs ms₂ s' := by
  induction es generalizing s ms with
  | nil => exact ⟨[], s, ms, rfl, .nil s, h⟩
  | cons e es ih =>
    cases h with
    | cons hmade hrest =>
      obtain ⟨ms₁, s₁, ms₂, rfl, hlaid, hlaid'⟩ := ih hrest
      exact ⟨_, s₁, ms₂, (List.append_assoc ..).symm, .cons hmade hlaid, hlaid'⟩

end Laid

end Layout

end TypeAtlas
