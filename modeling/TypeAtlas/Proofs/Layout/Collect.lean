import TypeAtlas.Proofs.Layout.Compared
import TypeAtlas.Proofs.Layout.Laid

namespace TypeAtlas.Layout

section Sorting

variable {α : Type} {le : α → α → Bool} {r : α → α → Prop} (htrans : ∀ a b c, r a b → r b c → r a c)
  (hle : ∀ a b, le a b = true → r a b) (hgt : ∀ a b, le a b = false → r b a)

include htrans hle hgt

theorem pairwise_merge_of_le {xs ys : List α} (hx : xs.Pairwise r) (hy : ys.Pairwise r) :
    (xs.merge ys le).Pairwise r := by
  fun_induction List.merge xs ys le with
  | case1 => exact hy
  | case2 => exact hx
  | case3 x xs y ys h ih =>
    refine List.pairwise_cons.mpr ⟨fun z hz => ?_, ih hx.tail hy⟩
    cases List.mem_merge.mp hz with
    | inl hz => exact List.rel_of_pairwise_cons hx hz
    | inr hz =>
      cases List.mem_cons.mp hz with
      | inl heq => exact heq ▸ hle x y h
      | inr hz => exact htrans x y z (hle x y h) (List.rel_of_pairwise_cons hy hz)
  | case4 x xs y ys h ih =>
    have hyx : r y x := hgt x y (Bool.eq_false_iff.mpr h)
    refine List.pairwise_cons.mpr ⟨fun z hz => ?_, ih hx hy.tail⟩
    cases List.mem_merge.mp hz with
    | inl hz =>
      cases List.mem_cons.mp hz with
      | inl heq => exact heq ▸ hyx
      | inr hz => exact htrans y x z hyx (List.rel_of_pairwise_cons hx hz)
    | inr hz => exact List.rel_of_pairwise_cons hy hz

/-- Sorting by a comparison that need not be transitive itself sorts by an order that it refines. -/
theorem pairwise_mergeSort_of_le (xs : List α) : (xs.mergeSort le).Pairwise r := by
  fun_induction List.mergeSort xs le with
  | case1 => simp
  | case2 => simp
  | case3 a b xs le _ _ _ ih ih' =>
    exact pairwise_merge_of_le htrans hle hgt (ih hle hgt) (ih' hle hgt)

end Sorting

variable {g : Graph} {owner : ObjectId} {minOffset : Nat} {e : Entry}

theorem pairwise_offset_of_comesBefore {es : List Entry} (h : es.Pairwise (comesBefore · ·)) :
    es.Pairwise fun a b => a.2.offset ≤ b.2.offset :=
  h.imp offset_le_of_comesBefore

theorem pairwise_offset_collect (g : Graph) (owner : ObjectId) (minOffset : Nat) :
    (collect g owner minOffset).Pairwise fun a b => a.2.offset ≤ b.2.offset := by
  unfold collect
  split
  · exact .nil
  · exact pairwise_mergeSort_of_le (r := fun a b : Entry => a.2.offset ≤ b.2.offset)
      (fun _ _ _ => Nat.le_trans) (fun _ _ => offset_le_of_comesBefore)
      (fun _ _ => offset_le_of_not_comesBefore) _

theorem mem_collect : e ∈ collect g owner minOffset ↔ ∃ o, g.get? owner = some o
    ∧ (∃ child ∈ o.children, g.property? child = some e)
    ∧ 0 < e.2.elementSize ∧ minOffset ≤ e.2.offset := by
  unfold collect
  split
  case h_1 hnone => simp [hnone]
  case h_2 o ho => simp [ho]

end TypeAtlas.Layout
