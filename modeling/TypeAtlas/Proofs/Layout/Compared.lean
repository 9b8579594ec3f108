import TypeAtlas.Sdk.Layout
import Mathlib.Data.List.Permutation

namespace TypeAtlas

theorem Property.compare_swap (p q : Property) : (p.compare q).swap = q.compare p := by
  unfold Property.compare
  cases p.mask? with
  | none => cases q.mask? <;> exact Nat.compare_swap ..
  | some m =>
    cases q.mask? with
    | none => exact Nat.compare_swap ..
    | some n =>
      by_cases h : p.offset = q.offset
      · simp only [if_pos h, if_pos h.symm, Nat.compare_swap]
      · simp only [if_neg h, if_neg (Ne.symm h), Nat.compare_swap]

theorem Property.compare_ne_gt_iff {p q : Property} : p.compare q ≠ .gt ↔
    p.offset < q.offset ∨ p.offset = q.offset ∧ ∀ m ∈ p.mask?, ∀ n ∈ q.mask?, m ≤ n := by
  unfold Property.compare
  by_cases h : p.offset = q.offset
  · cases p.mask? <;> cases q.mask? <;> simp [h, Nat.compare_ne_gt]
  · have hle : p.offset ≤ q.offset ↔ p.offset < q.offset := by omega
    cases p.mask? <;> cases q.mask? <;> simp [h, Nat.compare_ne_gt, hle]

namespace Layout

variable {α : Type} {a b : Entry} {es : List Entry}

theorem comesBefore_iff : comesBefore a b = true ↔ a.2.compare b.2 ≠ .gt := by
  simp [comesBefore]

theorem comesBefore_or (a b : Entry) : (comesBefore a b || comesBefore b a) = true := by
  rw [Bool.or_eq_true, comesBefore_iff, comesBefore_iff, ← Property.compare_swap a.2 b.2]
  cases a.2.compare b.2 <;> decide

theorem offset_le_of_comesBefore (h : comesBefore a b = true) : a.2.offset ≤ b.2.offset := by
  rcases Property.compare_ne_gt_iff.mp (comesBefore_iff.mp h) with hlt | ⟨heq, -⟩
  · exact Nat.le_of_lt hlt
  · exact Nat.le_of_eq heq

theorem offset_le_of_not_comesBefore (h : comesBefore a b = false) : b.2.offset ≤ a.2.offset :=
  offset_le_of_comesBefore (by simpa [h] using comesBefore_or a b)

def Preordered (es : List Entry) : Prop := ∀ a ∈ es, ∀ b ∈ es, ∀ c ∈ es,
  comesBefore a b = true → comesBefore b c = true → comesBefore a c = true

/-- One entry has to stand before another, where each is given with the place it had: it compares
less, or it compares equal and stood before. -/
def Stands (a b : Entry × Nat) : Prop :=
  a.1.2.compare b.1.2 = .lt ∨ a.1.2.compare b.1.2 = .eq ∧ a.2 < b.2

structure Sorted (es : List Entry) (sorted : List (Entry × Nat)) : Prop where
  perm : sorted.Perm es.zipIdx
  pairwise : sorted.Pairwise Stands

theorem Stands.comesBefore {a b : Entry × Nat} (h : Stands a b) : comesBefore a.1 b.1 = true := by
  rw [comesBefore_iff]
  rcases h with hlt | ⟨heq, -⟩
  · simp [hlt]
  · simp [heq]

theorem stands_of_zipIdxLE {a b : Entry × Nat} (h : List.zipIdxLE comesBefore a b = true)
    (hne : a.2 ≠ b.2) : Stands a b := by
  simp only [List.zipIdxLE, comesBefore, ← Property.compare_swap a.1.2 b.1.2] at h
  unfold Stands
  cases hcompare : a.1.2.compare b.1.2 with
  | lt => exact .inl rfl
  | eq =>
    have hle : a.2 ≤ b.2 := by simpa [hcompare] using h
    exact .inr ⟨rfl, Nat.lt_of_le_of_ne hle hne⟩
  | gt => simp [hcompare] at h

theorem pairwise_place_ne {ys : List (α × Nat)} {xs : List α} (h : ys.Perm xs.zipIdx) :
    ys.Pairwise fun a b => a.2 ≠ b.2 := by
  have hplaces : (ys.map Prod.snd).Perm (List.range' 0 xs.length) := by
    rw [← List.zipIdx_map_snd]
    exact h.map Prod.snd
  exact List.pairwise_map.mp (hplaces.nodup_iff.mpr (List.nodup_range' ..))

theorem exists_sorted (key : α → Entry) {xs : List α} (h : Preordered (xs.map key)) :
    ∃ ys : List (α × Nat), ys.Perm xs.zipIdx
      ∧ ys.map Prod.fst = xs.mergeSort (fun a b => comesBefore (key a) (key b))
      ∧ Sorted (xs.map key) (ys.map (Prod.map key id)) := by
  -- the comparison is transitive on all that is in the list, so the sort is stable there
  let le (a b : {a // a ∈ xs}) : Bool := comesBefore (key a.1) (key b.1)
  have htrans (a b c : {a // a ∈ xs}) : le a b = true → le b c = true → le a c = true :=
    h _ (List.mem_map_of_mem a.2) _ (List.mem_map_of_mem b.2) _ (List.mem_map_of_mem c.2)
  have htotal (a b : {a // a ∈ xs}) : (le a b || le b a) = true := comesBefore_or ..
  let zs := xs.attach.zipIdx.mergeSort (List.zipIdxLE le)
  have hperm : (zs.map (Prod.map Subtype.val id)).Perm xs.zipIdx := by
    have hzip : xs.attach.zipIdx.map (Prod.map Subtype.val id) = xs.zipIdx := by
      rw [List.map_zipIdx, List.attach_map_subtype_val]
    exact hzip ▸ (List.mergeSort_perm ..).map _
  have hpairwise : zs.Pairwise fun a b => List.zipIdxLE le a b = true :=
    List.pairwise_mergeSort (List.zipIdxLE_trans htrans) (List.zipIdxLE_total htotal) _
  refine ⟨zs.map (Prod.map Subtype.val id), hperm, ?_, ?_, ?_⟩
  · have hfst : (zs.map (Prod.map Subtype.val id)).map Prod.fst
        = (zs.map Prod.fst).map Subtype.val := by simp
    rw [hfst, List.mergeSort_zipIdx, List.map_mergeSort (s := fun a b =>
      comesBefore (key a) (key b)) fun _ _ _ _ => rfl, List.attach_map_subtype_val]
  · have hzip : xs.zipIdx.map (Prod.map key id) = (xs.map key).zipIdx := List.map_zipIdx
    exact hzip ▸ hperm.map _
  · rw [List.map_map, List.pairwise_map]
    have hplaces := pairwise_place_ne hperm
    rw [List.pairwise_map] at hplaces
    exact (hpairwise.and hplaces).imp fun ⟨hle, hne⟩ => stands_of_zipIdxLE hle hne

end Layout

end TypeAtlas
