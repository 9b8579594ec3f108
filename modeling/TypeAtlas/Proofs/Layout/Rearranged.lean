import TypeAtlas.Proofs.Layout.Collect
import TypeAtlas.Proofs.Layout.Preordered
import TypeAtlas.Proofs.Graph.Rearranged
import Mathlib.Data.List.Pairwise

namespace TypeAtlas

namespace Layout

variable {g g' : Graph} {owner : ObjectId} {minOffset : Nat} {es es' : List Entry} {a b c : Entry}

def Strict (es : List Entry) : Prop := es.Pairwise fun a b => a.2.compare b.2 ≠ .eq

theorem compare_ne_symm (h : a.2.compare b.2 ≠ .eq) : b.2.compare a.2 ≠ .eq := by
  rw [← Property.compare_swap a.2 b.2]
  cases hcompare : a.2.compare b.2 <;> simp_all

theorem Strict.perm (h : Strict es) (hperm : es.Perm es') : Strict es' :=
  (hperm.pairwise_iff compare_ne_symm).mp h

theorem Strict.compare_ne (h : Strict es) (ha : a ∈ es) (hb : b ∈ es) (hne : a ≠ b) :
    a.2.compare b.2 ≠ .eq := by
  have : Std.Symm fun a b : Entry => a.2.compare b.2 ≠ .eq := ⟨fun _ _ => compare_ne_symm⟩
  exact List.Pairwise.forall h ha hb hne

theorem Strict.preordered (h : Strict es) : Preordered es := by
  rw [preordered_iff]
  intro a ha b hb c hc hparted
  exact h.compare_ne ha hb (fun heq => hparted.ne (congrArg Prod.snd heq)) hparted.compare.1

theorem pairwise_comesBefore_mergeSort (h : Preordered es) :
    (es.mergeSort comesBefore).Pairwise (comesBefore · ·) := by
  obtain ⟨sorted, -, hsort, hsorted⟩ := exists_sorted id (List.map_id es ▸ h)
  have hpairwise := hsorted.pairwise
  rw [List.pairwise_map] at hpairwise
  rw [show es.mergeSort comesBefore = sorted.map Prod.fst from hsort.symm, List.pairwise_map]
  exact hpairwise.imp Stands.comesBefore

theorem Strict.pairwise_mergeSort (h : Strict es) :
    (es.mergeSort comesBefore).Pairwise fun a b => a.2.compare b.2 = .lt := by
  have hbefore := pairwise_comesBefore_mergeSort h.preordered
  have hne : Strict (es.mergeSort comesBefore) := h.perm (List.mergeSort_perm ..).symm
  refine (hbefore.and hne).imp fun {a b} ⟨hle, hne⟩ => ?_
  rw [comesBefore_iff] at hle
  cases hcompare : a.2.compare b.2 <;> simp_all

theorem Strict.mergeSort_eq (h : Strict es) (hperm : es.Perm es') :
    es.mergeSort comesBefore = es'.mergeSort comesBefore := by
  refine List.Perm.eq_of_pairwise (fun a b _ _ hab hba => ?_) h.pairwise_mergeSort
    (h.perm hperm).pairwise_mergeSort ?_
  · rw [← Property.compare_swap, hab] at hba
    cases hba
  · exact (List.mergeSort_perm ..).trans (hperm.trans (List.mergeSort_perm ..).symm)

theorem collect_eq_of_rearranged (h : g.Rearranged g') (hstrict : Strict (collect g owner minOffset)) :
    collect g' owner minOffset = collect g owner minOffset := by
  unfold collect at hstrict ⊢
  obtain ⟨hnone, hnone'⟩ | ⟨o, o', hsome, hsome', ho⟩ := h.get? owner
  · rw [hnone, hnone']
  · rw [hsome] at hstrict
    rw [hsome, hsome', h.property?_eq]
    refine Eq.symm (Strict.mergeSort_eq (hstrict.perm (List.mergeSort_perm ..)) ?_)
    exact (ho.children.filterMap _).filter _

theorem reconstruct_eq_of_rearranged (h : g.Rearranged g') : reconstruct g' = reconstruct g := by
  have hstep : State.step g' = State.step g := by
    funext s e
    rw [State.step, State.step, h.info_eq]
  have hsteps (es : List Entry) (s : State) : State.steps g' s es = State.steps g s es := by
    induction es generalizing s with
    | nil => rfl
    | cons e es ih => simp only [State.steps, hstep, ih]
  funext alignment es start declared
  simp only [reconstruct, hsteps]

/-- The order of the children of structs and classes does not show in the layout of one whose
properties compare apart. -/
theorem same_in_any_order_of_children (h : g.Rearranged g')
    (hstrict : (collect g owner minOffset).Pairwise fun a b => a.2.compare b.2 ≠ .eq) :
    collect g' owner minOffset = collect g owner minOffset
      ∧ ∀ alignment start declared,
        reconstruct g' alignment (collect g' owner minOffset) start declared
          = reconstruct g alignment (collect g owner minOffset) start declared := by
  have hcollect := collect_eq_of_rearranged h hstrict
  refine ⟨hcollect, fun alignment start declared => ?_⟩
  rw [hcollect, reconstruct_eq_of_rearranged h]

def lowBit : Entry := entry 2 "bOpen" ⟨0, 1, 1, 0, .bool 1⟩

def highBit : Entry := entry 3 "bOpen" ⟨0, 1, 1, 0, .bool 4⟩

def bits : List Entry := [lowBit, highBit, entry 4 "Count" ⟨8, 4, 1, 0, .plain .int32⟩]

def gated (children : List ObjectId) : Graph where
  objects := ⟨1, 1, "Gated", none, "Gated", none, none, 0, .scriptStruct ⟨none, 16, children⟩⟩
    :: bits.map Prod.fst
  distinct := by
    change [1, 2, 3, 4].Nodup
    decide

theorem collect_gated : collect (gated [4, 3, 2]) 1 0 = bits := by cbv

theorem same_in_any_order_of_children_gated : (gated [4, 3, 2]).Rearranged (gated [3, 2, 4])
    ∧ collect (gated [4, 3, 2]) 1 0 = bits
    ∧ collect (gated [3, 2, 4]) 1 0 = collect (gated [4, 3, 2]) 1 0
    ∧ reconstruct (gated [3, 2, 4]) 4 (collect (gated [3, 2, 4]) 1 0) 0 16
      = reconstruct (gated [4, 3, 2]) 4 (collect (gated [4, 3, 2]) 1 0) 0 16 := by
  have hrearranged : (gated [4, 3, 2]).Rearranged (gated [3, 2, 4]) := by
    refine .cons (.withKind (.scriptStruct ⟨rfl, rfl, by decide⟩)) ?_
    exact List.forall₂_same.mpr fun o _ => .withKind (.same o.kind)
  have hstrict : Strict (collect (gated [4, 3, 2]) 1 0) := by
    rw [collect_gated, Strict]
    decide
  obtain ⟨hsame, hlayout⟩ := same_in_any_order_of_children hrearranged hstrict
  exact ⟨hrearranged, collect_gated, hsame, hlayout 4 0 16⟩

end Layout

end TypeAtlas
