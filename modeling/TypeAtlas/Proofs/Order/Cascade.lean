import TypeAtlas.Proofs.Order.Precedence
import TypeAtlas.Proofs.Order.Reach

/-! Placing a package together with what it depends on.  Only packages that it leads to are moved,
and none of those that are being placed; every reference that the moves upset is mended before the
placing ends, unless it leads back to a package that is being placed. -/

namespace TypeAtlas.PackageOrder

open Relation

variable {edges : List Edge} {order order' : List ObjectId} {placing : List ObjectId}
  {p q anchor a b : ObjectId}

def placeDependencies (edges : List Edge) (p : ObjectId) (placing : List ObjectId)
    (es : List Edge) (order : List ObjectId) : List ObjectId :=
  es.foldl (fun order e => placeBefore (Edge.elsewhere edges p) e.dependency p (p :: placing) order)
    order

theorem placeBefore_of_mem (h : p ∈ placing) :
    placeBefore edges p anchor placing order = order := by
  rw [placeBefore]
  simp [h]

theorem placeBefore_of_not_moved (h : moved? order p anchor = none) :
    placeBefore edges p anchor placing order = order := by
  rw [placeBefore]
  simp [h]

theorem placeBefore_of_moved (hp : p ∉ placing) (h : moved? order p anchor = some order') :
    placeBefore edges p anchor placing order
      = placeDependencies edges p placing (Edge.outOf edges p) order' := by
  rw [placeBefore]
  simp only [List.contains_eq_mem, hp, decide_false, Bool.false_eq_true, if_false, h]
  exact List.foldl_attach (f := fun order (e : Edge) =>
    placeBefore (Edge.elsewhere edges p) e.dependency p (p :: placing) order)

inductive Rearranged (mayMove : ObjectId → Prop) : List ObjectId → List ObjectId → Prop
  | refl (order : List ObjectId) : Rearranged mayMove order order
  | move {first order order' : List ObjectId} {p anchor : ObjectId} :
      Rearranged mayMove first order → mayMove p → moved? order p anchor = some order' →
      Rearranged mayMove first order'

namespace Rearranged

variable {mayMove mayMove' : ObjectId → Prop}

theorem trans {order'' : List ObjectId} (h : Rearranged mayMove order order')
    (h' : Rearranged mayMove order' order'') : Rearranged mayMove order order'' := by
  induction h' with
  | refl => exact h
  | move _ hp hm ih => exact ih.move hp hm

theorem mono (hle : ∀ p, mayMove p → mayMove' p) (h : Rearranged mayMove order order') :
    Rearranged mayMove' order order' := by
  induction h with
  | refl => exact .refl _
  | move _ hp hm ih => exact ih.move (hle _ hp) hm

theorem nodup (h : Rearranged mayMove order order') (hn : order.Nodup) : order'.Nodup := by
  induction h with
  | refl => exact hn
  | move _ _ hm ih => exact nodup_moved ih hm

theorem subset (h : Rearranged mayMove order order') : order ⊆ order' := by
  induction h with
  | refl => exact List.Subset.refl _
  | move _ _ hm ih => exact fun q hq => (mem_moved hm).mpr (.inr (ih hq))

theorem mem (h : Rearranged mayMove order order') (hq : q ∈ order') : q ∈ order ∨ mayMove q := by
  induction h with
  | refl => exact .inl hq
  | move _ hp hm ih =>
    cases (mem_moved hm).mp hq with
    | inl heq => exact .inr (heq ▸ hp)
    | inr hq => exact ih hq

theorem precedes (h : Rearranged mayMove order order') (hn : order.Nodup) (hb : ¬ mayMove b)
    (hab : Precedes order a b) : Precedes order' a b := by
  induction h with
  | refl => exact hab
  | move hr hp hm ih =>
    refine ih.moved (hr.nodup hn) hm ?_
    rintro rfl
    exact hb hp

theorem precedes_iff (h : Rearranged mayMove order order') (hn : order.Nodup)
    (hmem : a ∈ order) (hmem' : b ∈ order) (ha : ¬ mayMove a) (hb : ¬ mayMove b) :
    Precedes order' a b ↔ Precedes order a b := by
  refine ⟨fun hab => ?_, h.precedes hn hb⟩
  apply (precedes_or_of_mem hmem hmem' hab.ne).resolve_right
  intro hba
  exact hab.asymm (h.precedes hn ha hba)

end Rearranged

/-- What placing a package may move: what it leads to and is not being placed. -/
def Movable (edges : List Edge) (placing : List ObjectId) (p q : ObjectId) : Prop :=
  ReflTransGen (Edge.Links edges) p q ∧ q ∉ placing

theorem Movable.of_dependency {d : ObjectId} (hd : Edge.Links edges p d)
    (h : Movable (Edge.elsewhere edges p) (p :: placing) d q) : Movable edges placing p q :=
  ⟨.head hd (Edge.reflTransGen_of_elsewhere h.1), fun hq => h.2 (List.mem_cons_of_mem p hq)⟩

theorem length_elsewhere_lt {e : Edge} (he : e ∈ Edge.outOf edges p) :
    (Edge.elsewhere edges p).length < edges.length := by
  have := Edge.length_outOf_add edges p
  have := List.length_pos_of_mem he
  omega

theorem placeDependencies_rearranged {mayMove : ObjectId → Prop} {es : List Edge}
    (h : ∀ e ∈ es, ∀ order, Rearranged mayMove order
      (placeBefore (Edge.elsewhere edges p) e.dependency p (p :: placing) order)) :
    Rearranged mayMove order (placeDependencies edges p placing es order) := by
  induction es generalizing order with
  | nil => exact .refl order
  | cons e es ih =>
    have hfirst := h e List.mem_cons_self order
    exact hfirst.trans (ih fun e he => h e (List.mem_cons_of_mem _ he))

theorem placeBefore_rearranged :
    Rearranged (Movable edges placing p) order (placeBefore edges p anchor placing order) := by
  -- Every package that is placed takes its references out, so that fewer are left to follow.
  induction hlen : edges.length using Nat.strongRecOn generalizing edges p anchor placing order with
  | _ n ih =>
    by_cases hp : p ∈ placing
    · rw [placeBefore_of_mem hp]
      exact .refl order
    cases hm : moved? order p anchor with
    | none =>
      rw [placeBefore_of_not_moved hm]
      exact .refl order
    | some order' =>
      rw [placeBefore_of_moved hp hm]
      have hfirst : Rearranged (Movable edges placing p) order order' :=
        .move (.refl order) ⟨.refl, hp⟩ hm
      refine hfirst.trans (placeDependencies_rearranged fun e he order => ?_)
      have hlt := length_elsewhere_lt he
      have hd := Edge.links_of_mem_outOf he
      exact (ih _ (hlen ▸ hlt) rfl).mono fun _ => Movable.of_dependency hd

theorem placeDependencies_others (edges : List Edge) (p : ObjectId) (placing : List ObjectId)
    (es : List Edge) (order : List ObjectId) :
    Rearranged (· ∉ p :: placing) order (placeDependencies edges p placing es order) :=
  placeDependencies_rearranged fun _ _ _ => placeBefore_rearranged.mono fun _ h => h.2

theorem mem_placeBefore (hp : p ∉ placing) (hanchor : anchor ∈ order) :
    p ∈ placeBefore edges p anchor placing order := by
  cases hm : moved? order p anchor with
  | none =>
    rw [placeBefore_of_not_moved hm]
    exact ((moved?_eq_none_iff hanchor).mp hm).left_mem
  | some order' =>
    rw [placeBefore_of_moved hp hm]
    exact (placeDependencies_others ..).subset ((mem_moved hm).mpr (.inl rfl))

/-- What a reference asks of an order: that the dependency comes first, or that it needs what
refers to it in turn. -/
def Settled (Needs : ObjectId → ObjectId → Prop) (order : List ObjectId)
    (referencer dependency : ObjectId) : Prop :=
  Precedes order dependency referencer ∨ TransGen Needs dependency referencer

/-- While packages are being placed, references are settled except out of these, each of which
needs the one placed last. -/
structure Underway (Needs : ObjectId → ObjectId → Prop) (all : List Edge)
    (placing : List ObjectId) (last : ObjectId) (order : List ObjectId) : Prop where
  nodup : order.Nodup
  last_mem : last ∈ order
  chain : ∀ q ∈ placing, ReflTransGen Needs q last
  settled : ∀ e ∈ all, e.referencer ∉ placing → Settled Needs order e.referencer e.dependency

variable {Needs : ObjectId → ObjectId → Prop} {all : List Edge}

theorem Settled.rearranged {mayMove : ObjectId → Prop} (hr : Rearranged mayMove order order')
    (hn : order.Nodup) (hq : ¬ mayMove q) (h : Settled Needs order q p) :
    Settled Needs order' q p :=
  h.imp_left (hr.precedes hn hq)

theorem Underway.push (h : Underway Needs all placing anchor order) (hneeds : Needs anchor p)
    (hm : moved? order p anchor = some order') : Underway Needs all (p :: placing) p order' where
  nodup := nodup_moved h.nodup hm
  last_mem := (mem_moved hm).mpr (.inl rfl)
  chain q hq := by
    cases List.mem_cons.mp hq with
    | inl heq => exact heq ▸ .refl
    | inr hq => exact (h.chain q hq).tail hneeds
  settled e he hnot := by
    simp only [List.mem_cons, not_or] at hnot
    exact (h.settled e he hnot.2).imp_left (·.moved h.nodup hm hnot.1)

theorem Underway.pop (h : Underway Needs all (p :: placing) p order') (hanchor : anchor ∈ order')
    (hchain : ∀ q ∈ placing, ReflTransGen Needs q anchor)
    (hp : ∀ e ∈ all, e.referencer = p → e.referencer ∉ placing →
      Settled Needs order' e.referencer e.dependency) :
    Underway Needs all placing anchor order' where
  nodup := h.nodup
  last_mem := hanchor
  chain := hchain
  settled e he hnot := by
    by_cases hep : e.referencer = p
    · exact hp e he hep hnot
    · exact h.settled e he (by simp [hep, hnot])

theorem Underway.settled_of_mem (h : Underway Needs all placing anchor order) (hp : p ∈ placing)
    (hneeds : Needs anchor p) : Settled Needs order anchor p := by
  cases reflTransGen_iff_eq_or_transGen.mp (h.chain p hp) with
  | inl heq => exact .inr (.single (heq ▸ hneeds))
  | inr hreach => exact .inr hreach

/-- Placing dependencies one by one settles the references to them: a later placing leaves the
package itself where it is, and so what stands before it. -/
theorem placeDependencies_underway {es : List Edge}
    (hplace : ∀ e ∈ es, ∀ {order}, Underway Needs all (p :: placing) p order →
      let placed := placeBefore (Edge.elsewhere edges p) e.dependency p (p :: placing) order
      Underway Needs all (p :: placing) p placed ∧ Settled Needs placed p e.dependency)
    (h : Underway Needs all (p :: placing) p order) :
    Underway Needs all (p :: placing) p (placeDependencies edges p placing es order)
      ∧ ∀ e ∈ es, Settled Needs (placeDependencies edges p placing es order) p e.dependency := by
  induction es generalizing order with
  | nil => exact ⟨h, by simp⟩
  | cons e es ih =>
    obtain ⟨hfirst, hsettled⟩ := hplace e List.mem_cons_self h
    obtain ⟨hrest, hall⟩ := ih (fun e he => hplace e (List.mem_cons_of_mem _ he)) hfirst
    have hlater := placeDependencies_others edges p placing es
      (placeBefore (Edge.elsewhere edges p) e.dependency p (p :: placing) order)
    refine ⟨hrest, fun e' he' => ?_⟩
    cases List.mem_cons.mp he' with
    | inl heq =>
      subst heq
      exact hsettled.rearranged hlater hfirst.nodup (by simp)
    | inr he' => exact hall e' he'

theorem placeBefore_underway (hneeds : ∀ e ∈ edges, Needs e.referencer e.dependency)
    (hall : ∀ e ∈ all, e.referencer ∉ placing → e ∈ edges) (hanchor : anchor ∈ placing)
    (hlast : Needs anchor p) (h : Underway Needs all placing anchor order) :
    Underway Needs all placing anchor (placeBefore edges p anchor placing order)
      ∧ Settled Needs (placeBefore edges p anchor placing order) anchor p := by
  induction hlen : edges.length using Nat.strongRecOn generalizing edges p anchor placing order with
  | _ n ih =>
    by_cases hp : p ∈ placing
    · rw [placeBefore_of_mem hp]
      exact ⟨h, h.settled_of_mem hp hlast⟩
    cases hm : moved? order p anchor with
    | none =>
      rw [placeBefore_of_not_moved hm]
      exact ⟨h, .inl ((moved?_eq_none_iff h.last_mem).mp hm)⟩
    | some order' =>
      rw [placeBefore_of_moved hp hm]
      have hne : p ≠ anchor := fun heq => hp (heq ▸ hanchor)
      have hbefore := precedes_moved h.nodup hne hm
      have hplace : ∀ e ∈ Edge.outOf edges p, ∀ {order}, Underway Needs all (p :: placing) p order →
          let placed := placeBefore (Edge.elsewhere edges p) e.dependency p (p :: placing) order
          Underway Needs all (p :: placing) p placed ∧ Settled Needs placed p e.dependency := by
        intro e he order hunderway
        obtain ⟨hmem, hep⟩ := Edge.mem_outOf.mp he
        refine ih _ (hlen ▸ length_elsewhere_lt he) ?_ ?_ List.mem_cons_self ?_ hunderway rfl
        · exact fun e' he' => hneeds e' (Edge.mem_elsewhere.mp he').1
        · intro e' he' hnot
          simp only [List.mem_cons, not_or] at hnot
          exact Edge.mem_elsewhere.mpr ⟨hall e' he' hnot.2, hnot.1⟩
        · exact hep ▸ hneeds e hmem
      obtain ⟨hafter, hout⟩ := placeDependencies_underway hplace (h.push hlast hm)
      have hothers := placeDependencies_others edges p placing (Edge.outOf edges p) order'
      have hanchor' := hothers.precedes (nodup_moved h.nodup hm) (by simp [hanchor]) hbefore
      -- The package is no longer under way: all its references have been settled.
      refine ⟨hafter.pop hanchor'.right_mem h.chain fun e he hep hnot => ?_, .inl hanchor'⟩
      have : e ∈ Edge.outOf edges p := Edge.mem_outOf.mpr ⟨hall e he hnot, hep⟩
      exact hep ▸ hout e this

end TypeAtlas.PackageOrder
