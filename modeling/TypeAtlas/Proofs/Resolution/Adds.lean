import TypeAtlas.Proofs.Order.Calls
import TypeAtlas.Proofs.Resolution.SeenTo

namespace TypeAtlas

open PackageOrder (Call)

variable {t : Target} {package owner id : ObjectId} {ids : List ObjectId} {o : Object}
  {os os' : List Object} {s s₁ s₂ s' : Session} {order order₁ order' : PackageOrder}

/-- A package with types of its own asks for a place, and for one before it for what it refers to. -/
inductive Due (g : Graph) (package : ObjectId) : Call → Prop
  | ensure (o : Object) : g.Owns package o → Due g package (.ensure package)
  | require (q : ObjectId) : g.RefersTo package q → Due g package (.require q package)

def Asked (due : Call → Prop) (order order' : PackageOrder) : Prop :=
  ∃ calls, order' = order.after calls ∧ ∀ c ∈ calls, due c

namespace Asked

variable {due due' : Call → Prop}

theorem refl (due : Call → Prop) (order : PackageOrder) : Asked due order order :=
  ⟨[], rfl, by simp⟩

theorem single {c : Call} (h : due c) (order : PackageOrder) :
    Asked due order (order.perform c) :=
  ⟨[c], rfl, by simpa using h⟩

theorem trans (h : Asked due order order₁) (h' : Asked due order₁ order') :
    Asked due order order' := by
  obtain ⟨calls, rfl, hdue⟩ := h
  obtain ⟨calls', rfl, hdue'⟩ := h'
  refine ⟨calls ++ calls', (PackageOrder.after_append ..).symm, fun c hc => ?_⟩
  exact (List.mem_append.mp hc).elim (hdue c) (hdue' c)

theorem mono (hle : ∀ c, due c → due' c) (h : Asked due order order') : Asked due' order order' := by
  obtain ⟨calls, heq, hdue⟩ := h
  exact ⟨calls, heq, fun c hc => hle c (hdue c hc)⟩

theorem subset (h : Asked due order order') : order.order ⊆ order'.order := by
  obtain ⟨calls, rfl, _⟩ := h
  exact PackageOrder.subset_after order calls

end Asked

theorem Asked.ensure {g : Graph} (howns : g.Owns package o) (order : PackageOrder) :
    Asked (Due g package) order (order.ensure package) :=
  .single (Due.ensure o howns) order

theorem Asked.require {g : Graph} (hrefers : g.RefersTo package owner) (order : PackageOrder) :
    Asked (Due g package) order ((order.ensure package).require owner package).2 := by
  obtain ⟨o, _, howns, _⟩ := hrefers.2
  exact (Asked.ensure howns order).trans (.single (Due.require owner hrefers) _)

structure Spares (s s' : Session) : Prop where
  order : s'.shared.order = s.shared.order
  enums : s'.decls.enums = s.decls.enums
  constants : s'.decls.constants = s.decls.constants

theorem Build.spares_of_declare (h : outcome (declare t o) s = (.ok (), s')) : Spares s s' := by
  unfold declare at h
  split at h
  · obtain ⟨d, _, hadd⟩ := outcome_lift_bind_ok.mp h
    cases hadd
    exact ⟨rfl, rfl, rfl⟩
  · obtain ⟨⟨d, entries⟩, _, hadd⟩ := outcome_lift_bind_ok.mp h
    cases hadd
    exact ⟨rfl, rfl, rfl⟩
  · cases h
    exact ⟨rfl, rfl, rfl⟩

namespace SeenTo

theorem enums_constants_eq (h : SeenTo t package s ids s') :
    s'.decls.enums = s.decls.enums ∧ s'.decls.constants = s.decls.constants := by
  induction h with
  | nil s => exact ⟨rfl, rfl⟩
  | ignored _ _ ih => exact ih
  | homeless _ _ _ ih => exact ih
  | foreign _ _ _ _ ih => exact ih
  | entered _ _ _ _ ih => exact ih
  | own _ _ _ _ hdecl _ ih ih' =>
    have hspares := Build.spares_of_declare hdecl
    exact ⟨(ih'.1.trans hspares.enums).trans ih.1, (ih'.2.trans hspares.constants).trans ih.2⟩

theorem asked (h : SeenTo t package s ids s')
    (hdue : ∀ o q, o.id ∈ ids → t.graph.Owns q o → q ≠ package → t.graph.RefersTo package q) :
    Asked (Due t.graph package) s.shared.order s'.shared.order := by
  induction h with
  | nil s => exact .refl _ _
  | ignored _ _ ih => exact ih fun o q hmem => hdue o q (List.mem_cons_of_mem _ hmem)
  | homeless _ _ _ ih => exact ih fun o q hmem => hdue o q (List.mem_cons_of_mem _ hmem)
  | @foreign s s' id owner ids o hd hp hne _ ih =>
    obtain rfl : o.id = id := Graph.id_of_declarable? hd
    have hrefers : t.graph.RefersTo package owner := hdue o owner (by simp) ⟨hd, hp⟩ hne
    apply (Asked.require hrefers s.shared.order).trans
    exact ih fun o q hmem => hdue o q (List.mem_cons_of_mem _ hmem)
  | @entered s s' id ids o hd hp hin _ ih =>
    obtain rfl : o.id = id := Graph.id_of_declarable? hd
    apply (Asked.ensure ⟨hd, hp⟩ s.shared.order).trans
    exact ih fun o q hmem => hdue o q (List.mem_cons_of_mem _ hmem)
  | @own s s₁ s₂ s' id ids o hd hp hin _ hdecl _ ih ih' =>
    obtain rfl : o.id = id := Graph.id_of_declarable? hd
    have howns : t.graph.Owns package o := ⟨hd, hp⟩
    -- Whatever the type names of other packages, its own package refers to.
    have hnamed := ih fun o' q hmem howns' hne =>
      ⟨hne.symm, o, o', howns, howns', Graph.mem_prerequisites.mp hmem⟩
    have hrest := ih' fun o q hmem => hdue o q (List.mem_cons_of_mem _ hmem)
    rw [show (s₂.finish o.id).shared.order = s₁.shared.order from
      (Build.spares_of_declare hdecl).order] at hrest
    exact ((Asked.ensure howns s.shared.order).trans hnamed).trans hrest

theorem mem_order (h : SeenTo t package s [o.id] s') (howns : t.graph.Owns package o) :
    package ∈ s'.shared.order.order := by
  cases h with
  | ignored hd => simp [howns.declarable] at hd
  | homeless _ hp => simp [howns.package_eq] at hp
  | foreign _ hp hne => exact absurd (howns.eq_of_packageOf? rfl hp) hne.symm
  | entered _ _ _ hrest =>
    cases hrest
    exact PackageOrder.mem_ensure.mpr (.inl rfl)
  | own hd hp _ hnamed hdecl hrest =>
    cases howns.declarable.symm.trans hd
    have hasked := hnamed.asked fun o' q hmem howns' hne =>
      ⟨hne.symm, o, o', howns, howns', Graph.mem_prerequisites.mp hmem⟩
    cases hrest
    have hkept := (Build.spares_of_declare hdecl).order
    exact hkept ▸ hasked.subset (PackageOrder.mem_ensure.mpr (.inl rfl))

end SeenTo

def Graph.enum? (g : Graph) (o : Object) : Option EnumDecl :=
  match o.kind with
  | .enumeration names => EnumDecl.ofObject? g o names
  | _ => none

def Object.constant? (o : Object) : Option (String × String) :=
  match o.kind with
  | .constant value => (constantName? o).map (·, value)
  | _ => none

structure Adds (t : Target) (package : ObjectId) (os : List Object) (s s' : Session) : Prop where
  enums : s'.decls.enums = s.decls.enums ++ os.filterMap t.graph.enum?
  constants : s'.decls.constants = (os.filterMap Object.constant?).foldl
    (fun constants c => Table.insert c.1 c.2 constants) s.decls.constants
  asked : Asked (Due t.graph package) s.shared.order s'.shared.order
  mem_order : ∀ o ∈ os, t.graph.Owns package o → package ∈ s'.shared.order.order

namespace Adds

theorem nil (t : Target) (package : ObjectId) (s : Session) : Adds t package [] s s where
  enums := by simp
  constants := by simp
  asked := .refl _ _
  mem_order := by simp

theorem append (h : Adds t package os s s₁) (h' : Adds t package os' s₁ s') :
    Adds t package (os ++ os') s s' where
  enums := by rw [h'.enums, h.enums, List.filterMap_append, List.append_assoc]
  constants := by rw [h'.constants, h.constants, List.filterMap_append, List.foldl_append]
  asked := h.asked.trans h'.asked
  mem_order o ho howns := by
    cases List.mem_append.mp ho with
    | inl ho => exact h'.asked.subset (h.mem_order o ho howns)
    | inr ho => exact h'.mem_order o ho howns

theorem of_aggregate?_eq_none (hnone : o.aggregate? = none)
    (horder : s'.shared.order = s.shared.order)
    (henums : s'.decls.enums = s.decls.enums ++ [o].filterMap t.graph.enum?)
    (hconstants : s'.decls.constants = ([o].filterMap Object.constant?).foldl
      (fun constants c => Table.insert c.1 c.2 constants) s.decls.constants) :
    Adds t package [o] s s' where
  enums := henums
  constants := hconstants
  asked := horder ▸ .refl _ _
  mem_order o' ho' howns := by
    have hagg := (Graph.declarable?_eq_some.mp howns.declarable).2.1
    simp [List.mem_singleton.mp ho', hnone] at hagg

theorem of_seenTo (h : SeenTo t package s [o.id] s') (hp : t.graph.packageOf? o.id = some package)
    (henum : t.graph.enum? o = none) (hconstant : o.constant? = none) :
    Adds t package [o] s s' where
  enums := by simp [h.enums_constants_eq.1, henum]
  constants := by simp [h.enums_constants_eq.2, hconstant]
  asked := by
    apply h.asked
    intro o' q hmem howns hne
    exact absurd (howns.eq_of_packageOf? (List.mem_singleton.mp hmem) hp) hne
  mem_order o' ho' howns := by
    rw [List.mem_singleton.mp ho'] at howns
    exact h.mem_order howns

end Adds

namespace Build

theorem adds_of_add (hp : t.graph.packageOf? o.id = some package)
    (h : outcome (add t package o) s = (.ok (), s')) : Adds t package [o] s s' := by
  unfold add at h
  split at h
  case h_1 names hk =>
    have hnone : o.aggregate? = none := by simp [Object.aggregate?, hk]
    have hconstant : o.constant? = none := by simp [Object.constant?, hk]
    have henum : t.graph.enum? o = EnumDecl.ofObject? t.graph o names := by simp [Graph.enum?, hk]
    split at h
    · rename_i e he
      cases h
      exact .of_aggregate?_eq_none hnone rfl (by simp [henum, he]) (by simp [hconstant])
    · rename_i he
      cases h
      exact .of_aggregate?_eq_none hnone rfl (by simp [henum, he]) (by simp [hconstant])
  case h_2 value hk =>
    have hnone : o.aggregate? = none := by simp [Object.aggregate?, hk]
    have henum : t.graph.enum? o = none := by simp [Graph.enum?, hk]
    have hconstant : o.constant? = (constantName? o).map (·, value) := by
      simp [Object.constant?, hk]
    split at h
    · rename_i name hname
      cases h
      exact .of_aggregate?_eq_none hnone rfl (by simp [henum]) (by simp [hconstant, hname])
    · rename_i hname
      cases h
      exact .of_aggregate?_eq_none hnone rfl (by simp [henum]) (by simp [hconstant, hname])
  case h_3 a hk =>
    exact .of_seenTo (seenTo_of_resolve h) hp (by simp [Graph.enum?, hk])
      (by simp [Object.constant?, hk])
  case h_4 a hk =>
    exact .of_seenTo (seenTo_of_resolve h) hp (by simp [Graph.enum?, hk])
      (by simp [Object.constant?, hk])
  case h_5 henum hconstant hstruct hclass =>
    cases h
    have hother : o.aggregate? = none ∧ t.graph.enum? o = none ∧ o.constant? = none := by
      unfold Object.aggregate? Graph.enum? Object.constant?
      cases hk : o.kind <;> simp_all
    exact .of_aggregate?_eq_none hother.1 rfl (by simp [hother.2.1]) (by simp [hother.2.2])

theorem adds_of_forM (hp : ∀ o ∈ os, t.graph.packageOf? o.id = some package)
    (h : outcome (os.forM (add t package)) s = (.ok (), s')) : Adds t package os s s' := by
  induction os generalizing s with
  | nil =>
    cases h
    exact .nil t package _
  | cons o os ih =>
    obtain ⟨s₁, hhead, htail⟩ := outcome_forM_cons.mp h
    have hfirst := adds_of_add (hp o (by simp)) hhead
    exact hfirst.append (ih (fun o ho => hp o (List.mem_cons_of_mem _ ho)) htail)

end Build

end TypeAtlas
