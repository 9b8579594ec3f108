import TypeAtlas.Proofs.Resolution.Session
import Mathlib.Data.List.Forall2

namespace TypeAtlas

variable {t : Target} {o : Object} {s s' : Session} {declared declared' : List Object}
  {d d₁ d' : PackageDecls}

namespace Object

def isStruct (o : Object) : Bool := o.kind.tag = .scriptStruct

def isClass (o : Object) : Bool := o.kind.tag = .classType

end Object

structure Declares (t : Target) (declared : List Object) (d d' : PackageDecls) : Prop where
  id_eq : d'.id = d.id
  name_eq : d'.name = d.name
  structs : ∃ new, d'.structs = d.structs ++ new
    ∧ List.Forall₂ (fun o s => StructDecl.ofObject t o = .ok s)
      (declared.filter Object.isStruct) new
  classes : ∃ new, d'.classes = d.classes ++ new
    ∧ List.Forall₂ (fun o c => ∃ entries, ClassDecl.ofObject t o = .ok (c, entries))
      (declared.filter Object.isClass) new

theorem Declares.of_types_eq (hid : d'.id = d.id) (hname : d'.name = d.name)
    (hstructs : d'.structs = d.structs) (hclasses : d'.classes = d.classes) :
    Declares t [] d d' where
  id_eq := hid
  name_eq := hname
  structs := ⟨[], by simp [hstructs], .nil⟩
  classes := ⟨[], by simp [hclasses], .nil⟩

theorem Declares.refl (t : Target) (d : PackageDecls) : Declares t [] d d :=
  .of_types_eq rfl rfl rfl rfl

theorem Declares.trans (h : Declares t declared d d₁) (h' : Declares t declared' d₁ d') :
    Declares t (declared ++ declared') d d' where
  id_eq := h'.id_eq.trans h.id_eq
  name_eq := h'.name_eq.trans h.name_eq
  structs := by
    obtain ⟨new, hnew, hall⟩ := h.structs
    obtain ⟨new', hnew', hall'⟩ := h'.structs
    refine ⟨new ++ new', by rw [hnew', hnew, List.append_assoc], ?_⟩
    rw [List.filter_append]
    exact List.rel_append hall hall'
  classes := by
    obtain ⟨new, hnew, hall⟩ := h.classes
    obtain ⟨new', hnew', hall'⟩ := h'.classes
    refine ⟨new ++ new', by rw [hnew', hnew, List.append_assoc], ?_⟩
    rw [List.filter_append]
    exact List.rel_append hall hall'

theorem StructDecl.ofObject_eq_ok {d : StructDecl} (h : ofObject t o = .ok d) :
    layout t o 0 = .ok d.members ∧ d.id = o.id ∧ d.nativeName = t.graph.uniqueName o := by
  unfold ofObject at h
  cases hl : layout t o 0 with
  | error e =>
    rw [hl] at h
    cases h
  | ok members =>
    rw [hl] at h
    cases h
    exact ⟨rfl, rfl, rfl⟩

theorem StructDecl.id_of_ofObject {d : StructDecl} (h : ofObject t o = .ok d) : d.id = o.id :=
  (ofObject_eq_ok h).2.1

theorem ClassDecl.ofObject_eq_ok {c : ClassDecl} {entries : List Log.Entry}
    (h : ofObject t o = .ok (c, entries)) : ∃ virtuals virtualLog,
      membersOf t o = .ok c.members ∧ virtualMethods t o = .ok (virtuals, virtualLog) ∧ c.id = o.id
      ∧ c.extraMethods = t.policy.methodsFor o.fullName ++ staticClass t.policy o :: virtuals := by
  unfold ofObject at h
  cases hm : membersOf t o with
  | error e =>
    rw [hm] at h
    cases h
  | ok members =>
    cases hv : virtualMethods t o with
    | error e =>
      rw [hm, hv] at h
      cases h
    | ok virtuals =>
      rw [hm, hv] at h
      cases h
      exact ⟨virtuals.1, virtuals.2, rfl, rfl, rfl, rfl⟩

theorem ClassDecl.id_of_ofObject {c : ClassDecl} {entries : List Log.Entry}
    (h : ofObject t o = .ok (c, entries)) : c.id = o.id := by
  obtain ⟨_, _, _, _, hid, _⟩ := ofObject_eq_ok h
  exact hid

theorem ClassDecl.hasContent_of_ofObject {c : ClassDecl} {entries : List Log.Entry}
    (h : ofObject t o = .ok (c, entries)) : c.hasContent := by
  obtain ⟨_, _, _, _, _, hmethods⟩ := ofObject_eq_ok h
  simp [hasContent, StructDecl.hasContent, hmethods]

theorem map_eq_of_forall₂ {α β γ : Type} {R : α → β → Prop} {f : α → γ} {g : β → γ} {as : List α}
    {bs : List β} (h : List.Forall₂ R as bs) (heq : ∀ a b, R a b → g b = f a) :
    bs.map g = as.map f := by
  induction h with
  | nil => rfl
  | cons hab _ ih => simp [heq _ _ hab, ih]

theorem exists_of_forall₂ {α β : Type} {R : α → β → Prop} {as : List α} {bs : List β} {b : β}
    (h : List.Forall₂ R as bs) (hb : b ∈ bs) : ∃ a ∈ as, R a b := by
  induction h with
  | nil => cases hb
  | cons hab _ ih =>
    cases List.mem_cons.mp hb with
    | inl heq => exact ⟨_, by simp, heq ▸ hab⟩
    | inr hb =>
      obtain ⟨a, ha, hab⟩ := ih hb
      exact ⟨a, List.mem_cons_of_mem _ ha, hab⟩

theorem Declares.map_structs (h : Declares t declared d d') : d'.structs.map (·.id) =
    d.structs.map (·.id) ++ (declared.filter Object.isStruct).map Object.id := by
  obtain ⟨new, hnew, hall⟩ := h.structs
  rw [hnew, List.map_append]
  rw [map_eq_of_forall₂ hall fun _ _ => StructDecl.id_of_ofObject]

theorem Declares.map_classes (h : Declares t declared d d') : d'.classes.map (·.id) =
    d.classes.map (·.id) ++ (declared.filter Object.isClass).map Object.id := by
  obtain ⟨new, hnew, hall⟩ := h.classes
  rw [hnew, List.map_append]
  rw [map_eq_of_forall₂ hall fun _ _ ⟨_, hc⟩ => ClassDecl.id_of_ofObject hc]

namespace Build

theorem outcome_lift_bind_ok {α β : Type} {x : Except Overflow α} {f : α → Build β} {b : β} :
    outcome ((liftM x : Build α) >>= f) s = (.ok b, s')
      ↔ ∃ a, x = .ok a ∧ outcome (f a) s = (.ok b, s') := by
  have hlift : outcome (liftM x : Build α) s = (x, s) := rfl
  rw [outcome_bind, hlift]
  cases x with
  | error e => simp
  | ok a => simp

theorem declare_ok (h : outcome (declare t o) s = (.ok (), s')) :
    s'.shared = s.shared ∧ Declares t [o] s.decls s'.decls := by
  unfold declare at h
  split at h
  · rename_i a hk
    obtain ⟨d, hd, hadd⟩ := outcome_lift_bind_ok.mp h
    obtain rfl : { s with decls.structs := s.decls.structs ++ [d] } = s' :=
      congrArg Prod.snd hadd
    refine ⟨rfl, rfl, rfl, ⟨[d], rfl, ?_⟩, ⟨[], by simp, ?_⟩⟩
    · simpa [Object.isStruct, hk, ObjectKind.tag] using hd
    · simp [Object.isClass, hk, ObjectKind.tag]
  · rename_i a hk
    obtain ⟨⟨d, entries⟩, hd, hadd⟩ := outcome_lift_bind_ok.mp h
    obtain rfl : { s with
        decls.classes := s.decls.classes ++ [d], log := s.log ++ entries } = s' :=
      congrArg Prod.snd hadd
    refine ⟨rfl, rfl, rfl, ⟨[], by simp, ?_⟩, ⟨[d], rfl, ?_⟩⟩
    · simp [Object.isStruct, hk, ObjectKind.tag]
    · simpa [Object.isClass, hk, ObjectKind.tag] using Exists.intro entries hd
  · rename_i hns hnc
    obtain rfl : s = s' := congrArg Prod.snd h
    refine ⟨rfl, rfl, rfl, ⟨[], by simp, ?_⟩, ⟨[], by simp, ?_⟩⟩
    · have : o.isStruct = false := by
        unfold Object.isStruct
        cases hk : o.kind <;> simp_all [ObjectKind.tag]
      simp [this]
    · have : o.isClass = false := by
        unfold Object.isClass
        cases hk : o.kind <;> simp_all [ObjectKind.tag]
      simp [this]

end Build

end TypeAtlas
