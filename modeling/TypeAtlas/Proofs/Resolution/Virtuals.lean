import TypeAtlas.Proofs.Memory.Captured
import TypeAtlas.Proofs.Resolution.Declares

/-! What a memory adds to the declarations: the methods for the virtual functions that are found in
it, behind all others of their class.  No step of the work looks at them, so that it goes the same
way with any memory as without one. -/

namespace TypeAtlas

def Target.reading (t : Target) (memory : Option Space) : Target := { t with memory }

@[simp] theorem Target.graph_reading (t : Target) (memory : Option Space) :
    (t.reading memory).graph = t.graph := rfl

def Policy.virtualsOf (policy : Policy) (memory : Option Space) (o : Object) : List ExtraMethod :=
  match policy.virtualFunctionsFor? o.fullName, memory with
  | some functions, some s =>
    if o.address = 0 then []
    else match VirtualTable.methods s Space.defaultWindow VirtualTable.maxSlots o.fullName
        o.address functions with
      | .ok methods => methods
      | .error _ => []
  | _, _ => []

theorem Policy.virtualsOf_eq_nil {policy : Policy} {o : Object}
    (h : policy.virtualFunctionsFor? o.fullName = none ∨ o.address = 0) (memory : Option Space) :
    policy.virtualsOf memory o = [] := by
  unfold virtualsOf
  split
  case h_1 functions s hfunctions =>
    cases h with
    | inl h =>
      rw [h] at hfunctions
      cases hfunctions
    | inr h => rw [if_pos h]
  case h_2 => rfl

namespace ClassDecl

def IsStatic (t : Target) (c : ClassDecl) : Prop :=
  ∃ o, t.graph.get? c.id = some o
    ∧ c.extraMethods = t.policy.methodsFor o.fullName ++ [staticClass t.policy o]

def withVirtuals (t : Target) (c : ClassDecl) : ClassDecl :=
  { c with extraMethods := c.extraMethods ++
      ((t.graph.get? c.id).map (t.policy.virtualsOf t.memory)).getD [] }

theorem IsStatic.hasContent {t : Target} {c : ClassDecl} (h : c.IsStatic t) : c.hasContent := by
  obtain ⟨o, _, hmethods⟩ := h
  simp [ClassDecl.hasContent, StructDecl.hasContent, hmethods]

theorem IsStatic.hasContent_withVirtuals {t : Target} {c : ClassDecl} (h : c.IsStatic t) :
    (c.withVirtuals t).hasContent := by
  obtain ⟨o, _, hmethods⟩ := h
  simp [ClassDecl.hasContent, StructDecl.hasContent, withVirtuals, hmethods]

end ClassDecl

namespace PackageDecls

def withVirtuals (t : Target) (d : PackageDecls) : PackageDecls :=
  { d with classes := d.classes.map (·.withVirtuals t) }

theorem hasContent_withVirtuals {t : Target} {d : PackageDecls}
    (h : ∀ c ∈ d.classes, c.IsStatic t) : (d.withVirtuals t).hasContent = d.hasContent := by
  have hclasses : (d.classes.map (·.withVirtuals t)).any ClassDecl.hasContent =
      d.classes.any ClassDecl.hasContent := by
    rw [List.any_map, Bool.eq_iff_iff, List.any_eq_true, List.any_eq_true]
    constructor
    · intro ⟨c, hc, _⟩
      exact ⟨c, hc, (h c hc).hasContent⟩
    · intro ⟨c, hc, _⟩
      exact ⟨c, hc, (h c hc).hasContent_withVirtuals⟩
  simp only [hasContent, withVirtuals, hclasses]

end PackageDecls

def Target.Answers (t : Target) : Prop := ∀ s ∈ t.memory, s.Ordered ∧ s.Backed

variable {t : Target} {α β : Type} {o : Object} {package id : ObjectId} {ids : List ObjectId}

theorem Target.Answers.virtualMethods (h : t.Answers) (o : Object) :
    ∃ entries, ClassDecl.virtualMethods t o = .ok (t.policy.virtualsOf t.memory o, entries) := by
  unfold ClassDecl.virtualMethods Policy.virtualsOf
  cases hfunctions : t.policy.virtualFunctionsFor? o.fullName with
  | none => exact ⟨[], rfl⟩
  | some functions =>
    cases hmemory : t.memory with
    | none => exact ⟨[], rfl⟩
    | some s =>
      obtain ⟨hs, hb⟩ := h s hmemory
      by_cases haddress : o.address = 0
      · simp only [if_pos haddress]
        exact ⟨[], rfl⟩
      · simp only [if_neg haddress]
        have hcompletes := VirtualTable.completes_methods hs hb Space.defaultWindow
          VirtualTable.maxSlots o.fullName o.address functions
        cases hmethods : VirtualTable.methods s Space.defaultWindow VirtualTable.maxSlots
            o.fullName o.address functions with
        | ok methods => exact ⟨[], rfl⟩
        | error e =>
          cases e with
          | refused e => exact ⟨_, rfl⟩
          | abandoned v => exact absurd hmethods (hcompletes v)

theorem ClassDecl.ofObject_of_none {c : ClassDecl} {entries : List Log.Entry} (ht : t.Answers)
    (hget : t.graph.get? o.id = some o) (h : ofObject (t.reading none) o = .ok (c, entries)) :
    c.IsStatic t ∧ ∃ entries, ofObject t o = .ok (c.withVirtuals t, entries) := by
  have hnone : ClassDecl.virtualMethods (t.reading none) o = .ok ([], []) := by
    unfold ClassDecl.virtualMethods
    split
    case h_1 hmemory => cases hmemory
    case h_2 => rfl
  obtain ⟨added, hadded⟩ := ht.virtualMethods o
  unfold ofObject at h ⊢
  have hmembers : membersOf (t.reading none) o = membersOf t o := rfl
  rw [hmembers] at h
  cases hm : membersOf t o with
  | error e =>
    rw [hm] at h
    cases h
  | ok members =>
    rw [hm, hnone] at h
    cases h
    refine ⟨⟨o, hget, rfl⟩, added ++ (Method.ofChildren t.graph t.policy o.id).2, ?_⟩
    rw [hadded]
    simp only [withVirtuals, hget, Option.map_some, Option.getD_some, List.append_assoc,
      List.cons_append, List.nil_append]
    rfl

/-- Two sessions have done the same, the first without a memory and the second with one. -/
structure Session.Mirrors (t : Target) (s s' : Session) : Prop where
  shared : s'.shared = s.shared
  decls : s'.decls = s.decls.withVirtuals t
  isStatic : ∀ c ∈ s.decls.classes, c.IsStatic t

namespace Build

def Mirrored (t : Target) (x y : Build α) : Prop :=
  ∀ s s' a s₁, s.Mirrors t s' → outcome x s = (.ok a, s₁) →
    ∃ s₁', outcome y s' = (.ok a, s₁') ∧ s₁.Mirrors t s₁'

namespace Mirrored

theorem pure (a : α) : Mirrored t (Pure.pure a : Build α) (Pure.pure a) := by
  intro s s' b s₁ hs h
  cases h
  exact ⟨s', rfl, hs⟩

theorem bind {x y : Build α} {f g : α → Build β} (hx : Mirrored t x y)
    (hf : ∀ a, Mirrored t (f a) (g a)) : Mirrored t (x >>= f) (y >>= g) := by
  intro s s' b s₂ hs h
  obtain ⟨a, s₁, hfirst, hrest⟩ := outcome_bind_ok.mp h
  obtain ⟨s₁', hfirst', hs₁⟩ := hx s s' a s₁ hs hfirst
  obtain ⟨s₂', hrest', hs₂⟩ := hf a s₁ s₁' b s₂ hs₁ hrest
  exact ⟨s₂', outcome_bind_ok.mpr ⟨a, s₁', hfirst', hrest'⟩, hs₂⟩

theorem lift_bind {x : Except Overflow α} {f g : α → Build β}
    (hf : ∀ a, x = .ok a → Mirrored t (f a) (g a)) :
    Mirrored t ((liftM x : Build α) >>= f) ((liftM x : Build α) >>= g) := by
  intro s s' b s₁ hs h
  obtain ⟨a, hx, hrest⟩ := outcome_lift_bind_ok.mp h
  obtain ⟨s₁', hrest', hs₁⟩ := hf a hx s s' b s₁ hs hrest
  exact ⟨s₁', outcome_lift_bind_ok.mpr ⟨a, hx, hrest'⟩, hs₁⟩

theorem forM {f g : α → Build Unit} {as : List α} (hf : ∀ a ∈ as, Mirrored t (f a) (g a)) :
    Mirrored t (as.forM f) (as.forM g) := by
  induction as with
  | nil => exact .pure ()
  | cons a as ih =>
    exact bind (hf a (by simp)) fun _ => ih fun a ha => hf a (List.mem_cons_of_mem _ ha)

theorem update {f g : Session → Session}
    (h : ∀ s s', s.Mirrors t s' → (f s).Mirrors t (g s')) :
    Mirrored t (Build.update f) (Build.update g) := by
  intro s s' a s₁ hs hx
  cases hx
  exact ⟨g s', rfl, h s s' hs⟩

theorem share (f : Resolution → Resolution) :
    Mirrored t (Build.update fun s => { s with shared := f s.shared })
      (Build.update fun s => { s with shared := f s.shared }) :=
  update fun _ _ hs => ⟨congrArg f hs.shared, hs.decls, hs.isStatic⟩

theorem note (entries entries' : List Log.Entry) :
    Mirrored t (Build.note entries) (Build.note entries') :=
  update fun _ _ hs => ⟨hs.shared, hs.decls, hs.isStatic⟩

theorem see (id : ObjectId) : Mirrored t (Build.see id) (Build.see id) :=
  share fun r => { r with progress := r.progress.see id }

theorem finish (id : ObjectId) : Mirrored t (Build.finish id) (Build.finish id) :=
  share fun r => { r with progress := r.progress.finish id }

theorem ensure (package : ObjectId) : Mirrored t (Build.ensure package) (Build.ensure package) :=
  share fun r => { r with order := r.order.ensure package }

theorem require (dependency referencer : ObjectId) :
    Mirrored t (Build.require t.graph dependency referencer)
      (Build.require t.graph dependency referencer) := by
  intro s s' a s₁ hs h
  cases h
  refine ⟨_, rfl, ?_, hs.decls, hs.isStatic⟩
  simp only [hs.shared]

theorem enter (id : ObjectId) : Mirrored t (Build.enter id) (Build.enter id) := by
  intro s s' a s₁ hs h
  have hsame : s'.IsEntered id ↔ s.IsEntered id := by
    simp only [Session.IsEntered, Session.status?, hs.shared]
  rw [outcome_enter] at h ⊢
  by_cases he : s.IsEntered id
  · rw [if_pos he] at h
    cases h
    rw [if_pos (hsame.mpr he)]
    exact ⟨s', rfl, hs⟩
  · rw [if_neg he] at h
    cases h
    rw [if_neg (mt hsame.mp he)]
    refine ⟨_, rfl, ?_, hs.decls, hs.isStatic⟩
    simp only [Session.enter, setProgress, hs.shared]

theorem addEnum (e : EnumDecl) : Mirrored t (Build.addEnum e) (Build.addEnum e) :=
  update fun _ _ hs => ⟨hs.shared, by simp only [hs.decls, PackageDecls.withVirtuals], hs.isStatic⟩

theorem addConstant (name value : String) :
    Mirrored t (Build.addConstant name value) (Build.addConstant name value) :=
  update fun _ _ hs => ⟨hs.shared, by simp only [hs.decls, PackageDecls.withVirtuals], hs.isStatic⟩

theorem addStruct (d : StructDecl) : Mirrored t (Build.addStruct d) (Build.addStruct d) :=
  update fun _ _ hs => ⟨hs.shared, by simp only [hs.decls, PackageDecls.withVirtuals], hs.isStatic⟩

theorem addClass {c : ClassDecl} (h : c.IsStatic t) :
    Mirrored t (Build.addClass c) (Build.addClass (c.withVirtuals t)) := by
  apply update
  intro s s' hs
  refine ⟨hs.shared, by simp [hs.decls, PackageDecls.withVirtuals], ?_⟩
  intro c' hc'
  cases List.mem_append.mp hc' with
  | inl hc' => exact hs.isStatic c' hc'
  | inr hc' => exact List.mem_singleton.mp hc' ▸ h

variable (ht : t.Answers)

include ht

theorem declare (hget : t.graph.get? o.id = some o) :
    Mirrored t (Build.declare (t.reading none) o) (Build.declare t o) := by
  unfold Build.declare
  split
  case h_1 => exact lift_bind fun d _ => addStruct d
  case h_2 =>
    intro s s' a s₁ hs h
    obtain ⟨⟨c, entries⟩, hc, hrest⟩ := outcome_lift_bind_ok.mp h
    obtain ⟨hstatic, entries', hc'⟩ := ClassDecl.ofObject_of_none ht hget hc
    have hadd : Mirrored t (do Build.addClass c; Build.note entries)
        (do Build.addClass (c.withVirtuals t); Build.note entries') :=
      bind (addClass hstatic) fun _ => note entries entries'
    obtain ⟨s₁', hrest', hs₁⟩ := hadd s s' a s₁ hs hrest
    exact ⟨s₁', outcome_lift_bind_ok.mpr ⟨_, hc', hrest'⟩, hs₁⟩
  case h_3 => exact .pure ()

theorem resolveWithin (package : ObjectId) (depth : Nat) (id : ObjectId) :
    Mirrored t (Build.resolveWithin (t.reading none) package depth id)
      (Build.resolveWithin t package depth id) := by
  -- a class is declared after what it needs, which is seen to one step less deep
  induction depth generalizing id with
  | zero => exact .pure ()
  | succ depth ih =>
    unfold Build.resolveWithin
    rw [Target.graph_reading]
    cases hd : t.graph.declarable? id with
    | none => exact .pure ()
    | some o =>
      obtain ⟨hget, _⟩ := Graph.declarable?_eq_some.mp hd
      obtain rfl : o.id = id := Graph.id_of_declarable? hd
      apply bind (see o.id)
      intro _
      cases t.graph.packageOf? o.id with
      | none => exact .pure ()
      | some owner =>
        apply bind (ensure package)
        intro _
        by_cases hne : owner ≠ package
        · simp only [if_pos hne]
          exact require owner package
        · simp only [if_neg hne]
          apply bind (enter o.id)
          intro isFirst
          cases isFirst with
          | false => exact .pure ()
          | true =>
            apply bind (forM fun id _ => ih id)
            intro _
            exact bind (declare ht hget) fun _ => finish o.id

theorem add (package : ObjectId) (o : Object) :
    Mirrored t (Build.add (t.reading none) package o) (Build.add t package o) := by
  unfold Build.add
  rw [Target.graph_reading]
  split
  case h_1 =>
    split
    · exact addEnum _
    · exact .pure ()
  case h_2 =>
    split
    · exact addConstant _ _
    · exact .pure ()
  case h_3 => exact resolveWithin ht package _ o.id
  case h_4 => exact resolveWithin ht package _ o.id
  case h_5 => exact .pure ()

theorem addAll (package : ObjectId) (ids : List ObjectId) :
    Mirrored t (Build.addAll (t.reading none) package ids) (Build.addAll t package ids) :=
  forM fun o _ => add ht package o

end Mirrored

end Build

end TypeAtlas
