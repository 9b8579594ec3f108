import TypeAtlas.Proofs.Order.Calls
import TypeAtlas.Proofs.Resolution.SeenTo

namespace TypeAtlas

open PackageOrder (Call)

variable {t : Target} {package owner id : ObjectId} {ids : List ObjectId} {o : Object}
  {s s₁ s₂ s' : Session} {declared declared' : List Object} {calls calls' : List Call}

def Status.Kept (before behind : Option Status) : Prop :=
  behind = before ∨ before = none ∧ behind = some .notStarted

theorem Status.Kept.trans {a b c : Option Status} (h : Kept a b) (h' : Kept b c) : Kept a c := by
  cases h with
  | inl h => exact h ▸ h'
  | inr h =>
    cases h' with
    | inl h' => exact .inr ⟨h.1, h'.trans h.2⟩
    | inr h' => simp [h.2] at h'

theorem Status.Kept.eq_of_isEntered {a b : Option Status} (h : Kept a b)
    (he : b = some .inProgress ∨ b = some .done) : b = a := by
  cases h with
  | inl h => exact h
  | inr h => simp [h.2] at he

/-- Work on a package from one session to another, with the types that it has declared and the
calls that it has made on the order. -/
structure Work (t : Target) (package : ObjectId) (s : Session) (declared : List Object)
    (calls : List Call) (s' : Session) : Prop where
  order_eq : s'.shared.order = s.shared.order.after calls
  declares : Declares t declared s.decls s'.decls
  nodup : (declared.map Object.id).Nodup
  owns : ∀ o ∈ declared, t.graph.Owns package o
  fresh : ∀ o ∈ declared, ¬ s.IsEntered o.id
  done : ∀ o ∈ declared, s'.status? o.id = some .done
  kept : ∀ id ∉ declared.map Object.id, Status.Kept (s.status? id) (s'.status? id)
  calls_of_names : ∀ o ∈ declared, ∀ o' q, t.graph.Names o o'.id → t.graph.Owns q o' →
    q ≠ package → .require q package ∈ calls
  refersTo_of_call : ∀ c ∈ calls,
    c = .ensure package ∨ ∃ q, c = .require q package ∧ t.graph.RefersTo package q

namespace Work

theorem isEntered (h : Work t package s declared calls s') (he : s.IsEntered id) :
    s'.status? id = s.status? id := by
  have hmem : id ∉ declared.map Object.id := by
    intro hmem
    obtain ⟨o, ho, rfl⟩ := List.mem_map.mp hmem
    exact h.fresh o ho he
  cases h.kept id hmem with
  | inl h => exact h
  | inr h => simp [Session.IsEntered, h.1] at he

theorem trans (h : Work t package s declared calls s₁)
    (h' : Work t package s₁ declared' calls' s') :
    Work t package s (declared ++ declared') (calls ++ calls') s' := by
  have hdone (o : Object) (ho : o ∈ declared) : s₁.IsEntered o.id := .inr (h.done o ho)
  -- What is done is entered, and so it is not declared a second time.
  have hapart (o : Object) (ho : o ∈ declared) (o' : Object) (ho' : o' ∈ declared') :
      o.id ≠ o'.id := fun heq => h'.fresh o' ho' (heq ▸ hdone o ho)
  constructor
  case order_eq => rw [h'.order_eq, h.order_eq, PackageOrder.after_append]
  case declares => exact h.declares.trans h'.declares
  case nodup =>
    rw [List.map_append]
    apply h.nodup.append h'.nodup
    intro id hid hid'
    obtain ⟨o, ho, rfl⟩ := List.mem_map.mp hid
    obtain ⟨o', ho', heq⟩ := List.mem_map.mp hid'
    exact hapart o ho o' ho' heq.symm
  case owns =>
    intro o ho
    exact (List.mem_append.mp ho).elim (h.owns o) (h'.owns o)
  case fresh =>
    intro o ho
    cases List.mem_append.mp ho with
    | inl ho => exact h.fresh o ho
    | inr ho =>
      intro he
      apply h'.fresh o ho
      rw [Session.IsEntered, h.isEntered he]
      exact he
  case done =>
    intro o ho
    cases List.mem_append.mp ho with
    | inl ho => rw [h'.isEntered (hdone o ho), h.done o ho]
    | inr ho => exact h'.done o ho
  case kept =>
    intro id hid
    rw [List.map_append, List.mem_append, not_or] at hid
    exact (h.kept id hid.1).trans (h'.kept id hid.2)
  case calls_of_names =>
    intro o ho o' q hnames howns hne
    cases List.mem_append.mp ho with
    | inl ho => exact List.mem_append_left _ (h.calls_of_names o ho o' q hnames howns hne)
    | inr ho => exact List.mem_append_right _ (h'.calls_of_names o ho o' q hnames howns hne)
  case refersTo_of_call =>
    intro c hc
    exact (List.mem_append.mp hc).elim (h.refersTo_of_call c) (h'.refersTo_of_call c)

theorem of_none_declared (horder : s'.shared.order = s.shared.order.after calls)
    (hdecls : Declares t [] s.decls s'.decls)
    (hkept : ∀ id, Status.Kept (s.status? id) (s'.status? id))
    (hcalls : ∀ c ∈ calls,
      c = .ensure package ∨ ∃ q, c = .require q package ∧ t.graph.RefersTo package q) :
    Work t package s [] calls s' where
  order_eq := horder
  declares := hdecls
  nodup := List.nodup_nil
  owns := by simp
  fresh := by simp
  done := by simp
  kept id _ := hkept id
  calls_of_names := by simp
  refersTo_of_call := hcalls

theorem refl (t : Target) (package : ObjectId) (s : Session) : Work t package s [] [] s :=
  of_none_declared rfl (.refl t s.decls) (fun _ => .inl rfl) (by simp)

theorem see (t : Target) (package : ObjectId) (s : Session) (id : ObjectId) :
    Work t package s [] [] (s.see id) := by
  have hkept (other : ObjectId) : Status.Kept (s.status? other) ((s.see id).status? other) := by
    rw [Session.status?_see]
    split
    · rename_i h
      exact .inr ⟨h.1 ▸ h.2, rfl⟩
    · exact .inl rfl
  exact of_none_declared rfl (.refl t s.decls) hkept (by simp)

theorem ensure (t : Target) (package : ObjectId) (s : Session) :
    Work t package s [] [.ensure package] (s.ensure package) :=
  of_none_declared rfl (.refl t s.decls) (fun _ => .inl rfl) (by simp)

theorem require (hrefers : t.graph.RefersTo package owner) (s : Session) :
    Work t package s [] [.require owner package] (s.require t.graph owner package) :=
  of_none_declared rfl (.refl t s.decls) (fun _ => .inl rfl) (by simp [hrefers])

theorem own (howns : t.graph.Owns package o) (hin : ¬ s.IsEntered o.id)
    (h : Work t package (s.enter o.id) declared calls s₁)
    (hnames : ∀ o' q, t.graph.Names o o'.id → t.graph.Owns q o' → q ≠ package →
      .require q package ∈ calls)
    (hdecl : Build.outcome (Build.declare t o) s₁ = (.ok (), s₂)) :
    Work t package s (declared ++ [o]) calls (s₂.finish o.id) := by
  obtain ⟨hshared, hdecls⟩ := Build.declare_ok hdecl
  have hstatus (id : ObjectId) : s₂.status? id = s₁.status? id :=
    Session.status?_congr (by rw [hshared]) id
  have hother (o' : Object) (ho' : o' ∈ declared) : o'.id ≠ o.id := fun heq =>
    h.fresh o' ho' (Session.isEntered_enter.mpr (.inl heq))
  constructor
  case order_eq =>
    have : (s₂.finish o.id).shared.order = s₂.shared.order := rfl
    rw [this, hshared]
    exact h.order_eq
  case declares => exact h.declares.trans hdecls
  case nodup =>
    rw [List.map_append]
    apply h.nodup.append (List.nodup_singleton o.id)
    intro id hid hid'
    obtain ⟨o', ho', rfl⟩ := List.mem_map.mp hid
    exact hother o' ho' (by simpa using hid')
  case owns =>
    intro o' ho'
    cases List.mem_append.mp ho' with
    | inl ho' => exact h.owns o' ho'
    | inr ho' => exact List.mem_singleton.mp ho' ▸ howns
  case fresh =>
    intro o' ho'
    cases List.mem_append.mp ho' with
    | inl ho' => exact fun he => h.fresh o' ho' (Session.isEntered_enter.mpr (.inr he))
    | inr ho' => exact List.mem_singleton.mp ho' ▸ hin
  case done =>
    intro o' ho'
    rw [Session.status?_finish, hstatus]
    cases List.mem_append.mp ho' with
    | inl ho' => rw [if_neg (hother o' ho'), h.done o' ho']
    | inr ho' => rw [if_pos (List.mem_singleton.mp ho' ▸ rfl)]
  case kept =>
    intro id hid
    simp only [List.map_append, List.mem_append, not_or, List.map_cons, List.map_nil,
      List.mem_singleton] at hid
    rw [Session.status?_finish, if_neg hid.2, hstatus]
    have := h.kept id hid.1
    rwa [Session.status?_enter, if_neg hid.2] at this
  case calls_of_names =>
    intro o' ho'
    cases List.mem_append.mp ho' with
    | inl ho' => exact h.calls_of_names o' ho'
    | inr ho' => exact List.mem_singleton.mp ho' ▸ hnames
  case refersTo_of_call => exact h.refersTo_of_call

end Work

/-- What types are seen to for: those of other packages have their packages come first, those of
the package are declared, or will be as soon as what they name is. -/
structure Answers (g : Graph) (package : ObjectId) (ids : List ObjectId) (calls : List Call)
    (s : Session) : Prop where
  required : ∀ o q, o.id ∈ ids → g.Owns q o → q ≠ package → .require q package ∈ calls
  entered : ∀ o, o.id ∈ ids → g.Owns package o → s.IsEntered o.id

theorem Answers.cons {g : Graph} (h : Answers g package ids calls' s)
    (hrequired : ∀ o q, o.id = id → g.Owns q o → q ≠ package → .require q package ∈ calls)
    (hentered : ∀ o, o.id = id → g.Owns package o → s.IsEntered o.id) :
    Answers g package (id :: ids) (calls ++ calls') s := by
  constructor
  case required =>
    intro o q hmem howns hne
    cases List.mem_cons.mp hmem with
    | inl heq => exact List.mem_append_left _ (hrequired o q heq howns hne)
    | inr hmem => exact List.mem_append_right _ (h.required o q hmem howns hne)
  case entered =>
    intro o hmem howns
    cases List.mem_cons.mp hmem with
    | inl heq => exact hentered o heq howns
    | inr hmem => exact h.entered o hmem howns

theorem exists_work_cons (hhead : Work t package s declared calls s₁)
    (hrequired : ∀ o q, o.id = id → t.graph.Owns q o → q ≠ package → .require q package ∈ calls)
    (hentered : ∀ o, o.id = id → t.graph.Owns package o → s'.IsEntered o.id)
    (htail : ∃ declared calls, Work t package s₁ declared calls s'
      ∧ Answers t.graph package ids calls s') :
    ∃ declared calls, Work t package s declared calls s'
      ∧ Answers t.graph package (id :: ids) calls s' := by
  obtain ⟨declared', calls', hwork, hanswers⟩ := htail
  exact ⟨_, _, hhead.trans hwork, hanswers.cons hrequired hentered⟩

theorem exists_work_cons_of_not_owns (hhead : Work t package s declared calls s₁)
    (hnone : ∀ o q, o.id = id → ¬ t.graph.Owns q o)
    (htail : ∃ declared calls, Work t package s₁ declared calls s'
      ∧ Answers t.graph package ids calls s') :
    ∃ declared calls, Work t package s declared calls s'
      ∧ Answers t.graph package (id :: ids) calls s' :=
  exists_work_cons hhead (fun o q heq howns => absurd howns (hnone o q heq))
    (fun o heq howns => absurd howns (hnone o package heq)) htail

theorem SeenTo.exists_work (h : SeenTo t package s ids s')
    (hdue : ∀ o q, o.id ∈ ids → t.graph.Owns q o → q ≠ package → t.graph.RefersTo package q) :
    ∃ declared calls, Work t package s declared calls s'
      ∧ Answers t.graph package ids calls s' := by
  induction h with
  | nil s => exact ⟨[], [], .refl t package s, by simp, by simp⟩
  | @ignored s s' id ids hd _ ih =>
    apply exists_work_cons_of_not_owns (.refl t package s)
    · intro o q heq howns
      simp [← heq, howns.declarable] at hd
    · exact ih fun o q hmem => hdue o q (List.mem_cons_of_mem _ hmem)
  | @homeless s s' id ids o hd hp _ ih =>
    apply exists_work_cons_of_not_owns (.see t package s id)
    · intro o q heq howns
      simp [← heq, howns.package_eq] at hp
    · exact ih fun o q hmem => hdue o q (List.mem_cons_of_mem _ hmem)
  | @foreign s s' id owner ids o hd hp hne _ ih =>
    obtain rfl : o.id = id := Graph.id_of_declarable? hd
    have hrefers : t.graph.RefersTo package owner := hdue o owner (by simp) ⟨hd, hp⟩ hne
    have hmet := (Work.see t package s o.id).trans (Work.ensure t package (s.see o.id))
    apply exists_work_cons (hmet.trans (Work.require hrefers _))
    · intro o' q heq howns _
      rw [howns.eq_of_packageOf? heq hp]
      simp
    · intro o' heq howns
      exact absurd (howns.eq_of_packageOf? heq hp) hne.symm
    · exact ih fun o q hmem => hdue o q (List.mem_cons_of_mem _ hmem)
  | @entered s s' id ids o hd hp hin htail ih =>
    apply exists_work_cons ((Work.see t package s id).trans (Work.ensure t package (s.see id)))
    · intro o' q heq howns hne
      exact absurd (howns.eq_of_packageOf? heq hp) hne
    · intro o' heq howns
      exact heq ▸ htail.isEntered (Session.isEntered_see.mpr hin)
    · exact ih fun o q hmem => hdue o q (List.mem_cons_of_mem _ hmem)
  | @own s s₁ s₂ s' id ids o hd hp hin _ hdecl htail ih ih' =>
    obtain rfl : o.id = id := Graph.id_of_declarable? hd
    have howns : t.graph.Owns package o := ⟨hd, hp⟩
    -- The type is of this package, so that what it names is a reference of the package.
    obtain ⟨declared, calls, hnamed, hanswers⟩ := ih fun o' q hmem howns' hne =>
      ⟨hne.symm, o, o', howns, howns', Graph.mem_prerequisites.mp hmem⟩
    have hin' : ¬ ((s.see o.id).ensure package).IsEntered o.id := mt Session.isEntered_see.mp hin
    have hdeclare := Work.own howns hin' hnamed
      (fun o' q hnames => hanswers.required o' q (Graph.mem_prerequisites.mpr hnames)) hdecl
    have hmet := (Work.see t package s o.id).trans (Work.ensure t package (s.see o.id))
    apply exists_work_cons (hmet.trans hdeclare)
    · intro o' q heq howns' hne
      exact absurd (howns'.eq_of_packageOf? heq hp) hne
    · intro o' heq _
      exact heq ▸ htail.isEntered (Session.isEntered_finish.mpr (.inl rfl))
    · exact ih' fun o q hmem => hdue o q (List.mem_cons_of_mem _ hmem)

end TypeAtlas
