import TypeAtlas.Proofs.Resolution.Work

/-! The order in which the types of a package are declared: each behind those that it depends on.
What has been entered and not declared leads to what is being seen to, and so a type is ahead of one
that it depends on only where that one leads back to it. -/

namespace TypeAtlas

open Relation

inductive Graph.DependsOn (g : Graph) : ObjectId → ObjectId → Prop
  | names {package : ObjectId} {o o' : Object} : g.Owns package o → g.Owns package o' →
      g.Names o o'.id → o'.id ≠ o.id → DependsOn g o.id o'.id

def Graph.Awaits (g : Graph) (id other : ObjectId) : Prop :=
  g.DependsOn id other ∧ ¬ TransGen g.DependsOn other id

theorem Graph.Awaits.ne {g : Graph} {id other : ObjectId} (h : g.Awaits id other) : other ≠ id := by
  cases h.1 with
  | names _ _ _ hne => exact hne

variable {t : Target} {package id : ObjectId} {ids : List ObjectId} {o o' : Object}
  {s s₁ s₂ s' : Session} {declared declared' : List Object}

def Session.Keeps (s : Session) (declared : List Object) (s' : Session) : Prop :=
  ∀ id ∉ declared.map Object.id, s.IsEntered id ∨ s'.IsEntered id → s'.status? id = s.status? id

/-- Types are declared for the first time, and in turn: none ahead of one that it awaits. -/
structure InTurn (t : Target) (s : Session) (declared : List Object) (s' : Session) : Prop where
  declares : Declares t declared s.decls s'.decls
  fresh : ∀ id ∈ declared.map Object.id, ¬ s.IsEntered id
  done : ∀ id ∈ declared.map Object.id, s'.status? id = some .done
  keeps : s.Keeps declared s'
  closed : ∀ id ∈ declared.map Object.id, ∀ other, t.graph.Awaits id other →
    s.status? other = some .done ∨ other ∈ declared.map Object.id
  ordered : (declared.map Object.id).Pairwise fun id other => ¬ t.graph.Awaits id other

namespace InTurn

theorem of_none_declared (hdecls : Declares t [] s.decls s'.decls) (hkeeps : s.Keeps [] s') :
    InTurn t s [] s' where
  declares := hdecls
  fresh := by simp
  done := by simp
  keeps := hkeeps
  closed := by simp
  ordered := .nil

theorem refl (t : Target) (s : Session) : InTurn t s [] s :=
  of_none_declared (.refl t s.decls) fun _ _ _ => rfl

theorem see (t : Target) (s : Session) (id : ObjectId) : InTurn t s [] (s.see id) := by
  refine of_none_declared (.refl t s.decls) fun other _ hentered => ?_
  have hentered : s.IsEntered other := hentered.elim (fun h => h) Session.isEntered_see.mp
  rw [Session.status?_see, if_neg]
  intro ⟨heq, hnone⟩
  rw [heq, Session.IsEntered, hnone] at hentered
  simp at hentered

theorem of_progress_eq (hdecls : s'.decls = s.decls)
    (hprogress : s'.shared.progress = s.shared.progress) : InTurn t s [] s' := by
  apply of_none_declared
  · rw [hdecls]
    exact .refl t s.decls
  · exact fun id _ _ => Session.status?_congr hprogress id

theorem ensure (t : Target) (package : ObjectId) (s : Session) :
    InTurn t s [] (s.ensure package) := of_progress_eq rfl rfl

theorem require (t : Target) (owner package : ObjectId) (s : Session) :
    InTurn t s [] (s.require t.graph owner package) := of_progress_eq rfl rfl

variable (h : InTurn t s declared s₁)

include h

theorem isEntered_of_mem (hmem : id ∈ declared.map Object.id) : s₁.IsEntered id :=
  .inr (h.done id hmem)

theorem isEntered (hin : s.IsEntered id) : s₁.IsEntered id := by
  by_cases hmem : id ∈ declared.map Object.id
  · exact h.isEntered_of_mem hmem
  · rw [Session.IsEntered, h.keeps id hmem (.inl hin)]
    exact hin

theorem done_or_mem (hdone : s₁.status? id = some .done) :
    s.status? id = some .done ∨ id ∈ declared.map Object.id := by
  by_cases hmem : id ∈ declared.map Object.id
  · exact .inr hmem
  · exact .inl ((h.keeps id hmem (.inr (.inr hdone))).symm.trans hdone)

theorem inProgress (hin : s₁.status? id = some .inProgress) :
    s.status? id = some .inProgress := by
  by_cases hmem : id ∈ declared.map Object.id
  · rw [h.done id hmem] at hin
    cases hin
  · exact (h.keeps id hmem (.inr (.inl hin))).symm.trans hin

theorem trans (h' : InTurn t s₁ declared' s') : InTurn t s (declared ++ declared') s' := by
  -- What is declared first is entered, and so it is not declared a second time.
  have hapart (id : ObjectId) (hid : id ∈ declared.map Object.id) : id ∉ declared'.map Object.id :=
    fun hid' => h'.fresh id hid' (h.isEntered_of_mem hid)
  constructor
  case declares => exact h.declares.trans h'.declares
  case fresh =>
    intro id hid hin
    rw [List.map_append, List.mem_append] at hid
    cases hid with
    | inl hid => exact h.fresh id hid hin
    | inr hid => exact h'.fresh id hid (h.isEntered hin)
  case done =>
    intro id hid
    rw [List.map_append, List.mem_append] at hid
    cases hid with
    | inl hid => rw [h'.keeps id (hapart id hid) (.inl (h.isEntered_of_mem hid)), h.done id hid]
    | inr hid => exact h'.done id hid
  case keeps =>
    intro id hid hin
    rw [List.map_append, List.mem_append, not_or] at hid
    have hmiddle : s₁.IsEntered id := by
      cases hin with
      | inl hin => exact h.isEntered hin
      | inr hin =>
        rw [Session.IsEntered, ← h'.keeps id hid.2 (.inr hin)]
        exact hin
    exact (h'.keeps id hid.2 (.inl hmiddle)).trans (h.keeps id hid.1 (.inr hmiddle))
  case closed =>
    intro id hid other hawaits
    rw [List.map_append, List.mem_append] at hid ⊢
    cases hid with
    | inl hid => exact (h.closed id hid other hawaits).imp_right .inl
    | inr hid =>
      cases h'.closed id hid other hawaits with
      | inl hdone => exact (h.done_or_mem hdone).imp_right .inl
      | inr hmem => exact .inr (.inr hmem)
  case ordered =>
    rw [List.map_append, List.pairwise_append]
    refine ⟨h.ordered, h'.ordered, fun id hid other hother hawaits => ?_⟩
    cases h.closed id hid other hawaits with
    | inl hdone => exact h'.fresh other hother (h.isEntered (.inr hdone))
    | inr hmem => exact hapart other hmem hother

end InTurn

theorem InTurn.own (hin : ¬ s.IsEntered o.id) (h : InTurn t (s.enter o.id) declared s₁)
    (hawaits : ∀ other, t.graph.Awaits o.id other → s₁.status? other = some .done)
    (hdecl : Build.outcome (Build.declare t o) s₁ = (.ok (), s₂)) :
    InTurn t s (declared ++ [o]) (s₂.finish o.id) := by
  obtain ⟨hshared, hdecls⟩ := Build.declare_ok hdecl
  have hstatus (id : ObjectId) : s₂.status? id = s₁.status? id :=
    Session.status?_congr (by rw [hshared]) id
  have hother (id : ObjectId) (hid : id ∈ declared.map Object.id) : id ≠ o.id := fun heq =>
    h.fresh id hid (Session.isEntered_enter.mpr (.inl heq))
  have hmem (id : ObjectId) :
      id ∈ (declared ++ [o]).map Object.id ↔ id ∈ declared.map Object.id ∨ id = o.id := by
    rw [List.map_append, List.mem_append, List.map_singleton, List.mem_singleton]
  -- Entering the type makes nothing done.
  have hbefore (id : ObjectId) (hdone : (s.enter o.id).status? id = some .done) :
      s.status? id = some .done := by
    rw [Session.status?_enter] at hdone
    split at hdone
    · cases hdone
    · exact hdone
  constructor
  case declares => exact h.declares.trans hdecls
  case fresh =>
    intro id hid
    cases (hmem id).mp hid with
    | inl hid => exact fun he => h.fresh id hid (Session.isEntered_enter.mpr (.inr he))
    | inr heq => exact heq ▸ hin
  case done =>
    intro id hid
    rw [Session.status?_finish, hstatus]
    cases (hmem id).mp hid with
    | inl hid => rw [if_neg (hother id hid), h.done id hid]
    | inr heq => rw [if_pos heq]
  case keeps =>
    intro id hid hentered
    rw [hmem, not_or] at hid
    have hentered : (s.enter o.id).IsEntered id ∨ s₁.IsEntered id := by
      cases hentered with
      | inl he => exact .inl (Session.isEntered_enter.mpr (.inr he))
      | inr he =>
        have he := (Session.isEntered_finish.mp he).resolve_left hid.2
        rw [Session.IsEntered, hstatus] at he
        exact .inr he
    have hkept := h.keeps id hid.1 hentered
    rw [Session.status?_enter, if_neg hid.2] at hkept
    rw [Session.status?_finish, if_neg hid.2, hstatus, hkept]
  case closed =>
    intro id hid other hother
    have hdone : (s.enter o.id).status? other = some .done ∨ other ∈ declared.map Object.id := by
      cases (hmem id).mp hid with
      | inl hid => exact h.closed id hid other hother
      | inr heq => exact h.done_or_mem (hawaits other (heq ▸ hother))
    exact hdone.imp (hbefore other) fun h => (hmem other).mpr (.inl h)
  case ordered =>
    rw [List.map_append, List.pairwise_append]
    refine ⟨h.ordered, List.pairwise_singleton .., fun id hid other heq hawaits => ?_⟩
    obtain rfl := List.mem_singleton.mp heq
    -- The type was under way, and not done, when the others were declared.
    cases h.closed id hid o.id hawaits with
    | inl hdone => exact hin (.inr (hbefore o.id hdone))
    | inr hmem => exact hother o.id hmem rfl

def Session.LeadsTo (g : Graph) (s : Session) (package : ObjectId) (ids : List ObjectId) : Prop :=
  ∀ id, s.status? id = some .inProgress → ∀ o, o.id ∈ ids → g.Owns package o →
    ReflTransGen g.DependsOn id o.id

theorem Session.LeadsTo.of_inProgress {g : Graph} (h : s.LeadsTo g package (id :: ids))
    (hin : ∀ id, s'.status? id = some .inProgress → s.status? id = some .inProgress) :
    s'.LeadsTo g package ids :=
  fun id hid o hmem => h id (hin id hid) o (List.mem_cons_of_mem _ hmem)

theorem Session.LeadsTo.enter {g : Graph} (h : s.LeadsTo g package (o.id :: ids))
    (howns : g.Owns package o) : (s.enter o.id).LeadsTo g package (g.prerequisites o) := by
  intro id hid o' hmem howns'
  have hlast : ReflTransGen g.DependsOn o.id o'.id := by
    by_cases heq : o'.id = o.id
    · rw [heq]
    · exact .single (.names howns howns' (Graph.mem_prerequisites.mp hmem) heq)
  rw [Session.status?_enter] at hid
  split at hid
  case isTrue heq => exact heq ▸ hlast
  case isFalse => exact (h id hid o (by simp) howns).trans hlast

/-- When all that a type names has been seen to, what it awaits is done: anything else would still
be under way and so lead to the type. -/
theorem SeenTo.done_of_awaits (howns : t.graph.Owns package o) (hin : ¬ s.IsEntered o.id)
    (hleads : s.LeadsTo t.graph package (o.id :: ids))
    (hpre : SeenTo t package (s.enter o.id) (t.graph.prerequisites o) s₁)
    (hturn : InTurn t (s.enter o.id) declared s₁) (h : t.graph.Awaits o.id id) :
    s₁.status? id = some .done := by
  obtain ⟨hdepends, hback⟩ := h
  generalize hid : o.id = first at hdepends
  cases hdepends with
  | @names q o₁ o' howns₁ howns' hnames hne =>
    obtain rfl : q = package := howns₁.eq_of_packageOf? hid.symm howns.package_eq
    obtain rfl : o₁ = o := by
      have hget := howns₁.declarable
      rw [← hid, howns.declarable, Option.some_inj] at hget
      exact hget.symm
    -- What the type names of other packages is a reference of its package.
    obtain ⟨_, _, _, hanswers⟩ := hpre.exists_work fun o₂ p hmem howns₂ hp =>
      ⟨hp.symm, o₁, o₂, howns, howns₂, Graph.mem_prerequisites.mp hmem⟩
    have hentered := hanswers.entered o' (Graph.mem_prerequisites.mpr hnames) howns'
    refine hentered.resolve_left fun hunder => ?_
    have hunder := hturn.inProgress hunder
    rw [Session.status?_enter, if_neg hne] at hunder
    cases reflTransGen_iff_eq_or_transGen.mp (hleads o'.id hunder o₁ (by simp) howns) with
    | inl heq => exact hne heq.symm
    | inr hreach => exact hback (hid ▸ hreach)

theorem SeenTo.exists_inTurn (h : SeenTo t package s ids s')
    (hleads : s.LeadsTo t.graph package ids) : ∃ declared, InTurn t s declared s' := by
  induction h with
  | nil s => exact ⟨[], .refl t s⟩
  | @ignored s s' id ids hd _ ih => exact ih (hleads.of_inProgress fun _ h => h)
  | @homeless s s' id ids o hd hp _ ih =>
    have hmet := InTurn.see t s id
    obtain ⟨declared, hrest⟩ := ih (hleads.of_inProgress fun _ => hmet.inProgress)
    exact ⟨declared, hmet.trans hrest⟩
  | @foreign s s' id owner ids o hd hp hne _ ih =>
    have hmet := (InTurn.see t s id).trans (InTurn.ensure t package (s.see id))
    have hasked := hmet.trans (InTurn.require t owner package _)
    obtain ⟨declared, hrest⟩ := ih (hleads.of_inProgress fun _ => hasked.inProgress)
    exact ⟨declared, hasked.trans hrest⟩
  | @entered s s' id ids o hd hp hin _ ih =>
    have hmet := (InTurn.see t s id).trans (InTurn.ensure t package (s.see id))
    obtain ⟨declared, hrest⟩ := ih (hleads.of_inProgress fun _ => hmet.inProgress)
    exact ⟨declared, hmet.trans hrest⟩
  | @own s s₁ s₂ s' id ids o hd hp hin hpre hdecl _ ih ih' =>
    obtain rfl : o.id = id := Graph.id_of_declarable? hd
    have howns : t.graph.Owns package o := ⟨hd, hp⟩
    have hmet := (InTurn.see t s o.id).trans (InTurn.ensure t package (s.see o.id))
    have hleads' : ((s.see o.id).ensure package).LeadsTo t.graph package (o.id :: ids) :=
      fun id hid => hleads id (hmet.inProgress hid)
    have hin' : ¬ ((s.see o.id).ensure package).IsEntered o.id := mt Session.isEntered_see.mp hin
    obtain ⟨declared, hturn⟩ := ih (hleads'.enter howns)
    have hdeclare := hturn.own hin'
      (fun other => hpre.done_of_awaits howns hin' hleads' hturn) hdecl
    have hfirst := hmet.trans hdeclare
    obtain ⟨declared', hrest⟩ := ih' (hleads.of_inProgress fun _ => hfirst.inProgress)
    exact ⟨_, hfirst.trans hrest⟩

end TypeAtlas
