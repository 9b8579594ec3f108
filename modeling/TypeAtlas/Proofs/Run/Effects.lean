import TypeAtlas.Proofs.Run.Runs

namespace TypeAtlas

open PackageOrder (Call)

variable {t : Target} {package id q : ObjectId} {o o' p : Object} {declared ps : List Object}
  {s s' : Session} {shared shared' : Resolution} {built : List Built} {calls : List Call}

def Resolution.IsIdle (shared : Resolution) : Prop :=
  ∀ id, shared.progress.status? id ≠ some .inProgress

theorem Resolution.isIdle_start : start.IsIdle := by
  intro id
  simp [start, Progress.empty, Progress.status?]

def Graph.typesLeft (g : Graph) (progress : Progress) (package : ObjectId) : List Object :=
  (g.typesOf package).filter fun o => !progress.isDone o.id

theorem Graph.mem_typesLeft {g : Graph} {progress : Progress} {package : ObjectId} :
    o ∈ g.typesLeft progress package ↔ g.Owns package o ∧ progress.isDone o.id = false := by
  simp [typesLeft, mem_typesOf]

@[simp] theorem Graph.typesLeft_empty (g : Graph) (package : ObjectId) :
    g.typesLeft .empty package = g.typesOf package := by
  simp [typesLeft, Progress.isDone, Progress.status?, Progress.empty]

namespace Work

variable (h : Work t package s declared calls s')

include h

theorem isIdle (hidle : s.shared.IsIdle) : s'.shared.IsIdle := by
  intro id hin
  by_cases hmem : id ∈ declared.map Object.id
  · obtain ⟨o, ho, rfl⟩ := List.mem_map.mp hmem
    have hdone := h.done o ho
    rw [Session.status?, hin] at hdone
    cases hdone
  · have heq : s'.status? id = s.status? id := (h.kept id hmem).eq_of_isEntered (.inl hin)
    exact hidle id (heq.symm.trans hin)

theorem isDone_of_notMem (hmem : id ∉ declared.map Object.id) :
    s'.shared.progress.isDone id = s.shared.progress.isDone id := by
  have hkept := h.kept id hmem
  unfold Progress.isDone
  cases hkept with
  | inl heq => rw [show s'.shared.progress.status? id = s.shared.progress.status? id from heq]
  | inr hmet =>
    rw [show s.shared.progress.status? id = none from hmet.1,
      show s'.shared.progress.status? id = some .notStarted from hmet.2]
    rfl

theorem isDone_of_owns (howns : t.graph.Owns q o) (hne : q ≠ package) :
    s'.shared.progress.isDone o.id = s.shared.progress.isDone o.id := by
  apply h.isDone_of_notMem
  intro hmem
  obtain ⟨o', ho', heq⟩ := List.mem_map.mp hmem
  exact hne (howns.unique (h.owns o' ho') heq.symm)

theorem perm_declared (hidle : s.shared.IsIdle)
    (hentered : ∀ o, t.graph.Owns package o → s'.IsEntered o.id) :
    declared.Perm (t.graph.typesLeft s.shared.progress package) := by
  have hleft : (t.graph.typesLeft s.shared.progress package).Nodup :=
    (t.graph.nodup_objects.filter _).filter _
  apply (List.perm_ext_iff_of_nodup (.of_map _ h.nodup) hleft).mpr
  intro o
  rw [Graph.mem_typesLeft]
  constructor
  · intro ho
    refine ⟨h.owns o ho, ?_⟩
    exact decide_eq_false fun hdone => h.fresh o ho (.inr hdone)
  · intro ⟨howns, hleft⟩
    by_contra hnot
    have hmem : o.id ∉ declared.map Object.id := by
      intro hmem
      obtain ⟨o', ho', heq⟩ := List.mem_map.mp hmem
      have hget := (Graph.declarable?_eq_some.mp (h.owns o' ho').declarable).1
      have hget' := (Graph.declarable?_eq_some.mp howns.declarable).1
      rw [heq, hget', Option.some_inj] at hget
      exact hnot (hget ▸ ho')
    have heq : s'.status? o.id = s.status? o.id :=
      (h.kept o.id hmem).eq_of_isEntered (hentered o howns)
    cases hentered o howns with
    | inl hin => exact hidle o.id (heq.symm.trans hin)
    | inr hdone => exact of_decide_eq_false hleft (heq.symm.trans hdone)

theorem isDone_iff (hidle : s.shared.IsIdle)
    (hentered : ∀ o, t.graph.Owns package o → s'.IsEntered o.id) :
    s'.shared.progress.isDone id ↔
      s.shared.progress.isDone id ∨ ∃ o, t.graph.Owns package o ∧ o.id = id := by
  constructor
  · intro hdone
    by_cases hmem : id ∈ declared.map Object.id
    · obtain ⟨o, ho, heq⟩ := List.mem_map.mp hmem
      exact .inr ⟨o, h.owns o ho, heq⟩
    · exact .inl (h.isDone_of_notMem hmem ▸ hdone)
  · rintro (hdone | ⟨o, howns, rfl⟩)
    · have hsame : s'.status? id = s.status? id := h.isEntered (.inr (of_decide_eq_true hdone))
      exact decide_eq_true (hsame.trans (of_decide_eq_true hdone))
    · cases hentered o howns with
      | inl hin => exact absurd hin (h.isIdle hidle o.id)
      | inr hdone => exact decide_eq_true hdone

end Work

structure Processed (t : Target) (shared : Resolution) (p : Object) (b : Built) : Prop where
  declares : ∃ declared, declared.Perm (t.graph.typesLeft shared.progress p.id)
    ∧ Declares t declared (.empty p.id p.name) b.decls
  isSaved_eq : b.isSaved = (t.policy.emptyFiles || b.decls.hasContent)

namespace Runs

theorem order_eq (h : Runs t shared ps built calls shared') :
    shared'.order = shared.order.after calls := by
  induction h with
  | nil => rfl
  | cons hwork _ _ ih =>
    rw [ih, hwork.order_eq, PackageOrder.after_append]
    rfl

theorem isIdle (h : Runs t shared ps built calls shared') (hidle : shared.IsIdle) :
    shared'.IsIdle := by
  induction h with
  | nil => exact hidle
  | cons hwork _ _ ih => exact ih (hwork.isIdle hidle)

theorem isDone_iff (h : Runs t shared ps built calls shared') (hidle : shared.IsIdle) :
    shared'.progress.isDone id ↔
      shared.progress.isDone id ∨ ∃ p ∈ ps, ∃ o, t.graph.Owns p.id o ∧ o.id = id := by
  induction h with
  | nil => simp
  | cons hwork hentered _ ih =>
    rw [ih (hwork.isIdle hidle), hwork.isDone_iff hidle hentered]
    simp only [List.mem_cons, exists_eq_or_imp]
    exact or_assoc

theorem refersTo_of_call (h : Runs t shared ps built calls shared') {c : Call} (hc : c ∈ calls) :
    ∃ p ∈ ps, c = .ensure p.id ∨ ∃ q, c = .require q p.id ∧ t.graph.RefersTo p.id q := by
  induction h with
  | nil => cases hc
  | @cons _ _ p _ _ _ _ _ _ hwork _ _ ih =>
    cases List.mem_append.mp hc with
    | inl hc => exact ⟨p, by simp, hwork.refersTo_of_call c hc⟩
    | inr hc =>
      obtain ⟨p', hp', hcall⟩ := ih hc
      exact ⟨p', List.mem_cons_of_mem _ hp', hcall⟩

theorem typesLeft_of_work (h : Work t package s declared calls s') (hne : q ≠ package) :
    t.graph.typesLeft s'.shared.progress q = t.graph.typesLeft s.shared.progress q := by
  apply List.filter_congr
  intro o ho
  rw [h.isDone_of_owns (Graph.mem_typesOf.mp ho) hne]

theorem processed (h : Runs t shared ps built calls shared') (hidle : shared.IsIdle)
    (hnodup : (ps.map Object.id).Nodup) : List.Forall₂ (Processed t shared) ps built := by
  induction h with
  | nil => exact .nil
  | @cons shared _ p ps s _ _ _ _ hwork hentered _ ih =>
    obtain ⟨hp, hps⟩ := List.nodup_cons.mp hnodup
    have hne (p' : Object) (hp' : p' ∈ ps) : p'.id ≠ p.id := fun heq =>
      hp (heq ▸ List.mem_map_of_mem hp')
    apply List.Forall₂.cons
    · exact ⟨⟨_, hwork.perm_declared hidle hentered, hwork.declares⟩, rfl⟩
    · have hrest := ih (hwork.isIdle hidle) hps
      apply ((List.forall₂_and_left _ _).mpr ⟨hne, hrest⟩).imp
      intro p' b ⟨hne, ⟨declared, hperm, hdeclares⟩, hsaved⟩
      rw [typesLeft_of_work hwork hne] at hperm
      exact ⟨⟨declared, hperm, hdeclares⟩, hsaved⟩

theorem require_mem (h : Runs t shared ps built calls shared') (hidle : shared.IsIdle)
    (hnodup : (ps.map Object.id).Nodup) (hp : p ∈ ps)
    (ho : o ∈ t.graph.typesLeft shared.progress p.id) (hnames : t.graph.Names o o'.id)
    (howns : t.graph.Owns q o') (hq : q ≠ p.id) : .require q p.id ∈ calls := by
  induction h with
  | nil => cases hp
  | @cons _ _ first _ _ _ _ _ _ hwork hentered _ ih =>
    cases List.mem_cons.mp hp with
    | inl heq =>
      subst heq
      have hmem := (hwork.perm_declared hidle hentered).mem_iff.mpr ho
      exact List.mem_append_left _ (hwork.calls_of_names o hmem o' q hnames howns hq)
    | inr hp =>
      obtain ⟨hhead, htail⟩ := List.nodup_cons.mp hnodup
      have hne : p.id ≠ first.id := fun heq => hhead (heq ▸ List.mem_map_of_mem hp)
      apply List.mem_append_right
      apply ih (hwork.isIdle hidle) htail hp
      rw [typesLeft_of_work hwork hne]
      exact ho

end Runs

end TypeAtlas
