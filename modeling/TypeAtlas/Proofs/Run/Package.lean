import TypeAtlas.Proofs.Resolution.Work
import Mathlib.Data.List.Perm.Basic

namespace TypeAtlas

open PackageOrder (Call)

variable {t : Target} {package id : ObjectId} {ids : List ObjectId} {o : Object}
  {os declared : List Object} {calls : List Call} {s s' : Session}

namespace Build

theorem add_ok (h : outcome (add t package o) s = (.ok (), s')) :
    SeenTo t package s [o.id] s'
      ∨ o.aggregate? = none ∧ s'.shared = s.shared ∧ Declares t [] s.decls s'.decls := by
  unfold add at h
  split at h
  case h_1 names hk =>
    right
    split at h
    · cases h
      exact ⟨by simp [Object.aggregate?, hk], rfl, .of_types_eq rfl rfl rfl rfl⟩
    · cases h
      exact ⟨by simp [Object.aggregate?, hk], rfl, .refl t _⟩
  case h_2 value hk =>
    right
    split at h
    · cases h
      exact ⟨by simp [Object.aggregate?, hk], rfl, .of_types_eq rfl rfl rfl rfl⟩
    · cases h
      exact ⟨by simp [Object.aggregate?, hk], rfl, .refl t _⟩
  case h_3 => exact .inl (seenTo_of_resolve h)
  case h_4 => exact .inl (seenTo_of_resolve h)
  case h_5 hstruct hclass =>
    cases h
    refine .inr ⟨?_, rfl, .refl t _⟩
    unfold Object.aggregate?
    split <;> simp_all

theorem exists_work_of_add (hp : t.graph.packageOf? o.id = some package)
    (h : outcome (add t package o) s = (.ok (), s')) :
    ∃ declared calls, Work t package s declared calls s'
      ∧ (t.graph.Owns package o → s'.IsEntered o.id) := by
  cases add_ok h with
  | inl hseen =>
    have hdue (o' : Object) (q : ObjectId) (hmem : o'.id ∈ [o.id]) (howns : t.graph.Owns q o')
        (hne : q ≠ package) : t.graph.RefersTo package q :=
      absurd (howns.eq_of_packageOf? (List.mem_singleton.mp hmem) hp) hne
    obtain ⟨declared, calls, hwork, hans⟩ := hseen.exists_work hdue
    exact ⟨declared, calls, hwork, hans.entered o (by simp)⟩
  | inr hplain =>
    obtain ⟨hnone, hshared, hdecls⟩ := hplain
    have hwork : Work t package s [] [] s' := by
      apply Work.of_none_declared _ hdecls _ (by simp)
      · rw [hshared]
        rfl
      · exact fun id => .inl (Session.status?_congr (by rw [hshared]) id)
    refine ⟨[], [], hwork, fun howns => ?_⟩
    have hagg := (Graph.declarable?_eq_some.mp howns.declarable).2.1
    simp [hnone] at hagg

theorem exists_work_of_forM (hp : ∀ o ∈ os, t.graph.packageOf? o.id = some package)
    (h : outcome (os.forM (add t package)) s = (.ok (), s')) :
    ∃ declared calls, Work t package s declared calls s'
      ∧ ∀ o ∈ os, t.graph.Owns package o → s'.IsEntered o.id := by
  induction os generalizing s with
  | nil =>
    cases h
    exact ⟨[], [], .refl t package _, by simp⟩
  | cons o os ih =>
    obtain ⟨s₁, hhead, htail⟩ := outcome_forM_cons.mp h
    obtain ⟨declared, calls, hwork, hentered⟩ := exists_work_of_add (hp o (by simp)) hhead
    obtain ⟨declared', calls', hwork', hentered'⟩ :=
      ih (fun o ho => hp o (List.mem_cons_of_mem _ ho)) htail
    refine ⟨declared ++ declared', calls ++ calls', hwork.trans hwork', ?_⟩
    intro o' ho' howns
    cases List.mem_cons.mp ho' with
    | inl heq =>
      subst heq
      rw [Session.IsEntered, hwork'.isEntered (hentered howns)]
      exact hentered howns
    | inr ho' => exact hentered' o' ho' howns

theorem exists_add_ok (hp : t.graph.packageOf? o.id = some package)
    (hentered : ∀ o, t.graph.Owns package o → s.IsEntered o.id) :
    ∃ s', outcome (add t package o) s = (.ok (), s') := by
  have hresolve : ∃ s', outcome (resolve t package o.id) s = (.ok (), s') := by
    unfold resolve
    cases hd : t.graph.declarable? o.id with
    | none => exact ⟨s, resolveWithin_ignored hd⟩
    | some o' =>
      have hid : o'.id = o.id := Graph.id_of_declarable? hd
      have hin : s.IsEntered o.id := hid ▸ hentered o' ⟨hid ▸ hd, hid ▸ hp⟩
      rw [resolveWithin_of_own hd hp, if_pos hin]
      exact ⟨_, rfl⟩
  unfold add
  split
  case h_1 => split <;> exact ⟨_, rfl⟩
  case h_2 => split <;> exact ⟨_, rfl⟩
  case h_3 => exact hresolve
  case h_4 => exact hresolve
  case h_5 => exact ⟨s, rfl⟩

theorem exists_forM_ok (hp : ∀ o ∈ os, t.graph.packageOf? o.id = some package)
    (hentered : ∀ o, t.graph.Owns package o → s.IsEntered o.id) :
    ∃ s', outcome (os.forM (add t package)) s = (.ok (), s') := by
  induction os generalizing s with
  | nil => exact ⟨s, rfl⟩
  | cons o os ih =>
    obtain ⟨s₁, hhead⟩ := exists_add_ok (hp o (by simp)) hentered
    obtain ⟨declared, calls, hwork, _⟩ := exists_work_of_add (hp o (by simp)) hhead
    have hentered' (o : Object) (howns : t.graph.Owns package o) : s₁.IsEntered o.id := by
      rw [Session.IsEntered, hwork.isEntered (hentered o howns)]
      exact hentered o howns
    obtain ⟨s', htail⟩ := ih (fun o ho => hp o (List.mem_cons_of_mem _ ho)) hentered'
    exact ⟨s', outcome_forM_cons.mpr ⟨s₁, hhead, htail⟩⟩

theorem packageOf?_of_mem (hids : ∀ id ∈ ids, t.graph.packageOf? id = some package)
    (ho : o ∈ ids.filterMap t.graph.get?) : t.graph.packageOf? o.id = some package := by
  obtain ⟨id, hid, hget⟩ := List.mem_filterMap.mp ho
  rw [(Graph.get?_eq_some.mp hget).2]
  exact hids id hid

theorem exists_work_of_addAll (hids : ∀ id, id ∈ ids ↔
      id ∈ t.graph.objects.map Object.id ∧ t.graph.packageOf? id = some package)
    (h : outcome (addAll t package ids) s = (.ok (), s')) :
    ∃ declared calls, Work t package s declared calls s'
      ∧ ∀ o, t.graph.Owns package o → s'.IsEntered o.id := by
  have hp (o : Object) := packageOf?_of_mem (o := o) fun id hid => ((hids id).mp hid).2
  obtain ⟨declared, calls, hwork, hentered⟩ := exists_work_of_forM hp h
  refine ⟨declared, calls, hwork, fun o howns => hentered o ?_ howns⟩
  have hget : t.graph.get? o.id = some o := (Graph.declarable?_eq_some.mp howns.declarable).1
  have hmem : o ∈ t.graph.objects := (Graph.get?_eq_some.mp hget).1
  exact List.mem_filterMap.mpr
    ⟨o.id, (hids o.id).mpr ⟨List.mem_map_of_mem hmem, howns.package_eq⟩, hget⟩

end Build

end TypeAtlas
