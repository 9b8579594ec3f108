import TypeAtlas.Proofs.Resolution.Declares

namespace TypeAtlas

variable {α : Type} {t : Target} {package id : ObjectId} {ids : List ObjectId} {o : Object}
  {s s₁ s₂ s' : Session}

/-- A session sees to types one after another for its package: to types of other packages by
having those come first, to its own by declaring them, after what they name and once. -/
inductive SeenTo (t : Target) (package : ObjectId) : Session → List ObjectId → Session → Prop
  | nil (s : Session) : SeenTo t package s [] s
  | ignored {s s' : Session} {id : ObjectId} {ids : List ObjectId} :
      t.graph.declarable? id = none →
      SeenTo t package s ids s' → SeenTo t package s (id :: ids) s'
  | homeless {s s' : Session} {id : ObjectId} {ids : List ObjectId} {o : Object} :
      t.graph.declarable? id = some o → t.graph.packageOf? id = none →
      SeenTo t package (s.see id) ids s' → SeenTo t package s (id :: ids) s'
  | foreign {s s' : Session} {id owner : ObjectId} {ids : List ObjectId} {o : Object} :
      t.graph.declarable? id = some o → t.graph.packageOf? id = some owner → owner ≠ package →
      SeenTo t package (((s.see id).ensure package).require t.graph owner package) ids s' →
      SeenTo t package s (id :: ids) s'
  | entered {s s' : Session} {id : ObjectId} {ids : List ObjectId} {o : Object} :
      t.graph.declarable? id = some o → t.graph.packageOf? id = some package → s.IsEntered id →
      SeenTo t package ((s.see id).ensure package) ids s' → SeenTo t package s (id :: ids) s'
  | own {s s₁ s₂ s' : Session} {id : ObjectId} {ids : List ObjectId} {o : Object} :
      t.graph.declarable? id = some o → t.graph.packageOf? id = some package → ¬ s.IsEntered id →
      SeenTo t package (((s.see id).ensure package).enter id) (t.graph.prerequisites o) s₁ →
      Build.outcome (Build.declare t o) s₁ = (.ok (), s₂) →
      SeenTo t package (s₂.finish id) ids s' → SeenTo t package s (id :: ids) s'

theorem SeenTo.isEntered (h : SeenTo t package s ids s') (he : s.IsEntered id) :
    s'.IsEntered id := by
  induction h with
  | nil s => exact he
  | ignored hd _ ih => exact ih he
  | homeless hd hp _ ih => exact ih (Session.isEntered_see.mpr he)
  | foreign hd hp hne _ ih => exact ih (Session.isEntered_see.mpr he)
  | entered hd hp hin _ ih => exact ih (Session.isEntered_see.mpr he)
  | own hd hp hin _ hdecl _ ih ih' =>
    have hafter := ih (Session.isEntered_enter.mpr (.inr (Session.isEntered_see.mpr he)))
    refine ih' (Session.isEntered_finish.mpr (.inr ?_))
    rw [Session.IsEntered, Session.status?, (Build.declare_ok hdecl).1]
    exact hafter

theorem SeenTo.append {ids' : List ObjectId} (h : SeenTo t package s ids s₁)
    (h' : SeenTo t package s₁ ids' s') : SeenTo t package s (ids ++ ids') s' := by
  induction h with
  | nil s => exact h'
  | ignored hd _ ih => exact .ignored hd (ih h')
  | homeless hd hp _ ih => exact .homeless hd hp (ih h')
  | foreign hd hp hne _ ih => exact .foreign hd hp hne (ih h')
  | entered hd hp hin _ ih => exact .entered hd hp hin (ih h')
  | own hd hp hin hpre hdecl _ _ ih => exact .own hd hp hin hpre hdecl (ih h')

namespace Session

def unentered (g : Graph) (s : Session) : Nat :=
  g.objects.countP fun o => ¬ s.IsEntered o.id

theorem unentered_le {g : Graph} (h : ∀ id, s.IsEntered id → s'.IsEntered id) :
    s'.unentered g ≤ s.unentered g := by
  refine List.countP_mono_left fun o _ ho => ?_
  simp only [decide_eq_true_eq] at ho ⊢
  exact fun hin => ho (h o.id hin)

theorem unentered_enter_lt {g : Graph} (hd : g.declarable? id = some o) (hin : ¬ s.IsEntered id) :
    (s.enter id).unentered g < s.unentered g := by
  have hmem : o ∈ g.objects := (Graph.get?_eq_some.mp (Graph.declarable?_eq_some.mp hd).1).1
  have hid : o.id = id := Graph.id_of_declarable? hd
  have hnow : (s.enter id).IsEntered o.id := isEntered_enter.mpr (.inl hid)
  have hthen : ¬ s.IsEntered o.id := hid ▸ hin
  refine Graph.countP_lt_countP (fun other hother => ?_) hmem (by simpa using hnow)
    (by simpa using hthen)
  simp only [decide_eq_true_eq] at hother ⊢
  exact fun hin => hother (isEntered_enter.mpr (.inr hin))

end Session

namespace Build

theorem outcome_forM_cons {f : α → Build Unit} {a : α} {as : List α} :
    outcome ((a :: as).forM f) s = (.ok (), s')
      ↔ ∃ s₁, outcome (f a) s = (.ok (), s₁) ∧ outcome (as.forM f) s₁ = (.ok (), s') := by
  have hcons : (a :: as).forM f = f a >>= fun _ => as.forM f := rfl
  rw [hcons, outcome_bind_ok]
  exact ⟨fun ⟨_, s₁, h⟩ => ⟨s₁, h⟩, fun ⟨s₁, h⟩ => ⟨(), s₁, h⟩⟩

theorem seenTo_of_resolveWithin {depth : Nat}
    (deeper : ∀ {s s' ids}, s.unentered t.graph < depth →
      outcome (ids.forM (resolveWithin t package depth)) s = (.ok (), s') →
      SeenTo t package s ids s')
    (hd : s.unentered t.graph < depth + 1)
    (h : outcome (resolveWithin t package (depth + 1) id) s = (.ok (), s')) :
    SeenTo t package s [id] s' := by
  cases hdec : t.graph.declarable? id with
  | none =>
    rw [resolveWithin_ignored hdec] at h
    cases h
    exact .ignored hdec (.nil _)
  | some o =>
    cases hp : t.graph.packageOf? id with
    | none =>
      rw [resolveWithin_homeless hdec hp] at h
      cases h
      exact .homeless hdec hp (.nil _)
    | some owner =>
      by_cases hown : owner = package
      · subst hown
        rw [resolveWithin_of_own hdec hp] at h
        by_cases hin : s.IsEntered id
        · rw [if_pos hin] at h
          cases h
          exact .entered hdec hp hin (.nil _)
        · rw [if_neg hin] at h
          obtain ⟨_, s₁, hpre, h⟩ := outcome_bind_ok.mp h
          obtain ⟨_, s₂, hdecl, h⟩ := outcome_bind_ok.mp h
          cases h
          -- The type that is entered now makes up for the step deeper.
          apply SeenTo.own hdec hp hin _ hdecl (.nil _)
          apply deeper _ hpre
          have hsame : ((s.see id).ensure owner).unentered t.graph ≤ s.unentered t.graph :=
            Session.unentered_le fun _ => Session.isEntered_see.mpr
          have hless : (((s.see id).ensure owner).enter id).unentered t.graph
              < ((s.see id).ensure owner).unentered t.graph :=
            Session.unentered_enter_lt hdec (mt Session.isEntered_see.mp hin)
          omega
      · rw [resolveWithin_foreign hdec hp hown] at h
        cases h
        exact .foreign hdec hp hown (.nil _)

theorem seenTo_of_outcome {depth : Nat} (hd : s.unentered t.graph < depth)
    (h : outcome (ids.forM (resolveWithin t package depth)) s = (.ok (), s')) :
    SeenTo t package s ids s' := by
  induction depth generalizing s ids s' with
  | zero => exact absurd hd (Nat.not_lt_zero _)
  | succ depth deeper =>
    induction ids generalizing s with
    | nil =>
      cases h
      exact .nil _
    | cons id ids ih =>
      obtain ⟨s₁, hhead, htail⟩ := outcome_forM_cons.mp h
      have hfirst : SeenTo t package s [id] s₁ := seenTo_of_resolveWithin deeper hd hhead
      have hle : s₁.unentered t.graph ≤ s.unentered t.graph :=
        Session.unentered_le fun _ => hfirst.isEntered
      exact hfirst.append (ih (Nat.lt_of_le_of_lt hle hd) htail)

/-- There are never more types to enter than the depth that is allowed for. -/
theorem seenTo_of_resolve (h : outcome (resolve t package id) s = (.ok (), s')) :
    SeenTo t package s [id] s' := by
  apply seenTo_of_outcome (Nat.lt_succ_of_le List.countP_le_length)
  exact outcome_forM_cons.mpr ⟨s', h, rfl⟩

end Build

end TypeAtlas
