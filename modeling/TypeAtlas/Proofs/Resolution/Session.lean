import TypeAtlas.Proofs.Resolution.References

namespace TypeAtlas

variable {α β : Type} {t : Target} {package owner id : ObjectId} {ids : List ObjectId} {o : Object}
  {s s₁ s₂ s' : Session}

def Build.outcome (m : Build α) (s : Session) : Except Overflow α × Session := m s

theorem Build.outcome_bind (m : Build α) (f : α → Build β) (s : Session) :
    outcome (m >>= f) s = match outcome m s with
      | (.ok a, s₁) => outcome (f a) s₁
      | (.error e, s₁) => (.error e, s₁) := by
  have h : outcome (m >>= f) s =
      outcome (ExceptT.bindCont (m := StateM Session) f (outcome m s).1) (outcome m s).2 := rfl
  rw [h]
  rcases outcome m s with ⟨_ | a, s₁⟩
  · rfl
  · rfl

theorem Build.outcome_bind_ok {m : Build α} {f : α → Build β} {b : β} :
    outcome (m >>= f) s = (.ok b, s')
      ↔ ∃ a s₁, outcome m s = (.ok a, s₁) ∧ outcome (f a) s₁ = (.ok b, s') := by
  rw [outcome_bind]
  rcases outcome m s with ⟨_ | a, s₁⟩
  · simp
  · simp only [Prod.mk.injEq, Except.ok.injEq]
    constructor
    · exact fun h => ⟨a, s₁, ⟨rfl, rfl⟩, h⟩
    · rintro ⟨_, _, ⟨rfl, rfl⟩, h⟩
      exact h

namespace Session

def status? (s : Session) (id : ObjectId) : Option Status := s.shared.progress.status? id

def IsEntered (s : Session) (id : ObjectId) : Prop :=
  s.status? id = some .inProgress ∨ s.status? id = some .done

instance (s : Session) (id : ObjectId) : Decidable (s.IsEntered id) :=
  inferInstanceAs (Decidable (_ ∨ _))

def see (s : Session) (id : ObjectId) : Session :=
  Build.setProgress (s.shared.progress.see id) s

def enter (s : Session) (id : ObjectId) : Session :=
  Build.setProgress (s.shared.progress.set id .inProgress) s

def finish (s : Session) (id : ObjectId) : Session :=
  Build.setProgress (s.shared.progress.finish id) s

def ensure (s : Session) (package : ObjectId) : Session :=
  { s with shared.order := s.shared.order.ensure package }

def require (s : Session) (g : Graph) (dependency referencer : ObjectId) : Session :=
  (Build.require g dependency referencer s).2

end Session

theorem Progress.enter?_eq (p : Progress) (id : ObjectId) : p.enter? id =
    if p.status? id = some .inProgress ∨ p.status? id = some .done then none
    else some (p.set id .inProgress) := by
  unfold enter?
  rcases p.status? id with _ | _ | _ | _ <;> simp

theorem Progress.status?_see (p : Progress) (id other : ObjectId) : (p.see id).status? other =
    if other = id ∧ p.status? id = none then some .notStarted else p.status? other := by
  unfold see
  cases h : p.status? id with
  | none => simp
  | some status => simp

namespace Session

@[simp] theorem status?_see (s : Session) (id other : ObjectId) : (s.see id).status? other =
    if other = id ∧ s.status? id = none then some .notStarted else s.status? other :=
  Progress.status?_see ..

@[simp] theorem status?_enter (s : Session) (id other : ObjectId) : (s.enter id).status? other =
    if other = id then some .inProgress else s.status? other :=
  Progress.status?_set ..

@[simp] theorem status?_finish (s : Session) (id other : ObjectId) : (s.finish id).status? other =
    if other = id then some .done else s.status? other :=
  Progress.status?_set ..

theorem status?_congr (h : s'.shared.progress = s.shared.progress) (id : ObjectId) :
    s'.status? id = s.status? id :=
  congrArg (·.status? id) h

theorem isEntered_see {other : ObjectId} : (s.see id).IsEntered other ↔ s.IsEntered other := by
  simp only [IsEntered, status?_see]
  split
  · rename_i h
    simp [h.1, h.2]
  · rfl

theorem isEntered_enter {other : ObjectId} :
    (s.enter id).IsEntered other ↔ other = id ∨ s.IsEntered other := by
  simp only [IsEntered, status?_enter]
  split <;> simp_all

theorem isEntered_finish {other : ObjectId} :
    (s.finish id).IsEntered other ↔ other = id ∨ s.IsEntered other := by
  simp only [IsEntered, status?_finish]
  split <;> simp_all

end Session

namespace Build

open Session

variable {depth : Nat}

theorem resolveWithin_ignored (h : t.graph.declarable? id = none) :
    outcome (resolveWithin t package (depth + 1) id) s = (.ok (), s) := by
  simp only [resolveWithin, h]
  rfl

theorem resolveWithin_homeless (h : t.graph.declarable? id = some o)
    (hp : t.graph.packageOf? id = none) :
    outcome (resolveWithin t package (depth + 1) id) s = (.ok (), s.see id) := by
  simp only [resolveWithin, h, hp]
  rfl

theorem resolveWithin_foreign (h : t.graph.declarable? id = some o)
    (hp : t.graph.packageOf? id = some owner) (hne : owner ≠ package) :
    outcome (resolveWithin t package (depth + 1) id) s
      = (.ok (), ((s.see id).ensure package).require t.graph owner package) := by
  simp only [resolveWithin, h, hp, if_pos hne]
  rfl

theorem outcome_enter : outcome (Build.enter id) s
    = if s.IsEntered id then (.ok false, s) else (.ok true, s.enter id) := by
  have henter : s.shared.progress.enter? id =
      if s.IsEntered id then none else some (s.shared.progress.set id .inProgress) :=
    Progress.enter?_eq ..
  unfold outcome Build.enter
  rw [henter]
  by_cases h : s.IsEntered id
  · rw [if_pos h, if_pos h]
  · rw [if_neg h, if_neg h]
    rfl

theorem resolveWithin_of_own (h : t.graph.declarable? id = some o)
    (hp : t.graph.packageOf? id = some package) :
    outcome (resolveWithin t package (depth + 1) id) s =
      if s.IsEntered id then (.ok (), (s.see id).ensure package)
      else outcome (do
        (t.graph.prerequisites o).forM (resolveWithin t package depth)
        declare t o
        Build.finish id) (((s.see id).ensure package).enter id) := by
  have hdef : outcome (resolveWithin t package (depth + 1) id) s =
      outcome (do
        if ← Build.enter id then
          (t.graph.prerequisites o).forM (resolveWithin t package depth)
          declare t o
          Build.finish id) ((s.see id).ensure package) := by
    simp only [resolveWithin, h, hp, ne_eq, not_true_eq_false, if_false]
    rfl
  have hsame : ((s.see id).ensure package).IsEntered id ↔ s.IsEntered id := isEntered_see
  rw [hdef, outcome_bind, outcome_enter]
  by_cases he : s.IsEntered id
  · rw [if_pos (hsame.mpr he), if_pos he]
    rfl
  · rw [if_neg (mt hsame.mp he), if_neg he]
    rfl

end Build

end TypeAtlas
