import TypeAtlas.Object.Property

namespace TypeAtlas

inductive Status
  | notStarted | inProgress | done
  deriving DecidableEq, Repr

structure Progress where
  entries : List (ObjectId × Status)
  deriving DecidableEq, Repr

namespace Progress

def empty : Progress := ⟨[]⟩

def status? (p : Progress) (id : ObjectId) : Option Status := p.entries.lookup id

def set (p : Progress) (id : ObjectId) (s : Status) : Progress :=
  ⟨(id, s) :: p.entries.filter (·.1 ≠ id)⟩

/-- Notes that a type has been met; what is known of it stays. -/
def see (p : Progress) (id : ObjectId) : Progress :=
  if (p.status? id).isSome then p else p.set id .notStarted

def enter? (p : Progress) (id : ObjectId) : Option Progress :=
  match p.status? id with
  | some .inProgress => none
  | some .done => none
  | _ => some (p.set id .inProgress)

def finish (p : Progress) (id : ObjectId) : Progress := p.set id .done

def isDone (p : Progress) (id : ObjectId) : Bool := p.status? id = some .done

@[simp] theorem status?_set (p : Progress) (id other : ObjectId) (s : Status) :
    (p.set id s).status? other = if other = id then some s else p.status? other := by
  unfold set status?
  by_cases h : other = id
  · simp [h]
  · simp only [List.lookup_cons, h, if_false]
    rw [show (other == id) = false by simpa using h]
    simp only
    induction p.entries with
    | nil => rfl
    | cons e es ih =>
      by_cases he : e.1 = id
      · rw [List.filter_cons_of_neg (by simpa using he), ih, List.lookup_cons]
        rw [show (other == e.1) = false by simp [he, h]]
      · rw [List.filter_cons_of_pos (by simpa using he), List.lookup_cons, List.lookup_cons, ih]

end Progress

end TypeAtlas
