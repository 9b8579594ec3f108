import TypeAtlas.Object.Kind

/-! The graph of reflected objects.  An identity that no object has leads nowhere: every look-up
answers nothing for it. -/

namespace TypeAtlas

structure Graph where
  objects : List Object
  distinct : (objects.map Object.id).Nodup

namespace Graph

def firstRepeated? : List ObjectId → List ObjectId → Option ObjectId
  | _, [] => none
  | seen, id :: ids => if seen.contains id then some id else firstRepeated? (id :: seen) ids

theorem nodup_of_firstRepeated? {seen ids : List ObjectId}
    (h : firstRepeated? seen ids = none) : ids.Nodup ∧ ∀ id ∈ ids, id ∉ seen := by
  induction ids generalizing seen with
  | nil => simp
  | cons id ids ih =>
    unfold firstRepeated? at h
    split at h
    · simp at h
    · rename_i hs
      obtain ⟨hn, hd⟩ := ih h
      simp only [List.contains_eq_mem, decide_eq_true_eq] at hs
      refine ⟨List.nodup_cons.mpr ⟨fun hm => hd id hm (by simp), hn⟩, ?_⟩
      intro x hx
      rcases List.mem_cons.mp hx with rfl | hx
      · exact hs
      · exact fun hm => hd x hx (by simp [hm])

def ofObjects (objects : List Object) : Except ObjectId Graph :=
  match h : firstRepeated? [] (objects.map Object.id) with
  | some id => .error id
  | none => .ok ⟨objects, (nodup_of_firstRepeated? h).1⟩

def get? (g : Graph) (id : ObjectId) : Option Object := g.objects.find? (·.id = id)

def aggregate? (g : Graph) (id : ObjectId) : Option Aggregate := (g.get? id).bind Object.aggregate?

def property? (g : Graph) (id : ObjectId) : Option (Object × Property) := do
  let o ← g.get? id
  let p ← o.property?
  return (o, p)

def packageOf? (g : Graph) (id : ObjectId) : Option ObjectId := do
  let package ← (← g.get? id).package
  let o ← g.get? package
  if o.isPackage then some package else none

def superOf? (g : Graph) (id : ObjectId) : Option ObjectId := do
  let super ← (← g.aggregate? id).super
  let _ ← g.aggregate? super
  return super

def sizeOf (g : Graph) (id : ObjectId) : Nat :=
  match g.aggregate? id with
  | some a => a.size
  | none => 0

def lineage (g : Graph) : Nat → ObjectId → List ObjectId
  | 0, id => [id]
  | steps + 1, id =>
    match g.superOf? id with
    | some super => id :: g.lineage steps super
    | none => [id]

def isNamed (g : Graph) (name : String) (id : ObjectId) : Bool :=
  match g.get? id with
  | some o => o.name == name
  | none => false

/-- An object or one of its super-types has the name.  A lineage longer than the graph has objects
only comes round again. -/
def derivesFrom (g : Graph) (id : ObjectId) (name : String) : Bool :=
  (g.lineage g.objects.length id).any (g.isNamed name)

def nativeName (g : Graph) (o : Object) : String :=
  match o.nativeName with
  | some n => n
  | none =>
    match o.kind.tag with
    | .classType => (if g.derivesFrom o.id "Actor" then "A" else "U") ++ o.name
    | .scriptStruct => "F" ++ o.name
    | _ => o.name

end Graph

end TypeAtlas
