import TypeAtlas.Object.Property

/-! The order of packages: what a package refers to comes before it, unless the two refer to each
other. -/

namespace TypeAtlas

structure Edge where
  referencer : ObjectId
  dependency : ObjectId
  deriving DecidableEq, Repr

inductive Placement
  | present | inserted | relocated | cycle
  deriving DecidableEq, Repr

/-- Packages in order, the references between them that close no cycle, and the first reference of
every two packages that would have closed one. -/
structure PackageOrder where
  order : List ObjectId
  edges : List Edge
  cycles : List Edge
  deriving DecidableEq, Repr

namespace Edge

def outOf (edges : List Edge) (p : ObjectId) : List Edge := edges.filter (·.referencer = p)

def elsewhere (edges : List Edge) (p : ObjectId) : List Edge := edges.filter (·.referencer ≠ p)

theorem length_outOf_add (edges : List Edge) (p : ObjectId) :
    (outOf edges p).length + (elsewhere edges p).length = edges.length := by
  induction edges with
  | nil => rfl
  | cons e es ih =>
    by_cases h : e.referencer = p <;> simp_all [outOf, elsewhere] <;> omega

/-- A package can be reached from one of those pending.  The edges out of a visited package are
used up. -/
def reaches (target : ObjectId) (edges : List Edge) (pending : List ObjectId) : Bool :=
  match pending with
  | [] => false
  | p :: rest =>
    if p = target then true
    else reaches target (elsewhere edges p) ((outOf edges p).map dependency ++ rest)
termination_by edges.length + pending.length
decreasing_by
  have := length_outOf_add edges p
  simp
  omega

end Edge

namespace PackageOrder

def empty : PackageOrder := ⟨[], [], []⟩

def position? (o : PackageOrder) (p : ObjectId) : Option Nat := o.order.idxOf? p

def contains (o : PackageOrder) (p : ObjectId) : Bool := o.order.contains p

def dependenciesOf (o : PackageOrder) (p : ObjectId) : List ObjectId :=
  (Edge.outOf o.edges p).map Edge.dependency

def ensure (o : PackageOrder) (p : ObjectId) : PackageOrder :=
  if o.contains p then o else { o with order := o.order ++ [p] }

def moved? (order : List ObjectId) (p anchor : ObjectId) : Option (List ObjectId) :=
  match order.idxOf? anchor with
  | none => none
  | some i =>
    match order.idxOf? p with
    | none => some (order.insertIdx i p)
    | some j => if j < i then none else some ((order.eraseIdx j).insertIdx i p)

/-- Puts a package before an anchor, and what it depends on before it in turn.  Packages that are
being placed stay where they are, and so their edges are not needed again. -/
def placeBefore (edges : List Edge) (p anchor : ObjectId) (placing : List ObjectId)
    (order : List ObjectId) : List ObjectId :=
  if placing.contains p then order
  else match moved? order p anchor with
    | none => order
    | some order =>
      (Edge.outOf edges p).attach.foldl
        (fun order e => placeBefore (Edge.elsewhere edges p) e.1.dependency p (p :: placing) order)
        order
termination_by edges.length
decreasing_by
  have := Edge.length_outOf_add edges p
  have := List.length_pos_of_mem e.2
  omega

def isReported (o : PackageOrder) (p q : ObjectId) : Bool :=
  o.cycles.contains ⟨p, q⟩ || o.cycles.contains ⟨q, p⟩

/-- Records a reference, or the cycle that it would close, if the two packages are not yet known
to form one. -/
def record (o : PackageOrder) (e : Edge) : PackageOrder × Bool :=
  if Edge.reaches e.referencer o.edges [e.dependency] then
    if o.isReported e.referencer e.dependency then (o, false)
    else ({ o with cycles := o.cycles ++ [e] }, true)
  else if o.edges.contains e then (o, false)
  else ({ o with edges := o.edges ++ [e] }, false)

def require (o : PackageOrder) (dependency referencer : ObjectId) : Placement × PackageOrder :=
  if dependency = referencer then (.present, o)
  else
    let (o, isCycle) := (o.ensure referencer).record ⟨referencer, dependency⟩
    let before := o.position? dependency
    let inFront := match before, o.position? referencer with
      | some i, some j => decide (i < j)
      | _, _ => false
    let o' := if inFront then o
      else { o with order := placeBefore o.edges dependency referencer [referencer] o.order }
    let placement := if inFront then .present else if before.isSome then .relocated else .inserted
    (if isCycle then .cycle else placement, o')

end PackageOrder

end TypeAtlas
