import TypeAtlas.Sdk.Method
import TypeAtlas.Proofs.Graph.Numbered
import TypeAtlas.Proofs.Layout.Compared
import TypeAtlas.Proofs.Layout.Laid
import Mathlib.Data.List.Forall2

namespace TypeAtlas.Method

open Layout (Entry Preordered Sorted)

def isEligible (g : Graph) (e : Entry) : Bool :=
  e.2.elementSize ≠ 0 && (g.info e.2).isKnown && (Role.ofFlags? e.2.flags).isSome

def eligible (g : Graph) (children : List ObjectId) : List Entry :=
  (children.filterMap g.property?).filter (isEligible g)

def namesOf (es : List Entry) : List String :=
  NamesTaken.none.all (es.map fun e => Identifier.sanitize e.1.name)

def isInput (e : Entry) : Bool := Role.ofFlags? e.2.flags = some .input

def elementType (g : Graph) (policy : Policy) (e : Entry) : String :=
  if e.2.isBool then policy.typeFor "bool" else (g.info e.2).text

structure Describes (g : Graph) (policy : Policy) (names : List String) (c : Entry × Nat)
    (p : Parameter) : Prop where
  name : names[c.2]? = some p.name
  type : p.type = elementType g policy c.1 ++ if isInput c.1 ∧ 1 < c.1.2.arrayDim then "*" else ""
  byReference : p.byReference =
    (isInput c.1 && !decide (1 < c.1.2.arrayDim) && (g.info c.1.2).byReference)
  flags : p.flags = Flags.text Flags.propertyNames c.1.2.flags

variable {g : Graph} {policy : Policy} {children : List ObjectId} {e : Entry} {p : Part}

theorem part?_eq (g : Graph) (e : Entry) : part? g e =
    if isEligible g e then (Role.ofFlags? e.2.flags).map (⟨e, g.info e.2, ·⟩) else none := by
  unfold part? isEligible
  dsimp only
  cases (g.info e.2).isKnown with
  | false => simp
  | true =>
    by_cases hroom : e.2.elementSize = 0
    · simp [hroom]
    · cases Role.ofFlags? e.2.flags <;> simp [hroom]

theorem part?_eq_some (h : part? g e = some p) : p.entry = e ∧ p.info = g.info e.2
    ∧ Role.ofFlags? e.2.flags = some p.role := by
  rw [part?_eq, Option.ite_none_right_eq_some, Option.map_eq_some_iff] at h
  obtain ⟨-, role, hrole, rfl⟩ := h
  exact ⟨rfl, rfl, hrole⟩

theorem map_entry_part? (g : Graph) (e : Entry) :
    (part? g e).map Part.entry = Option.guard (isEligible g) e := by
  rw [part?_eq, Option.guard]
  cases h : isEligible g e with
  | false => rfl
  | true =>
    simp only [isEligible, Bool.and_eq_true, Option.isSome_iff_exists] at h
    obtain ⟨-, role, hrole⟩ := h
    rw [hrole]
    rfl

theorem map_entry_filterMap (es : List Entry) :
    (es.filterMap (part? g)).map Part.entry = es.filter (isEligible g) := by
  rw [List.map_filterMap, ← List.filterMap_eq_filter]
  exact List.filterMap_congr fun e _ => map_entry_part? g e

theorem describes_parameter {names : List String} {name : String} {i : Nat}
    (hp : part? g e = some p) (hname : names[i]? = some name) :
    Describes g policy names (e, i) (p.parameter policy name) := by
  obtain ⟨rfl, hinfo, hrole⟩ := part?_eq_some hp
  have hinput : isInput p.entry = decide (p.role = .input) := by simp [isInput, hrole]
  refine ⟨hname, ?_, ?_, rfl⟩
  · simp [Part.parameter, Part.type, elementType, hinput, hinfo]
  · simp [Part.parameter, hinput, hinfo]

/-- Where the comparison is transitive on the children that take part in calls, the parameters are
these children's, each in the place that the child has in the frame. -/
theorem exists_frame (policy : Policy) (h : Preordered (eligible g children)) :
    ∃ frame, Sorted (eligible g children) frame ∧ List.Forall₂ (fun c q =>
      Describes g policy (namesOf (eligible g children)) c q
      ∧ Role.ofFlags? c.1.2.flags = some q.role) frame (parametersOf g policy children) := by
  let parts := (children.filterMap g.property?).filterMap (part? g)
  have hentries : parts.map Part.entry = eligible g children := map_entry_filterMap _
  have hnames : NamesTaken.none.all (parts.map fun p => Identifier.sanitize p.entry.1.name)
      = namesOf (eligible g children) := by
    rw [namesOf, ← hentries, List.map_map]
    rfl
  let named := parts.zip (namesOf (eligible g children))
  have hnamed : named.map (fun x => x.1.entry) = eligible g children := by
    have hfst : named.map Prod.fst = parts :=
      List.map_fst_zip (by rw [← hnames, NamesTaken.length_all, List.length_map])
    rw [← hentries, ← hfst, List.map_map]
    rfl
  obtain ⟨ys, hperm, hsort, hsorted⟩ :=
    Layout.exists_sorted (fun x : Part × String => x.1.entry) (hnamed ▸ h)
  refine ⟨_, hnamed ▸ hsorted, ?_⟩
  have hparameters : parametersOf g policy children =
      (ys.map Prod.fst).map fun x => x.1.parameter policy x.2 := by
    rw [hsort, parametersOf, hnames]
  rw [hparameters, List.map_map, List.forall₂_map_left_iff, List.forall₂_map_right_iff,
    List.forall₂_same]
  rintro ⟨⟨part, name⟩, i⟩ hmem
  have hplace : named[i]? = some (part, name) :=
    List.mk_mem_zipIdx_iff_getElem?.mp (hperm.mem_iff.mp hmem)
  obtain ⟨hpart, hname⟩ := List.getElem?_zip_eq_some.mp hplace
  obtain ⟨e, -, he⟩ := List.mem_filterMap.mp (List.mem_of_getElem? hpart)
  obtain ⟨hentry, -, hrole⟩ := part?_eq_some he
  subst hentry
  exact ⟨describes_parameter he hname, hrole⟩

end TypeAtlas.Method
