import TypeAtlas.Proofs.Layout.Preordered
import TypeAtlas.Proofs.Method.Stub

/-! The parameter block of a stub beside the call frame that it stands for.  The block has a field
for each parameter, an array passed in is a pointer there and every other array its first element,
so that fields behind an array stand elsewhere than the frame has them. -/

namespace TypeAtlas.Method

open Layout (Entry Preordered Sorted)

variable {g : Graph} {policy : Policy} {o : Object} {f : Function} {children : List ObjectId}
  {row es : List Entry} {sorted : List (Entry × Nat)} {e : Entry} {ps : List Parameter}
  {position : Nat}

def Follows (position : Nat) : List Entry → Prop
  | [] => True
  | e :: es => e.2.offset = position ∧ Follows e.2.stop es

/-- The properties of a function in a row without gaps, all of them parameters by their flags and of
known types that take as much as one element. -/
structure Packed (g : Graph) (children : List ObjectId) (row : List Entry) : Prop where
  perm : row.Perm (children.filterMap g.property?)
  follows : Follows 0 row
  parameter : ∀ e ∈ row, (Role.ofFlags? e.2.flags).isSome
  known : ∀ e ∈ row, (g.info e.2).isKnown
  size : ∀ e ∈ row, (g.info e.2).size = e.2.elementSize

def filled (row : List Entry) : List Entry := row.filter (·.2.elementSize ≠ 0)

theorem mem_filled : e ∈ filled row ↔ e ∈ row ∧ e.2.elementSize ≠ 0 := by
  simp [filled]

section Frame

theorem Follows.filled (h : Follows position row) : Follows position (filled row) := by
  induction row generalizing position with
  | nil => exact h
  | cons e es ih =>
    obtain ⟨rfl, hes⟩ := h
    rw [Method.filled, List.filter_cons]
    split
    case isTrue => exact ⟨rfl, ih hes⟩
    case isFalse hroom =>
      have hstop : e.2.stop = e.2.offset := by
        have hsize : e.2.elementSize = 0 := by simpa using hroom
        rw [Property.stop, Property.length, hsize, Nat.zero_mul, Nat.add_zero]
      exact hstop ▸ ih hes

theorem Follows.le (h : Follows position es) : ∀ e ∈ es, position ≤ e.2.offset := by
  induction es generalizing position with
  | nil => simp
  | cons e es ih =>
    obtain ⟨rfl, hes⟩ := h
    exact List.forall_mem_cons.mpr
      ⟨Nat.le_refl _, fun e' he' => Nat.le_trans e.2.offset_le_stop (ih hes e' he')⟩

theorem Follows.increasing (h : Follows position es) (hroom : ∀ e ∈ es, e.2.elementSize ≠ 0) :
    es.Pairwise fun a b => a.2.offset < b.2.offset := by
  induction es generalizing position with
  | nil => exact .nil
  | cons e es ih =>
    obtain ⟨rfl, hes⟩ := h
    obtain ⟨he, hroom⟩ := List.forall_mem_cons.mp hroom
    have hlength : 0 < e.2.length := Nat.mul_pos (Nat.pos_of_ne_zero he) e.2.count_pos
    have hstop : e.2.offset < e.2.stop := Nat.lt_add_of_pos_right hlength
    exact .cons (fun e' he' => Nat.lt_of_lt_of_le hstop (hes.le e' he')) (ih hes hroom)

def Apart (es : List Entry) : Prop := ∀ a ∈ es, ∀ b ∈ es, a.2.offset = b.2.offset → a = b

theorem apart (h : es.Pairwise fun a b => a.2.offset < b.2.offset) : Apart es := by
  intro a ha b hb
  exact List.Pairwise.forall_of_forall_of_flip (R := fun a b => a.2.offset = b.2.offset → a = b)
    (fun _ _ _ => rfl) (h.imp fun hlt heq => absurd heq (Nat.ne_of_lt hlt))
    (h.imp fun hlt heq => absurd heq.symm (Nat.ne_of_lt hlt)) ha hb

theorem Apart.preordered (h : Apart es) : Preordered es := by
  rw [Layout.preordered_iff]
  intro a ha b hb c _ hparted
  exact hparted.ne (congrArg Prod.snd (h a ha b hb hparted.1))

theorem Apart.eq_of_sorted (h : Apart es) (hsorted : Sorted es sorted) (hperm : row.Perm es)
    (hrow : row.Pairwise fun a b => a.2.offset < b.2.offset) : sorted.map Prod.fst = row := by
  have hentries : (sorted.map Prod.fst).Perm es := by
    have hfst := hsorted.perm.map Prod.fst
    rwa [List.zipIdx_map_fst] at hfst
  have hpairwise : (sorted.map Prod.fst).Pairwise fun a b => a.2.offset ≤ b.2.offset := by
    rw [List.pairwise_map]
    exact hsorted.pairwise.imp fun hstands => Layout.offset_le_of_comesBefore hstands.comesBefore
  refine (hentries.trans hperm.symm).eq_of_pairwise (fun a b ha hb hab hba => ?_) hpairwise
    (hrow.imp Nat.le_of_lt)
  exact h a (hentries.mem_iff.mp ha) b (hperm.mem_iff.mp hb) (Nat.le_antisymm hab hba)

theorem Packed.perm_eligible (h : Packed g children row) :
    (filled row).Perm (eligible g children) := by
  have hfilter : filled row = row.filter (isEligible g) :=
    List.filter_congr fun e he => by simp [isEligible, h.known e he, h.parameter e he]
  rw [hfilter]
  exact h.perm.filter _

theorem Packed.increasing (h : Packed g children row) :
    (filled row).Pairwise fun a b => a.2.offset < b.2.offset :=
  h.follows.filled.increasing fun _ he => (mem_filled.mp he).2

end Frame

section Fields

def offsets (position : Nat) : List Nat → List Nat
  | [] => []
  | width :: widths => position :: offsets (position + width) widths

/-- The width of a parameter's field: a pointer takes eight bytes, anything else what its type
takes.  No field has the length of an array. -/
def fieldWidth (g : Graph) (policy : Policy) (e : Entry) (p : Parameter) : Nat :=
  if p.type = elementType g policy e ++ "*" then 8 else (g.info e.2).size

def KeepsWidth (e : Entry) : Prop := e.2.arrayDim ≤ 1 ∨ isInput e = true ∧ e.2.length = 8

instance : DecidablePred KeepsWidth := fun _ => instDecidableOr

def width (g : Graph) (e : Entry) : Nat :=
  if isInput e ∧ 1 < e.2.arrayDim then 8 else (g.info e.2).size

def Typed (g : Graph) (policy : Policy) (es : List Entry) (ps : List Parameter) : Prop :=
  List.Forall₂ (fun e p => p.type =
    elementType g policy e ++ if isInput e ∧ 1 < e.2.arrayDim then "*" else "") es ps

theorem Typed.widths (h : Typed g policy es ps) :
    List.zipWith (fieldWidth g policy) es ps = es.map (width g) := by
  induction h with
  | nil => rfl
  | @cons e p es ps hp _ ih =>
    have hfield : fieldWidth g policy e p = width g e := by
      unfold fieldWidth width
      rw [hp]
      split
      case isTrue h => rw [if_pos rfl]
      case isFalse h => rw [if_neg (by rw [String.append_right_inj]; decide)]
    rw [List.zipWith_cons_cons, List.map_cons, ih, hfield]

theorem width_eq_length_iff (hsize : (g.info e.2).size = e.2.elementSize)
    (hroom : e.2.elementSize ≠ 0) : width g e = e.2.length ↔ KeepsWidth e := by
  unfold width KeepsWidth Property.length Property.count
  by_cases hdim : e.2.arrayDim ≤ 1
  · simp [hdim, Nat.not_lt.mpr hdim, hsize]
  · have hcount : max e.2.arrayDim 1 = e.2.arrayDim := Nat.max_eq_left (by omega)
    rw [hcount]
    cases hinput : isInput e with
    | true => simp [hdim, Nat.not_le.mp hdim, eq_comm]
    | false =>
      have hlonger : e.2.elementSize * 1 < e.2.elementSize * e.2.arrayDim :=
        Nat.mul_lt_mul_of_pos_left (Nat.not_le.mp hdim) (Nat.pos_of_ne_zero hroom)
      simp [hdim, hsize]
      omega

theorem Follows.offsets_eq_iff (h : Follows position es) (width : Entry → Nat) :
    offsets position (es.map width) = es.map (·.2.offset) ↔
      ∀ e ∈ es.dropLast, width e = e.2.length := by
  induction es generalizing position with
  | nil => simp [offsets]
  | cons e es ih =>
    obtain ⟨rfl, hes⟩ := h
    cases es with
    | nil => simp [offsets]
    | cons e' es =>
      have hnext : e'.2.offset = e.2.stop := hes.1
      have hwidth : e.2.offset + width e = e.2.stop ↔ width e = e.2.length :=
        Nat.add_left_cancel_iff
      rw [List.dropLast_cons_cons, List.forall_mem_cons, ← hwidth, ← ih hes]
      simp only [List.map_cons, offsets, List.cons.injEq, hnext, true_and]
      exact and_congr_right fun hstop => by rw [hstop]

end Fields

/-- What the parameter block of a stub declares for entries: a field for each, of the type of the
entry's parameter and without the length of an array. -/
structure Declares (g : Graph) (policy : Policy) (es : List Entry) (m : Method) : Prop where
  body : ∀ stubPolicy, ∃ stub, m.body stubPolicy = m.opening stubPolicy ++ stub
  typed : Typed g policy es m.parameters
  unsized : ∀ p ∈ m.parameters, '[' ∉ p.name.toList

/-- A function whose properties are all parameters and follow each other has a method, and the
fields of its parameter block, one behind the other, stand at the offsets of the properties exactly
if each but the last is no array, or is passed in and takes as much as a pointer. -/
theorem block_offsets_iff (policy : Policy) (hf : o.function? = some f)
    (h : Packed g f.children row) :
    ∃ m log, ofFunction? g policy o = some (m, log) ∧ Declares g policy (filled row) m
      ∧ (offsets 0 (List.zipWith (fieldWidth g policy) (filled row) m.parameters) =
          (filled row).map (·.2.offset)
        ↔ ∀ e ∈ (filled row).dropLast, KeepsWidth e) := by
  have heligible : Apart (eligible g f.children) := by
    intro a ha b hb
    exact apart h.increasing a (h.perm_eligible.mem_iff.mpr ha) b (h.perm_eligible.mem_iff.mpr hb)
  obtain ⟨frame, m, log, hm, hframe⟩ : ∃ frame m log, ofFunction? g policy o = some (m, log)
      ∧ Frames g policy o f.children frame m log := exists_frames hf heligible.preordered
  have hrow : frame.map Prod.fst = filled row :=
    heligible.eq_of_sorted hframe.sorted h.perm_eligible h.increasing
  have htyped : Typed g policy (filled row) m.parameters := by
    rw [← hrow]
    exact List.forall₂_map_left_iff.mpr (hframe.describes.imp fun c p hp => hp.type)
  refine ⟨m, log, hm,
    ⟨fun stubPolicy => ⟨_, body_eq m stubPolicy⟩, htyped, fun p hp hmem => ?_⟩, ?_⟩
  · exact absurd (isPart_of_mem_name hm hp _ hmem) (by decide)
  · rw [htyped.widths, h.follows.filled.offsets_eq_iff]
    refine forall₂_congr fun e he => ?_
    obtain ⟨hmem, hroom⟩ := mem_filled.mp (List.dropLast_subset _ he)
    exact width_eq_length_iff (h.size e hmem) hroom

def blend : Object :=
  ⟨2, 2, "Blend", none, "Function Game.World.Blend", some 1, none, 0, .function ⟨0, [5, 3, 4]⟩⟩

def ends : Entry := Layout.entry 3 "Ends" ⟨0, 4, 2, 128, .plain .int32⟩

def factor : Entry := Layout.entry 4 "Factor" ⟨8, 4, 1, 128, .plain .float⟩

def samples : Entry := Layout.entry 5 "Samples" ⟨12, 4, 4, 384, .plain .float⟩

def blending : Graph where
  objects := [⟨1, 1, "World", none, "Class Game.World", none, none, 0, .classType ⟨none, 8, [2]⟩⟩,
    blend, ends.1, factor.1, samples.1]
  distinct := by decide

theorem packed_blend : Packed blending [5, 3, 4] [ends, factor, samples] where
  perm := by decide
  follows := ⟨rfl, rfl, rfl, trivial⟩
  parameter := by decide
  known := by
    simp only [Graph.info, Graph.infoWithin]
    decide
  size := by
    simp only [Graph.info, Graph.infoWithin]
    decide

theorem block_offsets_blend : Packed blending [5, 3, 4] [ends, factor, samples]
    ∧ ∃ m log, ofFunction? blending .standard blend = some (m, log)
      ∧ Declares blending .standard [ends, factor, samples] m
      ∧ offsets 0 (List.zipWith (fieldWidth blending .standard) [ends, factor, samples]
          m.parameters) = [0, 8, 12] := by
  obtain ⟨m, log, hm, hdeclares, hoffsets⟩ :=
    block_offsets_iff (o := blend) .standard rfl packed_blend
  have hkeeps : ∀ e ∈ [ends, factor], KeepsWidth e := by decide
  exact ⟨packed_blend, m, log, hm, hdeclares, hoffsets.mpr hkeeps⟩

def pick : Object :=
  ⟨2, 2, "Pick", none, "Function Game.World.Pick", some 1, none, 0, .function ⟨0, [3, 4, 5]⟩⟩

def weights : Entry := Layout.entry 3 "Weights" ⟨0, 4, 3, 128, .plain .int32⟩

def order : Entry := Layout.entry 4 "Order" ⟨12, 4, 3, 384, .plain .int32⟩

def limit : Entry := Layout.entry 5 "Limit" ⟨24, 4, 1, 128, .plain .int32⟩

def picking : Graph where
  objects := [⟨1, 1, "World", none, "Class Game.World", none, none, 0, .classType ⟨none, 8, [2]⟩⟩,
    pick, weights.1, order.1, limit.1]
  distinct := by decide

theorem packed_pick : Packed picking [3, 4, 5] [weights, order, limit] where
  perm := .refl _
  follows := ⟨rfl, rfl, rfl, trivial⟩
  parameter := by decide
  known := by
    simp only [Graph.info, Graph.infoWithin]
    decide
  size := by
    simp only [Graph.info, Graph.infoWithin]
    decide

/-- The field of the first array is a pointer and that of the second one integer, and so the last
parameter's field stands where the second array begins. -/
theorem block_offsets_pick : Packed picking [3, 4, 5] [weights, order, limit]
    ∧ (∃ m log, ofFunction? picking .standard pick = some (m, log)
      ∧ offsets 0 (List.zipWith (fieldWidth picking .standard) [weights, order, limit] m.parameters)
        = [0, 8, 12])
    ∧ [weights, order, limit].map (·.2.offset) = [0, 12, 24] := by
  have hoffsets : (ofFunction? picking .standard pick).map (fun built =>
      offsets 0 (List.zipWith (fieldWidth picking .standard) [weights, order, limit]
        built.1.parameters)) = some [0, 8, 12] := by cbv
  obtain ⟨⟨m, log⟩, hm, hlaid⟩ := Option.map_eq_some_iff.mp hoffsets
  exact ⟨packed_pick, ⟨m, log, hm, hlaid⟩, rfl⟩

end TypeAtlas.Method
