import TypeAtlas.Proofs.Layout.Laid

/-! When the arithmetic of a layout leaves the range of words.  Only a property's own numbers can
make it: what is subtracted is never larger than what it is taken from, and the fillers of a gap or
of a type that is too small add nothing that the end of the property does not. -/

namespace TypeAtlas.Layout

namespace State.Checked

def gap (s : State) (offset : Nat) : Except Overflow (List Member × State) :=
  if offset > s.position then do
    let size ← Word.sub offset s.position
    return ([.filler s.fillers s.position size missedOffset],
      { s with fillers := s.fillers + 1 })
  else return ([], s)

def known (s : State) (o : Object) (p : Property) (i : TypeInfo) :
    Except Overflow (List Member × State) := do
  let size ← Word.mul i.size p.count
  let member : Member :=
    ⟨s.memberName o p, i.text, p.offset, size, "", Flags.text Flags.propertyNames p.flags⟩
  let s := { s with names := s.names.take (Identifier.sanitize o.name) }
  if i.size < p.elementSize then
    let short ← Word.sub p.elementSize i.size
    let missing ← Word.mul short p.count
    let offset ← Word.add p.offset size
    return ([member, .filler s.fillers offset missing wrongSize],
      { s with fillers := s.fillers + 1 })
  else return ([member], s)

def step (g : Graph) (s : State) (e : Entry) : Except Overflow (List Member × State) := do
  let (o, p) := e
  let (gap, s) ← gap s p.offset
  let i := g.info p
  let (own, s) ← if i.isKnown then known s o p i else s.unknown o p
  let position ← Word.add p.offset (← p.rawSize)
  return (gap ++ own, { s with position })

def steps (g : Graph) (s : State) : List Entry → Except Overflow (List Member × State)
  | [] => .ok ([], s)
  | e :: es => do
    let (first, s) ← step g s e
    let (rest, s) ← steps g s es
    return (first ++ rest, s)

def tail (s : State) (alignment declared : Nat) : Except Overflow (List Member) :=
  if s.position < declared then do
    let remaining ← Word.sub declared s.position
    if alignment ≤ remaining then
      return [.filler s.fillers s.position remaining missedOffset]
    else return []
  else return []

end State.Checked

/-- A layout in which every operation is checked. -/
def reconstructChecked (g : Graph) (alignment : Nat) (entries : List Entry)
    (start declared : Nat) : Except Overflow (List Member) := do
  let (members, s) ← State.Checked.steps g ⟨start, 0, .none⟩ entries
  let tail ← State.Checked.tail s alignment declared
  return members ++ tail

variable {g : Graph} {s s' : State} {e : Entry} {es : List Entry} {own ms : List Member}

namespace State.Checked

theorem gap_eq (s : State) (offset : Nat) : gap s offset = .ok (s.gap offset) := by
  unfold gap State.gap
  split
  case isTrue hgap =>
    rw [Word.sub_eq_ok_iff.mpr ⟨Nat.le_of_lt hgap, rfl⟩]
    rfl
  case isFalse => rfl

theorem known_eq (s : State) (o : Object) (p : Property) (i : TypeInfo) :
    known s o p i = s.known o p i := by
  unfold known State.known
  split
  case isTrue hshort =>
    rw [Word.sub_eq_ok_iff.mpr ⟨Nat.le_of_lt hshort, rfl⟩]
    rfl
  case isFalse => rfl

theorem step_eq (g : Graph) (s : State) (e : Entry) : step g s e = s.step g e := by
  obtain ⟨o, p⟩ := e
  simp only [step, State.step, gap_eq, known_eq]
  rfl

theorem steps_eq (g : Graph) (s : State) (es : List Entry) : steps g s es = s.steps g es := by
  induction es generalizing s with
  | nil => rfl
  | cons e es ih => simp only [steps, State.steps, step_eq, ih]

theorem tail_eq (s : State) (alignment declared : Nat) :
    tail s alignment declared = .ok (s.tail alignment declared) := by
  unfold tail State.tail
  split
  case isTrue hshort =>
    rw [Word.sub_eq_ok_iff.mpr ⟨Nat.le_of_lt hshort, rfl⟩]
    by_cases halign : alignment ≤ declared - s.position
    · simp [hshort, halign, pure, Except.pure, bind, Except.bind]
    · simp [hshort, halign, pure, Except.pure, bind, Except.bind]
  case isFalse hlong => simp [hlong, pure, Except.pure]

end State.Checked

/-- The comparisons before them keep all subtractions in range, wherever the members reach. -/
theorem reconstructChecked_eq (g : Graph) (alignment : Nat) (es : List Entry)
    (start declared : Nat) :
    reconstructChecked g alignment es start declared = reconstruct g alignment es start declared := by
  simp only [reconstructChecked, reconstruct, State.Checked.steps_eq, State.Checked.tail_eq]
  rfl

theorem not_fits_iff {p : Property} : ¬ Fits g p ↔ Word.bound ≤ p.length ∨ Word.bound ≤ p.stop
    ∨ (g.info p).isKnown ∧ Word.bound ≤ (g.info p).size * p.count := by
  constructor
  · intro hfits
    by_contra hall
    simp only [not_or, not_and, Nat.not_le] at hall
    exact hfits ⟨hall.2.1, hall.2.2⟩
  · rintro hout ⟨hstop, hmember⟩
    obtain hlength | hstop' | ⟨hknown, hmember'⟩ := hout
    · exact hstop.not_ge (hlength.trans (Nat.le_add_left ..))
    · exact hstop.not_ge hstop'
    · exact (hmember hknown).not_ge hmember'

theorem reconstruct_eq_error_iff {alignment start declared : Nat} :
    (∃ o, reconstruct g alignment es start declared = .error o) ↔ ∃ e ∈ es, ¬ Fits g e.2 := by
  constructor
  · rintro ⟨o, h⟩
    by_contra hall
    have hfits : ∀ e ∈ es, Fits g e.2 := by simpa using hall
    obtain ⟨members, hok⟩ := exists_reconstruct alignment start declared hfits
    rw [h] at hok
    cases hok
  · rintro ⟨e, he, hout⟩
    cases h : reconstruct g alignment es start declared with
    | error o => exact ⟨o, rfl⟩
    | ok members => exact absurd ((reconstruct_eq_ok_iff.mp h).1 e he) hout

theorem gap_fillers_le (s : State) (offset : Nat) : (s.gap offset).2.fillers ≤ s.fillers + 1 := by
  unfold State.gap
  split
  · exact Nat.le_refl _
  · exact Nat.le_succ _

theorem Made.fillers_le (h : Made g s e own s') : s'.fillers ≤ s.fillers + 1 := by
  cases h with
  | whole => exact Nat.le_succ _
  | short => exact Nat.le_refl _
  | unknown => exact Nat.le_refl _

theorem Laid.fillers_le (h : Laid g s es ms s') : s'.fillers ≤ s.fillers + 2 * es.length := by
  induction h with
  | nil => exact Nat.le_refl _
  | @cons s s₁ s' e es own rest hmade _ ih =>
    have hgap := gap_fillers_le s e.2.offset
    have hown := hmade.fillers_le
    rw [List.length_cons]
    omega

/-- A layout is abandoned just where one of its properties takes too many bytes, ends too far out or
has a type too large for it; all other arithmetic stays in the range of words, whichever properties
came before: it makes no difference if the guarded operations are checked as well, and no more
fillers are counted than two for each property. -/
theorem overflows_iff (g : Graph) (alignment : Nat) (es : List Entry) (start declared : Nat) :
    ((∃ o, reconstruct g alignment es start declared = .error o) ↔
      ∃ e ∈ es, Word.bound ≤ e.2.length ∨ Word.bound ≤ e.2.stop
        ∨ (g.info e.2).isKnown ∧ Word.bound ≤ (g.info e.2).size * e.2.count)
    ∧ reconstructChecked g alignment es start declared = reconstruct g alignment es start declared
    ∧ ∀ ms s, State.steps g ⟨start, 0, .none⟩ es = .ok (ms, s) → s.fillers ≤ 2 * es.length := by
  refine ⟨?_, reconstructChecked_eq .., fun ms s h => ?_⟩
  · rw [reconstruct_eq_error_iff]
    simp only [not_fits_iff]
  · have hcount := (steps_eq_ok_iff.mp h).2.fillers_le
    rwa [Nat.zero_add] at hcount

end TypeAtlas.Layout
