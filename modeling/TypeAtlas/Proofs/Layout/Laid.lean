import TypeAtlas.Sdk.Layout
import Mathlib.Order.Interval.Set.Basic

namespace TypeAtlas

namespace Property

def length (p : Property) : Nat := p.elementSize * p.count

def stop (p : Property) : Nat := p.offset + p.length

def bytes (p : Property) : Set Nat := Set.Ico p.offset p.stop

theorem count_pos (p : Property) : 0 < p.count :=
  Nat.lt_of_lt_of_le Nat.one_pos (Nat.le_max_right ..)

theorem offset_le_stop (p : Property) : p.offset ≤ p.stop := Nat.le_add_right ..

end Property

def Member.bytes (m : Member) : Set Nat := Set.Ico m.offset (m.offset + m.size)

theorem Member.bytes_filler {a b : Nat} (number : Nat) (reason : String) (h : a ≤ b) :
    (filler number a (b - a) reason).bytes = Set.Ico a b := by
  simp [bytes, filler, Nat.add_sub_cancel' h]

def Graph.empty : Graph := ⟨[], List.nodup_nil⟩

namespace Layout

variable {g : Graph} {s s₁ s' : State} {e : Entry} {es : List Entry} {m : Member}
  {ms own rest members : List Member} {alignment start declared offset : Nat}

structure Fits (g : Graph) (p : Property) : Prop where
  stop : p.stop < Word.bound
  member : (g.info p).isKnown → (g.info p).size * p.count < Word.bound

namespace State

def member (g : Graph) (s : State) (e : Entry) : Member :=
  ⟨s.memberName e.1 e.2, (g.info e.2).text, e.2.offset, (g.info e.2).size * e.2.count, "",
    Flags.text Flags.propertyNames e.2.flags⟩

def named (s : State) (e : Entry) : NamesTaken := s.names.take (Identifier.sanitize e.1.name)

def remainder (g : Graph) (s : State) (e : Entry) : Member :=
  .filler s.fillers (e.2.offset + (g.info e.2).size * e.2.count)
    ((e.2.elementSize - (g.info e.2).size) * e.2.count) wrongSize

def substitute (s : State) (e : Entry) : Member :=
  .filler s.fillers e.2.offset e.2.length (unknownProperty e.1)

theorem mem_gap : m ∈ (s.gap offset).1 ↔
    s.position < offset ∧ m = .filler s.fillers s.position (offset - s.position) missedOffset := by
  unfold gap
  split <;> simp_all

theorem mem_tail : m ∈ s.tail alignment declared ↔
    (s.position < declared ∧ alignment ≤ declared - s.position)
      ∧ m = .filler s.fillers s.position (declared - s.position) missedOffset := by
  unfold tail
  split <;> simp_all

end State

/-- What a property makes behind the gap before it, and how far the members reach then. -/
inductive Made (g : Graph) (s : State) (e : Entry) : List Member → State → Prop
  | whole : (g.info e.2).isKnown → e.2.elementSize ≤ (g.info e.2).size →
      Made g s e [s.member g e] ⟨e.2.stop, s.fillers, s.named e⟩
  | short : (g.info e.2).isKnown → (g.info e.2).size < e.2.elementSize →
      Made g s e [s.member g e, s.remainder g e] ⟨e.2.stop, s.fillers + 1, s.named e⟩
  | unknown : (g.info e.2).isKnown = false →
      Made g s e [s.substitute e] ⟨e.2.stop, s.fillers + 1, s.names⟩

theorem Made.position_eq (h : Made g s e own s') : s'.position = e.2.stop := by
  cases h <;> rfl

theorem remainder_stop (hshort : (g.info e.2).size < e.2.elementSize) :
    e.2.offset + (g.info e.2).size * e.2.count
      + (e.2.elementSize - (g.info e.2).size) * e.2.count = e.2.stop := by
  rw [Nat.add_assoc, ← Nat.add_mul, Nat.add_sub_cancel' hshort.le]
  rfl

theorem exists_made (g : Graph) (s : State) (e : Entry) : ∃ own s', Made g s e own s' := by
  cases hknown : (g.info e.2).isKnown with
  | false => exact ⟨_, _, .unknown hknown⟩
  | true =>
    cases Nat.lt_or_ge (g.info e.2).size e.2.elementSize with
    | inl hshort => exact ⟨_, _, .short hknown hshort⟩
    | inr hwhole => exact ⟨_, _, .whole hknown hwhole⟩

theorem unknown_eq_ok {r : List Member × State} : s.unknown e.1 e.2 = .ok r ↔
    e.2.length < Word.bound ∧ r = ([s.substitute e], { s with fillers := s.fillers + 1 }) := by
  simp only [State.unknown, Overflow.bind_eq_ok, Overflow.pure_eq_ok, Property.rawSize,
    Word.mul_eq_ok_iff]
  constructor
  · rintro ⟨_, ⟨hlength, rfl⟩, rfl⟩
    exact ⟨hlength, rfl⟩
  · rintro ⟨hlength, rfl⟩
    exact ⟨_, ⟨hlength, rfl⟩, rfl⟩

theorem known_eq_ok {r : List Member × State} (hstop : e.2.stop < Word.bound) :
    s.known e.1 e.2 (g.info e.2) = .ok r ↔ (g.info e.2).size * e.2.count < Word.bound ∧
      r = if (g.info e.2).size < e.2.elementSize then
          ([s.member g e, s.remainder g e], { s with fillers := s.fillers + 1, names := s.named e })
        else ([s.member g e], { s with names := s.named e }) := by
  simp only [State.known, Overflow.bind_eq_ok, Word.mul_eq_ok_iff]
  split
  case isTrue hshort =>
    have hsum := remainder_stop hshort
    simp only [Overflow.bind_eq_ok, Overflow.pure_eq_ok, Word.mul_eq_ok_iff, Word.add_eq_ok_iff]
    constructor
    · rintro ⟨_, ⟨hsize, rfl⟩, _, ⟨_, rfl⟩, _, ⟨_, rfl⟩, rfl⟩
      exact ⟨hsize, rfl⟩
    · rintro ⟨hsize, rfl⟩
      exact ⟨_, ⟨hsize, rfl⟩, _, ⟨by omega, rfl⟩, _, ⟨by omega, rfl⟩, rfl⟩
  case isFalse =>
    constructor
    · rintro ⟨_, ⟨hsize, rfl⟩, h⟩
      exact ⟨hsize, (Overflow.pure_eq_ok.mp h).symm⟩
    · rintro ⟨hsize, rfl⟩
      exact ⟨_, ⟨hsize, rfl⟩, rfl⟩

theorem step_eq_ok {r : List Member × State} : s.step g e = .ok r ↔ e.2.stop < Word.bound ∧ ∃ own,
    (if (g.info e.2).isKnown then (s.gap e.2.offset).2.known e.1 e.2 (g.info e.2)
      else (s.gap e.2.offset).2.unknown e.1 e.2) = .ok own
    ∧ r = ((s.gap e.2.offset).1 ++ own.1, { own.2 with position := e.2.stop }) := by
  obtain ⟨o, p⟩ := e
  have hstep (x : Except Overflow (List Member × State)) : (do
      let own ← x
      let size ← p.rawSize
      let position ← Word.add p.offset size
      return ((s.gap p.offset).1 ++ own.1, { own.2 with position })) = .ok r ↔
        p.stop < Word.bound ∧ ∃ own, x = .ok own
          ∧ r = ((s.gap p.offset).1 ++ own.1, { own.2 with position := p.stop }) := by
    simp only [Overflow.bind_eq_ok, Overflow.pure_eq_ok, Property.rawSize, Word.mul_eq_ok_iff,
      Word.add_eq_ok_iff]
    constructor
    · rintro ⟨own, hown, _, ⟨_, rfl⟩, _, ⟨hstop, rfl⟩, rfl⟩
      exact ⟨hstop, own, hown, rfl⟩
    · rintro ⟨hstop, own, hown, rfl⟩
      have hlength : p.length < Word.bound := Nat.lt_of_le_of_lt (Nat.le_add_left ..) hstop
      exact ⟨own, hown, _, ⟨hlength, rfl⟩, _, ⟨hstop, rfl⟩, rfl⟩
  unfold State.step
  cases hknown : (g.info p).isKnown with
  | false => simpa [hknown] using hstep _
  | true => simpa [hknown] using hstep _

theorem step_eq_ok_iff : s.step g e = .ok (ms, s') ↔ Fits g e.2 ∧
    ∃ own, ms = (s.gap e.2.offset).1 ++ own ∧ Made g (s.gap e.2.offset).2 e own s' := by
  rw [step_eq_ok]
  constructor
  · rintro ⟨hstop, own, hown, hr⟩
    cases hknown : (g.info e.2).isKnown with
    | false =>
      simp only [hknown, Bool.false_eq_true, if_false, unknown_eq_ok] at hown
      obtain ⟨_, rfl⟩ := hown
      cases hr
      exact ⟨⟨hstop, by simp [hknown]⟩, _, rfl, .unknown hknown⟩
    | true =>
      rw [if_pos hknown, known_eq_ok hstop] at hown
      obtain ⟨hsize, rfl⟩ := hown
      refine ⟨⟨hstop, fun _ => hsize⟩, ?_⟩
      split at hr
      case isTrue hshort =>
        cases hr
        exact ⟨_, rfl, .short hknown hshort⟩
      case isFalse hwhole =>
        cases hr
        exact ⟨_, rfl, .whole hknown (Nat.not_lt.mp hwhole)⟩
  · rintro ⟨hfits, own, rfl, hmade⟩
    refine ⟨hfits.stop, ?_⟩
    cases hmade with
    | whole hknown hwhole =>
      rw [if_pos hknown]
      simp only [known_eq_ok hfits.stop, if_neg hwhole.not_gt]
      exact ⟨_, ⟨hfits.member hknown, rfl⟩, rfl⟩
    | short hknown hshort =>
      rw [if_pos hknown]
      simp only [known_eq_ok hfits.stop, if_pos hshort]
      exact ⟨_, ⟨hfits.member hknown, rfl⟩, rfl⟩
    | unknown hknown =>
      simp only [hknown, Bool.false_eq_true, if_false, unknown_eq_ok]
      exact ⟨_, ⟨Nat.lt_of_le_of_lt (Nat.le_add_left ..) hfits.stop, rfl⟩, rfl⟩

/-- What properties make one after another, each with the gap before it. -/
inductive Laid (g : Graph) : State → List Entry → List Member → State → Prop
  | nil (s : State) : Laid g s [] [] s
  | cons {s s₁ s' : State} {e : Entry} {es : List Entry} {own rest : List Member} :
      Made g (s.gap e.2.offset).2 e own s₁ → Laid g s₁ es rest s' →
      Laid g s (e :: es) ((s.gap e.2.offset).1 ++ own ++ rest) s'

theorem exists_laid (g : Graph) (s : State) (es : List Entry) : ∃ ms s', Laid g s es ms s' := by
  induction es generalizing s with
  | nil => exact ⟨[], s, .nil s⟩
  | cons e es ih =>
    obtain ⟨own, s₁, hmade⟩ := exists_made g (s.gap e.2.offset).2 e
    obtain ⟨rest, s', hlaid⟩ := ih s₁
    exact ⟨_, s', .cons hmade hlaid⟩

theorem Laid.position_le (h : Laid g s es ms s') (hs : s.position ≤ declared)
    (hes : ∀ e ∈ es, e.2.stop ≤ declared) : s'.position ≤ declared := by
  induction h with
  | nil => exact hs
  | cons hmade _ ih =>
    exact ih (hmade.position_eq ▸ hes _ (by simp)) fun e he => hes e (List.mem_cons_of_mem _ he)

theorem Laid.le_position {least : Nat} (h : Laid g s es ms s') (hs : least ≤ s.position)
    (hes : ∀ e ∈ es, least ≤ e.2.stop) : least ≤ s'.position := by
  induction h with
  | nil => exact hs
  | cons hmade _ ih =>
    exact ih (hmade.position_eq ▸ hes _ (by simp)) fun e he => hes e (List.mem_cons_of_mem _ he)

theorem steps_eq_ok_iff : s.steps g es = .ok (ms, s') ↔
    (∀ e ∈ es, Fits g e.2) ∧ Laid g s es ms s' := by
  induction es generalizing s ms with
  | nil =>
    constructor
    · intro h
      cases h
      exact ⟨by simp, .nil _⟩
    · rintro ⟨_, hlaid⟩
      cases hlaid
      rfl
  | cons e es ih =>
    simp only [State.steps, Overflow.bind_eq_ok, Overflow.pure_eq_ok, Prod.exists, Prod.mk.injEq]
    constructor
    · rintro ⟨first, s₁, hstep, rest, _, hrest, rfl, rfl⟩
      obtain ⟨hfits, own, rfl, hmade⟩ := step_eq_ok_iff.mp hstep
      obtain ⟨hall, hlaid⟩ := ih.mp hrest
      exact ⟨List.forall_mem_cons.mpr ⟨hfits, hall⟩, .cons hmade hlaid⟩
    · rintro ⟨hall, hlaid⟩
      obtain ⟨hfits, hrest⟩ := List.forall_mem_cons.mp hall
      cases hlaid with
      | cons hmade hlaid =>
        exact ⟨_, _, step_eq_ok_iff.mpr ⟨hfits, _, rfl, hmade⟩, _, _, ih.mpr ⟨hrest, hlaid⟩, rfl,
          rfl⟩

theorem reconstruct_eq_ok_iff : reconstruct g alignment es start declared = .ok members ↔
    (∀ e ∈ es, Fits g e.2) ∧ ∃ ms s', Laid g ⟨start, 0, .none⟩ es ms s'
      ∧ members = ms ++ s'.tail alignment declared := by
  simp only [reconstruct, Overflow.bind_eq_ok, Overflow.pure_eq_ok, Prod.exists, steps_eq_ok_iff]
  constructor
  · rintro ⟨ms, s', ⟨hfits, hlaid⟩, rfl⟩
    exact ⟨hfits, ms, s', hlaid, rfl⟩
  · rintro ⟨hfits, ms, s', hlaid, rfl⟩
    exact ⟨ms, s', ⟨hfits, hlaid⟩, rfl⟩

theorem exists_reconstruct (alignment start declared : Nat) (hfits : ∀ e ∈ es, Fits g e.2) :
    ∃ members, reconstruct g alignment es start declared = .ok members := by
  obtain ⟨ms, s', hlaid⟩ := exists_laid g ⟨start, 0, .none⟩ es
  exact ⟨_, reconstruct_eq_ok_iff.mpr ⟨hfits, ms, s', hlaid, rfl⟩⟩

def entry (id : ObjectId) (name : String) (p : Property) : Entry :=
  (⟨id, id, name, none, name, none, none, 0, .property p⟩, p)

end Layout

end TypeAtlas
