import TypeAtlas.Proofs.Layout.Laid
import Mathlib.Data.Set.Basic

namespace TypeAtlas

def Member.covered (ms : List Member) : Set Nat := { b | ∃ m ∈ ms, b ∈ m.bytes }

namespace Layout

open Member (covered)

variable {g : Graph} {s s' : State} {e : Entry} {es : List Entry} {m : Member}
  {ms ns own members : List Member} {alignment start declared offset b : Nat}

theorem covered_mono (h : ms ⊆ ns) : covered ms ⊆ covered ns := by
  rintro b ⟨m, hm, hb⟩
  exact ⟨m, h hm, hb⟩

theorem covered_left : covered ms ⊆ covered (ms ++ ns) := covered_mono (List.subset_append_left ..)

theorem covered_right : covered ns ⊆ covered (ms ++ ns) :=
  covered_mono (List.subset_append_right ..)

theorem gap_covers (s : State) (offset : Nat) :
    Set.Ico s.position offset ⊆ covered (s.gap offset).1 := by
  intro b hb
  have hgap : s.position < offset := Nat.lt_of_le_of_lt hb.1 hb.2
  refine ⟨_, State.mem_gap.mpr ⟨hgap, rfl⟩, ?_⟩
  rwa [Member.bytes_filler s.fillers missedOffset hgap.le]

theorem Made.covers (h : Made g s e own s') : e.2.bytes ⊆ covered own := by
  rintro b ⟨hstart, hstop⟩
  cases h with
  | whole _ hwhole =>
    refine ⟨s.member g e, by simp, hstart, Nat.lt_of_lt_of_le hstop ?_⟩
    exact Nat.add_le_add_left (Nat.mul_le_mul_right _ hwhole) _
  | short _ hshort =>
    have hsum := remainder_stop hshort
    by_cases hb : b < e.2.offset + (g.info e.2).size * e.2.count
    · exact ⟨s.member g e, by simp, hstart, hb⟩
    · refine ⟨s.remainder g e, by simp, Nat.not_lt.mp hb, ?_⟩
      simpa [State.remainder, Member.filler, hsum] using hstop
  | unknown => exact ⟨s.substitute e, by simp, hstart, hstop⟩

theorem Laid.covers_property (h : Laid g s es ms s') (he : e ∈ es) : e.2.bytes ⊆ covered ms := by
  induction h with
  | nil => cases he
  | cons hmade _ ih =>
    cases List.mem_cons.mp he with
    | inl heq => exact heq ▸ hmade.covers.trans (covered_right.trans covered_left)
    | inr he => exact (ih he).trans covered_right

/-- The members leave out no byte on the way to where they reach, even where a property takes this
place back behind that of an earlier one. -/
theorem Laid.covers_passed (h : Laid g s es ms s') :
    Set.Ico s.position s'.position ⊆ covered ms := by
  induction h with
  | nil => simp
  | @cons s s₁ s' e es own rest hmade _ ih =>
    rintro b ⟨hstart, hstop⟩
    by_cases hrest : s₁.position ≤ b
    · exact covered_right (ih ⟨hrest, hstop⟩)
    · apply covered_left
      by_cases hgap : b < e.2.offset
      · exact covered_left (gap_covers s e.2.offset ⟨hstart, hgap⟩)
      · exact covered_right (hmade.covers ⟨by omega, by rw [← hmade.position_eq]; omega⟩)

theorem exists_tail_covers (s : State) (alignment declared : Nat) : ∃ stop ≤ declared,
    (stop < declared → declared - stop < alignment)
      ∧ Set.Ico s.position stop ⊆ covered (s.tail alignment declared) := by
  by_cases htail : s.position < declared ∧ alignment ≤ declared - s.position
  · refine ⟨declared, le_rfl, fun h => absurd h (Nat.lt_irrefl _), ?_⟩
    intro b hb
    refine ⟨_, State.mem_tail.mpr ⟨htail, rfl⟩, ?_⟩
    rwa [Member.bytes_filler s.fillers missedOffset htail.1.le]
  · refine ⟨min s.position declared, Nat.min_le_right .., ?_, ?_⟩
    · omega
    · rintro b ⟨hstart, hstop⟩
      omega

/-- Every byte of a property is in a member, and so is every byte of the type from its start on,
except for less than the alignment at its end. -/
theorem properties_and_type_covered (h : reconstruct g alignment es start declared = .ok members) :
    (∀ e ∈ es, e.2.bytes ⊆ covered members) ∧ ∃ stop ≤ declared,
      (stop < declared → declared - stop < alignment) ∧ Set.Ico start stop ⊆ covered members := by
  obtain ⟨_, ms, s', hlaid, rfl⟩ := reconstruct_eq_ok_iff.mp h
  refine ⟨fun e he => (hlaid.covers_property he).trans covered_left, ?_⟩
  obtain ⟨stop, hle, hpadding, htail⟩ := exists_tail_covers s' alignment declared
  refine ⟨stop, hle, hpadding, ?_⟩
  rintro b ⟨hstart, hstop⟩
  by_cases hpassed : b < s'.position
  · exact covered_left (hlaid.covers_passed ⟨hstart, hpassed⟩)
  · exact covered_right (htail ⟨Nat.not_lt.mp hpassed, hstop⟩)

def tangled : List Entry :=
  [entry 1 "Slots" ⟨8, 4, 3, 0, .plain .int32⟩, entry 2 "Wide" ⟨2, 8, 1, 0, .plain .float⟩,
    entry 3 "Odd" ⟨4, 2, 0, 0, .unknown "FieldPathProperty"⟩]

theorem fits_tangled : ∀ e ∈ tangled, Fits .empty e.2 := by
  simp only [tangled, entry, List.forall_mem_cons]
  refine ⟨⟨by decide, fun _ => ?_⟩, ⟨by decide, fun _ => ?_⟩, ⟨by decide, fun _ => ?_⟩, by simp⟩
  all_goals
    simp only [Graph.info, Graph.infoWithin]
    decide

theorem tangled_covered : ∃ members, reconstruct .empty 8 tangled 0 12 = .ok members
    ∧ (∀ e ∈ tangled, e.2.bytes ⊆ covered members) ∧ ∃ stop ≤ 12,
      (stop < 12 → 12 - stop < 8) ∧ Set.Ico 0 stop ⊆ covered members := by
  obtain ⟨members, h⟩ := exists_reconstruct 8 0 12 fits_tangled
  exact ⟨members, h, properties_and_type_covered h⟩

end Layout

end TypeAtlas
