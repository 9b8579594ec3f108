import TypeAtlas.Proofs.Layout.Tiles

namespace TypeAtlas

def Member.Fills (m : Member) : Prop := m.comment ≠ ""

/-- The bytes of a property for which a filler stands. -/
def Graph.openBytes (g : Graph) (p : Property) : Set Nat :=
  if (g.info p).isKnown then Set.Ico (p.offset + (g.info p).size * p.count) p.stop else p.bytes

namespace Layout

variable {g : Graph} {s s' : State} {e : Entry} {es : List Entry} {f f' : Member}
  {own ms members : List Member} {alignment start declared : Nat}

theorem openBytes_subset (g : Graph) (p : Property) : g.openBytes p ⊆ p.bytes := by
  unfold Graph.openBytes
  split
  · exact Set.Ico_subset_Ico_left (Nat.le_add_right ..)
  · exact subset_rfl

theorem openBytes_eq_empty {p : Property} (hknown : (g.info p).isKnown)
    (hwhole : p.elementSize ≤ (g.info p).size) : g.openBytes p = ∅ := by
  rw [Graph.openBytes, if_pos hknown, Set.Ico_eq_empty_iff, Nat.not_lt]
  exact Nat.add_le_add_left (Nat.mul_le_mul_right _ hwhole) _

theorem lt_length_unknownProperty (o : Object) :
    missedOffset.length < (unknownProperty o).length := by
  have hsum : (unknownProperty o).length = "UNKNOWN PROPERTY: ".length + o.fullName.length :=
    String.length_append ..
  have hlength : missedOffset.length < "UNKNOWN PROPERTY: ".length := by decide
  omega

theorem unknownProperty_ne (o : Object) : unknownProperty o ≠ missedOffset := fun h =>
  Nat.ne_of_gt (lt_length_unknownProperty o) (congrArg String.length h)

theorem Made.bytes_of_fills (h : Made g s e own s') (hf : f ∈ own) (hfills : f.Fills) :
    f.bytes = g.openBytes e.2 ∧ f.comment ≠ missedOffset := by
  cases h with
  | whole =>
    obtain rfl := List.mem_singleton.mp hf
    exact absurd rfl hfills
  | short hknown hshort =>
    cases List.mem_cons.mp hf with
    | inl heq => exact absurd (heq ▸ rfl) hfills
    | inr hf =>
      obtain rfl := List.mem_singleton.mp hf
      refine ⟨?_, by simp [State.remainder, Member.filler, wrongSize, missedOffset]⟩
      rw [Graph.openBytes, if_pos hknown, ← remainder_stop hshort]
      rfl
  | unknown hknown =>
    obtain rfl := List.mem_singleton.mp hf
    refine ⟨?_, unknownProperty_ne e.1⟩
    rw [Graph.openBytes, if_neg (by simp [hknown])]
    rfl

theorem Made.pairwise_not_fills (h : Made g s e own s') :
    own.Pairwise fun f f' => ¬ (f.Fills ∧ f'.Fills) := by
  cases h with
  | whole => exact List.pairwise_singleton ..
  | short => exact List.pairwise_pair.mpr fun ⟨hfills, _⟩ => hfills rfl
  | unknown => exact List.pairwise_singleton ..

theorem gap_fills {offset : Nat} (hf : f ∈ (s.gap offset).1) :
    f.bytes = Set.Ico s.position offset ∧ f.comment = missedOffset := by
  obtain ⟨hgap, rfl⟩ := State.mem_gap.mp hf
  exact ⟨Member.bytes_filler s.fillers missedOffset hgap.le, rfl⟩

theorem tail_fills (hf : f ∈ s.tail alignment declared) :
    f.bytes = Set.Ico s.position declared ∧ f.comment = missedOffset := by
  obtain ⟨⟨htail, _⟩, rfl⟩ := State.mem_tail.mp hf
  exact ⟨Member.bytes_filler s.fillers missedOffset htail.le, rfl⟩

namespace Laid

theorem missed_or_open (h : Laid g s es ms s') (hf : f ∈ ms) (hfills : f.Fills) :
    f.comment = missedOffset
      ∨ f.comment ≠ missedOffset ∧ ∃ e ∈ es, f.bytes = g.openBytes e.2 := by
  induction h with
  | nil => cases hf
  | cons hmade _ ih =>
    simp only [List.mem_append, or_assoc] at hf
    obtain hf | hf | hf := hf
    · exact .inl (gap_fills hf).2
    · obtain ⟨hbytes, hne⟩ := hmade.bytes_of_fills hf hfills
      exact .inr ⟨hne, _, List.mem_cons_self, hbytes⟩
    · refine (ih hf).imp_right fun ⟨hne, e, he, hbytes⟩ => ?_
      exact ⟨hne, e, List.mem_cons_of_mem _ he, hbytes⟩

theorem stop_le_position (h : Laid g s es ms s')
    (hstops : es.Pairwise fun a b => a.2.stop ≤ b.2.stop) (he : e ∈ es) :
    e.2.stop ≤ s'.position := by
  induction h with
  | nil => cases he
  | cons hmade hlaid ih =>
    obtain ⟨hfirst, hstops⟩ := List.pairwise_cons.mp hstops
    cases List.mem_cons.mp he with
    | inl heq => exact heq ▸ hlaid.le_position hmade.position_eq.ge hfirst
    | inr he => exact ih hstops he

theorem position_le_of_missed (h : Laid g s es ms s')
    (hstops : es.Pairwise fun a b => a.2.stop ≤ b.2.stop) (hs : ∀ e ∈ es, s.position ≤ e.2.stop)
    (hf : f ∈ ms) (hfills : f.Fills) (hmissed : f.comment = missedOffset) :
    f.bytes ⊆ Set.Ici s.position := by
  induction h with
  | nil => cases hf
  | cons hmade _ ih =>
    obtain ⟨hfirst, hstops⟩ := List.pairwise_cons.mp hstops
    simp only [List.mem_append, or_assoc] at hf
    obtain hf | hf | hf := hf
    · exact (gap_fills hf).1 ▸ Set.Ico_subset_Ici_self
    · exact absurd hmissed (hmade.bytes_of_fills hf hfills).2
    · have hrest := ih hstops (fun e he => hmade.position_eq ▸ hfirst e he) hf
      exact hrest.trans (Set.Ici_subset_Ici.mpr (hmade.position_eq ▸ hs _ (by simp)))

theorem disjoint_of_missed (h : Laid g s es ms s')
    (hoffsets : es.Pairwise fun a b => a.2.offset ≤ b.2.offset)
    (hstops : es.Pairwise fun a b => a.2.stop ≤ b.2.stop) (hf : f ∈ ms) (hfills : f.Fills)
    (hmissed : f.comment = missedOffset) (he : e ∈ es) : Disjoint f.bytes e.2.bytes := by
  induction h with
  | nil => cases hf
  | @cons s s₁ s' first es own rest hmade hlaid ih =>
    obtain ⟨hoffset, hoffsets⟩ := List.pairwise_cons.mp hoffsets
    obtain ⟨hstop, hstops⟩ := List.pairwise_cons.mp hstops
    simp only [List.mem_append, or_assoc] at hf
    obtain hf | hf | hf := hf
    · have hle : first.2.offset ≤ e.2.offset := by
        cases List.mem_cons.mp he with
        | inl heq => exact heq ▸ le_rfl
        | inr he => exact hoffset e he
      rw [(gap_fills hf).1]
      exact Set.disjoint_left.mpr fun b hb hb' => by
        have := hb.2
        have := hb'.1
        omega
    · exact absurd hmissed (hmade.bytes_of_fills hf hfills).2
    · cases List.mem_cons.mp he with
      | inl heq =>
        have hbehind := hlaid.position_le_of_missed hstops
          (fun e he => hmade.position_eq ▸ hstop e he) hf hfills hmissed
        exact Set.disjoint_left.mpr fun b hb hb' => by
          have hle : s₁.position ≤ b := hbehind hb
          have hlt : b < first.2.stop := heq ▸ hb'.2
          have := hmade.position_eq
          omega
      | inr he => exact ih hoffsets hstops hf he

theorem lt_position_of_fills (h : Laid g s es ms s')
    (hstops : es.Pairwise fun a b => a.2.stop ≤ b.2.stop) (hf : f ∈ ms) (hfills : f.Fills) :
    f.bytes ⊆ Set.Iio s'.position := by
  induction h with
  | nil => cases hf
  | @cons s s₁ s' first es own rest hmade hlaid ih =>
    have hle : first.2.stop ≤ s'.position :=
      (Laid.cons hmade hlaid).stop_le_position hstops List.mem_cons_self
    simp only [List.mem_append, or_assoc] at hf
    obtain hf | hf | hf := hf
    · rw [(gap_fills hf).1]
      exact fun b hb => (hb.2.trans_le first.2.offset_le_stop).trans_le hle
    · rw [(hmade.bytes_of_fills hf hfills).1]
      exact fun b hb => (openBytes_subset g first.2 hb).2.trans_le hle
    · exact ih hstops.tail hf

theorem pairwise_disjoint_fills (h : Laid g s es ms s')
    (hoffsets : es.Pairwise fun a b => a.2.offset ≤ b.2.offset)
    (hstops : es.Pairwise fun a b => a.2.stop ≤ b.2.stop)
    (hopen : es.Pairwise fun a b => Disjoint (g.openBytes a.2) (g.openBytes b.2)) :
    ms.Pairwise fun f f' => f.Fills → f'.Fills → Disjoint f.bytes f'.bytes := by
  induction h with
  | nil => exact .nil
  | @cons s s₁ s' first es own rest hmade hlaid ih =>
    have hclear (f : Member) (hf : f ∈ (s.gap first.2.offset).1 ++ own ++ rest) (hfills : f.Fills)
        (hmissed : f.comment = missedOffset) (e : Entry) (he : e ∈ first :: es) :
        Disjoint f.bytes (g.openBytes e.2) :=
      ((Laid.cons hmade hlaid).disjoint_of_missed hoffsets hstops hf hfills hmissed he).mono_right
        (openBytes_subset g e.2)
    have hown (f : Member) (hf : f ∈ own) (f' : Member) (hf' : f' ∈ rest) (hfills : f.Fills)
        (hfills' : f'.Fills) : Disjoint f.bytes f'.bytes := by
      rw [(hmade.bytes_of_fills hf hfills).1]
      obtain hmissed | ⟨_, e, he, hbytes⟩ := hlaid.missed_or_open hf' hfills'
      · exact (hclear f' (List.mem_append_right _ hf') hfills' hmissed first (by simp)).symm
      · exact hbytes ▸ List.rel_of_pairwise_cons hopen he
    have hgap (f : Member) (hf : f ∈ (s.gap first.2.offset).1) (f' : Member)
        (hf' : f' ∈ own ++ rest) (hfills : f.Fills) (hfills' : f'.Fills) :
        Disjoint f.bytes f'.bytes := by
      have hf₁ : f ∈ (s.gap first.2.offset).1 ++ own ++ rest := by simp [hf]
      cases List.mem_append.mp hf' with
      | inl hf' =>
        rw [(hmade.bytes_of_fills hf' hfills').1]
        exact hclear f hf₁ hfills (gap_fills hf).2 first (by simp)
      | inr hf' =>
        obtain hmissed | ⟨_, e, he, hbytes⟩ := hlaid.missed_or_open hf' hfills'
        · have hreach (e : Entry) (he : e ∈ es) : s₁.position ≤ e.2.stop :=
            hmade.position_eq ▸ List.rel_of_pairwise_cons hstops he
          have hbehind := hlaid.position_le_of_missed hstops.tail hreach hf' hfills' hmissed
          rw [(gap_fills hf).1]
          exact Set.disjoint_left.mpr fun b hb hb' => by
            have hle : s₁.position ≤ b := hbehind hb'
            have := hmade.position_eq
            have := first.2.offset_le_stop
            have := hb.2
            omega
        · exact hbytes ▸ hclear f hf₁ hfills (gap_fills hf).2 e (List.mem_cons_of_mem _ he)
    rw [List.append_assoc]
    refine List.pairwise_append.mpr ⟨?_, List.pairwise_append.mpr ⟨?_, ?_, hown⟩, hgap⟩
    · unfold State.gap
      split <;> simp
    · exact hmade.pairwise_not_fills.imp fun hnot hfills hfills' => absurd ⟨hfills, hfills'⟩ hnot
    · exact ih hoffsets.tail hstops.tail hopen.tail

end Laid

/-- Where no property ends before an earlier one, and none leaves open what another one leaves open,
no two fillers overlap, and no filler of a gap overlaps a property. -/
theorem fillers_apart (hsorted : es.Pairwise (comesBefore · ·))
    (hstops : es.Pairwise fun a b => a.2.stop ≤ b.2.stop)
    (hopen : es.Pairwise fun a b => Disjoint (g.openBytes a.2) (g.openBytes b.2))
    (h : reconstruct g alignment es start declared = .ok members) :
    (members.Pairwise fun f f' => f.Fills → f'.Fills → Disjoint f.bytes f'.bytes)
      ∧ ∀ f ∈ members, f.comment = missedOffset → ∀ e ∈ es, Disjoint f.bytes e.2.bytes := by
  have hoffsets := pairwise_offset_of_comesBefore hsorted
  obtain ⟨_, ms, s', hlaid, rfl⟩ := reconstruct_eq_ok_iff.mp h
  constructor
  · refine List.pairwise_append.mpr
      ⟨hlaid.pairwise_disjoint_fills hoffsets hstops hopen, ?_, fun f hf f' hf' hfills _ => ?_⟩
    · unfold State.tail
      split <;> simp
    · rw [(tail_fills hf').1]
      have hbefore := hlaid.lt_position_of_fills hstops hf hfills
      exact Set.disjoint_left.mpr fun b hb hb' => absurd hb'.1 (hbefore hb).not_ge
  · intro f hf hmissed e he
    have hfills : f.Fills := by simp [Member.Fills, hmissed, missedOffset]
    cases List.mem_append.mp hf with
    | inl hf => exact hlaid.disjoint_of_missed hoffsets hstops hf hfills hmissed he
    | inr hf =>
      rw [(tail_fills hf).1]
      have hle := hlaid.stop_le_position hstops he
      exact Set.disjoint_left.mpr fun b hb hb' => absurd (hb'.2.trans_le hle) hb.1.not_gt

def flags : List Entry :=
  [entry 1 "bFirst" ⟨0, 1, 1, 0, .bool 1⟩, entry 2 "bSecond" ⟨0, 1, 1, 0, .bool 2⟩,
    entry 3 "Wide" ⟨4, 8, 1, 0, .plain .float⟩]

theorem flags_apart : ∃ members, reconstruct .empty 8 flags 0 24 = .ok members
    ∧ (members.Pairwise fun f f' => f.Fills → f'.Fills → Disjoint f.bytes f'.bytes)
    ∧ ∀ f ∈ members, f.comment = missedOffset → ∀ e ∈ flags, Disjoint f.bytes e.2.bytes := by
  have hfits : ∀ e ∈ flags, Fits .empty e.2 := by
    simp only [flags, entry, List.forall_mem_cons]
    refine ⟨⟨by decide, fun _ => ?_⟩, ⟨by decide, fun _ => ?_⟩, ⟨by decide, fun _ => ?_⟩, by simp⟩
    all_goals
      simp only [Graph.info, Graph.infoWithin]
      decide
  have hnone (mask : Nat) : Graph.empty.openBytes ⟨0, 1, 1, 0, .bool mask⟩ = ∅ := by
    apply openBytes_eq_empty
    all_goals
      simp only [Graph.info, Graph.infoWithin]
      rfl
  have hopen : flags.Pairwise fun a b =>
      Disjoint (Graph.empty.openBytes a.2) (Graph.empty.openBytes b.2) := by
    simp [flags, entry, hnone]
  obtain ⟨members, h⟩ := exists_reconstruct 8 0 24 hfits
  exact ⟨members, h, fillers_apart (by decide) (by decide) hopen h⟩

def word : List Entry :=
  [entry 1 "bFirst" ⟨0, 4, 1, 0, .bool 1⟩, entry 2 "bSecond" ⟨0, 4, 1, 0, .bool 2⟩]

def nested : List Entry :=
  [entry 1 "Outer" ⟨0, 16, 1, 0, .plain .string⟩, entry 2 "Inner" ⟨4, 4, 1, 0, .plain .int32⟩]

theorem reconstruct_word : reconstruct .empty 8 word 0 4 = .ok
    [⟨"bFirst : 1", "unsigned char", 0, 1, "", ""⟩, .filler 0 1 3 wrongSize,
      ⟨"bSecond : 1", "unsigned char", 0, 1, "", ""⟩, .filler 1 1 3 wrongSize] := by
  simp only [reconstruct, State.steps, State.step, word, entry, Graph.info, Graph.infoWithin]
  decide +kernel

theorem reconstruct_nested : reconstruct .empty 8 nested 0 16 = .ok
    [⟨"Outer", "struct FString", 0, 16, "", ""⟩, ⟨"Inner", "int", 4, 4, "", ""⟩,
      .filler 0 8 8 missedOffset] := by
  simp only [reconstruct, State.steps, State.step, nested, entry, Graph.info, Graph.infoWithin]
  decide +kernel

theorem fillers_overlap :
    (word.Pairwise (comesBefore · ·) ∧ ∃ members, reconstruct .empty 8 word 0 4 = .ok members
      ∧ ¬ members.Pairwise fun f f' => f.Fills → f'.Fills → Disjoint f.bytes f'.bytes)
    ∧ nested.Pairwise (comesBefore · ·) ∧ ∃ members, reconstruct .empty 8 nested 0 16 = .ok members
      ∧ ∃ f ∈ members, f.comment = missedOffset ∧ ∃ e ∈ nested, ¬ Disjoint f.bytes e.2.bytes := by
  refine ⟨⟨by decide, _, reconstruct_word, fun h => ?_⟩, by decide, _, reconstruct_nested, ?_⟩
  · have hrest := List.rel_of_pairwise_cons h.tail (List.mem_cons_of_mem _ List.mem_cons_self)
    have hapart := hrest (by simp [Member.Fills, Member.filler, wrongSize])
      (by simp [Member.Fills, Member.filler, wrongSize])
    exact absurd hapart
      (Set.not_disjoint_iff.mpr ⟨1, ⟨by decide, by decide⟩, ⟨by decide, by decide⟩⟩)
  · refine ⟨.filler 0 8 8 missedOffset, by simp, rfl, nested.head (by decide), by decide, ?_⟩
    exact Set.not_disjoint_iff.mpr ⟨8, ⟨by decide, by decide⟩, ⟨by decide, by decide⟩⟩

end Layout

end TypeAtlas
