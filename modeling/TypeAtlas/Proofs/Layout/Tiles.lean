import TypeAtlas.Proofs.Layout.Collect
import Mathlib

namespace TypeAtlas

inductive Member.Tiles : Nat → List Member → Nat → Prop
  | nil (a : Nat) : Tiles a [] a
  | cons {m : Member} {ms : List Member} {b : Nat} :
      Tiles (m.offset + m.size) ms b → Tiles m.offset (m :: ms) b

namespace Member.Tiles

variable {ms ns : List Member} {a b c : Nat}

theorem singleton (m : Member) : Tiles m.offset [m] (m.offset + m.size) := .cons (.nil _)

theorem filler (number : Nat) (reason : String) (h : a ≤ b) :
    Tiles a [.filler number a (b - a) reason] b := by
  have hfiller := singleton (.filler number a (b - a) reason)
  simpa [Member.filler, Nat.add_sub_cancel' h] using hfiller

theorem append (h : Tiles a ms b) (h' : Tiles b ns c) : Tiles a (ms ++ ns) c := by
  induction h with
  | nil => exact h'
  | cons _ ih => exact .cons (ih h')

theorem offset_eq_of_head? (h : Tiles a ms b) : ∀ m ∈ ms.head?, m.offset = a := by
  cases h <;> simp

theorem isChain (h : Tiles a ms b) : ms.IsChain fun m n => n.offset = m.offset + m.size := by
  induction h with
  | nil => exact .nil
  | cons h ih => exact List.isChain_cons.mpr ⟨h.offset_eq_of_head?, ih⟩

theorem add_sum_eq (h : Tiles a ms b) : a + (ms.map (·.size)).sum = b := by
  induction h with
  | nil => rfl
  | cons _ ih => rw [← ih, List.map_cons, List.sum_cons, Nat.add_assoc]

end Member.Tiles

namespace Layout

open Member (Tiles)

variable {g : Graph} {s s' : State} {e : Entry} {es : List Entry} {own ms : List Member}
  {alignment start declared offset minOffset : Nat} {owner : ObjectId}

def HasRoom (g : Graph) (p : Property) : Prop :=
  (g.info p).isKnown → (g.info p).size ≤ p.elementSize

theorem gap_tiles (h : s.position ≤ offset) : Tiles s.position (s.gap offset).1 offset := by
  unfold State.gap
  split
  case isTrue => exact .filler s.fillers missedOffset h
  case isFalse hnot =>
    rw [Nat.le_antisymm h (Nat.not_lt.mp hnot)]
    exact .nil offset

theorem Made.tiles (h : Made g s e own s') (hroom : HasRoom g e.2) :
    Tiles e.2.offset own e.2.stop := by
  cases h with
  | whole hknown hwhole =>
    have hsize : (g.info e.2).size = e.2.elementSize := Nat.le_antisymm (hroom hknown) hwhole
    have hstop : e.2.offset + (s.member g e).size = e.2.stop :=
      congrArg (e.2.offset + · * e.2.count) hsize
    exact hstop ▸ .singleton (s.member g e)
  | short _ hshort =>
    have hmember := Tiles.singleton (s.member g e)
    have hremainder := Tiles.singleton (s.remainder g e)
    exact hmember.append (remainder_stop hshort ▸ hremainder)
  | unknown => exact .singleton (s.substitute e)

theorem Laid.tiles (h : Laid g s es ms s') (hbehind : ∀ e ∈ es, s.position ≤ e.2.offset)
    (happart : es.Pairwise fun a b => a.2.stop ≤ b.2.offset) (hroom : ∀ e ∈ es, HasRoom g e.2) :
    Tiles s.position ms s'.position := by
  induction h with
  | nil s => exact .nil s.position
  | @cons s s₁ s' e es own rest hmade _ ih =>
    obtain ⟨hfirst, happart⟩ := List.pairwise_cons.mp happart
    have hgap : Tiles s.position (s.gap e.2.offset).1 e.2.offset := gap_tiles (hbehind e (by simp))
    have hown : Tiles e.2.offset own s₁.position :=
      hmade.position_eq ▸ hmade.tiles (hroom e (by simp))
    have hrest : Tiles s₁.position rest s'.position := by
      apply ih _ happart fun e he => hroom e (List.mem_cons_of_mem _ he)
      exact fun e he => hmade.position_eq ▸ hfirst e he
    exact (hgap.append hown).append hrest

theorem exists_tail_tiles (alignment : Nat) (h : s.position ≤ declared) : ∃ stop ≤ declared,
    (stop < declared → declared - stop < alignment)
      ∧ Tiles s.position (s.tail alignment declared) stop := by
  unfold State.tail
  split
  case isTrue =>
    exact ⟨declared, le_rfl, fun h => absurd h (Nat.lt_irrefl _),
      .filler s.fillers missedOffset h⟩
  case isFalse hnot => exact ⟨s.position, h, by omega, .nil s.position⟩

variable {a b : Entry}

theorem stop_le_offset (ha : 0 < a.2.elementSize) (hb : 0 < b.2.elementSize)
    (hle : a.2.offset ≤ b.2.offset) (happart : Disjoint a.2.bytes b.2.bytes) :
    a.2.stop ≤ b.2.offset := by
  have hlength (e : Entry) (he : 0 < e.2.elementSize) : 0 < e.2.length :=
    Nat.mul_pos he e.2.count_pos
  have := hlength a ha
  have := hlength b hb
  have hdisjoint := Set.Ico_disjoint_Ico.mp happart
  simp only [Property.stop] at hdisjoint ⊢
  omega

theorem pairwise_stop_collect
    (happart : (collect g owner minOffset).Pairwise fun a b => Disjoint a.2.bytes b.2.bytes) :
    (collect g owner minOffset).Pairwise fun a b => a.2.stop ≤ b.2.offset := by
  apply ((pairwise_offset_collect g owner minOffset).and happart).imp_of_mem
  rintro a b ha hb ⟨hle, happart⟩
  obtain ⟨_, _, _, hpos, _⟩ := mem_collect.mp ha
  obtain ⟨_, _, _, hpos', _⟩ := mem_collect.mp hb
  exact stop_le_offset hpos hpos' hle happart

/-- Properties that keep apart inside a type, and whose types have room in them, are laid out
without gap and overlap, up to padding at the end. -/
theorem members_tile (hstart : start ≤ declared) (hword : declared < Word.bound)
    (happart : (collect g owner minOffset).Pairwise fun a b => Disjoint a.2.bytes b.2.bytes)
    (hinside : ∀ e ∈ collect g owner minOffset, e.2.bytes ⊆ Set.Ico start declared)
    (hroom : ∀ e ∈ collect g owner minOffset, HasRoom g e.2) :
    ∃ members, reconstruct g alignment (collect g owner minOffset) start declared = .ok members
      ∧ (∀ m ∈ members.head?, m.offset = start)
      ∧ (members.IsChain fun m n => n.offset = m.offset + m.size)
      ∧ start + (members.map (·.size)).sum ≤ declared
      ∧ (start + (members.map (·.size)).sum < declared →
        declared - (start + (members.map (·.size)).sum) < alignment) := by
  have hbounds (e : Entry) (he : e ∈ collect g owner minOffset) :
      start ≤ e.2.offset ∧ e.2.stop ≤ declared := by
    obtain ⟨_, _, _, hpos, _⟩ := mem_collect.mp he
    have hlt : e.2.offset < e.2.stop :=
      Nat.lt_add_of_pos_right (Nat.mul_pos hpos e.2.count_pos)
    exact (Set.Ico_subset_Ico_iff hlt).mp (hinside e he)
  have hfits (e : Entry) (he : e ∈ collect g owner minOffset) : Fits g e.2 := by
    have hstop : e.2.stop < Word.bound := Nat.lt_of_le_of_lt (hbounds e he).2 hword
    refine ⟨hstop, fun hknown => Nat.lt_of_le_of_lt ?_ hstop⟩
    exact (Nat.mul_le_mul_right _ (hroom e he hknown)).trans (Nat.le_add_left ..)
  obtain ⟨members, h⟩ := exists_reconstruct alignment start declared hfits
  obtain ⟨_, ms, s', hlaid, rfl⟩ := reconstruct_eq_ok_iff.mp h
  have htiles : Tiles start ms s'.position :=
    hlaid.tiles (fun e he => (hbounds e he).1) (pairwise_stop_collect happart) hroom
  obtain ⟨stop, hle, hpadding, htail⟩ := exists_tail_tiles alignment
    (hlaid.position_le hstart fun e he => (hbounds e he).2)
  have hall := htiles.append htail
  refine ⟨_, h, hall.offset_eq_of_head?, hall.isChain, ?_⟩
  rw [hall.add_sum_eq]
  exact ⟨hle, hpadding⟩

def wide : Entry := entry 2 "Wide" ⟨4, 8, 1, 0, .plain .float⟩

def slots : Entry := entry 3 "Slots" ⟨16, 2, 3, 0, .plain .int16⟩

def odd : Entry := entry 4 "Odd" ⟨22, 2, 0, 0, .unknown "FieldPathProperty"⟩

def hollow : Entry := entry 5 "Hollow" ⟨24, 1, 1, 0, .struct 6⟩

def mixed : Graph where
  objects := [
    ⟨1, 1, "Mixed", none, "Mixed", none, none, 0, .scriptStruct ⟨none, 30, [4, 3, 5, 2]⟩⟩,
    wide.1, slots.1, odd.1, hollow.1,
    ⟨6, 6, "Empty", none, "Empty", none, none, 0, .scriptStruct ⟨none, 0, []⟩⟩]
  distinct := by decide

theorem collect_mixed : collect mixed 1 0 = [wide, slots, odd, hollow] := by cbv

theorem mixed_tiles : ∃ members, reconstruct mixed 8 (collect mixed 1 0) 2 30 = .ok members
    ∧ (∀ m ∈ members.head?, m.offset = 2)
    ∧ (members.IsChain fun m n => n.offset = m.offset + m.size)
    ∧ 2 + (members.map (·.size)).sum ≤ 30
    ∧ (2 + (members.map (·.size)).sum < 30 → 30 - (2 + (members.map (·.size)).sum) < 8) := by
  apply members_tile (by decide) (by decide)
  case happart =>
    rw [collect_mixed]
    simp [wide, slots, odd, hollow, entry, Property.bytes, Property.stop, Property.length,
      Property.count, Set.Ico_disjoint_Ico]
  case hinside =>
    rw [collect_mixed]
    intro e he
    have hbounds : 2 ≤ e.2.offset ∧ e.2.stop ≤ 30 := by
      revert e
      decide
    exact Set.Ico_subset_Ico hbounds.1 hbounds.2
  case hroom =>
    rw [collect_mixed]
    simp only [wide, slots, odd, hollow, entry, List.forall_mem_cons]
    refine ⟨fun _ => ?_, fun _ => ?_, fun _ => ?_, fun _ => ?_, by simp⟩
    all_goals
      simp only [Graph.info, Graph.infoWithin]
      decide

end Layout

end TypeAtlas
