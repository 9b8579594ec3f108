import TypeAtlas.Proofs.Memory.Overlay
import TypeAtlas.Proofs.Memory.Captured

namespace TypeAtlas

def Block.range (b : Block) : Range := ⟨b.start, b.bytes.length⟩

namespace Space

variable {s t : Space} {b : Block} {blocks blocks' : List Block} {m : Mapping} {i n : Nat}

def filled (blocks : List Block) : List Block := blocks.filter (!·.bytes.isEmpty)

def Apart (blocks : List Block) : Prop :=
  (filled blocks).Pairwise fun b c => b.range.overlaps c.range = false

def HasRoom (s : Space) (b : Block) : Prop :=
  ∀ m ∈ s.mappings, m.region.range.overlaps b.range = false

theorem mem_filled : b ∈ filled blocks ↔ b ∈ blocks ∧ b.bytes ≠ [] := by
  simp [filled]

theorem filled_cons_of_empty (h : b.bytes = []) : filled (b :: blocks) = filled blocks := by
  simp [filled, h]

theorem filled_cons_of_ne (h : b.bytes ≠ []) : filled (b :: blocks) = b :: filled blocks := by
  simp [filled, h]

theorem Apart.perm (h : Apart blocks) (hperm : blocks.Perm blocks') : Apart blocks' := by
  apply ((hperm.filter _).pairwise_iff _).mp h
  intro b c hapart
  rwa [Range.overlaps_comm]

theorem addBlock_of_empty (h : b.bytes = []) : s.addBlock b = .ok s := by
  apply insert_eq_ok_iff.mpr
  exact .inl ⟨by simp [h], rfl⟩

theorem addBlock_of_room (hne : b.bytes ≠ []) (hroom : s.HasRoom b) :
    s.addBlock b = .ok ⟨place b.mapping s.mappings⟩ := by
  apply insert_eq_ok_iff.mpr
  exact .inr ⟨List.length_pos_iff.mpr hne, hroom, rfl⟩

theorem hasRoom_of_addBlock (hne : b.bytes ≠ []) (h : s.addBlock b = .ok t) : s.HasRoom b := by
  rcases insert_eq_ok_iff.mp h with ⟨hsize, -⟩ | ⟨-, hfree, -⟩
  · exact absurd (List.length_eq_zero_iff.mp hsize) hne
  · exact hfree

theorem hasRoom_place (c : Block) : HasRoom ⟨place b.mapping s.mappings⟩ c ↔
    b.range.overlaps c.range = false ∧ s.HasRoom c := by
  simp only [HasRoom, mem_place, forall_eq_or_imp]
  rfl

theorem exists_foldlM_addBlock_iff : (∃ t, blocks.foldlM addBlock s = .ok t) ↔
    Apart blocks ∧ ∀ b ∈ filled blocks, s.HasRoom b := by
  induction blocks generalizing s with
  | nil => exact ⟨fun _ => ⟨.nil, by simp [filled]⟩, fun _ => ⟨s, rfl⟩⟩
  | cons b blocks ih =>
    rw [List.foldlM_cons]
    by_cases hempty : b.bytes = []
    · rw [addBlock_of_empty hempty, Apart, filled_cons_of_empty hempty]
      exact ih
    · rw [Apart, filled_cons_of_ne hempty, List.pairwise_cons, List.forall_mem_cons]
      by_cases hroom : s.HasRoom b
      · rw [addBlock_of_room hempty hroom]
        apply ih.trans
        -- the others find room beside this block if they are apart from it and found room before
        simp only [hasRoom_place, forall_and]
        constructor
        · intro ⟨hapart, hfirst, hrest⟩
          exact ⟨⟨hfirst, hapart⟩, hroom, hrest⟩
        · intro ⟨⟨hfirst, hapart⟩, _, hrest⟩
          exact ⟨hapart, hfirst, hrest⟩
      · constructor
        · rintro ⟨t, ht⟩
          cases hadd : s.addBlock b with
          | error e =>
            rw [hadd] at ht
            cases ht
          | ok u => exact absurd (hasRoom_of_addBlock hempty hadd) hroom
        · exact fun h => absurd h.2.1 hroom

theorem perm_of_foldlM_addBlock (h : blocks.foldlM addBlock s = .ok t) :
    t.mappings.Perm ((filled blocks).map Block.mapping ++ s.mappings) := by
  induction blocks generalizing s with
  | nil =>
    cases h
    exact .refl _
  | cons b blocks ih =>
    rw [List.foldlM_cons] at h
    by_cases hempty : b.bytes = []
    · rw [addBlock_of_empty hempty] at h
      rw [filled_cons_of_empty hempty]
      exact ih h
    · cases hadd : s.addBlock b with
      | error e =>
        rw [hadd] at h
        cases h
      | ok u =>
        rw [addBlock_of_room hempty (hasRoom_of_addBlock hempty hadd)] at h
        rw [filled_cons_of_ne hempty]
        calc t.mappings
          _ |>.Perm ((filled blocks).map Block.mapping ++ place b.mapping s.mappings) := ih h
          _ |>.Perm ((filled blocks).map Block.mapping ++ b.mapping :: s.mappings) :=
            (place_perm b.mapping s.mappings).append_left _
          _ |>.Perm (b.mapping :: (filled blocks).map Block.mapping ++ s.mappings) :=
            List.perm_middle

theorem exists_ofBlocks_iff : (∃ s, ofBlocks blocks = .ok s) ↔ Apart blocks := by
  apply exists_foldlM_addBlock_iff.trans
  simp [HasRoom, empty]

theorem mem_ofBlocks (h : ofBlocks blocks = .ok s) :
    m ∈ s.mappings ↔ ∃ b ∈ blocks, b.bytes ≠ [] ∧ b.mapping = m := by
  rw [(perm_of_foldlM_addBlock h).mem_iff]
  simp [mem_filled, empty, and_assoc]

structure AnswersAlike (s t : Space) : Prop where
  read : s.read = t.read
  word : s.word = t.word
  protectionAt? : s.protectionAt? = t.protectionAt?
  readableLength : s.readableLength = t.readableLength

theorem AnswersAlike.of_find? (h : s.find? = t.find?) : AnswersAlike s t := by
  have hread : s.read = t.read := by
    funext a length
    exact read_congr (congrFun h a) length
  constructor
  case read => exact hread
  case word =>
    funext a
    rw [Space.word, Space.word, hread]
  case protectionAt? =>
    funext a
    rw [Space.protectionAt?, Space.protectionAt?, h]
  case readableLength =>
    funext a
    rw [Space.readableLength, Space.readableLength, h]

theorem Ordered.find?_congr (hs : s.Ordered) (ht : t.Ordered)
    (h : ∀ m, m ∈ s.mappings ↔ m ∈ t.mappings) : s.find? = t.find? := by
  funext a
  ext m
  rw [hs.find?_eq_some_iff, ht.find?_eq_some_iff, h]

theorem answersAlike_of_perm (hperm : blocks.Perm blocks') (hs : ofBlocks blocks = .ok s)
    (ht : ofBlocks blocks' = .ok t) : AnswersAlike s t := by
  have hordered : s.Ordered := IsCaptured.ordered ⟨blocks, hs⟩
  have hordered' : t.Ordered := IsCaptured.ordered ⟨blocks', ht⟩
  apply AnswersAlike.of_find?
  apply hordered.find?_congr hordered'
  intro m
  rw [mem_ofBlocks hs, mem_ofBlocks ht]
  simp only [hperm.mem_iff]

theorem window_of_le {bytes : Bytes} (h : i + n ≤ bytes.length) :
    window bytes i n = (bytes.drop i).take n := by
  have hlength : ((bytes.drop i).take n).length = n := by
    rw [List.length_take, List.length_drop]
    omega
  simp only [window, hlength, Nat.sub_self, List.replicate_zero, List.append_nil]

theorem read_of_mem (h : ofBlocks blocks = .ok s) (hb : b ∈ blocks)
    (hread : b.protection.canRead = true) (hfits : b.start + b.bytes.length < Word.bound)
    (hi : i < b.bytes.length) (hn : i + n ≤ b.bytes.length) :
    s.read (b.start + i) n = .ok ((b.bytes.drop i).take n) := by
  have hs : s.Ordered := IsCaptured.ordered ⟨blocks, h⟩
  have hne : b.bytes ≠ [] := List.length_pos_iff.mp (Nat.zero_lt_of_lt hi)
  have hmem : b.mapping ∈ s.mappings := (mem_ofBlocks h).mpr ⟨b, hb, hne, rfl⟩
  have hstop : b.range.stop = b.start + b.bytes.length :=
    Nat.min_eq_left (Nat.le_sub_one_of_lt hfits)
  have hcontains : b.range.contains (b.start + i) = true := by
    rw [Range.contains_iff, hstop]
    exact ⟨Nat.le_add_right .., Nat.add_lt_add_left hi _⟩
  have hremaining : b.range.remaining (b.start + i) = b.bytes.length - i := by
    rw [Range.remaining, if_pos hcontains, hstop, Nat.add_sub_add_left]
  have hroom : ¬ b.mapping.region.range.remaining (b.start + i) < n := by
    change ¬ b.range.remaining (b.start + i) < n
    omega
  have hbyte (k : Nat) : b.mapping.byteAt (b.start + i + k) = b.bytes.getD (i + k) 0 := by
    change b.bytes.getD (b.start + i + k - b.start) 0 = _
    rw [Nat.add_assoc, Nat.add_sub_cancel_left]
  have hreadable : s.Readable (b.start + i) b.mapping := ⟨hmem, hcontains, hread⟩
  rw [hreadable.read_eq hs rfl, if_neg hroom, ← window_of_le hn, window_eq]
  simp only [hbyte]

/-- Blocks make a memory exactly if no two that hold anything overlap.  In any other order they make
one that answers alike, and what lies in a readable block that ends in the range of words is read
back from its address. -/
theorem ofBlocks_in_any_order (blocks : List Block) :
    ((∃ s, ofBlocks blocks = .ok s) ↔ Apart blocks)
    ∧ ∀ s, ofBlocks blocks = .ok s →
      (∀ blocks', blocks.Perm blocks' → ∃ t, ofBlocks blocks' = .ok t ∧ AnswersAlike s t)
      ∧ ∀ b ∈ blocks, b.protection.canRead = true → b.start + b.bytes.length < Word.bound →
        ∀ i n, i < b.bytes.length → i + n ≤ b.bytes.length →
          s.read (b.start + i) n = .ok ((b.bytes.drop i).take n) := by
  refine ⟨exists_ofBlocks_iff, fun s hs => ⟨fun blocks' hperm => ?_, ?_⟩⟩
  · have hapart : Apart blocks := exists_ofBlocks_iff.mp ⟨s, hs⟩
    obtain ⟨t, ht⟩ := exists_ofBlocks_iff.mpr (hapart.perm hperm)
    exact ⟨t, ht, answersAlike_of_perm hperm hs ht⟩
  · intro b hb hread hfits i n hi hn
    exact read_of_mem hs hb hread hfits hi hn

def scattered : List Block :=
  [⟨0x4000, .readExecute, "code", [0xC3, 0x90]⟩, ⟨Word.top, .read, "last", [9]⟩,
    ⟨0x1000, .readWrite, "data", [1, 2, 3, 4]⟩, ⟨0x4001, .read, "mark", []⟩,
    ⟨0x1004, .none, "guard", [5]⟩]

theorem ofBlocks_in_any_order_scattered : Apart scattered ∧ ∃ s t,
    ofBlocks scattered = .ok s ∧ ofBlocks scattered.reverse = .ok t ∧ AnswersAlike s t
    ∧ s.read 0x1001 2 = .ok [2, 3] ∧ t.read 0x1001 2 = .ok [2, 3] := by
  have hapart : Apart scattered := by
    unfold Apart
    decide +kernel
  obtain ⟨s, hs⟩ := (ofBlocks_in_any_order scattered).1.mpr hapart
  obtain ⟨hperm, hread⟩ := (ofBlocks_in_any_order scattered).2 s hs
  obtain ⟨t, ht, halike⟩ := hperm scattered.reverse (List.reverse_perm _).symm
  have hdata := hread ⟨0x1000, .readWrite, "data", [1, 2, 3, 4]⟩ (by simp [scattered]) rfl
    (by decide) 1 2 (by decide) (by decide)
  exact ⟨hapart, s, t, hs, ht, halike, hdata, halike.read ▸ hdata⟩

end Space

end TypeAtlas
