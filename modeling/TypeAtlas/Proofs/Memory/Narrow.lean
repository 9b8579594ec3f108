import TypeAtlas.Memory.Image
import TypeAtlas.Proofs.Memory.Words

namespace TypeAtlas

def Outcome.Gives {ε α : Type} (x : Outcome ε α) (P : α → Prop) : Prop := ∀ a, x = .ok a → P a

namespace Outcome.Gives

variable {ε α β : Type} {x : Outcome ε α} {f : α → Outcome ε β} {P : α → Prop} {Q : β → Prop}

theorem ok {a : α} (h : P a) : Gives (.ok a : Outcome ε α) P := by
  rintro _ ⟨⟩
  exact h

theorem error (e : Failure ε) : Gives (.error e : Outcome ε α) P := by
  rintro _ ⟨⟩

theorem bind (hx : x.Gives P) (hf : ∀ a, P a → (f a).Gives Q) : (x >>= f).Gives Q := by
  cases x with
  | error e => exact .error e
  | ok a => exact hf a (hx a rfl)

theorem behind (hf : ∀ a, (f a).Gives Q) : (x >>= f).Gives Q :=
  .bind (P := fun _ => True) (fun _ _ => trivial) fun a _ => hf a

theorem mapM {as : List α} (hf : ∀ a ∈ as, (f a).Gives Q) :
    (as.mapM f).Gives fun bs => ∀ b ∈ bs, Q b := by
  induction as with
  | nil => exact .ok (by simp)
  | cons a as ih =>
    rw [List.mapM_cons]
    refine .bind (hf a (by simp)) fun b hb => ?_
    refine .bind (ih fun a ha => hf a (List.mem_cons_of_mem _ ha)) fun bs hbs => ?_
    exact .ok (List.forall_mem_cons.mpr ⟨hb, hbs⟩)

end Outcome.Gives

/-- A segment begins in the first four gibibytes of a file and takes less than so many in memory. -/
def Segment.IsNarrow (g : Segment) : Prop := g.fileOffset < 2 ^ 32 ∧ g.memorySize < 2 ^ 32

namespace Image

open Outcome (Gives)

theorem Binary.gives_number (b : Binary) (pos width : Nat) :
    (b.number pos width).Gives (· < 256 ^ width) := by
  have hpart : (b.part pos width).Gives (·.length = width) := by
    unfold part
    split
    case isTrue hle =>
      have hlength : (b.bytes.drop pos).length = b.length - pos := List.length_drop
      refine .ok ?_
      rw [List.length_take, hlength]
      omega
    case isFalse => exact .error _
  refine .bind hpart fun bytes hlength => ?_
  split
  · exact .ok (hlength ▸ Memory.littleEndian_lt bytes)
  · refine .ok ?_
    have hlt := Memory.littleEndian_lt bytes.reverse
    rwa [List.length_reverse, hlength] at hlt

def Coff.Section.IsNarrow (s : Section) : Prop :=
  s.virtualSize < 2 ^ 32 ∧ s.rawSize < 2 ^ 32 ∧ s.rawOffset < 2 ^ 32

theorem Coff.Section.gives_read (b : Binary) (texts pos : Nat) :
    (read b texts pos).Gives IsNarrow := by
  refine .behind fun _ => .behind fun _ => .behind fun name => ?_
  refine .bind (b.gives_number _ 4) fun virtualSize hvirtual => .behind fun address => ?_
  refine .bind (b.gives_number _ 4) fun rawSize hsize => ?_
  refine .bind (b.gives_number _ 4) fun rawOffset hoffset => .behind fun flags => ?_
  exact .ok ⟨hvirtual, hsize, hoffset⟩

theorem Coff.gives_sections (b : Binary) (h : Header) (pos : Nat) :
    (sections b h pos).Gives fun ss => ∀ s ∈ ss, s.IsNarrow :=
  .mapM fun _ _ => Section.gives_read _ _ _

theorem Pe.isNarrow_segment {s : Coff.Section} (h : s.IsNarrow) : (segment s).IsNarrow := by
  obtain ⟨hvirtual, hsize, hoffset⟩ := h
  exact ⟨hoffset, Nat.max_lt.mpr ⟨hvirtual, hsize⟩⟩

theorem Pe.gives_read (contents : Bytes) :
    (read contents).Gives fun parts => ∀ g ∈ parts.2, g.IsNarrow := by
  refine .behind fun _ => .behind fun start => .behind fun _ => .behind fun _ => .behind fun h => ?_
  -- the header behind is optional, and what is read of it does not matter
  dsimp only
  split
  all_goals
    refine .behind fun optional => .bind (Coff.gives_sections _ _ _) fun sections hsections => ?_
    have hall : ∀ g ∈ sections.map segment, g.IsNarrow :=
      List.forall_mem_map.mpr fun s hs => isNarrow_segment (hsections s hs)
    split
    · exact .ok hall
    · exact .behind fun _ => .ok hall

namespace Elf

def ProgramHeader.IsNarrow (h : ProgramHeader) : Prop := h.fileOffset < 2 ^ 32 ∧ h.memorySize < 2 ^ 32

variable {b : Binary} (hb : b.wide = false)

include hb

theorem gives_word (pos : Nat) : (b.word pos).Gives (· < 2 ^ 32) := by
  have hsize : b.wordSize = 4 := by rw [Binary.wordSize, hb, if_neg Bool.false_ne_true]
  rw [Binary.word, hsize]
  exact b.gives_number pos 4

theorem ProgramHeader.gives_read (pos : Nat) : (read b pos).Gives IsNarrow := by
  unfold read
  rw [hb, if_neg Bool.false_ne_true]
  refine .behind fun _ => .behind fun kind => .behind fun flags => ?_
  refine .bind (gives_word hb _) fun fileOffset hoffset => .behind fun address => ?_
  refine .behind fun fileSize => .bind (gives_word hb _) fun memorySize hsize => ?_
  exact .ok ⟨hoffset, hsize⟩

theorem gives_programHeaders : (programHeaders b).Gives fun hs => ∀ h ∈ hs, h.IsNarrow :=
  .behind fun _ => .behind fun _ => .mapM fun _ _ => ProgramHeader.gives_read hb _

omit hb

theorem gives_read {contents : Bytes} (h : contents[4]? = some 1) :
    (read contents).Gives fun parts => ∀ g ∈ parts.2, g.IsNarrow := by
  have hbinary : (binary contents).Gives fun b => b.wide = false := by
    have hbyte : (contents.drop 4)[0]? = contents[4]? := List.getElem?_drop
    unfold binary
    split
    case h_1 => exact .ok rfl
    case h_2 => exact .ok rfl
    case h_3 hwide => simp [hwide, h] at hbyte
    case h_4 hwide => simp [hwide, h] at hbyte
    case h_5 => exact .error _
  refine .bind hbinary fun b hb => .behind fun _ => ?_
  refine .bind (gives_programHeaders hb) fun headers hheaders => ?_
  refine .behind fun _ => .behind fun _ => .behind fun _ => .ok ?_
  intro g hg
  obtain ⟨i, hi, rfl⟩ := List.mem_mapIdx.mp hg
  exact hheaders _ (List.mem_filter.mp (List.getElem_mem hi)).1

end Elf

def IsNarrow (contents : Bytes) : Prop :=
  contents.take 2 = [0x4D, 0x5A] ∨ contents.take 5 = [0x7F, 0x45, 0x4C, 0x46, 1]

theorem gives_ofParts {contents : Bytes} {parts : Reading (Address × List Segment)}
    (h : parts.Gives fun parts => ∀ g ∈ parts.2, g.IsNarrow) :
    (ofParts contents parts).Gives fun image => ∀ g ∈ image.segments, g.IsNarrow :=
  .bind h fun _ hall => .ok hall

theorem gives_load {contents : Bytes} (h : IsNarrow contents) :
    (load contents).Gives fun image => ∀ g ∈ image.segments, g.IsNarrow := by
  unfold load
  split
  case isTrue => exact .error _
  case isFalse =>
    rcases h with h | h
    · rw [← List.take_append_drop 2 contents, h]
      exact gives_ofParts (Pe.gives_read _)
    · rw [← List.take_append_drop 5 contents, h]
      exact gives_ofParts (Elf.gives_read rfl)

end Image

end TypeAtlas
