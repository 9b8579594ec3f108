import TypeAtlas.Proofs.Memory.Reads
import TypeAtlas.VirtualTable

namespace TypeAtlas

open Memory (Error)

variable {ε α β : Type}

def Outcome.Completes (x : Outcome ε α) : Prop := ∀ o, x ≠ .error (.abandoned o)

namespace Outcome.Completes

variable {x : Outcome ε α} {f : α → Outcome ε β} {as : List α}

theorem ok (a : α) : Completes (.ok a : Outcome ε α) := by
  intro o h
  cases h

theorem refused (e : ε) : Completes (.error (.refused e) : Outcome ε α) := by
  intro o h
  cases h

theorem bind (hx : x.Completes) (hf : ∀ a, (f a).Completes) : (x >>= f).Completes := by
  cases x with
  | ok a => exact hf a
  | error e =>
    intro o h
    apply hx o
    rw [Except.error.inj h]

theorem mapM (hf : ∀ a ∈ as, (f a).Completes) : (as.mapM f).Completes := by
  induction as with
  | nil => exact .ok []
  | cons a as ih =>
    rw [List.mapM_cons]
    apply (hf a (by simp)).bind
    intro b
    apply (ih fun a ha => hf a (List.mem_cons_of_mem _ ha)).bind
    exact fun bs => .ok (b :: bs)

end Outcome.Completes

namespace Space

def IsCaptured (s : Space) : Prop := ∃ blocks, ofBlocks blocks = .ok s

variable {s t : Space} {blocks : List Block}

theorem eq_after_of_foldlM (h : blocks.foldlM addBlock s = .ok t) :
    t = s.after (blocks.map .addBlock) := by
  induction blocks generalizing s with
  | nil =>
    cases h
    rfl
  | cons b blocks ih =>
    rw [List.foldlM_cons] at h
    cases hins : s.insert b.mapping with
    | error e =>
      change (s.insert b.mapping >>= _) = _ at h
      rw [hins] at h
      cases h
    | ok u =>
      change (s.insert b.mapping >>= _) = _ at h
      rw [hins] at h
      have hfirst : (s.perform (.addBlock b)).2 = u := by rw [perform_addBlock, hins]
      rw [List.map_cons, after, List.foldl_cons, hfirst]
      exact ih h

theorem IsCaptured.exists_after (h : s.IsCaptured) :
    ∃ calls, s = empty.after calls ∧ ∀ c ∈ calls, c.Fits := by
  obtain ⟨blocks, hblocks⟩ := h
  refine ⟨_, eq_after_of_foldlM hblocks, fun c hc => ?_⟩
  obtain ⟨b, _, rfl⟩ := List.mem_map.mp hc
  exact trivial

theorem IsCaptured.ordered (h : s.IsCaptured) : s.Ordered := by
  obtain ⟨calls, rfl, _⟩ := h.exists_after
  exact ordered_after calls

theorem IsCaptured.backed (h : s.IsCaptured) : s.Backed := by
  obtain ⟨calls, rfl, hfits⟩ := h.exists_after
  exact backed_after hfits

theorem completes_word_iff_read {a : Address} :
    (s.word a).Completes ↔ (s.read a 8).Completes := by
  constructor
  · intro h o ho
    apply h o
    rw [word, Memory.wordThrough, ho]
    rfl
  · intro h
    apply h.bind
    intro bytes
    split
    · exact .refused _
    · exact .ok _

variable (hs : s.Ordered) (hb : s.Backed)

include hs hb

theorem completes_read (a length : Nat) : (s.read a length).Completes := by
  intro o h
  cases (read_eq_error_iff hs hb).mp h with
  | inl h => cases h.2
  | inr h => cases h.2

theorem completes_word (a : Address) : (s.word a).Completes :=
  completes_word_iff_read.mpr (completes_read hs hb a 8)

theorem completes_search (p : Pattern) (start window : Nat) :
    (s.search p start window).Completes := by
  unfold search
  dsimp only
  split
  · exact .refused _
  · exact (completes_read hs hb start _).bind fun data => .ok _

end Space

namespace VirtualTable

variable {s : Space} (hs : s.Ordered) (hb : s.Backed)

include hs hb

theorem completes_pointer (owner : String) (a : Address) : (pointer s owner a).Completes := by
  unfold pointer
  split
  case h_1 => exact .ok _
  case h_2 => exact .refused _
  case h_3 o h => exact absurd h (s.completes_word hs hb a o)

theorem completes_entries (owner : String) (table : Address) (count index : Nat) :
    (entries s owner table count index).Completes := by
  induction count generalizing index with
  | zero => exact .ok []
  | succ count ih =>
    unfold entries
    split
    · exact .refused _
    · apply (completes_pointer hs hb owner _).bind
      intro entry
      split
      · split
        · exact (ih (index + 1)).bind fun rest => .ok (entry :: rest)
        · exact .ok []
      · exact .ok []

theorem completes_firstSlot? (window : Nat) (p : Pattern) (index : Nat) (table : List Address) :
    (firstSlot? s window p index table).Completes := by
  induction table generalizing index with
  | nil => exact .ok none
  | cons entry rest ih =>
    unfold firstSlot?
    split
    case h_1 => exact .ok _
    case h_2 => exact ih (index + 1)
    case h_3 => exact .refused _
    case h_4 o h => exact absurd h (s.completes_search hs hb p entry window o)

theorem completes_methods (window slots : Nat) (owner : String) (object : Address)
    (functions : List VirtualFunction) :
    (methods s window slots owner object functions).Completes := by
  have htable : (read s owner object slots).Completes :=
    (completes_pointer hs hb owner object).bind fun table => completes_entries hs hb owner table _ _
  apply htable.bind
  intro table
  apply Outcome.Completes.bind
  · apply Outcome.Completes.mapM
    intro f _
    exact (completes_firstSlot? hs hb window f.pattern 0 table).bind fun slot => .ok _
  · exact fun found => .ok _

end VirtualTable

end TypeAtlas
