import TypeAtlas.Proofs.Memory.Captured
import Mathlib.Algebra.Group.Nat.Defs

namespace TypeAtlas

open Memory (littleEndian)

theorem Address.slot?_eq_some_iff {t a i : Nat} :
    slot? t i = some a ↔ t + 8 * i < Word.bound ∧ t + 8 * i = a := by
  rw [slot?, Option.bind_eq_bind, Option.bind_eq_some_iff]
  simp only [Word.add?_eq_some_iff, Word.mul?]
  constructor
  · rintro ⟨delta, hdelta, hadd⟩
    split at hdelta
    case isTrue =>
      obtain rfl := Option.some.inj hdelta
      omega
    case isFalse => cases hdelta
  · rintro ⟨hlt, rfl⟩
    exact ⟨i * 8, if_pos (by omega), by omega, by omega⟩

theorem Address.slot?_eq_none_iff {t i : Nat} :
    slot? t i = none ↔ Word.bound ≤ t + 8 * i := by
  rw [Option.eq_none_iff_forall_ne_some]
  simp [slot?_eq_some_iff]

theorem Protection.isCode_iff {p : Protection} :
    p.isCode = true ↔ p.canRead = true ∧ p.canExecute = true := by
  cases p <;> decide

theorem Memory.littleEndian_lt (bytes : Bytes) : littleEndian bytes < 256 ^ bytes.length := by
  induction bytes with
  | nil => exact Nat.one_pos
  | cons b bytes ih =>
    have hb : b.toNat < 256 := b.toNat_lt
    rw [littleEndian, List.length_cons, Nat.pow_succ]
    omega

namespace Space

def HoldsWord (s : Space) (a : Address) (w : Nat) : Prop :=
  ∃ m, s.Readable a m ∧ 8 ≤ m.region.range.remaining a
    ∧ littleEndian ((List.range 8).map fun i => m.byteAt (a + i)) = w

def IsCode (s : Space) (a : Address) : Prop :=
  ∃ m, s.Readable a m ∧ m.region.protection.canExecute = true

/-- What a table has for a slot: the word in its place, all bytes of which have addresses. -/
structure Entry (s : Space) (table i e : Nat) : Prop where
  fits : table + 8 * i + 8 ≤ Word.bound
  holds : s.HoldsWord (table + 8 * i) e

variable {s : Space} {table a e e' w w' i : Nat}

theorem HoldsWord.unique (hs : s.Ordered) (h : s.HoldsWord a w) (h' : s.HoldsWord a w') :
    w = w' := by
  obtain ⟨m, hm, -, rfl⟩ := h
  obtain ⟨n, hn, -, rfl⟩ := h'
  rw [hm.unique hs hn]

theorem Entry.unique (hs : s.Ordered) (h : s.Entry table i e) (h' : s.Entry table i e') : e = e' :=
  h.holds.unique hs h'.holds

/-- A region ends at the last word at the latest, so that the byte there is never read. -/
theorem HoldsWord.add_eight_lt (h : s.HoldsWord a w) : a + 8 < Word.bound := by
  obtain ⟨m, hm, hroom, -⟩ := h
  have hstop : m.region.range.stop ≤ Word.top := m.region.range.stop_le_top
  have hcontains : m.region.range.contains a = true := hm.contains
  rw [Range.remaining, if_pos hcontains] at hroom
  have htop : Word.top < Word.bound := by decide
  omega

theorem entry_iff : s.Entry table i e ↔ s.HoldsWord (table + 8 * i) e :=
  ⟨fun h => h.holds, fun h => ⟨Nat.le_of_lt h.add_eight_lt, h⟩⟩

section

variable (hs : s.Ordered) (hb : s.Backed)

include hs

theorem protectionAt?_isCode_iff :
    (∃ p, s.protectionAt? a = some p ∧ p.isCode = true) ↔ s.IsCode a := by
  simp only [protectionAt?, Option.map_eq_some_iff, hs.find?_eq_some_iff, Protection.isCode_iff]
  constructor
  · rintro ⟨_, ⟨m, ⟨hmem, hm⟩, rfl⟩, hread, hexec⟩
    exact ⟨m, ⟨hmem, hm, hread⟩, hexec⟩
  · rintro ⟨m, ⟨hmem, hm, hread⟩, hexec⟩
    exact ⟨_, ⟨m, ⟨hmem, hm⟩, rfl⟩, hread, hexec⟩

include hb

theorem HoldsWord.word_eq (h : s.HoldsWord a w) : s.word a = .ok w := by
  obtain ⟨m, hm, hroom, rfl⟩ := h
  have hread := (read_eq_ok_iff hs hb).mpr ⟨m, hm, hroom, rfl⟩
  rw [word, Memory.wordThrough, hread]
  rfl

theorem exists_word_eq_refused (h : ¬ ∃ w, s.HoldsWord a w) :
    ∃ e, s.word a = .error (.refused e) := by
  cases hread : s.read a 8 with
  | ok bytes =>
    obtain ⟨m, hm, hroom, -⟩ := (read_eq_ok_iff hs hb).mp hread
    exact absurd ⟨_, m, hm, hroom, rfl⟩ h
  | error f =>
    have hword : s.word a = .error f := by
      rw [word, Memory.wordThrough, hread]
      rfl
    rcases (read_eq_error_iff hs hb).mp hread with ⟨-, rfl⟩ | ⟨-, rfl⟩
    · exact ⟨_, hword⟩
    · exact ⟨_, hword⟩

end

end Space

end TypeAtlas
