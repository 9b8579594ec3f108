import TypeAtlas.Proofs.Pattern.Kept

namespace TypeAtlas

namespace Hex

variable {c : Char} {n : Nat}

def IsDigit (c : Char) (n : Nat) : Prop := n < 16 ∧ (c = lowerDigit n ∨ c = upperDigit n)

instance (c : Char) (n : Nat) : Decidable (IsDigit c n) := inferInstanceAs (Decidable (_ ∧ _))

theorem toNat_le_of_digit? (h : digit? c = some n) : c.toNat ≤ 'f'.toNat := by
  have hle {d e : Char} (hde : d ≤ e) : d.toNat ≤ e.toNat := hde
  unfold digit? at h
  split at h
  case isTrue hc => exact (hle hc.2).trans (by decide)
  case isFalse =>
    split at h
    case isTrue hc => exact hle hc.2
    case isFalse =>
      split at h
      case isTrue hc => exact (hle hc.2).trans (by decide)
      case isFalse => cases h

theorem digit?_eq_some_iff : digit? c = some n ↔ IsDigit c n := by
  constructor
  · intro h
    -- all digits are among the first characters, and these can be gone through
    have hall : ∀ k ≤ 'f'.toNat, ∀ m ∈ digit? (Char.ofNat k), IsDigit (Char.ofNat k) m := by
      decide +kernel
    have hc := hall c.toNat (toNat_le_of_digit? h) n
    rw [Char.ofNat_toNat] at hc
    exact hc h
  · have hall : ∀ n < 16, digit? (lowerDigit n) = some n ∧ digit? (upperDigit n) = some n := by
      decide +kernel
    rintro ⟨hn, rfl | rfl⟩
    · exact (hall n hn).1
    · exact (hall n hn).2

end Hex

namespace Cell

variable {w : List Char} {c : Cell}

inductive Spells : List Char → Cell → Prop
  | wild : Spells ['?'] Cell.wild
  | wildPair : Spells ['?', '?'] Cell.wild
  | byte {h l : Char} {high low : Nat} : Hex.IsDigit h high → Hex.IsDigit l low →
      Spells [h, l] ⟨UInt8.ofNat (16 * high + low), true⟩

def IsSigned (w : List Char) : Prop := ∃ l n, Hex.IsDigit l n ∧ w = ['+', l]

inductive Reads : List Char → Cell → Prop
  | spelled {w : List Char} {c : Cell} : Spells w c → Reads w c
  | signed {l : Char} {n : Nat} : Hex.IsDigit l n → Reads ['+', l] ⟨UInt8.ofNat n, true⟩

theorem reads_iff_spells (h : ¬ IsSigned w) : Reads w c ↔ Spells w c := by
  constructor
  · intro hreads
    cases hreads with
    | spelled hspells => exact hspells
    | signed hl => exact absurd ⟨_, _, hl, rfl⟩ h
  · exact .spelled

theorem not_isDigit_plus (n : Nat) : ¬ Hex.IsDigit '+' n := by
  rw [← Hex.digit?_eq_some_iff]
  simp [show Hex.digit? '+' = none by decide]

theorem ofToken?_pair_eq_some_iff {h l : Char} (hne : ¬ (h = '?' ∧ l = '?')) :
    ofToken? [h, l] = some c ↔ ∃ high low, (h = '+' ∧ high = 0 ∨ Hex.IsDigit h high)
      ∧ Hex.IsDigit l low ∧ ⟨UInt8.ofNat (16 * high + low), true⟩ = c := by
  have hhigh (high : Nat) : (if h = '+' then some 0 else Hex.digit? h) = some high ↔
      h = '+' ∧ high = 0 ∨ Hex.IsDigit h high := by
    split
    case isTrue hplus =>
      subst hplus
      simp [not_isDigit_plus, eq_comm]
    case isFalse hplus => simp [hplus, Hex.digit?_eq_some_iff]
  simp only [ofToken?_pair hne, Option.bind_eq_some_iff, hhigh, Hex.digit?_eq_some_iff,
    Option.some_inj, exists_and_left]

theorem not_marks {h l : Char} {n : Nat} (hl : Hex.IsDigit l n) : ¬ (h = '?' ∧ l = '?') := by
  rintro ⟨-, rfl⟩
  rw [← Hex.digit?_eq_some_iff] at hl
  cases hl

theorem reads_of_pair {h l : Char} (hne : ¬ (h = '?' ∧ l = '?'))
    (hpair : ofToken? [h, l] = some c) : Reads [h, l] c := by
  obtain ⟨high, low, ⟨rfl, rfl⟩ | hh, hl, rfl⟩ := (ofToken?_pair_eq_some_iff hne).mp hpair
  · rw [Nat.mul_zero, Nat.zero_add]
    exact .signed hl
  · exact .spelled (.byte hh hl)

theorem ofToken?_eq_some_iff : ofToken? w = some c ↔ Reads w c := by
  constructor
  · intro h
    obtain ⟨rfl | rfl, rfl⟩ | ⟨first, last, rfl, hne⟩ := eq_wild_or_pair h
    · exact .spelled .wild
    · exact .spelled .wildPair
    · exact reads_of_pair hne h
  · intro h
    cases h with
    | signed hl =>
      apply (ofToken?_pair_eq_some_iff (not_marks hl)).mpr
      exact ⟨0, _, .inl ⟨rfl, rfl⟩, hl, by simp⟩
    | spelled h =>
      cases h with
      | wild => rfl
      | wildPair => rfl
      | byte hh hl =>
        apply (ofToken?_pair_eq_some_iff (not_marks hl)).mpr
        exact ⟨_, _, .inr hh, hl, rfl⟩

theorem Reads.unique {d : Cell} (h : Reads w c) (h' : Reads w d) : c = d := by
  rw [← ofToken?_eq_some_iff] at h h'
  exact Option.some.inj (h.symm.trans h')

theorem isSome_ofToken?_iff : (ofToken? w).isSome = true ↔ ∃ c, Reads w c := by
  simp only [Option.isSome_iff_exists, ofToken?_eq_some_iff]

end Cell

namespace Pattern

variable {R R' : List Char → Cell → Prop} {s : String} {ws : List (List Char)} {cells : List Cell}

/-- A text is read word by word, each word as a relation has it.  It is a pattern exactly if each
word stands for a cell and one for a cell that counts; otherwise the first word that stands for none
is complained of, or the text as a whole. -/
structure ReadsBy (R : List Char → Cell → Prop) (s : String) (ws : List (List Char)) : Prop where
  succeeds : (∃ p, parse s = .ok p) ↔
    (∀ w ∈ ws, ∃ c, R w c) ∧ ∃ w ∈ ws, ∃ c, R w c ∧ c.counts = true
  cells : ∀ p, parse s = .ok p → List.Forall₂ R ws p.cells
  fails : ∀ e, parse s = .error e ↔
    (∃ w, (∃ front back, ws = front ++ w :: back ∧ ∀ v ∈ front, ∃ c, R v c) ∧ (¬ ∃ c, R w c)
      ∧ e = .badToken (String.ofList w))
    ∨ (∀ w ∈ ws, ∃ c, R w c ∧ c.counts = false) ∧ e = .allWild s

theorem exists_forall₂_iff : (∃ cells, List.Forall₂ R ws cells) ↔ ∀ w ∈ ws, ∃ c, R w c := by
  induction ws with
  | nil => exact ⟨fun _ => by simp, fun _ => ⟨[], .nil⟩⟩
  | cons w ws ih =>
    rw [List.forall_mem_cons, ← ih]
    constructor
    · rintro ⟨_, _ | ⟨hc, hcells⟩⟩
      exact ⟨⟨_, hc⟩, _, hcells⟩
    · rintro ⟨⟨c, hc⟩, cells, hcells⟩
      exact ⟨c :: cells, .cons hc hcells⟩

theorem any_counts_of_reads (h : List.Forall₂ Cell.Reads ws cells) :
    cells.any Cell.counts = true ↔ ∃ w ∈ ws, ∃ c, Cell.Reads w c ∧ c.counts = true := by
  induction h with
  | nil => simp
  | @cons w c ws cells hc _ ih =>
    have hone : (∃ d, Cell.Reads w d ∧ d.counts = true) ↔ c.counts = true :=
      ⟨fun ⟨d, hd, hcounts⟩ => hc.unique hd ▸ hcounts, fun hcounts => ⟨c, hc, hcounts⟩⟩
    rw [List.any_cons, Bool.or_eq_true, ih, List.exists_mem_cons_iff, hone]

theorem exists_reads_iff : (∃ cells, List.Forall₂ Cell.Reads ws cells
      ∧ ¬ cells.any Cell.counts = true) ↔ ∀ w ∈ ws, ∃ c, Cell.Reads w c ∧ c.counts = false := by
  constructor
  · rintro ⟨cells, hcells, hnone⟩ w hw
    obtain ⟨c, hc⟩ := exists_forall₂_iff.mp ⟨cells, hcells⟩ w hw
    rw [any_counts_of_reads hcells] at hnone
    exact ⟨c, hc, Bool.eq_false_iff.mpr fun hcounts => hnone ⟨w, hw, c, hc, hcounts⟩⟩
  · intro h
    obtain ⟨cells, hcells⟩ := exists_forall₂_iff.mpr h
    have hreads : List.Forall₂ Cell.Reads ws cells := hcells.imp fun _ _ hc => hc.1
    refine ⟨cells, hreads, fun hany => ?_⟩
    obtain ⟨w, hw, c, hc, hcounts⟩ := (any_counts_of_reads hreads).mp hany
    obtain ⟨d, hd, hwild⟩ := h w hw
    rw [hc.unique hd, hwild] at hcounts
    cases hcounts

theorem find?_isNone_iff {w : List Char} : ws.find? (fun w => (Cell.ofToken? w).isNone) = some w ↔
    (∃ front back, ws = front ++ w :: back ∧ ∀ v ∈ front, ∃ c, Cell.Reads v c)
      ∧ ¬ ∃ c, Cell.Reads w c := by
  rw [List.find?_eq_some_iff_append, ← Cell.isSome_ofToken?_iff, Option.not_isSome_iff_eq_none,
    Option.isNone_iff_eq_none, and_comm]
  simp only [Option.not_isNone, Cell.isSome_ofToken?_iff]

theorem readsBy_reads (h : Blank.Parts s.toList ws) : ReadsBy Cell.Reads s ws := by
  have hok (p : Pattern) := parse_eq_ok_iff (p := p) (s := s)
  have herror (e : Error) := parse_eq_error_iff (e := e) (s := s)
  simp only [h.words_eq, Cell.ofToken?_eq_some_iff] at hok herror
  constructor
  case succeeds =>
    constructor
    · rintro ⟨p, hp⟩
      obtain ⟨hcells, hany⟩ := (hok p).mp hp
      exact ⟨exists_forall₂_iff.mp ⟨_, hcells⟩, (any_counts_of_reads hcells).mp hany⟩
    · rintro ⟨hall, hone⟩
      obtain ⟨cells, hcells⟩ := exists_forall₂_iff.mpr hall
      have hany := (any_counts_of_reads hcells).mpr hone
      have hne : cells ≠ [] := by
        rintro rfl
        cases hany
      exact ⟨⟨cells, hne⟩, (hok _).mpr ⟨hcells, hany⟩⟩
  case cells => exact fun p hp => ((hok p).mp hp).1
  case fails =>
    intro e
    rw [herror, exists_reads_iff]
    simp only [find?_isNone_iff, and_assoc]

theorem ReadsBy.congr (h : ReadsBy R s ws) (hsame : ∀ w ∈ ws, ∀ c, R w c ↔ R' w c) :
    ReadsBy R' s ws := by
  have hexists (w : List Char) (hw : w ∈ ws) : (∃ c, R w c) ↔ ∃ c, R' w c :=
    exists_congr (hsame w hw)
  have hcounts (b : Bool) (w : List Char) (hw : w ∈ ws) :
      (∃ c, R w c ∧ c.counts = b) ↔ ∃ c, R' w c ∧ c.counts = b :=
    exists_congr fun c => and_congr_left' (hsame w hw c)
  constructor
  case succeeds =>
    rw [h.succeeds]
    exact and_congr (forall₂_congr hexists)
      (exists_congr fun w => and_congr_right (hcounts true w))
  case cells =>
    intro p hp
    have hboth := (List.forall₂_and_left _ _).mpr ⟨hsame, h.cells p hp⟩
    exact hboth.imp fun w c ⟨hsame, hc⟩ => (hsame c).mp hc
  case fails =>
    intro e
    rw [h.fails]
    refine or_congr (exists_congr fun w => ?_) (and_congr_left' (forall₂_congr (hcounts false)))
    constructor
    · rintro ⟨⟨front, back, rfl, hfront⟩, hw, he⟩
      refine ⟨⟨front, back, rfl, fun v hv => ?_⟩, ?_, he⟩
      · exact (hexists v (by simp [hv])).mp (hfront v hv)
      · rwa [← hexists w (by simp)]
    · rintro ⟨⟨front, back, rfl, hfront⟩, hw, he⟩
      refine ⟨⟨front, back, rfl, fun v hv => ?_⟩, ?_, he⟩
      · exact (hexists v (by simp [hv])).mpr (hfront v hv)
      · rwa [hexists w (by simp)]

/-- Every text comes in words, and word by word it is read as they spell wildcards and bytes, except
that a plus sign before a digit is passed over.  Without such words it is a pattern exactly if each
word spells a wildcard or a byte, and one a byte. -/
theorem parse_by_words (s : String) :
    (∃ ws, Blank.Parts s.toList ws)
    ∧ ∀ ws, Blank.Parts s.toList ws → ReadsBy Cell.Reads s ws
      ∧ ((∀ w ∈ ws, ¬ Cell.IsSigned w) → ReadsBy Cell.Spells s ws) := by
  refine ⟨⟨_, Blank.parts_iff.mpr rfl⟩, fun ws hparts => ?_⟩
  have hreads := readsBy_reads hparts
  exact ⟨hreads, fun hplain => hreads.congr fun w hw c => Cell.reads_iff_spells (hplain w hw)⟩

theorem spells_48 : Cell.Spells ['4', '8'] ⟨0x48, true⟩ :=
  @Cell.Spells.byte '4' '8' 4 8 (by decide) (by decide)

theorem spells_8b : Cell.Spells ['8', 'b'] ⟨0x8B, true⟩ :=
  @Cell.Spells.byte '8' 'b' 8 11 (by decide) (by decide)

theorem not_spells_8G : ¬ ∃ c, Cell.Spells ['8', 'G'] c := by
  rintro ⟨c, hc⟩
  cases hc with
  | byte _ hl =>
    rw [← Hex.digit?_eq_some_iff] at hl
    cases hl

def mixed : String := "\t48 8b\n? ??"

def mixedWords : List (List Char) := [['4', '8'], ['8', 'b'], ['?'], ['?', '?']]

theorem parse_by_words_mixed : Blank.Parts mixed.toList mixedWords
    ∧ (∀ w ∈ mixedWords, ¬ Cell.IsSigned w)
    ∧ (∃ p, parse mixed = .ok p ∧ List.Forall₂ Cell.Spells mixedWords p.cells)
    ∧ parse "48 8G +" = .error (.badToken "8G") := by
  have hparts : Blank.Parts mixed.toList mixedWords := Blank.parts_iff.mpr (by decide)
  have hplain : ∀ w ∈ mixedWords, ¬ Cell.IsSigned w := by
    rintro w hw ⟨l, n, -, rfl⟩
    simp [mixedWords] at hw
  have hreads := ((parse_by_words mixed).2 mixedWords hparts).2 hplain
  have hfaulty := ((parse_by_words "48 8G +").2 [['4', '8'], ['8', 'G'], ['+']]
    (Blank.parts_iff.mpr (by decide))).2 (by
      rintro w hw ⟨l, n, -, rfl⟩
      simp at hw)
  refine ⟨hparts, hplain, ?_, ?_⟩
  · have hall : ∀ w ∈ mixedWords, ∃ c, Cell.Spells w c := by
      simp only [mixedWords, List.forall_mem_cons]
      exact ⟨⟨_, spells_48⟩, ⟨_, spells_8b⟩, ⟨_, .wild⟩, ⟨_, .wildPair⟩, by simp⟩
    obtain ⟨p, hp⟩ := hreads.succeeds.mpr ⟨hall, _, List.mem_cons_self, _, spells_48, rfl⟩
    exact ⟨p, hp, hreads.cells p hp⟩
  · apply (hfaulty.fails _).mpr
    refine .inl ⟨['8', 'G'], ⟨[['4', '8']], [['+']], rfl, ?_⟩, not_spells_8G, by decide⟩
    simpa using ⟨_, spells_48⟩

def five : Pattern := ⟨[⟨5, true⟩], by decide⟩

theorem parse_signed : Blank.Parts "+5".toList [['+', '5']] ∧ parse "+5" = .ok five
    ∧ ¬ ∃ c, Cell.Spells ['+', '5'] c := by
  refine ⟨Blank.parts_iff.mpr (by decide), by decide, ?_⟩
  rintro ⟨c, hc⟩
  cases hc with
  | byte hplus _ => exact Cell.not_isDigit_plus _ hplus

end Pattern

end TypeAtlas
