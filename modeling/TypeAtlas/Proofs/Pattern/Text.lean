import TypeAtlas.Pattern
import TypeAtlas.Proofs.Text.Words
import Mathlib.Data.List.Forall2

namespace TypeAtlas

namespace Hex

theorem digits_of_lt {n : Nat} (h : n < 16) : digits n = [n] := by
  rw [digits, if_pos h]

theorem upperPadded_two {n : Nat} (h : n < 256) :
    (upperPadded 2 n).toList = [upperDigit (n / 16), upperDigit (n % 16)] := by
  rw [upperPadded, String.toList_ofList]
  by_cases hn : n < 16
  · rw [digits_of_lt hn, Nat.div_eq_of_lt hn, Nat.mod_eq_of_lt hn]
    rfl
  · rw [digits, if_neg hn, digits_of_lt (by omega)]
    rfl

theorem blank_upperDigit {n : Nat} (h : n < 16) : Blank (upperDigit n) = false := by
  revert n
  decide

end Hex

namespace Cell

variable {c : Cell}

def shown (c : Cell) : Cell := if c.counts then c else wild

@[simp] theorem counts_shown : c.shown.counts = c.counts := by
  unfold shown
  split <;> simp_all [wild]

theorem ofToken?_digits {h l : Nat} (hh : h < 16) (hl : l < 16) :
    ofToken? [Hex.upperDigit h, Hex.upperDigit l] = some ⟨UInt8.ofNat (16 * h + l), true⟩ := by
  have hall : ∀ h < 16, ∀ l < 16, ofToken? [Hex.upperDigit h, Hex.upperDigit l] =
      some ⟨UInt8.ofNat (16 * h + l), true⟩ := by decide +kernel
  exact hall h hh l hl

theorem text_of_counts (h : c.counts = true) : c.text.toList =
    [Hex.upperDigit (c.byte.toNat / 16), Hex.upperDigit (c.byte.toNat % 16)] := by
  rw [text, if_pos h, Hex.upperPadded_two c.byte.toNat_lt]

theorem text_of_not_counts (h : ¬ c.counts = true) : c.text.toList = ['?', '?'] := by
  rw [text, if_neg h]
  rfl

theorem isToken_text (c : Cell) : Blank.IsToken c.text.toList := by
  have hbyte : c.byte.toNat < 256 := c.byte.toNat_lt
  by_cases h : c.counts = true
  · rw [text_of_counts h]
    refine ⟨by simp, ?_⟩
    simp only [List.mem_cons, List.not_mem_nil, or_false, forall_eq_or_imp, forall_eq]
    exact ⟨Hex.blank_upperDigit (by omega), Hex.blank_upperDigit (by omega)⟩
  · rw [text_of_not_counts h]
    exact ⟨by simp, by simp [show Blank '?' = false by decide]⟩

theorem ofToken?_text (c : Cell) : ofToken? c.text.toList = some c.shown := by
  have hbyte : c.byte.toNat < 256 := c.byte.toNat_lt
  by_cases h : c.counts = true
  · rw [text_of_counts h, ofToken?_digits (by omega) (by omega), shown, if_pos h, Nat.div_add_mod,
      UInt8.ofNat_toNat, ← h]
  · rw [text_of_not_counts h, shown, if_neg h]
    rfl

theorem ofToken?_pair {h l : Char} (hne : ¬ (h = '?' ∧ l = '?')) : ofToken? [h, l] =
    ((if h = '+' then some 0 else Hex.digit? h).bind fun high =>
      (Hex.digit? l).bind fun low => some ⟨UInt8.ofNat (16 * high + low), true⟩) := by
  unfold ofToken?
  split
  case h_1 => simp_all
  case h_2 => simp_all
  case h_3 heq =>
    cases heq
    split <;> rfl
  case h_4 hall => exact absurd rfl (hall h l)

theorem eq_wild_or_pair {token : List Char} (h : ofToken? token = some c) :
    (token = ['?'] ∨ token = ['?', '?']) ∧ c = wild
      ∨ ∃ h l, token = [h, l] ∧ ¬ (h = '?' ∧ l = '?') := by
  fun_cases ofToken? token
  case case1 => exact .inl ⟨.inl rfl, (Option.some.inj h).symm⟩
  case case2 => exact .inl ⟨.inr rfl, (Option.some.inj h).symm⟩
  case case3 hne => exact .inr ⟨_, _, rfl, fun hmarks => hne hmarks.1 hmarks.2⟩
  case case4 hne _ _ => exact .inr ⟨_, _, rfl, fun hmarks => hne hmarks.1 hmarks.2⟩
  case case5 => simp_all [ofToken?]

theorem shown_of_ofToken? {token : List Char} (h : ofToken? token = some c) : c.shown = c := by
  obtain ⟨_, rfl⟩ | ⟨first, last, rfl, hne⟩ := eq_wild_or_pair h
  · rfl
  · simp only [ofToken?_pair hne, Option.bind_eq_some_iff, Option.some_inj] at h
    obtain ⟨high, _, low, _, rfl⟩ := h
    rfl

end Cell

namespace Pattern

variable {p : Pattern} {s : String} {tokens : List (List Char)} {cells : List Cell} {e : Error}

theorem words_text (p : Pattern) :
    Blank.words p.text.toList = p.cells.map fun c => c.text.toList := by
  rw [text, String.toList_intercalate, List.map_map]
  apply Blank.words_intercalate
  intro w hw
  obtain ⟨c, _, rfl⟩ := List.mem_map.mp hw
  exact c.isToken_text

theorem mapM_eq_ok_iff : tokens.mapM cellOfToken = .ok cells ↔
    List.Forall₂ (fun w c => Cell.ofToken? w = some c) tokens cells := by
  induction tokens generalizing cells with
  | nil => cases cells <;> simp [pure, Except.pure]
  | cons w tokens ih =>
    rw [List.mapM_cons, List.forall₂_cons_left_iff, cellOfToken]
    cases hw : Cell.ofToken? w with
    | none => simp [bind, Except.bind]
    | some c =>
      simp only [Option.some_inj, ← ih]
      cases tokens.mapM cellOfToken with
      | error e => simp [bind, Except.bind]
      | ok rest => simp [bind, Except.bind, pure, Except.pure, eq_comm]

theorem mapM_eq_error_iff : tokens.mapM cellOfToken = .error e ↔
    ∃ w, tokens.find? (fun w => (Cell.ofToken? w).isNone) = some w
      ∧ e = .badToken (String.ofList w) := by
  induction tokens with
  | nil => simp [pure, Except.pure]
  | cons w tokens ih =>
    rw [List.mapM_cons, List.find?_cons, cellOfToken]
    cases hw : Cell.ofToken? w with
    | none => simp [bind, Except.bind, eq_comm]
    | some c =>
      simp only [Option.isNone_some, ← ih]
      cases tokens.mapM cellOfToken with
      | error e => simp [bind, Except.bind]
      | ok rest => simp [bind, Except.bind, pure, Except.pure]

theorem ofCells_eq_ok_iff : ofCells cells = .ok p ↔ p.cells = cells := by
  unfold ofCells
  split
  case isTrue h => simp [h, p.nonempty]
  case isFalse h =>
    constructor
    · intro heq
      rw [← Except.ok.inj heq]
    · intro heq
      subst heq
      rfl

theorem parse_eq_ok_iff : parse s = .ok p ↔
    List.Forall₂ (fun w c => Cell.ofToken? w = some c) (Blank.words s.toList) p.cells
      ∧ p.cells.any Cell.counts = true := by
  rw [parse, ← mapM_eq_ok_iff]
  cases hcells : (Blank.words s.toList).mapM cellOfToken with
  | error e => simp [bind, Except.bind]
  | ok cells =>
    by_cases hany : cells.any Cell.counts = true
    · simp only [bind, Except.bind, if_pos hany, ofCells_eq_ok_iff, Except.ok.injEq]
      constructor
      · rintro rfl
        exact ⟨rfl, hany⟩
      · exact fun h => h.1.symm
    · simp only [bind, Except.bind, if_neg hany, Except.ok.injEq]
      constructor
      · intro h
        cases h
      · rintro ⟨rfl, h⟩
        exact absurd h hany

theorem parse_eq_error_iff : parse s = .error e ↔
    (∃ w, (Blank.words s.toList).find? (fun w => (Cell.ofToken? w).isNone) = some w
      ∧ e = .badToken (String.ofList w))
    ∨ (∃ cells, List.Forall₂ (fun w c => Cell.ofToken? w = some c) (Blank.words s.toList) cells
      ∧ ¬ cells.any Cell.counts = true) ∧ e = .allWild s := by
  rw [parse, ← mapM_eq_error_iff]
  simp only [← mapM_eq_ok_iff]
  cases hcells : (Blank.words s.toList).mapM cellOfToken with
  | error e' => simp [bind, Except.bind]
  | ok cells =>
    simp only [bind, Except.bind, reduceCtorEq, false_or, Except.ok.injEq, exists_eq_left']
    split
    case isTrue hany =>
      have hne : cells ≠ [] := by
        rintro rfl
        cases hany
      simp only [ofCells, dif_neg hne, hany, reduceCtorEq, not_true, false_and]
    case isFalse hany =>
      simp only [hany, Bool.false_eq_true, not_false_eq_true, true_and]
      exact ⟨fun h => (Except.error.inj h).symm, fun h => h ▸ rfl⟩

theorem reads_text (cells : List Cell) : List.Forall₂ (fun w c => Cell.ofToken? w = some c)
    (cells.map fun c => c.text.toList) (cells.map Cell.shown) := by
  rw [List.forall₂_map_left_iff, List.forall₂_map_right_iff, List.forall₂_same]
  exact fun c _ => c.ofToken?_text

theorem parse_text (p : Pattern) : parse p.text =
    if p.cells.any Cell.counts then
      .ok ⟨p.cells.map Cell.shown, by simpa using p.nonempty⟩
    else .error (.allWild p.text) := by
  have hany : (p.cells.map Cell.shown).any Cell.counts = p.cells.any Cell.counts := by
    simp [List.any_map, Function.comp_def]
  have hreads := reads_text p.cells
  rw [← words_text] at hreads
  split
  case isTrue h => exact parse_eq_ok_iff.mpr ⟨hreads, hany.trans h⟩
  case isFalse h => exact parse_eq_error_iff.mpr (.inr ⟨⟨_, hreads, hany ▸ h⟩, rfl⟩)

theorem shown_of_reads (h : List.Forall₂ (fun w c => Cell.ofToken? w = some c) tokens cells) :
    cells.map Cell.shown = cells := by
  induction h with
  | nil => rfl
  | cons hc _ ih => rw [List.map_cons, Cell.shown_of_ofToken? hc, ih]

theorem shown_of_parse (h : parse s = .ok p) :
    p.cells.map Cell.shown = p.cells ∧ p.cells.any Cell.counts := by
  obtain ⟨hreads, hany⟩ := parse_eq_ok_iff.mp h
  exact ⟨shown_of_reads hreads, hany⟩

theorem parse_text_of_parse (h : parse s = .ok p) : parse p.text = .ok p := by
  obtain ⟨hshown, hany⟩ := shown_of_parse h
  simp only [parse_text, hany, hshown, if_true]

end Pattern

end TypeAtlas
