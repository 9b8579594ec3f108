import TypeAtlas.Proofs.Memory.Words

namespace TypeAtlas.VirtualTable

def faultAt (table i : Nat) : Address :=
  if table + 8 * i < Word.bound then table + 8 * i else table

/-- The slots of a table from one on, no more than a count of them: words that point to code, behind
which stands one that does not unless the count has been used up. -/
structure IsTable (s : Space) (table first count : Nat) (slots : List Address) : Prop where
  bounded : slots.length ≤ count
  code : ∀ i e, slots[i]? = some e → s.Entry table (first + i) e ∧ s.IsCode e
  ended : slots.length = count ∨ ∃ e, s.Entry table (first + slots.length) e ∧ ¬ s.IsCode e

/-- The address that a failure to read the table of an instance is put down to: the instance, or the
first entry that cannot be read, or the table where that entry would lie past the last address. -/
inductive Unreadable (s : Space) (object max : Nat) : Address → Prop
  | object : (¬ ∃ t, s.HoldsWord object t) → Unreadable s object max object
  | entry {t i : Nat} : s.HoldsWord object t → i < max →
      (∀ j < i, ∃ e, s.Entry t j e ∧ s.IsCode e) →
      t + 8 * i < Word.bound → (¬ ∃ e, s.HoldsWord (t + 8 * i) e) →
      Unreadable s object max (t + 8 * i)
  | table {t i : Nat} : s.HoldsWord object t → i < max →
      (∀ j < i, ∃ e, s.Entry t j e ∧ s.IsCode e) →
      Word.bound ≤ t + 8 * i → Unreadable s object max t

variable {s : Space} {owner : String} {table object a e w first count : Nat}
  {slots rest : List Address} {f : Failure Error} {i : Nat}

structure IsFault (s : Space) (table first count i : Nat) : Prop where
  lt : i < count
  code : ∀ j < i, ∃ e, s.Entry table (first + j) e ∧ s.IsCode e
  unreadable : ¬ ∃ e, s.Entry table (first + i) e

theorem isTable_zero_iff : IsTable s table first 0 slots ↔ slots = [] := by
  constructor
  · exact fun h => List.length_eq_zero_iff.mp (Nat.le_zero.mp h.bounded)
  · rintro rfl
    exact ⟨Nat.le_refl 0, fun i e he => (nomatch he), .inl rfl⟩

theorem isTable_nil_iff : IsTable s table first (count + 1) [] ↔
    ∃ e, s.Entry table first e ∧ ¬ s.IsCode e := by
  constructor
  · intro h
    exact h.ended.resolve_left (Nat.succ_ne_zero count).symm
  · exact fun h => ⟨Nat.zero_le _, fun i e he => (nomatch he), .inr h⟩

theorem isTable_cons_iff : IsTable s table first (count + 1) (e :: rest) ↔
    s.Entry table first e ∧ s.IsCode e ∧ IsTable s table (first + 1) count rest := by
  have hshift (i : Nat) : first + (i + 1) = first + 1 + i := by omega
  constructor
  · rintro ⟨hbounded, hcode, hended⟩
    obtain ⟨hentry, hexec⟩ := hcode 0 e rfl
    refine ⟨hentry, hexec, Nat.le_of_succ_le_succ hbounded, fun i e' he' => ?_, ?_⟩
    · exact hshift i ▸ hcode (i + 1) e' he'
    · exact hended.imp Nat.succ.inj fun h => hshift rest.length ▸ h
  · rintro ⟨hentry, hexec, hbounded, hcode, hended⟩
    refine ⟨Nat.succ_le_succ hbounded, fun i e' he' => ?_, ?_⟩
    · cases i with
      | zero => exact Option.some.inj he' ▸ ⟨hentry, hexec⟩
      | succ i => exact hshift i ▸ hcode i e' he'
    · exact hended.imp (congrArg Nat.succ) fun h => hshift rest.length ▸ h

theorem isFault_zero_iff : IsFault s table first (count + 1) 0 ↔ ¬ ∃ e, s.Entry table first e :=
  ⟨fun h => h.unreadable, fun h => ⟨Nat.succ_pos count, fun _ hj => (nomatch hj), h⟩⟩

theorem isFault_succ_iff : IsFault s table first (count + 1) (i + 1) ↔
    (∃ e, s.Entry table first e ∧ s.IsCode e) ∧ IsFault s table (first + 1) count i := by
  have hshift (j : Nat) : first + (j + 1) = first + 1 + j := by omega
  constructor
  · rintro ⟨hlt, hcode, hfault⟩
    refine ⟨hcode 0 (Nat.succ_pos i), Nat.lt_of_succ_lt_succ hlt, fun j hj => ?_, ?_⟩
    · exact hshift j ▸ hcode (j + 1) (Nat.succ_lt_succ hj)
    · exact hshift i ▸ hfault
  · rintro ⟨hhead, hlt, hcode, hfault⟩
    refine ⟨Nat.succ_lt_succ hlt, fun j hj => ?_, hshift i ▸ hfault⟩
    cases j with
    | zero => exact hhead
    | succ j => exact hshift j ▸ hcode j (Nat.lt_of_succ_lt_succ hj)

section

theorem not_isTable (he : ¬ ∃ e, s.Entry table first e) :
    ¬ IsTable s table first (count + 1) slots := by
  intro h
  cases slots with
  | nil => exact he ((isTable_nil_iff.mp h).imp fun e h => h.1)
  | cons e rest => exact he ⟨e, (isTable_cons_iff.mp h).1⟩

theorem isFault_iff_of_unreadable (he : ¬ ∃ e, s.Entry table first e) :
    IsFault s table first (count + 1) i ↔ i = 0 := by
  cases i with
  | zero => exact iff_of_true (isFault_zero_iff.mpr he) rfl
  | succ i =>
    exact iff_of_false (fun h => he ((isFault_succ_iff.mp h).1.imp fun e h => h.1))
      (Nat.succ_ne_zero i)

variable (hs : s.Ordered) (he : s.Entry table first e)

include hs he

theorem isTable_iff_of_code (hcode : s.IsCode e) : IsTable s table first (count + 1) slots ↔
    ∃ rest, IsTable s table (first + 1) count rest ∧ e :: rest = slots := by
  constructor
  · intro h
    cases slots with
    | nil =>
      obtain ⟨e', he', hdata⟩ := isTable_nil_iff.mp h
      exact absurd (he.unique hs he' ▸ hcode) hdata
    | cons e' rest =>
      obtain ⟨he', -, hrest⟩ := isTable_cons_iff.mp h
      exact ⟨rest, hrest, congrArg (· :: rest) (he.unique hs he')⟩
  · rintro ⟨rest, hrest, rfl⟩
    exact isTable_cons_iff.mpr ⟨he, hcode, hrest⟩

theorem isTable_iff_of_data (hdata : ¬ s.IsCode e) :
    IsTable s table first (count + 1) slots ↔ slots = [] := by
  constructor
  · intro h
    cases slots with
    | nil => rfl
    | cons e' rest =>
      obtain ⟨he', hcode, -⟩ := isTable_cons_iff.mp h
      exact absurd (he.unique hs he' ▸ hcode) hdata
  · rintro rfl
    exact isTable_nil_iff.mpr ⟨e, he, hdata⟩

omit hs in
theorem isFault_iff_of_code (hcode : s.IsCode e) : IsFault s table first (count + 1) i ↔
    ∃ j, IsFault s table (first + 1) count j ∧ i = j + 1 := by
  constructor
  · intro h
    cases i with
    | zero => exact absurd ⟨e, he⟩ (isFault_zero_iff.mp h)
    | succ i => exact ⟨i, (isFault_succ_iff.mp h).2, rfl⟩
  · rintro ⟨j, hj, rfl⟩
    exact isFault_succ_iff.mpr ⟨⟨e, he, hcode⟩, hj⟩

theorem not_isFault (hdata : ¬ s.IsCode e) : ¬ IsFault s table first (count + 1) i := by
  intro h
  cases i with
  | zero => exact isFault_zero_iff.mp h ⟨e, he⟩
  | succ i =>
    obtain ⟨e', he', hcode⟩ := (isFault_succ_iff.mp h).1
    exact hdata (he.unique hs he' ▸ hcode)

end

theorem map_eq_ok_iff {α β : Type} {x : Outcome Error α} {g : α → β} {b : β} :
    x.map g = .ok b ↔ ∃ a, x = .ok a ∧ g a = b := by
  cases x with
  | error f => simp [Except.map]
  | ok a => simp [Except.map]

theorem map_eq_error_iff {α β : Type} {x : Outcome Error α} {g : α → β} :
    x.map g = .error f ↔ x = .error f := by
  cases x with
  | error f => simp [Except.map]
  | ok a => simp [Except.map]

section

variable (hs : s.Ordered) (hb : s.Backed)

include hs hb

theorem pointer_of_holds (h : s.HoldsWord a w) : pointer s owner a = .ok w := by
  rw [pointer, h.word_eq hs hb]

theorem pointer_of_not_holds (h : ¬ ∃ w, s.HoldsWord a w) :
    pointer s owner a = .error (.refused (.unreadable owner a)) := by
  obtain ⟨e, he⟩ := Space.exists_word_eq_refused hs hb h
  rw [pointer, he]

theorem entries_of_entry (he : s.Entry table first e) : entries s owner table (count + 1) first =
    match s.protectionAt? e with
    | some p =>
      if p.isCode then (entries s owner table count (first + 1)).map (e :: ·) else .ok []
    | none => .ok [] := by
  have hslot : Address.slot? table first = some (table + 8 * first) :=
    Address.slot?_eq_some_iff.mpr ⟨by have := he.fits; omega, rfl⟩
  rw [entries, hslot]
  dsimp only
  rw [pointer_of_holds hs hb he.holds]
  rfl

theorem entries_code (he : s.Entry table first e) (hcode : s.IsCode e) :
    entries s owner table (count + 1) first =
      (entries s owner table count (first + 1)).map (e :: ·) := by
  obtain ⟨p, hp, hpcode⟩ := (s.protectionAt?_isCode_iff hs).mpr hcode
  rw [entries_of_entry hs hb he, hp]
  exact if_pos hpcode

theorem entries_end (he : s.Entry table first e) (hcode : ¬ s.IsCode e) :
    entries s owner table (count + 1) first = .ok [] := by
  rw [entries_of_entry hs hb he]
  split
  case h_1 p hp =>
    exact if_neg fun hpcode => hcode ((s.protectionAt?_isCode_iff hs).mp ⟨p, hp, hpcode⟩)
  case h_2 => rfl

theorem entries_fault (he : ¬ ∃ e, s.Entry table first e) :
    entries s owner table (count + 1) first =
      .error (.refused (.unreadable owner (faultAt table first))) := by
  rw [entries]
  split
  case h_1 hslot =>
    rw [faultAt, if_neg (Nat.not_lt.mpr (Address.slot?_eq_none_iff.mp hslot))]
  case h_2 a hslot =>
    obtain ⟨hlt, rfl⟩ := Address.slot?_eq_some_iff.mp hslot
    have hnone : ¬ ∃ w, s.HoldsWord (table + 8 * first) w := by
      simpa only [Space.entry_iff] using he
    rw [pointer_of_not_holds hs hb hnone, faultAt, if_pos hlt]
    rfl

theorem entries_eq_ok_iff :
    entries s owner table count first = .ok slots ↔ IsTable s table first count slots := by
  induction count generalizing first slots with
  | zero => rw [entries, isTable_zero_iff, Except.ok.injEq, eq_comm]
  | succ count ih =>
    by_cases he : ∃ e, s.Entry table first e
    case neg =>
      rw [entries_fault hs hb he]
      exact iff_of_false (fun h => nomatch h) (not_isTable he)
    case pos =>
      obtain ⟨e, he⟩ := he
      by_cases hcode : s.IsCode e
      case pos =>
        rw [entries_code hs hb he hcode, map_eq_ok_iff, isTable_iff_of_code hs he hcode]
        simp only [ih]
      case neg =>
        rw [entries_end hs hb he hcode, isTable_iff_of_data hs he hcode, Except.ok.injEq, eq_comm]

theorem entries_eq_error_iff : entries s owner table count first = .error f ↔
    ∃ i, IsFault s table first count i
      ∧ f = .refused (.unreadable owner (faultAt table (first + i))) := by
  induction count generalizing first with
  | zero => exact iff_of_false (fun h => nomatch h) fun ⟨i, hi, _⟩ => Nat.not_lt_zero i hi.lt
  | succ count ih =>
    by_cases he : ∃ e, s.Entry table first e
    case neg =>
      rw [entries_fault hs hb he, Except.error.injEq, eq_comm]
      simp only [isFault_iff_of_unreadable he, exists_eq_left, Nat.add_zero]
    case pos =>
      obtain ⟨e, he⟩ := he
      by_cases hcode : s.IsCode e
      case pos =>
        have hshift (j : Nat) : first + (j + 1) = first + 1 + j := by omega
        rw [entries_code hs hb he hcode, map_eq_error_iff, ih]
        simp only [isFault_iff_of_code he hcode]
        constructor
        · rintro ⟨j, hj, rfl⟩
          exact ⟨j + 1, ⟨j, hj, rfl⟩, by rw [hshift j]⟩
        · rintro ⟨_, ⟨j, hj, rfl⟩, rfl⟩
          exact ⟨j, hj, by rw [hshift j]⟩
      case neg =>
        rw [entries_end hs hb he hcode]
        exact iff_of_false (fun h => nomatch h) fun ⟨i, hi, _⟩ => not_isFault hs he hcode hi

theorem read_of_holds (h : s.HoldsWord object table) :
    read s owner object count = entries s owner table count 0 := by
  rw [read, pointer_of_holds hs hb h]
  rfl

theorem read_of_not_holds (h : ¬ ∃ t, s.HoldsWord object t) :
    read s owner object count = .error (.refused (.unreadable owner object)) := by
  rw [read, pointer_of_not_holds hs hb h]
  rfl

theorem read_eq_ok_iff : read s owner object count = .ok slots ↔
    ∃ t, s.HoldsWord object t ∧ IsTable s t 0 count slots := by
  by_cases hobject : ∃ t, s.HoldsWord object t
  · obtain ⟨t, ht⟩ := hobject
    rw [read_of_holds hs hb ht, entries_eq_ok_iff hs hb]
    exact ⟨fun h => ⟨t, ht, h⟩, fun ⟨t', ht', h⟩ => ht.unique hs ht' ▸ h⟩
  · rw [read_of_not_holds hs hb hobject]
    exact iff_of_false (fun h => nomatch h) fun ⟨t, ht, _⟩ => hobject ⟨t, ht⟩

end

theorem IsFault.unreadable_faultAt (ht : s.HoldsWord object table)
    (h : IsFault s table 0 count i) : Unreadable s object count (faultAt table i) := by
  obtain ⟨hlt, hcode, hnone⟩ := h
  simp only [Nat.zero_add] at hcode hnone
  unfold faultAt
  split
  case isTrue hplace => exact .entry ht hlt hcode hplace (by simpa only [Space.entry_iff] using hnone)
  case isFalse hplace => exact .table ht hlt hcode (Nat.not_lt.mp hplace)

theorem Unreadable.exists_isFault (hs : s.Ordered) (ht : s.HoldsWord object table)
    (h : Unreadable s object count a) :
    ∃ i, IsFault s table 0 count i ∧ a = faultAt table i := by
  cases h with
  | object hnone => exact absurd ⟨table, ht⟩ hnone
  | @entry t i ht' hlt hcode hplace hnone =>
    obtain rfl := ht.unique hs ht'
    refine ⟨i, ⟨hlt, ?_, ?_⟩, (if_pos hplace).symm⟩
    · simpa only [Nat.zero_add] using hcode
    · simpa only [Nat.zero_add, Space.entry_iff] using hnone
  | @table t i ht' hlt hcode hplace =>
    obtain rfl := ht.unique hs ht'
    refine ⟨i, ⟨hlt, ?_, ?_⟩, (if_neg (Nat.not_lt.mpr hplace)).symm⟩
    · simpa only [Nat.zero_add] using hcode
    · rintro ⟨e, he⟩
      have hfits := he.fits
      omega

theorem read_eq_error_iff (hs : s.Ordered) (hb : s.Backed) :
    read s owner object count = .error f ↔
      ∃ a, Unreadable s object count a ∧ f = .refused (.unreadable owner a) := by
  by_cases hobject : ∃ t, s.HoldsWord object t
  · obtain ⟨t, ht⟩ := hobject
    rw [read_of_holds hs hb ht, entries_eq_error_iff hs hb]
    simp only [Nat.zero_add]
    constructor
    · rintro ⟨i, hi, rfl⟩
      exact ⟨_, hi.unreadable_faultAt ht, rfl⟩
    · rintro ⟨a, ha, rfl⟩
      obtain ⟨i, hi, rfl⟩ := ha.exists_isFault hs ht
      exact ⟨i, hi, rfl⟩
  · rw [read_of_not_holds hs hb hobject, Except.error.injEq, eq_comm]
    constructor
    · rintro rfl
      exact ⟨object, .object hobject, rfl⟩
    · rintro ⟨a, ha, rfl⟩
      cases ha with
      | object => rfl
      | entry ht => exact absurd ⟨_, ht⟩ hobject
      | table ht => exact absurd ⟨_, ht⟩ hobject

/-- Reading the table of an instance gives the slots up to the limit, or up to the first entry that
can be read and does not point to code, if the instance and all entries that far can be read.  If
not, the failure names the owner and the address that it is put down to. -/
theorem read_table (h : s.IsCaptured) (owner : String) (object max : Nat) :
    (∀ slots, read s owner object max = .ok slots ↔
      ∃ t, s.HoldsWord object t ∧ IsTable s t 0 max slots)
    ∧ ∀ f, read s owner object max = .error f ↔
      ∃ a, Unreadable s object max a ∧ f = .refused (.unreadable owner a) :=
  ⟨fun _ => read_eq_ok_iff h.ordered h.backed, fun _ => read_eq_error_iff h.ordered h.backed⟩

def cutTable : List Block := [
  ⟨0x1000, .readWrite, "instance", [0, 0x20, 0, 0, 0, 0, 0, 0]⟩,
  ⟨0x2000, .read, "table", [0, 0x30, 0, 0, 0, 0, 0, 0, 3, 0x30, 0, 0, 0, 0, 0, 0]⟩,
  ⟨0x3000, .readExecute, "code", [0x90, 0x40, 0x53, 0xC3]⟩]

theorem read_table_cutTable : ∃ s, Space.ofBlocks cutTable = .ok s
    ∧ (∃ t, s.HoldsWord 0x1000 t ∧ IsTable s t 0 2 [0x3000, 0x3003])
    ∧ Unreadable s 0x1000 3 0x2010 := by
  have hspace : Space.ofBlocks cutTable = .ok ⟨cutTable.map Block.mapping⟩ := by decide +kernel
  obtain ⟨hok, -⟩ := read_table ⟨cutTable, hspace⟩ "Class Game.Cut" 0x1000 2
  obtain ⟨-, herror⟩ := read_table ⟨cutTable, hspace⟩ "Class Game.Cut" 0x1000 3
  have hfault := (herror (.refused (.unreadable "Class Game.Cut" 0x2010))).mp (by decide +kernel)
  obtain ⟨a, ha, heq⟩ := hfault
  obtain rfl : 0x2010 = a := by simpa using heq
  exact ⟨_, hspace, (hok _).mp (by decide +kernel), ha⟩

end TypeAtlas.VirtualTable
