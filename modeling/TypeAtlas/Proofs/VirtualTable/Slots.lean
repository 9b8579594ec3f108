import TypeAtlas.Proofs.Memory.Lengths
import TypeAtlas.Proofs.Pattern.Search
import TypeAtlas.Proofs.Text.Replaced
import TypeAtlas.Proofs.VirtualTable.Entries

namespace TypeAtlas

variable {s : Space} {p : Pattern} {m : Mapping} {window n o : Nat} {a : Address}
  {table : List Address}

theorem Pattern.occursAt_map_range {byte : Nat → UInt8} :
    p.OccursAt ((List.range n).map byte) o ↔ o + p.length ≤ n
      ∧ ∀ (k : Nat) (c : Cell), p.cells[k]? = some c → c.accepts (byte (o + k)) = true := by
  have hget (hfits : o + p.length ≤ n) {k : Nat} {c : Cell} (hc : p.cells[k]? = some c) :
      ((List.range n).map byte)[o + k]? = some (byte (o + k)) := by
    have hk : k < p.length := (List.getElem?_eq_some_iff.mp hc).1
    rw [List.getElem?_map, List.getElem?_range (by omega), Option.map_some]
  constructor
  · intro h
    have hfits : o + p.length ≤ n := by simpa using h.fits
    refine ⟨hfits, fun k c hc => ?_⟩
    obtain ⟨b, hb, haccepts⟩ := occursAt_iff.mp h k c hc
    obtain rfl := Option.some.inj ((hget hfits hc).symm.trans hb)
    exact haccepts
  · rintro ⟨hfits, haccepts⟩
    exact occursAt_iff.mpr fun k c hc => ⟨_, hget hfits hc, haccepts k c hc⟩

namespace Space

def OccursFrom (s : Space) (window : Nat) (p : Pattern) (a : Address) : Prop :=
  ∃ m ∈ s.mappings, m.region.contains a = true
    ∧ ∃ o, o + p.length ≤ min window (m.region.range.remaining a)
      ∧ ∀ (k : Nat) (c : Cell), p.cells[k]? = some c → c.accepts (m.byteAt (a + (o + k))) = true

variable (hs : s.Ordered) (hb : s.Backed)

include hs

theorem occursFrom_iff (hm : s.Readable a m) : s.OccursFrom window p a ↔ ∃ o, p.OccursAt
    ((List.range (min window (m.region.range.remaining a))).map fun i => m.byteAt (a + i)) o := by
  simp only [Pattern.occursAt_map_range]
  constructor
  · rintro ⟨m', hmem, hcontains, hoccurs⟩
    have hfind := hs.find?_eq_some_iff.mpr ⟨hmem, hcontains⟩
    rw [hm.find?_eq hs] at hfind
    exact Option.some.inj hfind ▸ hoccurs
  · exact fun h => ⟨m, hm.mem, hm.contains, h⟩

include hb

theorem search_eq (hm : s.Readable a m) (hw : 0 < window) : s.search p a window = .ok (p.find?
    ((List.range (min window (m.region.range.remaining a))).map fun i => m.byteAt (a + i))) := by
  have hpos := hm.remaining_pos
  have hread := (read_eq_ok_iff hs hb).mpr ⟨m, hm, Nat.min_le_right window _, rfl⟩
  have hlength : min window (m.region.range.remaining a) ≠ 0 := by omega
  rw [search, readableLength_eq hs hm]
  simp only [if_neg hlength, hread]
  rfl

theorem exists_search (hp : p.cells.any Cell.counts = true) (hm : s.Readable a m)
    (hw : 0 < window) : ∃ found, s.search p a window = .ok found
      ∧ (found.isSome = true ↔ s.OccursFrom window p a) := by
  refine ⟨_, search_eq hs hb hm hw, ?_⟩
  rw [Option.isSome_iff_exists, Pattern.exists_find?_iff_of_counts hp, occursFrom_iff hs hm]

end Space

namespace VirtualTable

def slotsOf (s : Space) (window : Nat) (table : List Address) (p : Pattern) : Set Nat :=
  {i | ∃ a, table[i]? = some a ∧ s.OccursFrom window p a}

/-- The methods for functions: for each one that is found an inline method, whose body is the
template with the number of the first such slot in place of its marks. -/
inductive Binds (s : Space) (window : Nat) (table : List Address) :
    List VirtualFunction → List ExtraMethod → Prop
  | nil : Binds s window table [] []
  | found {f : VirtualFunction} {fs : List VirtualFunction} {ms : List ExtraMethod} {i : Nat}
      {body : String} : IsLeast (slotsOf s window table f.pattern) i →
      Replaced VirtualFunction.slotMark (toString i).toList f.template.toList body.toList →
      Binds s window table fs ms → Binds s window table (f :: fs) (.inline body :: ms)
  | missing {f : VirtualFunction} {fs : List VirtualFunction} {ms : List ExtraMethod} :
      slotsOf s window table f.pattern = ∅ → Binds s window table fs ms →
      Binds s window table (f :: fs) ms

variable {functions : List VirtualFunction} {ms ms' : List ExtraMethod} {owner : String}
  {object slots : Nat}

theorem replaced_render (f : VirtualFunction) (i : Nat) :
    Replaced VirtualFunction.slotMark (toString i).toList f.template.toList
      (f.render i).toList := by
  rw [VirtualFunction.render, String.toList_ofList]
  exact replaced_substitute (by decide) 0 _

theorem Binds.unique (h : Binds s window table functions ms)
    (h' : Binds s window table functions ms') : ms = ms' := by
  induction h generalizing ms' with
  | nil =>
    cases h'
    rfl
  | found hi hbody _ ih =>
    cases h' with
    | found hi' hbody' hrest =>
      obtain rfl := hi.unique hi'
      rw [String.toList_inj.mp (hbody.unique hbody'), ih hrest]
    | missing hnone _ => exact absurd hi.1 (hnone ▸ Set.notMem_empty _)
  | missing hnone _ ih =>
    cases h' with
    | found hi _ _ => exact absurd hi.1 (hnone ▸ Set.notMem_empty _)
    | missing _ hrest => exact ih hrest

theorem isLeast_slotsOf_cons (h : ¬ s.OccursFrom window p a) {i : Nat} :
    IsLeast (slotsOf s window (a :: table) p) (i + 1) ↔ IsLeast (slotsOf s window table p) i :=
  isLeast_succ_iff fun ⟨_, hfirst, hoccurs⟩ => h (Option.some.inj hfirst ▸ hoccurs)

section

variable (hs : s.Ordered) (hb : s.Backed) (hw : 0 < window)
  (htable : ∀ a ∈ table, ∃ m, s.Readable a m)

include hs hb hw htable

theorem exists_firstSlot? (hp : p.cells.any Cell.counts = true) (index : Nat) :
    ∃ slot, firstSlot? s window p index table = .ok slot
      ∧ ∀ n, slot = some n ↔ ∃ i, n = index + i ∧ IsLeast (slotsOf s window table p) i := by
  induction table generalizing index with
  | nil =>
    refine ⟨none, rfl, fun n => iff_of_false (fun h => nomatch h) ?_⟩
    rintro ⟨i, -, ⟨a, ha, -⟩, -⟩
    cases ha
  | cons a rest ih =>
    obtain ⟨m, hm⟩ := htable a List.mem_cons_self
    obtain ⟨found, hsearch, hfound⟩ := s.exists_search hs hb hp hm hw
    rw [firstSlot?, hsearch]
    cases found with
    | some o =>
      have hzero : IsLeast (slotsOf s window (a :: rest) p) 0 :=
        ⟨⟨a, rfl, hfound.mp rfl⟩, fun _ _ => Nat.zero_le _⟩
      refine ⟨some index, rfl, fun n => ⟨?_, ?_⟩⟩
      · rintro ⟨⟩
        exact ⟨0, rfl, hzero⟩
      · rintro ⟨i, rfl, hi⟩
        rw [hi.unique hzero, Nat.add_zero]
    | none =>
      have hhere : ¬ s.OccursFrom window p a := fun h => nomatch hfound.mpr h
      obtain ⟨slot, hslot, hleast⟩ :=
        ih (fun a ha => htable a (List.mem_cons_of_mem _ ha)) (index + 1)
      refine ⟨slot, hslot, fun n => (hleast n).trans ⟨?_, ?_⟩⟩
      · rintro ⟨i, rfl, hi⟩
        exact ⟨i + 1, by omega, (isLeast_slotsOf_cons hhere).mpr hi⟩
      · rintro ⟨i, rfl, hi⟩
        cases i with
        | zero =>
          obtain ⟨b, hb, hoccurs⟩ := hi.1
          exact absurd (Option.some.inj hb ▸ hoccurs) hhere
        | succ i => exact ⟨i, by omega, (isLeast_slotsOf_cons hhere).mp hi⟩

theorem exists_mapM (hf : ∀ f ∈ functions, f.pattern.cells.any Cell.counts = true) :
    ∃ found, functions.mapM (fun f => do
        return (← firstSlot? s window f.pattern 0 table).map fun i =>
          ExtraMethod.inline (f.render i)) = .ok found
      ∧ Binds s window table functions (found.filterMap id) := by
  induction functions with
  | nil => exact ⟨[], rfl, .nil⟩
  | cons f functions ih =>
    obtain ⟨slot, hslot, hleast⟩ := exists_firstSlot? hs hb hw htable (hf f List.mem_cons_self) 0
    obtain ⟨found, hfound, hbinds⟩ := ih fun f hf' => hf f (List.mem_cons_of_mem _ hf')
    refine ⟨slot.map (fun i => .inline (f.render i)) :: found, ?_, ?_⟩
    · rw [List.mapM_cons, hslot, hfound]
      rfl
    · cases slot with
      | none =>
        refine .missing (Set.eq_empty_iff_forall_notMem.mpr fun i hi => ?_) hbinds
        obtain ⟨i, hi⟩ := exists_isLeast ⟨i, hi⟩
        exact nomatch (hleast (0 + i)).mpr ⟨i, rfl, hi⟩
      | some n =>
        obtain ⟨i, rfl, hi⟩ := (hleast n).mp rfl
        rw [Nat.zero_add]
        exact .found hi (replaced_render f i) hbinds

end

theorem IsTable.readable {t first count : Nat} (h : IsTable s t first count table) :
    ∀ a ∈ table, ∃ m, s.Readable a m := by
  intro a ha
  obtain ⟨i, hi⟩ := List.getElem?_of_mem ha
  obtain ⟨-, m, hm, -⟩ := h.code i a hi
  exact ⟨m, hm⟩

theorem methods_of_error {e : Failure Error} (h : read s owner object slots = .error e) :
    methods s window slots owner object functions = .error e := by
  rw [methods, h]
  rfl

theorem exists_methods (hs : s.Ordered) (hb : s.Backed) (hw : 0 < window)
    (hf : ∀ f ∈ functions, f.pattern.cells.any Cell.counts = true)
    (h : read s owner object slots = .ok table) :
    ∃ ms, methods s window slots owner object functions = .ok ms
      ∧ Binds s window table functions ms := by
  obtain ⟨t, -, htable⟩ := (read_eq_ok_iff hs hb).mp h
  obtain ⟨found, hfound, hbinds⟩ := exists_mapM hs hb hw htable.readable hf
  refine ⟨_, ?_, hbinds⟩
  rw [methods, h]
  simp only [bind, Except.bind] at hfound ⊢
  rw [hfound]
  rfl

/-- In a memory that is made of captured blocks, the methods for functions whose patterns have been
read from text are refused only where the table is, and for the same reason.  From a table that is
read each function that is found gets its method, bound to the first slot that shows it. -/
theorem methods_bound (h : s.IsCaptured) (hw : 0 < window) (owner : String) (object slots : Nat)
    (hf : ∀ f ∈ functions, ∃ text, Pattern.parse text = .ok f.pattern) :
    (∀ e, methods s window slots owner object functions = .error e ↔
      read s owner object slots = .error e)
    ∧ ∀ ms, methods s window slots owner object functions = .ok ms ↔
      ∃ table, read s owner object slots = .ok table ∧ Binds s window table functions ms := by
  have hcounts (f : VirtualFunction) (hmem : f ∈ functions) :
      f.pattern.cells.any Cell.counts = true := by
    obtain ⟨text, htext⟩ := hf f hmem
    exact (Pattern.shown_of_parse htext).2
  cases hread : read s owner object slots with
  | error e =>
    rw [methods_of_error hread]
    refine ⟨fun f => by rw [Except.error.injEq, Except.error.injEq], fun ms => ?_⟩
    exact iff_of_false (fun h => nomatch h) fun ⟨_, h, _⟩ => nomatch h
  | ok table =>
    obtain ⟨ms, hms, hbinds⟩ := exists_methods h.ordered h.backed hw hcounts hread
    rw [hms]
    refine ⟨fun e => iff_of_false (fun h => nomatch h) (fun h => nomatch h), fun ms' => ?_⟩
    constructor
    · rintro ⟨⟩
      exact ⟨table, rfl, hbinds⟩
    · rintro ⟨_, ⟨⟩, hbinds'⟩
      rw [hbinds.unique hbinds']

def cutFunctions : List VirtualFunction := [
  ⟨⟨[⟨0xC3, true⟩], by decide⟩, "Ret(\x7bindex\x7d, \x7bindex\x7d)"⟩,
  ⟨⟨[⟨0x53, true⟩], by decide⟩, "Push(\x7bindex\x7d)"⟩,
  ⟨⟨[⟨0x90, true⟩, Cell.wild], by decide⟩, "Nop(\x7bindex\x7d)"⟩]

theorem methods_bound_cutTable : ∃ s, Space.ofBlocks cutTable = .ok s
    ∧ (∀ f ∈ cutFunctions, ∃ text, Pattern.parse text = .ok f.pattern)
    ∧ ∃ table, read s "Class Game.Cut" 0x1000 2 = .ok table
      ∧ Binds s 2 table cutFunctions [.inline "Ret(1, 1)", .inline "Nop(0)"] := by
  have hspace : Space.ofBlocks cutTable = .ok ⟨cutTable.map Block.mapping⟩ := by decide +kernel
  have hparse : ∀ f ∈ cutFunctions, ∃ text, Pattern.parse text = .ok f.pattern := by
    simp only [cutFunctions, List.forall_mem_cons, List.not_mem_nil, false_imp_iff, implies_true,
      and_true]
    exact ⟨⟨"C3", by decide +kernel⟩, ⟨"53", by decide +kernel⟩, ⟨"90 ?", by decide +kernel⟩⟩
  have hwindow : 0 < 2 := by decide
  obtain ⟨-, hok⟩ := methods_bound ⟨cutTable, hspace⟩ hwindow "Class Game.Cut" 0x1000 2 hparse
  exact ⟨_, hspace, hparse, (hok _).mp (by decide +kernel)⟩

end VirtualTable

end TypeAtlas
