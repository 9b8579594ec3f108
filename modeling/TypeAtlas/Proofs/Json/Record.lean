import TypeAtlas.Json.Decode
import Mathlib.Data.List.Nodup

namespace TypeAtlas.Json

variable {α : Type} {d : Decoder α} {f : α → Json} {as : List α} {a : α} {o : Option α} {v : Json}
  {n bound room : Nat} {ms : List (String × Json)}

abbrev IsByte (n : Nat) : Prop := n < 1 <<< 8

abbrev IsHalf (n : Nat) : Prop := n < 1 <<< 32

abbrev IsWord (n : Nat) : Prop := n < Word.bound

namespace Decoder

theorem naturalBelow_natural (h : n < bound) : naturalBelow bound (.natural n) = .ok n :=
  if_pos h

theorem byte_natural (h : IsByte n) : byte (.natural n) = .ok n := naturalBelow_natural h

theorem half_natural (h : IsHalf n) : half (.natural n) = .ok n := naturalBelow_natural h

theorem word_natural (h : IsWord n) : word (.natural n) = .ok n := naturalBelow_natural h

theorem string_string (s : String) : string (.string s) = .ok s := rfl

theorem bool_bool (b : Bool) : bool (.bool b) = .ok b := rfl

theorem option_of_ne_null (h : v ≠ .null) : option d v = (d v).map some := by
  unfold option
  split
  · exact absurd rfl h
  · rfl

theorem option_ofOption (hf : ∀ a, f a ≠ .null) (h : ∀ a ∈ o, d (f a) = .ok a) :
    option d (.ofOption f o) = .ok o := by
  cases o with
  | none => rfl
  | some a =>
    rw [ofOption, option_of_ne_null (hf a), h a rfl]
    rfl

theorem option_half {o : Option Nat} (h : ∀ n ∈ o, IsHalf n) :
    option half (.ofOption .natural o) = .ok o :=
  option_ofOption (by simp) fun n hn => half_natural (h n hn)

theorem option_string (o : Option String) : option string (.ofOption .string o) = .ok o :=
  option_ofOption (by simp) fun s _ => string_string s

theorem list_map (h : ∀ a ∈ as, d (f a) = .ok a) : list d (.list (as.map f)) = .ok as := by
  have hall : (as.map f).mapM d = .ok as := by
    induction as with
    | nil => rfl
    | cons a as ih =>
      rw [List.map_cons, List.mapM_cons, h a (by simp),
        ih fun a ha => h a (List.mem_cons_of_mem _ ha)]
      rfl
  simp only [list, hall]
  rfl

theorem list_half {ns : List Nat} (h : ∀ n ∈ ns, IsHalf n) :
    list half (.list (ns.map .natural)) = .ok ns :=
  list_map fun n hn => half_natural (h n hn)

theorem entries_map {t done : Table α} (h : ∀ e ∈ t, d (f e.2) = .ok e.2)
    (hn : ((done ++ t).map Prod.fst).Nodup) :
    entries d done (t.map fun e => (some e.1, f e.2)) = .ok (done ++ t) := by
  induction t generalizing done with
  | nil => simp [entries]
  | cons e t ih =>
    simp only [List.map_cons, entries, h e (by simp),
      Table.insert_of_notMem (Table.notMem_of_nodup hn)]
    rw [ih (fun e he => h e (List.mem_cons_of_mem _ he)) (by simpa using hn)]
    simp

theorem table_record {t : Table α} (h : ∀ e ∈ t, d (f e.2) = .ok e.2)
    (hn : (t.map Prod.fst).Nodup) : table d (.record (t.map fun e => (e.1, f e.2))) = .ok t := by
  have hall : entries d [] (t.map fun e => (some e.1, f e.2)) = .ok ([] ++ t) := entries_map h hn
  simp only [table, record, List.map_map, Function.comp_def]
  rw [hall]
  rfl

theorem variant_string {ofName? : String → Option α} {s : String} (h : ofName? s = some a) :
    variant ofName? (.string s) = .ok a := by
  simp [variant, h]

@[simp] theorem whole_natural : whole room (.natural n) = .ok () := by
  simp [whole, wantBreak?]

@[simp] theorem whole_string {s : String} : whole room (.string s) = .ok () := by
  simp [whole, wantBreak?]

@[simp] theorem whole_null : whole room .null = .ok () := by
  simp [whole, wantBreak?]

@[simp] theorem whole_ofOption_natural {o : Option Nat} :
    whole room (.ofOption .natural o) = .ok () := by
  cases o <;> simp [ofOption]

theorem whole_list (hroom : 0 < room) (h : ∀ a ∈ as, whole (room - 1) (f a) = .ok ()) :
    whole room (.list (as.map f)) = .ok () := by
  have hall : wholeItems (room - 1) (as.map f) = .ok () := by
    induction as with
    | nil => simp [wholeItems]
    | cons a as ih =>
      simp [wholeItems, h a, ih fun a ha => h a (List.mem_cons_of_mem _ ha)]
  simp [whole, Nat.ne_of_gt hroom, hall, afterParts]

theorem whole_record (hroom : 0 < room) (h : ∀ m ∈ ms, whole (room - 1) m.2 = .ok ()) :
    whole room (.record ms) = .ok () := by
  have hall : wholeMembers (room - 1) (ms.map fun m => (some m.1, m.2)) = .ok () := by
    induction ms with
    | nil => simp [wholeMembers]
    | cons m ms ih =>
      simp [wholeMembers, h m, ih fun m hm => h m (List.mem_cons_of_mem _ hm)]
  simp [whole, record, Nat.ne_of_gt hroom, hall, afterParts]

end Decoder

namespace Fields

inductive Spells : {τ : Type} → Fields τ → List (String × Json) → τ → Prop
  | done : Spells .done [] ()
  | field {α β : Type} {name : String} {d : Decoder α} {absent : Option α} {rest : Fields β}
      {v : Json} {a : α} {ms : List (String × Json)} {b : β} : d v = .ok a → Spells rest ms b →
      Spells (.field name d absent none rest) ((name, v) :: ms) (a, b)

variable {τ : Type} {fs : Fields τ} {x : τ} {name : String}

theorem Spells.need (ha : d v = .ok a) (h : Spells fs ms x) :
    Spells (.need name d fs) ((name, v) :: ms) (a, x) :=
  .field ha h

theorem Spells.default {absent : α} (ha : d v = .ok a) (h : Spells fs ms x) :
    Spells (.default name d absent fs) ((name, v) :: ms) (a, x) :=
  .field ha h

theorem putAll_field {absent found : Option α} (h : name ∉ ms.map Prod.fst) :
    (field name d absent found fs).putAll (ms.map fun m => (some m.1, m.2)) =
      (fs.putAll (ms.map fun m => (some m.1, m.2))).map (field name d absent found) := by
  induction ms generalizing fs with
  | nil => rfl
  | cons m ms ih =>
    simp only [List.map_cons, List.mem_cons, not_or] at h
    simp only [List.map_cons, putAll, put, if_neg h.1]
    cases fs.put m.1 m.2 with
    | error e => rfl
    | ok fs => exact ih h.2

theorem Spells.exists_putAll (h : Spells fs ms x) (hn : (ms.map Prod.fst).Nodup) :
    ∃ found, fs.putAll (ms.map fun m => (some m.1, m.2)) = .ok found ∧ found.close = .ok x := by
  induction h with
  | done => exact ⟨_, rfl, rfl⟩
  | @field α β name d absent rest v a ms b ha _ ih =>
    obtain ⟨hnew, hn⟩ := List.nodup_cons.mp hn
    obtain ⟨found, hput, hclose⟩ := ih hn
    refine ⟨.field name d absent (some a) found, ?_, by simp [close, hclose]⟩
    simp only [List.map_cons, putAll, put, if_true, Option.isSome_none, Bool.false_eq_true,
      if_false, ha]
    rw [putAll_field hnew, hput]
    rfl

theorem Spells.decode (h : Spells fs ms x) (hn : (ms.map Prod.fst).Nodup) :
    fs.decode (.record ms) = .ok x := by
  obtain ⟨found, hput, hclose⟩ := h.exists_putAll hn
  simp only [Fields.decode, record]
  rw [hput]
  exact hclose

end Fields

namespace Decoder

variable {numbered : Bool} {variants : List (Variant α)} {name : String}

theorem findTag_of_found {tag : α} (hkeys : "type" ∉ ms.map Prod.fst)
    (hwhole : ∀ m ∈ ms, whole room m.2 = .ok ()) :
    findTag d room (some tag) (ms.map fun m => (some m.1, m.2)) = .ok (some tag) := by
  induction ms with
  | nil => rfl
  | cons m ms ih =>
    simp only [List.map_cons, List.mem_cons, not_or] at hkeys
    simp only [List.map_cons, findTag, if_neg (Ne.symm hkeys.1), hwhole m (by simp)]
    exact ih hkeys.2 fun m hm => hwhole m (List.mem_cons_of_mem _ hm)

theorem tagged_record (hfind : variants.find? (·.1 = name) = some (name, d))
    (hkeys : "type" ∉ ms.map Prod.fst) (hwhole : ∀ m ∈ ms, whole (room - 1) m.2 = .ok ())
    (h : d (.record ms) = .ok a) :
    tagged numbered room variants (.record (("type", .string name) :: ms)) = .ok a := by
  have htag : tag numbered variants (.string name) = .ok d := by
    simp only [tag, hfind]
  have hfound : findTag (tag numbered variants) (room - 1) none
      ((some "type", .string name) :: ms.map fun m => (some m.1, m.2)) = .ok (some d) := by
    simp only [findTag, if_true, htag]
    exact findTag_of_found hkeys hwhole
  have hrest : ((some "type", Json.string name) :: ms.map fun m => (some m.1, m.2)).filter
      (·.1 ≠ some "type") = ms.map fun m => (some m.1, m.2) := by
    rw [List.filter_cons_of_neg (by simp), List.filter_eq_self]
    intro e he
    obtain ⟨m, hm, rfl⟩ := List.mem_map.mp he
    have hne : m.1 ≠ "type" := fun heq => hkeys (heq ▸ List.mem_map_of_mem hm)
    simpa using hne
  rw [record] at h
  simp only [record, List.map_cons, tagged, hfound, hrest, settled, h]

end Decoder

end TypeAtlas.Json
