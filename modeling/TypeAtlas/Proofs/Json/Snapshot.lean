import TypeAtlas.Proofs.Json.Record
import TypeAtlas.Snapshot
import Mathlib.Tactic.MkIffOfInductiveProp

namespace TypeAtlas

open Json (Decoder Fields IsByte IsHalf IsWord)
open Json.Fields (Spells)

def PropertyKind.Fits : PropertyKind → Prop
  | .plain _ => True
  | .byte e => ∀ id ∈ e, IsHalf id
  | .bool m => IsByte m
  | .reference _ target => ∀ id ∈ target, IsHalf id
  | .struct id => IsHalf id
  | .array i => IsHalf i
  | .set i => IsHalf i
  | .map k v => IsHalf k ∧ IsHalf v
  | .unknown _ => True

@[mk_iff] structure Property.Fits (p : Property) : Prop where
  offset : IsWord p.offset
  elementSize : IsWord p.elementSize
  arrayDim : IsWord p.arrayDim
  flags : IsWord p.flags
  kind : p.kind.Fits

@[mk_iff] structure Aggregate.Fits (a : Aggregate) : Prop where
  super : ∀ id ∈ a.super, IsHalf id
  size : IsWord a.size
  children : ∀ id ∈ a.children, IsHalf id

@[mk_iff] structure Function.Fits (f : Function) : Prop where
  flags : IsHalf f.flags
  children : ∀ id ∈ f.children, IsHalf id

def ObjectKind.Fits : ObjectKind → Prop
  | .package => True
  | .enumeration _ => True
  | .constant _ => True
  | .scriptStruct a => a.Fits
  | .classType a => a.Fits
  | .function f => f.Fits
  | .property p => p.Fits

@[mk_iff] structure Object.Fits (o : Object) : Prop where
  id : IsHalf o.id
  index : IsHalf o.index
  outer : ∀ id ∈ o.outer, IsHalf id
  package : ∀ id ∈ o.package, IsHalf id
  address : IsWord o.address
  kind : o.kind.Fits

@[mk_iff] structure Snapshot.Fits (s : Snapshot) : Prop where
  objects : ∀ o ∈ s.objects, o.Fits
  memory : ∀ b ∈ s.memory, IsWord b.start

open Json.Decoder

namespace PropertyKind

theorem decode_encode {numbered : Bool} {k : PropertyKind} (h : k.Fits) :
    Decoder.tagged numbered Property.kindRoom variants k.encode = .ok k := by
  cases k with
  | plain t => cases t <;> exact tagged_record rfl (by simp) (by simp) rfl
  | byte e =>
    refine tagged_record rfl (by simp) (by simp) ?_
    rw [Spells.decode (.default (option_half h) .done) (by simp)]
  | bool m =>
    refine tagged_record rfl (by simp) (by simp) ?_
    rw [Spells.decode (.default (byte_natural h) .done) (by simp)]
  | reference how target =>
    have hkey : how.key ≠ "type" := by cases how <;> decide
    refine tagged_record (d := (referenceVariant how).2) (by cases how <;> rfl)
      (by simpa using hkey.symm) (by simp) ?_
    simp only [referenceVariant]
    rw [Spells.decode (.default (option_half h) .done) (by simp)]
  | struct id =>
    refine tagged_record rfl (by simp) (by simp) ?_
    rw [Spells.decode (.need (half_natural h) .done) (by simp)]
  | array i =>
    refine tagged_record rfl (by simp) (by simp) ?_
    rw [Spells.decode (.need (half_natural h) .done) (by simp)]
  | set i =>
    refine tagged_record rfl (by simp) (by simp) ?_
    rw [Spells.decode (.need (half_natural h) .done) (by simp)]
  | map k v =>
    refine tagged_record rfl (by simp) (by simp) ?_
    rw [Spells.decode (.need (half_natural h.1) (.need (half_natural h.2) .done))]
    simp
  | unknown n =>
    refine tagged_record rfl (by simp) (by simp) ?_
    rw [Spells.decode (.default (string_string n) .done) (by simp)]

theorem whole_encode (k : PropertyKind) {room : Nat} (hroom : 0 < room) :
    whole room k.encode = .ok () := by
  cases k <;> exact whole_record hroom (by simp)

end PropertyKind

theorem Property.decode_encode {nested : Bool} {p : Property} (h : p.Fits) :
    decode nested (.record p.encode) = .ok p := by
  unfold decode encode
  rw [Spells.decode (.need (word_natural h.offset) <| .need (word_natural h.elementSize)
    <| .default (word_natural h.arrayDim) <| .default (word_natural h.flags)
    <| .need (PropertyKind.decode_encode h.kind) .done) (by simp)]

theorem Aggregate.decode_encode {a : Aggregate} (h : a.Fits) :
    decode (.record a.encode) = .ok a := by
  unfold decode encode
  rw [Spells.decode (.default (option_half h.super) <| .need (word_natural h.size)
    <| .default (list_half h.children) .done) (by simp)]

theorem Function.decode_encode {f : Function} (h : f.Fits) :
    decode (.record f.encode) = .ok f := by
  unfold decode encode
  rw [Spells.decode (.default (half_natural h.flags) <| .default (list_half h.children) .done)
    (by simp)]

namespace ObjectKind

theorem room_pos : 0 < room - 1 := by decide

theorem whole_aggregate {a : Aggregate} : ∀ m ∈ a.encode, whole (room - 1) m.2 = .ok () := by
  simp [Aggregate.encode, whole_list room_pos]

theorem decode_encode {k : ObjectKind} (h : k.Fits) :
    Decoder.tagged false room variants k.encode = .ok k := by
  cases k with
  | package => exact tagged_record rfl (by simp) (by simp) rfl
  | enumeration names =>
    refine tagged_record rfl (by simp) (by simp [whole_list room_pos]) ?_
    rw [Spells.decode (.need (list_map fun n _ => string_string n) .done) (by simp)]
  | constant value =>
    refine tagged_record rfl (by simp) (by simp) ?_
    rw [Spells.decode (.need (string_string value) .done) (by simp)]
  | scriptStruct a =>
    refine tagged_record rfl (by simp [Aggregate.encode]) whole_aggregate ?_
    rw [Aggregate.decode_encode h]
    rfl
  | classType a =>
    refine tagged_record rfl (by simp [Aggregate.encode]) whole_aggregate ?_
    rw [Aggregate.decode_encode h]
    rfl
  | function f =>
    refine tagged_record rfl (by simp [Function.encode])
      (by simp [Function.encode, whole_list room_pos]) ?_
    rw [Function.decode_encode h]
    rfl
  | property p =>
    refine tagged_record rfl (by simp [Property.encode])
      (by simp [Property.encode, p.kind.whole_encode room_pos]) ?_
    rw [Property.decode_encode h]
    rfl

end ObjectKind

theorem Object.decode_encode {o : Object} (h : o.Fits) : decode o.encode = .ok o := by
  unfold decode encode
  rw [Spells.decode (.need (half_natural h.id) <| .default (half_natural h.index)
    <| .need (string_string o.name) <| .default (option_string o.nativeName)
    <| .need (string_string o.fullName) <| .default (option_half h.outer)
    <| .default (option_half h.package) <| .default (word_natural h.address)
    <| .need (ObjectKind.decode_encode h.kind) .done) (by simp)]

theorem Block.decode_encode {b : Block} (h : IsWord b.start) : decode b.encode = .ok b := by
  have hbytes : Decoder.list .byte (.list (b.bytes.map fun c => .natural c.toNat)) =
      .ok (b.bytes.map UInt8.toNat) := by
    have hall : ∀ n ∈ b.bytes.map UInt8.toNat, Decoder.byte (.natural n) = .ok n := by
      intro n hn
      obtain ⟨c, _, rfl⟩ := List.mem_map.mp hn
      exact byte_natural c.toNat_lt
    have hlist := list_map hall
    rwa [List.map_map] at hlist
  unfold decode encode
  rw [Spells.decode (.need (word_natural h) <| .need (variant_string b.protection.ofName?_name)
    <| .default (string_string b.name) <| .need hbytes .done) (by simp)]
  simp [Function.comp_def]

theorem Snapshot.ofDocument_encode (s : Snapshot) (h : s.Fits) :
    ofDocument ⟨s.encode, false⟩ = .ok s := by
  have hdecode : decode s.encode = .ok s := by
    unfold decode encode
    rw [Spells.decode (.need (list_map fun o ho => Object.decode_encode (h.objects o ho))
      <| .default (list_map fun b hb => Block.decode_encode (h.memory b hb)) .done) (by simp)]
  simp [ofDocument, Decoder.document, hdecode]

def Snapshot.actor : Snapshot where
  objects := [
    ⟨1, 0, "Engine", none, "Package Engine", none, none, 0, .package⟩,
    ⟨2, 1, "Actor", some "AActor", "Class Engine.Actor", some 1, some 1, 0x1000,
      .classType ⟨none, 64, [3, 4]⟩⟩,
    ⟨3, 2, "Tick", none, "Function Engine.Actor.Tick", some 2, some 1, 0, .function ⟨1, []⟩⟩,
    ⟨4, 3, "bHidden", none, "BoolProperty Engine.Actor.bHidden", some 2, some 1, 0,
      .property ⟨56, 1, 1, 5, .bool 2⟩⟩]
  memory := [⟨0x1000, .readWrite, "heap", [0, 255]⟩]

theorem Snapshot.ofDocument_encode_actor :
    actor.Fits ∧ ofDocument ⟨actor.encode, false⟩ = .ok actor := by
  have h : actor.Fits := by
    simp [actor, fits_iff, Object.fits_iff, ObjectKind.Fits, Aggregate.fits_iff,
      Function.fits_iff, Property.fits_iff, PropertyKind.Fits, IsByte, IsHalf, IsWord, Word.bound]
  exact ⟨h, ofDocument_encode actor h⟩

end TypeAtlas
