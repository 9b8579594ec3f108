import TypeAtlas.Proofs.Json.Record
import TypeAtlas.Proofs.Json.Yields
import TypeAtlas.Proofs.Pattern.Text
import TypeAtlas.Policy

namespace TypeAtlas

open Json (Decoder Fields IsWord)
open Json.Decoder
open Json.Fields (Spells)

theorem ExtraMember.decode_encode (m : ExtraMember) : decode m.encode = .ok m := by
  unfold decode encode
  rw [Spells.decode (.need (string_string m.type) <| .need (string_string m.name) .done) (by simp)]

theorem MethodForm.ofName?_name (f : MethodForm) : ofName? f.name = some f := by
  cases f <;> rfl

theorem ExtraMethod.decode_encode (m : ExtraMethod) : decode m.encode = .ok m := by
  unfold decode encode
  rw [Spells.decode (.need (variant_string m.form.ofName?_name)
    <| .default (string_string m.signature) <| .need (string_string m.body) .done) (by simp)]

def Pattern.IsRead (p : Pattern) : Prop := parse p.text = .ok p

theorem Pattern.decode_text {p : Pattern} (h : p.IsRead) : decode (.string p.text) = .ok p := by
  simp only [decode, string_string, show parse p.text = .ok p from h]

theorem Pattern.yields_decode : Decoder.Yields decode IsRead := by
  intro v p h
  unfold decode at h
  split at h
  · cases h
  · split at h
    · rename_i hparse
      cases h
      exact parse_text_of_parse hparse
    · cases h

theorem VirtualFunction.decode_encode {f : VirtualFunction} (h : f.pattern.IsRead) :
    decode f.encode = .ok f := by
  unfold decode encode
  rw [Spells.decode (.need (Pattern.decode_text h) <| .need (string_string f.template) .done)
    (by simp)]

theorem VirtualFunction.yields_decode : Decoder.Yields decode fun f => f.pattern.IsRead := by
  intro v f h
  unfold decode at h
  split at h
  · rename_i hfields
    cases h
    exact (Fields.Yields.need Pattern.yields_decode (.need (.any _) .done)).decode v _ hfields |>.1
  · cases h

namespace Policy

theorem table_encodeTable {α : Type} {d : Decoder α} {f : α → Json} {t : Table α}
    (h : ∀ e ∈ t, d (f e.2) = .ok e.2) (hn : (t.map Prod.fst).Nodup) :
    Decoder.table d (encodeTable f t) = .ok t :=
  table_record h hn

/-- What loading sees to: numbers are words, no name stands twice in a table, and patterns come from
a text. -/
structure IsLoaded (p : Policy) : Prop where
  alignment : IsWord p.alignment
  typeOverrides : IsTableOf (fun _ => True) p.typeOverrides
  alignas : IsTableOf IsWord p.alignas
  members : IsTableOf (fun _ => True) p.members
  staticMembers : IsTableOf (fun _ => True) p.staticMembers
  methods : IsTableOf (fun _ => True) p.methods
  virtualFunctions : IsTableOf (fun fs => ∀ f ∈ fs, f.pattern.IsRead) p.virtualFunctions

theorem yields_decode : Decoder.Yields decode IsLoaded := by
  intro v p h
  unfold decode at h
  split at h
  · rename_i hfields
    cases h
    have hnone {α : Type} {P : α → Prop} : IsTableOf P [] := ⟨by simp, by simp⟩
    have hall := (Fields.Yields.default (.any string) trivial
      <| .default (.any bool) trivial <| .default (.any bool) trivial
      <| .default (.any bool) trivial <| .default (yields_naturalBelow _) (by decide)
      <| .default (.table (.any string)) hnone
      <| .default (.table (yields_naturalBelow _)) hnone
      <| .default (.table (.any _)) hnone <| .default (.table (.any _)) hnone
      <| .default (.table (.any _)) hnone
      <| .default (.table (.list VirtualFunction.yields_decode)) hnone .done).decode v _ hfields
    obtain ⟨_, _, _, _, halignment, htypes, halignas, hmembers, hstatic, hmethods, hvirtual, _⟩ :=
      hall
    exact ⟨halignment, htypes, halignas, hmembers, hstatic, hmethods, hvirtual⟩
  · cases h

theorem decode_encode {p : Policy} (h : p.IsLoaded) : decode p.encode = .ok p := by
  unfold decode encode
  rw [Spells.decode (.default (string_string p.shortName) <| .default (bool_bool p.emptyFiles)
    <| .default (bool_bool p.useStrings) <| .default (bool_bool p.xorStrings)
    <| .default (word_natural h.alignment)
    <| .default (table_encodeTable (fun e _ => string_string e.2) h.typeOverrides.nodup)
    <| .default (table_encodeTable (fun e he => word_natural (h.alignas.entries e he))
      h.alignas.nodup)
    <| .default (table_encodeTable (fun e _ => list_map fun m _ => m.decode_encode)
      h.members.nodup)
    <| .default (table_encodeTable (fun e _ => list_map fun m _ => m.decode_encode)
      h.staticMembers.nodup)
    <| .default (table_encodeTable (fun e _ => list_map fun m _ => m.decode_encode)
      h.methods.nodup)
    <| .default (table_encodeTable (fun e he => list_map fun f hf =>
      VirtualFunction.decode_encode (h.virtualFunctions.entries e he f hf))
      h.virtualFunctions.nodup) .done) (by simp)]

theorem ofDocument_encode_of_loaded (d : Json.Document) (p : Policy) (h : ofDocument d = .ok p) :
    ofDocument ⟨p.encode, false⟩ = .ok p := by
  unfold ofDocument at h
  split at h
  · cases h
  · rename_i hdecode
    split at h
    · rename_i hcheck
      cases h
      have hloaded := yields_decode.document hdecode
      simp only [ofDocument, document, decode_encode hloaded, hcheck, Bool.false_eq_true, if_false]
    · cases h

def draft : Json.Document where
  value := .record [
    ("game_name_short", .string "GAME"),
    ("alignas", .record [("Class Engine.Actor", .natural 16), ("ScriptStruct Core.Box", .natural 4),
      ("Class Engine.Actor", .natural 8)]),
    ("virtual_function_patterns", .record [("Class Engine.Actor", .list [.record [
      ("pattern", .string " 4a  +f ?"), ("template", .string "void Tick();")]])])]
  trailing := false

theorem ofDocument_encode_draft : ∃ p, ofDocument draft = .ok p
    ∧ p.alignas = [("Class Engine.Actor", 8), ("ScriptStruct Core.Box", 4)]
    ∧ (p.virtualFunctions.map fun e => e.2.map fun f => f.pattern.cells) =
      [[[⟨0x4A, true⟩, ⟨0x0F, true⟩, .wild]]]
    ∧ ofDocument ⟨p.encode, false⟩ = .ok p := by
  have hload : (ofDocument draft).map (fun p => (p.alignas,
      p.virtualFunctions.map fun e => e.2.map fun f => f.pattern.cells)) =
      .ok ([("Class Engine.Actor", 8), ("ScriptStruct Core.Box", 4)],
        [[[⟨0x4A, true⟩, ⟨0x0F, true⟩, .wild]]]) := by decide +kernel
  cases hp : ofDocument draft with
  | error e =>
    rw [hp] at hload
    cases hload
  | ok p =>
    rw [hp] at hload
    obtain ⟨halignas, hpatterns⟩ := Prod.mk.inj (Except.ok.inj hload)
    exact ⟨p, rfl, halignas, hpatterns, ofDocument_encode_of_loaded draft p hp⟩

end Policy

end TypeAtlas
