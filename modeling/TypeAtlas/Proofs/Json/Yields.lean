import TypeAtlas.Json.Decode
import Mathlib.Data.List.Basic

namespace TypeAtlas.Json

variable {α β : Type} {d : Decoder α} {P Q : α → Prop} {v : Json} {a : α}

theorem mismatch_ne_ok (v : Json) (a : α) : mismatch v ≠ .ok a := by
  unfold mismatch
  split <;> simp

theorem afterParts_eq_ok {b : α} {breach : Option Break} (h : afterParts a breach = .ok b) :
    a = b := by
  cases breach with
  | none => exact Except.ok.inj h
  | some b => cases h

namespace Decoder

/-- Whatever the decoder accepts decodes to a value of a kind. -/
def Yields (d : Decoder α) (P : α → Prop) : Prop := ∀ v a, d v = .ok a → P a

theorem Yields.any (d : Decoder α) : d.Yields fun _ => True := fun _ _ _ => trivial

theorem yields_naturalBelow (bound : Nat) : (naturalBelow bound).Yields (· < bound) := by
  intro v a h
  unfold naturalBelow at h
  split at h
  · split at h
    · exact Except.ok.inj h ▸ ‹_›
    · exact absurd h (mismatch_ne_ok _ _)
  · exact absurd h (mismatch_ne_ok _ _)

theorem Yields.mapM (h : d.Yields P) {vs : List Json} {as : List α} (hvs : vs.mapM d = .ok as) :
    ∀ a ∈ as, P a := by
  induction vs generalizing as with
  | nil =>
    cases hvs
    simp
  | cons v vs ih =>
    rw [List.mapM_cons] at hvs
    cases hv : d v with
    | error e =>
      rw [hv] at hvs
      cases hvs
    | ok a =>
      cases hrest : vs.mapM d with
      | error e =>
        rw [hv, hrest] at hvs
        cases hvs
      | ok as =>
        rw [hv, hrest] at hvs
        cases hvs
        exact List.forall_mem_cons.mpr ⟨h v a hv, ih hrest⟩

theorem Yields.list (h : d.Yields P) : (list d).Yields fun as => ∀ a ∈ as, P a := by
  intro v as hv
  unfold Decoder.list at hv
  split at hv
  · split at hv
    · rename_i hall
      exact afterParts_eq_ok hv ▸ h.mapM hall
    · cases hv
  · exact absurd hv (mismatch_ne_ok _ _)

structure IsTableOf (P : α → Prop) (t : Table α) : Prop where
  nodup : (t.map Prod.fst).Nodup
  entries : ∀ e ∈ t, P e.2

theorem IsTableOf.insert {t : Table α} (h : IsTableOf P t) {key : String} (ha : P a) :
    IsTableOf P (Table.insert key a t) where
  nodup := Table.nodup_insert h.nodup
  entries := by
    intro e he
    cases Table.mem_insert he with
    | inl heq => exact heq ▸ ha
    | inr he => exact h.entries e he

theorem Yields.entries (h : d.Yields P) {members : List (Option String × Json)} {done t : Table α}
    (hdone : IsTableOf P done) (hv : entries d done members = .ok t) : IsTableOf P t := by
  induction members generalizing done with
  | nil => exact Except.ok.inj hv ▸ hdone
  | cons m members ih =>
    obtain ⟨_ | key, v⟩ := m
    · cases hv
    · unfold Decoder.entries at hv
      split at hv
      · rename_i hd
        exact ih (hdone.insert (h v _ hd)) hv
      · cases hv

theorem Yields.table (h : d.Yields P) : (table d).Yields (IsTableOf P) := by
  intro v t hv
  unfold Decoder.table at hv
  split at hv
  · split at hv
    · rename_i hall
      exact afterParts_eq_ok hv ▸ h.entries ⟨by simp, by simp⟩ hall
    · cases hv
  · exact absurd hv (mismatch_ne_ok _ _)

theorem Yields.document (h : d.Yields P) {trailing : Bool} (hv : document d v trailing = .ok a) :
    P a := by
  unfold Decoder.document at hv
  split at hv
  · rename_i hd
    split at hv
    · cases hv
    · exact Except.ok.inj hv ▸ h v _ hd
  · cases hv

end Decoder

namespace Fields

open Decoder (Yields)

/-- Whatever comes of the fields is of a kind, one kind for each. -/
inductive Yields : {τ : Type} → Fields τ → (τ → Prop) → Prop
  | done : Yields .done fun _ => True
  | field {α β : Type} {name : String} {d : Decoder α} {absent found : Option α} {rest : Fields β}
      {P : α → Prop} {Q : β → Prop} : d.Yields P → (∀ a ∈ absent, P a) → (∀ a ∈ found, P a) →
      Yields rest Q → Yields (.field name d absent found rest) fun x => P x.1 ∧ Q x.2

variable {τ : Type} {fs fs' : Fields τ} {R : τ → Prop} {x : τ} {rest : Fields β} {S : β → Prop}
  {name key : String}

theorem Yields.need (hd : d.Yields P) (h : rest.Yields S) :
    (Fields.need name d rest).Yields fun x => P x.1 ∧ S x.2 :=
  .field hd (by simp) (by simp) h

theorem Yields.default (hd : d.Yields P) (ha : P a) (h : rest.Yields S) :
    (Fields.default name d a rest).Yields fun x => P x.1 ∧ S x.2 :=
  .field hd (by simpa using ha) (by simp) h

theorem Yields.put (h : fs.Yields R) (hput : fs.put key v = .ok fs') : fs'.Yields R := by
  induction h with
  | done =>
    unfold Fields.put at hput
    split at hput
    · cases hput
      exact .done
    · cases hput
  | @field α β name d absent found rest P Q hd habsent hfound hrest ih =>
    unfold Fields.put at hput
    split at hput
    · split at hput
      · cases hput
      · split at hput
        · rename_i hv
          cases hput
          exact .field hd habsent (by simpa using hd v _ hv) hrest
        · cases hput
    · split at hput
      · rename_i hrest'
        cases hput
        exact .field hd habsent hfound (ih hrest')
      · cases hput

theorem Yields.putAll {members : List (Option String × Json)} (h : fs.Yields R)
    (hput : fs.putAll members = .ok fs') : fs'.Yields R := by
  induction members generalizing fs with
  | nil => exact Except.ok.inj hput ▸ h
  | cons m members ih =>
    obtain ⟨_ | key, v⟩ := m
    · cases hput
    · unfold Fields.putAll at hput
      split at hput
      · rename_i hfirst
        exact ih (h.put hfirst) hput
      · cases hput

theorem Yields.close (h : fs.Yields R) (hclose : fs.close = .ok x) : R x := by
  induction h with
  | done => trivial
  | @field α β name d absent found rest P Q hd habsent hfound hrest ih =>
    unfold Fields.close at hclose
    split at hclose
    · cases hclose
    · rename_i a hval
      split at hclose
      · rename_i b hb
        cases hclose
        refine ⟨?_, ih hb⟩
        cases Option.or_eq_some_iff.mp hval with
        | inl hf => exact hfound a hf
        | inr ha => exact habsent a ha.2
      · cases hclose

theorem Yields.ofItems {breach : Option Break} {items : List Json} (h : fs.Yields R)
    (hitems : ofItems breach fs items = .ok x) : R x := by
  induction h generalizing items with
  | done => trivial
  | @field α β name d absent found rest P Q hd habsent hfound hrest ih =>
    cases items with
    | nil =>
      unfold Fields.ofItems at hitems
      split at hitems
      · cases hitems
      · cases hitems
      · split at hitems
        · rename_i b hb
          cases hitems
          exact ⟨habsent _ rfl, ih hb⟩
        · cases hitems
    | cons v vs =>
      unfold Fields.ofItems at hitems
      split at hitems
      · cases hitems
      · rename_i a hv
        split at hitems
        · rename_i b hb
          cases hitems
          exact ⟨hd v a hv, ih hb⟩
        · cases hitems

theorem Yields.decode (h : fs.Yields R) : Decoder.Yields fs.decode R := by
  intro v x hv
  unfold Fields.decode at hv
  split at hv
  · split at hv
    · cases hv
    · rename_i hput
      split at hv
      · cases hv
      · exact (h.putAll hput).close hv
  · exact h.ofItems hv
  · exact absurd hv (mismatch_ne_ok _ _)

end Fields

end TypeAtlas.Json
