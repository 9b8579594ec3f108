import TypeAtlas.Proofs.Order.Calls
import Mathlib.Data.List.Induction

namespace TypeAtlas.PackageOrder

open Relation

variable {calls calls' : List Call} {o o' : PackageOrder} {p q r d : ObjectId}

/-- The references on record close no cycle, and together with those reported they are all that
were asked for; a reported one closes a cycle of those asked for. -/
structure OnRecord (calls : List Call) (o : PackageOrder) : Prop where
  needs_of_links : ∀ p q, Edge.Links o.edges p q → Needs calls p q
  acyclic : ∀ p, ¬ TransGen (Edge.Links o.edges) p p
  needs_of_reported : ∀ e ∈ o.cycles, Needs calls e.referencer e.dependency
  back_of_reported : ∀ e ∈ o.cycles, TransGen (Needs calls) e.dependency e.referencer
  recorded : ∀ p q, Needs calls p q → Edge.Links o.edges p q ∨ o.isReported p q = true

structure Consistent (calls : List Call) (o : PackageOrder) : Prop where
  nodup : o.order.Nodup
  mem_iff : ∀ p, p ∈ o.order ↔ Mentions calls p
  onRecord : OnRecord calls o
  settled : ∀ p q, Needs calls p q → Settled (Needs calls) o.order p q

theorem isReported_iff : o.isReported p q = true ↔ ⟨p, q⟩ ∈ o.cycles ∨ ⟨q, p⟩ ∈ o.cycles := by
  simp [isReported]

theorem isReported_mono (hsub : o.cycles ⊆ o'.cycles) (h : o.isReported p q = true) :
    o'.isReported p q = true :=
  isReported_iff.mpr ((isReported_iff.mp h).imp (hsub ·) (hsub ·))

theorem OnRecord.congr (h : OnRecord calls o) (hneeds : Needs calls' = Needs calls)
    (hedges : o'.edges = o.edges) (hcycles : o'.cycles = o.cycles) : OnRecord calls' o' where
  needs_of_links := by simpa only [hneeds, hedges] using h.needs_of_links
  acyclic := by simpa only [hedges] using h.acyclic
  needs_of_reported := by simpa only [hneeds, hcycles] using h.needs_of_reported
  back_of_reported := by simpa only [hneeds, hcycles] using h.back_of_reported
  recorded p q hpq := by
    rw [hneeds] at hpq
    rw [hedges]
    exact (h.recorded p q hpq).imp_right (isReported_mono (hcycles ▸ List.Subset.refl _))

theorem transGen_needs_append {more : List Call} (h : TransGen (Needs calls) p q) :
    TransGen (Needs (calls ++ more)) p q :=
  TransGen.mono (fun _ _ hn => hn.append) _ _ h

theorem OnRecord.reflTransGen_needs (h : OnRecord calls o)
    (hl : ReflTransGen (Edge.Links o.edges) p q) : ReflTransGen (Needs calls) p q :=
  ReflTransGen.mono h.needs_of_links _ _ hl

theorem OnRecord.record_closed (h : OnRecord calls o) (hne : d ≠ r)
    (hback : ReflTransGen (Edge.Links o.edges) d r) :
    OnRecord (calls ++ [.require d r]) (o.record ⟨r, d⟩).1 := by
  obtain ⟨hedges, hcycles⟩ := record_of_closed (e := ⟨r, d⟩) hback
  have hnew : Needs (calls ++ [.require d r]) r d :=
    (needs_append_require hne).mpr (.inl ⟨rfl, rfl⟩)
  have hreported : ∀ e ∈ (o.record ⟨r, d⟩).1.cycles, e ∈ o.cycles ∨ e = ⟨r, d⟩ := by
    intro e he
    rw [hcycles, List.mem_append] at he
    refine he.imp_right fun he => ?_
    split at he
    · simp at he
    · simpa using he
  constructor
  case needs_of_links =>
    intro p q hl
    rw [hedges] at hl
    exact (h.needs_of_links p q hl).append
  case acyclic =>
    rw [hedges]
    exact h.acyclic
  case needs_of_reported =>
    intro e he
    cases hreported e he with
    | inl he => exact (h.needs_of_reported e he).append
    | inr heq => exact heq ▸ hnew
  case back_of_reported =>
    intro e he
    cases hreported e he with
    | inl he => exact transGen_needs_append (h.back_of_reported e he)
    | inr heq =>
      subst heq
      cases reflTransGen_iff_eq_or_transGen.mp (h.reflTransGen_needs hback) with
      | inl heq => exact absurd heq.symm hne
      | inr hreach => exact transGen_needs_append hreach
  case recorded =>
    intro p q hpq
    rcases (needs_append_require hne).mp hpq with ⟨rfl, rfl⟩ | hpq
    · right
      by_cases hr : o.isReported p q = true
      · exact isReported_mono (by simp [hcycles]) hr
      · exact isReported_iff.mpr (.inl (by simp [hcycles, hr]))
    · rw [hedges]
      exact (h.recorded p q hpq).imp_right (isReported_mono (by simp [hcycles]))

theorem OnRecord.record_open (h : OnRecord calls o) (hne : d ≠ r)
    (hopen : ¬ ReflTransGen (Edge.Links o.edges) d r) :
    OnRecord (calls ++ [.require d r]) (o.record ⟨r, d⟩).1 := by
  obtain ⟨hedges, hcycles⟩ := record_of_open (e := ⟨r, d⟩) hopen
  constructor
  case needs_of_links =>
    intro p q hl
    rw [needs_append_require hne]
    cases (hedges _).mp hl with
    | inl heq => exact .inl (by simpa using heq)
    | inr hl => exact .inr (h.needs_of_links p q hl)
  case acyclic =>
    -- A cycle through the new reference would lead from its dependency back to its referencer.
    intro p hp
    cases Edge.transGen_links_add (fun e he => (hedges e).mp he) hp with
    | inl hp => exact h.acyclic p hp
    | inr hp => exact hopen (hp.2.trans hp.1)
  case needs_of_reported =>
    rw [hcycles]
    intro e he
    exact (h.needs_of_reported e he).append
  case back_of_reported =>
    rw [hcycles]
    intro e he
    exact transGen_needs_append (h.back_of_reported e he)
  case recorded =>
    intro p q hpq
    rcases (needs_append_require hne).mp hpq with ⟨rfl, rfl⟩ | hpq
    · exact .inl ((hedges _).mpr (.inl rfl))
    · apply (h.recorded p q hpq).imp (fun hl => (hedges _).mpr (.inr hl))
      apply isReported_mono
      rw [hcycles]
      exact List.Subset.refl _

theorem OnRecord.record (h : OnRecord calls o) (hne : d ≠ r) :
    OnRecord (calls ++ [.require d r]) (o.record ⟨r, d⟩).1 := by
  by_cases hback : ReflTransGen (Edge.Links o.edges) d r
  · exact h.record_closed hne hback
  · exact h.record_open hne hback

theorem consistent_empty : Consistent [] empty where
  nodup := List.nodup_nil
  mem_iff := by simp [empty, Mentions, Needs]
  onRecord := {
    needs_of_links := by simp [empty, Edge.Links]
    acyclic := fun p h => by
      obtain ⟨q, hq, _⟩ := TransGen.head'_iff.mp h
      simp [empty, Edge.Links] at hq
    needs_of_reported := by simp [empty]
    back_of_reported := by simp [empty]
    recorded := by simp [Needs] }
  settled := by simp [Needs]

theorem Consistent.ensure (h : Consistent calls o) :
    Consistent (calls ++ [.ensure r]) (o.ensure r) where
  nodup := nodup_ensure h.nodup
  mem_iff p := by rw [mem_ensure, mentions_append_ensure, h.mem_iff]
  onRecord := h.onRecord.congr needs_append_ensure (ensure_edges o r) (ensure_cycles o r)
  settled p q hpq := by
    rw [needs_append_ensure] at hpq ⊢
    exact (h.settled p q hpq).imp_left Precedes.ensure

theorem Consistent.require_self (h : Consistent calls o) :
    Consistent (calls ++ [.require r r]) (o.require r r).2 := by
  have hsame : (o.require r r).2 = o := by simp [PackageOrder.require]
  rw [hsame]
  exact {
    nodup := h.nodup
    mem_iff := fun p => by rw [mentions_append_self, h.mem_iff]
    onRecord := h.onRecord.congr needs_append_self rfl rfl
    settled := fun p q hpq => by
      rw [needs_append_self] at hpq ⊢
      exact h.settled p q hpq }

theorem Settled.ensure {more : List Call} (h : Settled (Needs calls) o.order p q) :
    Settled (Needs (calls ++ more)) (o.ensure r).order p q :=
  h.imp Precedes.ensure transGen_needs_append

/-- Dependencies on record are settled before a package is placed, but for those of its
referencer, which include the new one. -/
theorem Consistent.underway (h : Consistent calls o) (hne : d ≠ r)
    (hrec : OnRecord (calls ++ [.require d r]) o') :
    Underway (Needs (calls ++ [.require d r])) o'.edges [r] r (o.ensure r).order where
  nodup := nodup_ensure h.nodup
  last_mem := mem_ensure.mpr (.inl rfl)
  chain q hq := by
    rw [List.mem_singleton.mp hq]
  settled e he hnot := by
    rcases (needs_append_require hne).mp (hrec.needs_of_links _ _ he) with ⟨her, _⟩ | hold
    · simp [her] at hnot
    · exact (h.settled _ _ hold).ensure

theorem OnRecord.back_of_isReported (h : OnRecord calls o) (hrep : o.isReported p q = true) :
    TransGen (Needs calls) q p := by
  cases isReported_iff.mp hrep with
  | inl hmem => exact h.back_of_reported ⟨p, q⟩ hmem
  | inr hmem => exact .single (h.needs_of_reported ⟨q, p⟩ hmem)

theorem OnRecord.acyclic_of_unreported (h : OnRecord calls o) (hcycles : o.cycles = [])
    (p : ObjectId) : ¬ TransGen (Needs calls) p p := by
  intro hp
  refine h.acyclic p (TransGen.mono (fun a b hab => ?_) _ _ hp)
  refine (h.recorded a b hab).resolve_right fun hrep => ?_
  simp [isReported, hcycles] at hrep

theorem OnRecord.cycles_eq_nil_iff (h : OnRecord calls o) :
    o.cycles = [] ↔ ∀ p, ¬ TransGen (Needs calls) p p := by
  refine ⟨h.acyclic_of_unreported, fun hacyclic => ?_⟩
  apply List.eq_nil_iff_forall_not_mem.mpr
  intro e he
  exact hacyclic e.referencer (.head (h.needs_of_reported e he) (h.back_of_reported e he))

theorem Consistent.require_of_ne (h : Consistent calls o) (hne : d ≠ r) :
    Consistent (calls ++ [.require d r]) (o.require d r).2 := by
  have hens : OnRecord calls (o.ensure r) :=
    h.onRecord.congr rfl (ensure_edges o r) (ensure_cycles o r)
  have hrec := hens.record hne
  rw [require_snd hne]
  generalize ((o.ensure r).record ⟨r, d⟩).1 = recorded at hrec
  have hneeds : Needs (calls ++ [.require d r]) r d :=
    (needs_append_require hne).mpr (.inl ⟨rfl, rfl⟩)
  have hmoves : Rearranged (Movable recorded.edges [r] d) (o.ensure r).order
      (placeBefore recorded.edges d r [r] (o.ensure r).order) := placeBefore_rearranged
  obtain ⟨hend, hsettled⟩ := placeBefore_underway (fun e he => hrec.needs_of_links _ _ he)
    (fun e he _ => he) List.mem_cons_self hneeds (h.underway hne hrec)
  constructor
  case nodup => exact hend.nodup
  case mem_iff =>
    intro p
    rw [mentions_append_require hne]
    constructor
    · intro hp
      rcases hmoves.mem hp with hp | ⟨hreach, _⟩
      · exact .inr ((mem_ensure.mp hp).imp_right (h.mem_iff p).mp)
      · rcases ReflTransGen.cases_tail hreach with rfl | ⟨q, _, hqp⟩
        · exact .inl rfl
        · have : Mentions (calls ++ [.require d r]) p :=
            .inr ⟨q, .inr (hrec.needs_of_links q p hqp)⟩
          exact (mentions_append_require hne).mp this
    · rintro (rfl | hp)
      · exact mem_placeBefore (by simpa using hne) (mem_ensure.mpr (.inl rfl))
      · exact hmoves.subset (mem_ensure.mpr (hp.imp_right (h.mem_iff p).mpr))
  case onRecord => exact hrec.congr rfl rfl rfl
  case settled =>
    intro p q hpq
    rcases (needs_append_require hne).mp hpq with ⟨rfl, rfl⟩ | hold
    · exact hsettled
    · cases hrec.recorded p q hpq with
      | inr hrep => exact .inr (hrec.back_of_isReported hrep)
      | inl hl =>
        -- The referencer itself is not moved; all others are settled again when placing ends.
        by_cases hpr : p = r
        · have hstays : ¬ Movable recorded.edges [r] d p := by simp [Movable, hpr]
          exact (h.settled p q hold).ensure.rearranged hmoves (nodup_ensure h.nodup) hstays
        · exact hend.settled ⟨p, q⟩ hl (by simpa using hpr)

theorem consistent_after (calls : List Call) : Consistent calls (empty.after calls) := by
  induction calls using List.reverseRecOn with
  | nil => exact consistent_empty
  | append_singleton calls c ih =>
    rw [after_append, after_singleton]
    cases c with
    | ensure r => exact ih.ensure
    | require d r =>
      by_cases hne : d = r
      · subst hne
        exact ih.require_self
      · exact ih.require_of_ne hne

/-- After any calls on the empty order just the packages mentioned have a place, each one, and a
package that was asked to come before another does, unless it needs the other in turn, directly or
through others.  Without a reported cycle there is no exception. -/
theorem order_after_calls (calls : List Call) :
    (empty.after calls).order.Nodup
      ∧ (∀ p, p ∈ (empty.after calls).order ↔ Mentions calls p)
      ∧ (∀ d r, d ≠ r → Call.require d r ∈ calls →
          Precedes (empty.after calls).order d r ∨ TransGen (Needs calls) d r)
      ∧ ((empty.after calls).cycles = [] → ∀ d r, d ≠ r → Call.require d r ∈ calls →
          Precedes (empty.after calls).order d r) := by
  have h := consistent_after calls
  refine ⟨h.nodup, h.mem_iff, fun d r hne hc => h.settled r d ⟨hne.symm, hc⟩, ?_⟩
  intro hcycles d r hne hc
  refine (h.settled r d ⟨hne.symm, hc⟩).resolve_right fun hback => ?_
  exact h.onRecord.acyclic_of_unreported hcycles r (.head ⟨hne.symm, hc⟩ hback)

end TypeAtlas.PackageOrder
