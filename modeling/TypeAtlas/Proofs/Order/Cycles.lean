import TypeAtlas.Proofs.Order.Consistent
import Mathlib.Data.Sym.Sym2

namespace TypeAtlas

open Relation

def Edge.packages (e : Edge) : Sym2 ObjectId := s(e.referencer, e.dependency)

namespace PackageOrder

variable {calls calls' : List Call} {o o' : PackageOrder} {p q r d : ObjectId}

/-- What was asked for is on record or reported just as it was asked for; a reported reference
closes a cycle of those on record. -/
structure Diagnosed (calls : List Call) (o : PackageOrder) : Prop where
  closed : ∀ e ∈ o.cycles, ReflTransGen (Edge.Links o.edges) e.dependency e.referencer
  recorded : ∀ p q, Needs calls p q → Edge.Links o.edges p q ∨ ⟨p, q⟩ ∈ o.cycles
  apart : (o.cycles.map Edge.packages).Nodup

theorem isReported_iff_mem : o.isReported p q = true ↔ s(p, q) ∈ o.cycles.map Edge.packages := by
  rw [isReported_iff, List.mem_map]
  constructor
  · intro h
    cases h with
    | inl h => exact ⟨_, h, rfl⟩
    | inr h => exact ⟨_, h, Sym2.eq_swap⟩
  · intro ⟨e, he, heq⟩
    cases Sym2.eq_iff.mp heq with
    | inl h => exact .inl (h.1 ▸ h.2 ▸ he)
    | inr h => exact .inr (h.1 ▸ h.2 ▸ he)

theorem Diagnosed.congr (h : Diagnosed calls o) (hneeds : Needs calls' = Needs calls)
    (hedges : o'.edges = o.edges) (hcycles : o'.cycles = o.cycles) : Diagnosed calls' o' where
  closed := by simpa only [hedges, hcycles] using h.closed
  recorded := by simpa only [hneeds, hedges, hcycles] using h.recorded
  apart := by simpa only [hcycles] using h.apart

theorem Diagnosed.mem_of_isReported (h : Diagnosed calls o) (hrec : OnRecord calls o) (hne : d ≠ r)
    (hback : ReflTransGen (Edge.Links o.edges) d r) (hrep : o.isReported r d = true) :
    ⟨r, d⟩ ∈ o.cycles := by
  cases isReported_iff.mp hrep with
  | inl hmem => exact hmem
  | inr hmem =>
    have hforth : ReflTransGen (Edge.Links o.edges) r d := h.closed _ hmem
    cases reflTransGen_iff_eq_or_transGen.mp hforth with
    | inl heq => exact absurd heq hne
    | inr hforth => exact absurd (hforth.trans_left hback) (hrec.acyclic r)

theorem Diagnosed.record_closed (h : Diagnosed calls o) (hrec : OnRecord calls o) (hne : d ≠ r)
    (hback : ReflTransGen (Edge.Links o.edges) d r) :
    Diagnosed (calls ++ [.require d r]) (o.record ⟨r, d⟩).1 := by
  obtain ⟨hedges, hcycles⟩ := record_of_closed (e := ⟨r, d⟩) hback
  by_cases hrep : o.isReported r d = true
  · rw [if_pos hrep, List.append_nil] at hcycles
    constructor
    case closed => simpa only [hedges, hcycles] using h.closed
    case recorded =>
      intro p q hpq
      rw [hedges, hcycles]
      cases (needs_append_require hne).mp hpq with
      | inl hnew => exact .inr (hnew.1 ▸ hnew.2 ▸ h.mem_of_isReported hrec hne hback hrep)
      | inr hpq => exact h.recorded p q hpq
    case apart => simpa only [hcycles] using h.apart
  · rw [if_neg hrep] at hcycles
    constructor
    case closed =>
      intro e he
      rw [hedges]
      rw [hcycles, List.mem_append, List.mem_singleton] at he
      cases he with
      | inl he => exact h.closed e he
      | inr heq => exact heq ▸ hback
    case recorded =>
      intro p q hpq
      rw [hedges, hcycles, List.mem_append, List.mem_singleton]
      cases (needs_append_require hne).mp hpq with
      | inl hnew => exact .inr (.inr (by rw [hnew.1, hnew.2]))
      | inr hpq => exact (h.recorded p q hpq).imp_right .inl
    case apart =>
      rw [hcycles, List.map_append]
      apply h.apart.append (List.nodup_singleton _)
      intro pair hpair hnew
      rw [List.mem_singleton.mp hnew] at hpair
      exact hrep (isReported_iff_mem.mpr hpair)

theorem Diagnosed.record_open (h : Diagnosed calls o) (hne : d ≠ r)
    (hopen : ¬ ReflTransGen (Edge.Links o.edges) d r) :
    Diagnosed (calls ++ [.require d r]) (o.record ⟨r, d⟩).1 := by
  obtain ⟨hedges, hcycles⟩ := record_of_open (e := ⟨r, d⟩) hopen
  constructor
  case closed =>
    intro e he
    rw [hcycles] at he
    apply ReflTransGen.mono _ _ _ (h.closed e he)
    intro a b hab
    exact (hedges _).mpr (.inr hab)
  case recorded =>
    intro p q hpq
    rw [hcycles]
    cases (needs_append_require hne).mp hpq with
    | inl hnew => exact .inl ((hedges _).mpr (.inl (by rw [hnew.1, hnew.2])))
    | inr hpq => exact (h.recorded p q hpq).imp_left fun hl => (hedges _).mpr (.inr hl)
  case apart => simpa only [hcycles] using h.apart

theorem Diagnosed.require (h : Diagnosed calls o) (hrec : OnRecord calls o) (d r : ObjectId) :
    Diagnosed (calls ++ [.require d r]) (o.require d r).2 := by
  by_cases hne : d = r
  · subst hne
    have hsame : (o.require d d).2 = o := by simp [PackageOrder.require]
    rw [hsame]
    exact h.congr needs_append_self rfl rfl
  · have hens : Diagnosed calls (o.ensure r) := h.congr rfl (ensure_edges o r) (ensure_cycles o r)
    have hrec' : OnRecord calls (o.ensure r) :=
      hrec.congr rfl (ensure_edges o r) (ensure_cycles o r)
    have hadd : Diagnosed (calls ++ [.require d r]) ((o.ensure r).record ⟨r, d⟩).1 := by
      by_cases hback : ReflTransGen (Edge.Links (o.ensure r).edges) d r
      · exact hens.record_closed hrec' hne hback
      · exact hens.record_open hne hback
    rw [require_snd hne]
    exact hadd.congr rfl rfl rfl

theorem diagnosed_after (calls : List Call) : Diagnosed calls (empty.after calls) := by
  induction calls using List.reverseRecOn with
  | nil => exact ⟨by simp [after, empty], by simp [Needs], List.nodup_nil⟩
  | append_singleton calls c ih =>
    rw [after_append, after_singleton]
    cases c with
    | ensure r => exact ih.congr needs_append_ensure (ensure_edges _ r) (ensure_cycles _ r)
    | require d r => exact ih.require (consistent_after calls).onRecord d r

theorem record_cycles (o : PackageOrder) (e : Edge) :
    (o.record e).1.cycles = if (o.record e).2 = true then o.cycles ++ [e] else o.cycles := by
  unfold record
  split <;> split <;> rfl

theorem require_fst_eq_cycle_iff (hne : d ≠ r) :
    (o.require d r).1 = .cycle ↔ ((o.ensure r).record ⟨r, d⟩).2 = true := by
  simp only [PackageOrder.require, if_neg hne]
  cases ((o.ensure r).record ⟨r, d⟩).2 with
  | true => simp
  | false =>
    simp only [Bool.false_eq_true, if_false, iff_false]
    grind

theorem require_cycles (o : PackageOrder) (d r : ObjectId) : (o.require d r).2.cycles =
    if (o.require d r).1 = .cycle then o.cycles ++ [⟨r, d⟩] else o.cycles := by
  by_cases hne : d = r
  · simp [PackageOrder.require, hne]
  · rw [require_snd hne]
    simp only [require_fst_eq_cycle_iff hne, record_cycles, ensure_cycles]

def NeedsUnreported (calls : List Call) (o : PackageOrder) (p q : ObjectId) : Prop :=
  Needs calls p q ∧ ⟨p, q⟩ ∉ o.cycles

/-- After any calls on the empty order the references on record close no cycle, and every cycle of
those asked for has one among its references that was reported.  Each reported one lies on such a
cycle, no two packages are reported twice, and the next call answers that there is a cycle just when
it adds to the reports. -/
theorem cycles_after_calls (calls : List Call) :
    (∀ p, ¬ TransGen (Edge.Links (empty.after calls).edges) p p)
      ∧ (∀ p, ¬ TransGen (NeedsUnreported calls (empty.after calls)) p p)
      ∧ (∀ e ∈ (empty.after calls).cycles, Needs calls e.referencer e.dependency
          ∧ TransGen (Needs calls) e.dependency e.referencer)
      ∧ ((empty.after calls).cycles.map Edge.packages).Nodup
      ∧ ∀ d r, ((empty.after calls).require d r).2.cycles =
          if ((empty.after calls).require d r).1 = .cycle
          then (empty.after calls).cycles ++ [⟨r, d⟩] else (empty.after calls).cycles := by
  have hrec := (consistent_after calls).onRecord
  have hdiag := diagnosed_after calls
  refine ⟨hrec.acyclic, ?_, fun e he => ⟨hrec.needs_of_reported e he, hrec.back_of_reported e he⟩,
    hdiag.apart, require_cycles _⟩
  intro p hp
  apply hrec.acyclic p
  apply TransGen.mono _ _ _ hp
  intro a b hab
  exact (hdiag.recorded a b hab.1).resolve_right hab.2

end PackageOrder

end TypeAtlas
