import TypeAtlas.Proofs.Order.Consistent

namespace TypeAtlas.PackageOrder

open Relation

variable {edges : List Edge} {order placing : List ObjectId} {o o' : PackageOrder} {e : Edge}
  {p r d anchor a b : ObjectId}

theorem precedes_ensure_iff (ha : a ∈ o.order) (hb : b ∈ o.order) :
    Precedes (o.ensure r).order a b ↔ Precedes o.order a b := by
  refine ⟨fun hab => ?_, Precedes.ensure⟩
  apply (precedes_or_of_mem ha hb hab.ne).resolve_right
  intro hba
  exact hab.asymm hba.ensure

theorem precedes_placeBefore (hn : order.Nodup) (hp : p ∉ placing) (hanchor : anchor ∈ placing)
    (hmem : anchor ∈ order) : Precedes (placeBefore edges p anchor placing order) p anchor := by
  cases hm : moved? order p anchor with
  | none =>
    rw [placeBefore_of_not_moved hm]
    exact (moved?_eq_none_iff hmem).mp hm
  | some order' =>
    rw [placeBefore_of_moved hp hm]
    have hne : p ≠ anchor := fun heq => hp (heq ▸ hanchor)
    have hothers := placeDependencies_others edges p placing (Edge.outOf edges p) order'
    exact hothers.precedes (nodup_moved hn hm) (by simp [hanchor]) (precedes_moved hn hne hm)

theorem reflTransGen_of_record
    (h : ReflTransGen (Edge.Links (o.record e).1.edges) e.dependency p) :
    ReflTransGen (Edge.Links o.edges) e.dependency p := by
  by_cases hback : ReflTransGen (Edge.Links o.edges) e.dependency e.referencer
  · rwa [(record_of_closed hback).1] at h
  · have hadd := (record_of_open hback).1
    cases reflTransGen_iff_eq_or_transGen.mp h with
    | inl heq => exact heq ▸ .refl
    | inr h =>
      cases Edge.transGen_links_add (fun e' he' => (hadd e').mp he') h with
      | inl h => exact h.to_reflTransGen
      | inr h => exact h.2

theorem record_of_reported (hback : ReflTransGen (Edge.Links o.edges) e.dependency e.referencer)
    (hrep : o.isReported e.referencer e.dependency = true) : o.record e = (o, false) := by
  have hr : Edge.reaches e.referencer o.edges [e.dependency] = true := by
    simpa [Edge.reaches_iff] using hback
  simp [record, hr, hrep]

theorem record_of_mem (hopen : ¬ ReflTransGen (Edge.Links o.edges) e.dependency e.referencer)
    (he : e ∈ o.edges) : o.record e = (o, false) := by
  have hr : Edge.reaches e.referencer o.edges [e.dependency] = false := by
    simpa [← Bool.not_eq_true, Edge.reaches_iff] using hopen
  simp [record, hr, he]

theorem record_again (hedges : o'.edges = (o.record e).1.edges)
    (hcycles : o'.cycles = (o.record e).1.cycles) : o'.record e = (o', false) := by
  by_cases hback : ReflTransGen (Edge.Links o.edges) e.dependency e.referencer
  · obtain ⟨hsame, hreports⟩ := record_of_closed hback
    apply record_of_reported
    · rwa [hedges, hsame]
    · rw [hreports] at hcycles
      by_cases hrep : o.isReported e.referencer e.dependency = true
      · exact isReported_mono (by simp [hcycles]) hrep
      · exact isReported_iff.mpr (.inl (by simp [hcycles, hrep]))
  · apply record_of_mem
    · rw [hedges]
      exact fun hnow => hback (reflTransGen_of_record hnow)
    · rw [hedges]
      exact ((record_of_open hback).1 e).mpr (.inl rfl)

theorem require_of_settled (hne : d ≠ r) (hrec : o.record ⟨r, d⟩ = (o, false))
    (hfirst : Precedes o.order d r) : o.require d r = (.present, o) := by
  obtain ⟨i, j, hi, hj, hij⟩ := hfirst
  have hens : o.ensure r = o := by simp [ensure, contains, mem_of_idxOf? hj]
  simp [require, hne, hens, hrec, position?, hi, hj, hij]

/-- After any calls on the empty order one more reference has its dependency come first, even where
it closes a cycle.  No package loses its place or gets a second one, and of the others only the two
get one.  The referencer and all that the dependency does not lead to keep their order, and to ask
for the same again changes nothing. -/
theorem require_after_calls (calls : List Call) (d r : ObjectId) (hne : d ≠ r) :
    let o := empty.after calls
    let asked := (o.require d r).2
    Precedes asked.order d r
      ∧ asked.order.Nodup ∧ (∀ p, p ∈ asked.order ↔ p = d ∨ p = r ∨ p ∈ o.order)
      ∧ (∀ p ∈ o.order, ∀ q ∈ o.order,
        (p = r ∨ ¬ ReflTransGen (Edge.Links o.edges) d p) →
        (q = r ∨ ¬ ReflTransGen (Edge.Links o.edges) d q) →
        (Precedes asked.order p q ↔ Precedes o.order p q))
      ∧ asked.require d r = (.present, asked) := by
  intro o asked
  have hbefore : Consistent calls o := consistent_after calls
  have hbehind : Consistent (calls ++ [.require d r]) asked := hbefore.require_of_ne hne
  have hn : (o.ensure r).order.Nodup := nodup_ensure hbefore.nodup
  have hasked := require_snd (o := o) hne
  have hfirst : Precedes asked.order d r := by
    rw [show asked = _ from hasked]
    exact precedes_placeBefore hn (by simpa using hne) (by simp) (mem_ensure.mpr (.inl rfl))
  refine ⟨hfirst, hbehind.nodup, ?places, ?kept, ?again⟩
  case places =>
    intro p
    rw [hbehind.mem_iff, mentions_append_require hne, hbefore.mem_iff]
  case kept =>
    intro p hp q hq hstays hstays'
    have hmoves : Rearranged (Movable ((o.ensure r).record ⟨r, d⟩).1.edges [r] d)
        (o.ensure r).order asked.order := by
      rw [show asked = _ from hasked]
      exact placeBefore_rearranged
    have hnot (p : ObjectId) (h : p = r ∨ ¬ ReflTransGen (Edge.Links o.edges) d p) :
        ¬ Movable ((o.ensure r).record ⟨r, d⟩).1.edges [r] d p := by
      intro ⟨hreach, hother⟩
      have hback := reflTransGen_of_record hreach
      rw [ensure_edges] at hback
      cases h with
      | inl heq => simp [heq] at hother
      | inr h => exact h hback
    rw [hmoves.precedes_iff hn (mem_ensure.mpr (.inr hp)) (mem_ensure.mpr (.inr hq))
      (hnot p hstays) (hnot q hstays'), precedes_ensure_iff hp hq]
  case again =>
    apply require_of_settled hne _ hfirst
    apply record_again (o := o.ensure r)
    · rw [show asked = _ from hasked]
    · rw [show asked = _ from hasked]

theorem require_after_calls_ring :
    let o := empty.after [.require 2 1, .require 3 2, .ensure 4]
    let asked := (o.require 1 3).2
    1 ≠ 3 ∧ o.order = [3, 2, 1, 4] ∧ asked.order = [2, 1, 3, 4] ∧ asked.cycles = [⟨3, 1⟩]
      ∧ Precedes asked.order 1 3 ∧ (Precedes asked.order 3 4 ↔ Precedes o.order 3 4)
      ∧ asked.require 1 3 = (.present, asked) := by
  intro o asked
  have horder : o.order = [3, 2, 1, 4] := by decide +kernel
  have hedges : o.edges = [⟨1, 2⟩, ⟨2, 3⟩] := by decide +kernel
  have hapart : ¬ ReflTransGen (Edge.Links o.edges) 1 4 := by
    intro hreach
    have hfound : Edge.reaches 4 o.edges [1] = true := by simpa [Edge.reaches_iff] using hreach
    rw [hedges] at hfound
    revert hfound
    decide +kernel
  obtain ⟨hfirst, _, _, hkept, hagain⟩ :=
    require_after_calls [.require 2 1, .require 3 2, .ensure 4] 1 3 (by decide)
  refine ⟨by decide, horder, by decide +kernel, by decide +kernel, hfirst, ?_, hagain⟩
  apply hkept 3 _ 4 _ (.inl rfl) (.inr hapart)
  · exact horder ▸ by decide
  · exact horder ▸ by decide

end TypeAtlas.PackageOrder
