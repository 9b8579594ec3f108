import TypeAtlas.Proofs.Order.Cascade

namespace TypeAtlas.PackageOrder

open Relation

inductive Call
  | ensure (package : ObjectId)
  | require (dependency referencer : ObjectId)
  deriving DecidableEq, Repr

def perform (o : PackageOrder) : Call → PackageOrder
  | .ensure p => o.ensure p
  | .require d r => (o.require d r).2

def after (o : PackageOrder) (calls : List Call) : PackageOrder := calls.foldl perform o

@[simp] theorem after_append (o : PackageOrder) (calls more : List Call) :
    o.after (calls ++ more) = (o.after calls).after more := List.foldl_append

theorem after_singleton (o : PackageOrder) (c : Call) : o.after [c] = o.perform c := rfl

def Needs (calls : List Call) (p q : ObjectId) : Prop := p ≠ q ∧ Call.require q p ∈ calls

def Mentions (calls : List Call) (p : ObjectId) : Prop :=
  Call.ensure p ∈ calls ∨ ∃ q, Needs calls p q ∨ Needs calls q p

variable {calls more : List Call} {o : PackageOrder} {p q r d : ObjectId}

theorem Needs.append (h : Needs calls p q) : Needs (calls ++ more) p q :=
  ⟨h.1, List.mem_append_left more h.2⟩

theorem needs_append_ensure : Needs (calls ++ [.ensure r]) = Needs calls := by
  funext p q
  simp [Needs]

theorem needs_append_self : Needs (calls ++ [.require r r]) = Needs calls := by
  funext p q
  simp only [Needs, List.mem_append, List.mem_singleton, Call.require.injEq, eq_iff_iff]
  constructor
  · rintro ⟨hne, h | ⟨rfl, rfl⟩⟩
    · exact ⟨hne, h⟩
    · exact absurd rfl hne
  · exact fun h => ⟨h.1, .inl h.2⟩

theorem needs_append_require (hne : d ≠ r) :
    Needs (calls ++ [.require d r]) p q ↔ (p = r ∧ q = d) ∨ Needs calls p q := by
  simp only [Needs, List.mem_append, List.mem_singleton, Call.require.injEq]
  constructor
  · rintro ⟨hpq, h | ⟨rfl, rfl⟩⟩
    · exact .inr ⟨hpq, h⟩
    · exact .inl ⟨rfl, rfl⟩
  · rintro (⟨rfl, rfl⟩ | h)
    · exact ⟨hne.symm, .inr ⟨rfl, rfl⟩⟩
    · exact ⟨h.1, .inl h.2⟩

theorem mentions_append_ensure : Mentions (calls ++ [.ensure r]) p ↔ p = r ∨ Mentions calls p := by
  simp [Mentions, needs_append_ensure, or_comm, or_assoc]

theorem mentions_append_self : Mentions (calls ++ [.require r r]) p ↔ Mentions calls p := by
  simp [Mentions, needs_append_self]

theorem mentions_append_require (hne : d ≠ r) :
    Mentions (calls ++ [.require d r]) p ↔ p = d ∨ p = r ∨ Mentions calls p := by
  simp only [Mentions, needs_append_require hne, List.mem_append, List.mem_singleton, reduceCtorEq,
    or_false]
  constructor
  · rintro (h | ⟨q, (⟨rfl, _⟩ | h) | (⟨_, rfl⟩ | h)⟩)
    · exact .inr (.inr (.inl h))
    · exact .inr (.inl rfl)
    · exact .inr (.inr (.inr ⟨q, .inl h⟩))
    · exact .inl rfl
    · exact .inr (.inr (.inr ⟨q, .inr h⟩))
  · rintro (rfl | rfl | h | ⟨q, h⟩)
    · exact .inr ⟨r, .inr (.inl ⟨rfl, rfl⟩)⟩
    · exact .inr ⟨d, .inl (.inl ⟨rfl, rfl⟩)⟩
    · exact .inl h
    · exact .inr ⟨q, h.imp .inr .inr⟩

@[simp] theorem ensure_edges (o : PackageOrder) (p : ObjectId) : (o.ensure p).edges = o.edges := by
  unfold ensure
  split <;> rfl

@[simp] theorem ensure_cycles (o : PackageOrder) (p : ObjectId) :
    (o.ensure p).cycles = o.cycles := by
  unfold ensure
  split <;> rfl

theorem ensure_order (o : PackageOrder) (p : ObjectId) :
    (p ∈ o.order ∧ (o.ensure p).order = o.order)
      ∨ (p ∉ o.order ∧ (o.ensure p).order = o.order ++ [p]) := by
  by_cases hp : p ∈ o.order
  · exact .inl ⟨hp, by simp [ensure, contains, hp]⟩
  · exact .inr ⟨hp, by simp [ensure, contains, hp]⟩

theorem mem_ensure : q ∈ (o.ensure p).order ↔ q = p ∨ q ∈ o.order := by
  rcases ensure_order o p with ⟨hp, h⟩ | ⟨hp, h⟩
  · rw [h]
    constructor
    · exact .inr
    · rintro (rfl | hq)
      · exact hp
      · exact hq
  · rw [h]
    simp [or_comm]

theorem nodup_ensure (hn : o.order.Nodup) : (o.ensure p).order.Nodup := by
  rcases ensure_order o p with ⟨_, h⟩ | ⟨hp, h⟩
  · rwa [h]
  · rw [h]
    exact List.nodup_append.mpr ⟨hn, by simp, by simpa using fun a ha => ne_of_mem_of_not_mem ha hp⟩

theorem Precedes.ensure (h : Precedes o.order p q) : Precedes (o.ensure r).order p q := by
  rcases ensure_order o r with ⟨_, hr⟩ | ⟨_, hr⟩
  · rwa [hr]
  · rw [hr]
    exact h.append [r]

@[simp] theorem record_order (o : PackageOrder) (e : Edge) : (o.record e).1.order = o.order := by
  unfold record
  split <;> split <;> rfl

theorem record_of_open {e : Edge}
    (h : ¬ ReflTransGen (Edge.Links o.edges) e.dependency e.referencer) :
    (∀ e', e' ∈ (o.record e).1.edges ↔ e' = e ∨ e' ∈ o.edges)
      ∧ (o.record e).1.cycles = o.cycles := by
  have hr : Edge.reaches e.referencer o.edges [e.dependency] = false := by
    simpa [← Bool.not_eq_true, Edge.reaches_iff] using h
  by_cases he : e ∈ o.edges
  · simp [record, hr, he]
  · simp [record, hr, he, or_comm]

theorem record_of_closed {e : Edge}
    (h : ReflTransGen (Edge.Links o.edges) e.dependency e.referencer) :
    (o.record e).1.edges = o.edges ∧ (o.record e).1.cycles =
      o.cycles ++ if o.isReported e.referencer e.dependency then [] else [e] := by
  have hr : Edge.reaches e.referencer o.edges [e.dependency] = true := by
    simpa [Edge.reaches_iff] using h
  by_cases he : o.isReported e.referencer e.dependency = true
  · simp [record, hr, he]
  · simp [record, hr, he]

theorem require_snd (hne : d ≠ r) :
    let recorded := ((o.ensure r).record ⟨r, d⟩).1
    (o.require d r).2 =
      ⟨placeBefore recorded.edges d r [r] (o.ensure r).order, recorded.edges, recorded.cycles⟩ := by
  rw [require, if_neg hne]
  simp only [position?, record_order]
  cases hr : (o.ensure r).order.idxOf? r with
  | none => simp
  | some j =>
    cases hd : (o.ensure r).order.idxOf? d with
    | none => simp
    | some i =>
      by_cases hij : i < j
      · have hnone : moved? (o.ensure r).order d r = none :=
          (moved?_eq_none_iff (mem_of_idxOf? hr)).mpr ⟨i, j, hd, hr, hij⟩
        rw [placeBefore_of_not_moved hnone, ← record_order (o.ensure r) ⟨r, d⟩]
        simp [hij, -record_order]
      · simp [hij]

theorem subset_perform (o : PackageOrder) (c : Call) : o.order ⊆ (o.perform c).order := by
  cases c with
  | ensure p => exact fun q hq => mem_ensure.mpr (.inr hq)
  | require d r =>
    by_cases hne : d = r
    · simp [perform, require, hne]
    · rw [perform, require_snd hne]
      exact fun q hq => placeBefore_rearranged.subset (mem_ensure.mpr (.inr hq))

theorem subset_after (o : PackageOrder) (calls : List Call) :
    o.order ⊆ (o.after calls).order := by
  induction calls generalizing o with
  | nil => exact List.Subset.refl _
  | cons c calls ih => exact List.Subset.trans (subset_perform o c) (ih _)

end TypeAtlas.PackageOrder
