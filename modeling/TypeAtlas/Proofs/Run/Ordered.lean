import TypeAtlas.Proofs.Order.Consistent
import TypeAtlas.Proofs.Run.Once
import TypeAtlas.Sdk.Bundle

namespace TypeAtlas

open PackageOrder (Call Needs Precedes)
open Relation (TransGen)

variable {t : Target} {ps : List Object} {shared' : Resolution} {built : List Built}
  {calls : List Call} {r : Run} {p q : PackageDecls}

def Graph.References (g : Graph) (p q : ObjectId) : Prop :=
  p ∈ g.packages.map Object.id ∧ g.RefersTo p q

theorem Runs.needs_iff (h : Runs t .start t.graph.packages built calls shared') (p q : ObjectId) :
    Needs calls p q ↔ t.graph.References p q := by
  constructor
  · intro ⟨_, hcall⟩
    obtain ⟨package, hmem, heq | ⟨q', heq, hrefers⟩⟩ := h.refersTo_of_call hcall
    · cases heq
    · cases heq
      exact ⟨List.mem_map_of_mem hmem, hrefers⟩
  · intro ⟨hmem, hne, o, o', howns, howns', hnames⟩
    obtain ⟨package, hpackage, rfl⟩ := List.mem_map.mp hmem
    refine ⟨hne, h.require_mem Resolution.isIdle_start t.graph.nodup_packages hpackage ?_ hnames
      howns' hne.symm⟩
    simpa [Resolution.start, Graph.mem_typesOf] using howns

theorem sublist_or_sublist {α : Type} {l : List α} {a b : α} (ha : a ∈ l) (hb : b ∈ l)
    (hne : a ≠ b) : [a, b].Sublist l ∨ [b, a].Sublist l := by
  induction l with
  | nil => cases ha
  | cons c l ih =>
    cases List.mem_cons.mp ha with
    | inl hac =>
      have hb' : b ∈ l := List.mem_of_ne_of_mem (hac ▸ hne.symm) hb
      exact .inl (hac ▸ (List.singleton_sublist.mpr hb').cons_cons a)
    | inr ha' =>
      cases List.mem_cons.mp hb with
      | inl hbc => exact .inr (hbc ▸ (List.singleton_sublist.mpr ha').cons_cons b)
      | inr hb' => exact (ih ha' hb').imp (.cons c) (.cons c)

namespace Run

/-- A package comes before another wherever the packages are listed: in the order of the run, in the
header that includes them, and in the manifest. -/
structure WrittenBefore (t : Target) (r : Run) (q p : PackageDecls) : Prop where
  order : [q, p].Sublist r.ordered
  header : ∃ front between behind, Source.umbrella t.policy r.ordered =
    front ++ q.includes t.policy ++ between ++ p.includes t.policy ++ behind
  manifest : ∃ fields entries, Bundle.manifest t r = .record fields
    ∧ ("packages", .list entries) ∈ fields
    ∧ [Bundle.entry t.policy q, Bundle.entry t.policy p].Sublist entries

def isPlaced (r : Run) (p : PackageDecls) : Bool := (r.shared.order.position? p.id).isSome

def placed (r : Run) : List PackageDecls :=
  (r.saved.filter r.isPlaced).mergeSort fun p q =>
    (r.shared.order.position? p.id).getD 0 ≤ (r.shared.order.position? q.id).getD 0

theorem ordered_eq (r : Run) : r.ordered = r.saved.filter (!r.isPlaced ·) ++ r.placed := by
  have hnone : (fun p : PackageDecls => (r.shared.order.position? p.id).isNone) =
      fun p => !r.isPlaced p := by
    funext p
    simp [isPlaced]
  rw [← hnone]
  rfl

theorem isPlaced_of_mem_placed (h : p ∈ r.placed) : r.isPlaced p :=
  (List.mem_filter.mp (List.mem_mergeSort.mp h)).2

theorem perm_ordered (r : Run) : r.ordered.Perm r.saved := by
  rw [ordered_eq]
  apply List.Perm.trans _ (List.filter_append_perm r.isPlaced r.saved)
  apply List.Perm.trans List.perm_append_comm
  exact (List.mergeSort_perm _ _).append_right _

theorem pairwise_placed (r : Run) : r.placed.Pairwise fun p q =>
    (r.shared.order.position? p.id).getD 0 ≤ (r.shared.order.position? q.id).getD 0 := by
  apply (List.pairwise_mergeSort _ _ _).imp
  · intro p q h
    exact of_decide_eq_true h
  · intro a b c hab hbc
    simp only [decide_eq_true_eq] at hab hbc ⊢
    exact Nat.le_trans hab hbc
  · intro a b
    simp only [Bool.or_eq_true, decide_eq_true_eq]
    exact Nat.le_total _ _

theorem sublist_ordered (hp : p ∈ r.saved) (hq : q ∈ r.saved)
    (hprecedes : Precedes r.shared.order.order q.id p.id) : [q, p].Sublist r.ordered := by
  have ⟨i, j, hi, hj, hij⟩ := hprecedes
  have hplaced (d : PackageDecls) (hd : d ∈ r.saved) (k : Nat)
      (hk : r.shared.order.order.idxOf? d.id = some k) : d ∈ r.placed := by
    have hplace : r.isPlaced d := by simp [isPlaced, PackageOrder.position?, hk]
    exact List.mem_mergeSort.mpr (List.mem_filter.mpr ⟨hd, hplace⟩)
  have hne : q ≠ p := fun heq => hprecedes.ne (congrArg PackageDecls.id heq)
  rw [ordered_eq]
  cases sublist_or_sublist (hplaced q hq i hi) (hplaced p hp j hj) hne with
  | inl hsub => exact hsub.trans (List.sublist_append_right _ _)
  | inr hsub =>
    -- Sorted the other way round, the places would be, too.
    have hle := r.pairwise_placed.forall_sublist hsub
    simp only [PackageOrder.position?, hi, hj, Option.getD_some] at hle
    omega

theorem nodup_saved (h : r.built.map (·.decls.id) = t.graph.packages.map Object.id) :
    (r.saved.map (·.id)).Nodup := by
  have hall : (r.built.map (·.decls.id)).Nodup := h ▸ t.graph.nodup_packages
  rw [saved, List.map_map]
  exact hall.sublist (List.filter_sublist.map _)

theorem exists_umbrella_eq {policy : Policy} {packages : List PackageDecls}
    (h : [q, p].Sublist packages) : ∃ front between behind, Source.umbrella policy packages =
      front ++ q.includes policy ++ between ++ p.includes policy ++ behind := by
  obtain ⟨start, rest, rfl, hq, hp⟩ := List.cons_sublist_iff.mp h
  obtain ⟨a, b, rfl⟩ := List.append_of_mem hq
  obtain ⟨c, d, rfl⟩ := List.append_of_mem (List.singleton_sublist.mp hp)
  let joined (packages : List PackageDecls) : String :=
    String.join (packages.map (PackageDecls.includes policy))
  refine ⟨Source.umbrella policy a, joined b ++ joined c, joined d, ?_⟩
  simp [Source.umbrella, joined, String.join_append, String.append_assoc]

theorem writtenBefore (h : [q, p].Sublist r.ordered) : WrittenBefore t r q p where
  order := h
  header := exists_umbrella_eq h
  manifest := ⟨_, r.ordered.map (Bundle.entry t.policy), rfl, by simp, h.map _⟩

/-- The saved packages are written each once, those without a place first and as they were worked
on.  A package comes behind those that it refers to, unless they lead back to it, and cycles are
reported just when there are any. -/
theorem packages_in_order (r : Run) (h : generate t .start = .ok r) :
    r.ordered.Perm r.saved
    ∧ (r.saved.map (·.id)).Nodup
    ∧ (∃ rest, r.ordered =
        r.saved.filter (fun p => (r.shared.order.position? p.id).isNone) ++ rest
      ∧ ∀ p ∈ rest, (r.shared.order.position? p.id).isSome)
    ∧ (∀ p ∈ r.saved, ∀ q ∈ r.saved, t.graph.References p.id q.id →
      ¬ TransGen t.graph.References q.id p.id → WrittenBefore t r q p)
    ∧ (r.cycles = [] ↔ ∀ p, ¬ TransGen t.graph.References p p) := by
  obtain ⟨calls, hruns⟩ := exists_runs h
  have horder : r.shared.order = PackageOrder.empty.after calls := hruns.order_eq
  have hneeds : Needs calls = t.graph.References := by
    funext p q
    exact propext (hruns.needs_iff p q)
  have hconsistent := PackageOrder.consistent_after calls
  rw [← horder] at hconsistent
  refine ⟨r.perm_ordered, nodup_saved (map_id_of_generate h Resolution.isIdle_start), ?unplaced,
    ?written, ?cycles⟩
  case unplaced => exact ⟨r.placed, rfl, fun p hp => isPlaced_of_mem_placed hp⟩
  case written =>
    intro p hp q hq hreferences hback
    apply writtenBefore
    have hsettled := hconsistent.settled p.id q.id (hneeds ▸ hreferences)
    rw [PackageOrder.Settled, hneeds] at hsettled
    exact sublist_ordered hp hq (hsettled.resolve_right hback)
  case cycles =>
    rw [cycles, hconsistent.onRecord.cycles_eq_nil_iff, hneeds]

def base : Object :=
  ⟨4, 3, "Base", none, "ScriptStruct Core.Base", some 2, some 2, 0, .scriptStruct ⟨none, 8, []⟩⟩

def derived : Object :=
  ⟨3, 2, "Derived", none, "ScriptStruct Engine.Derived", some 1, some 1, 0,
    .scriptStruct ⟨some 4, 16, []⟩⟩

def derivation : Target where
  graph := {
    objects := [
      ⟨1, 0, "Engine", none, "Package Engine", none, none, 0, .package⟩,
      ⟨2, 1, "Core", none, "Package Core", none, none, 0, .package⟩, derived, base]
    distinct := by decide }
  policy := .standard
  memory := none

theorem packages_in_order_derivation : ∃ r, generate derivation .start = .ok r
    ∧ r.saved.map (·.id) = [1, 2]
    ∧ ∀ p ∈ r.saved, ∀ q ∈ r.saved, p.id = 1 → q.id = 2 → WrittenBefore derivation r q p := by
  have hrun : (generate derivation .start).map (fun r => (r.saved.map (·.id), r.cycles)) =
      .ok ([1, 2], []) := by decide +kernel
  obtain ⟨r, hr, heq⟩ := exists_ok_of_map hrun
  obtain ⟨hsaved, hnone⟩ := Prod.mk.inj heq
  obtain ⟨_, _, _, hwritten, hcycles⟩ := packages_in_order r hr
  refine ⟨r, hr, hsaved, ?_⟩
  intro p hp q hq hpid hqid
  have hreferences : derivation.graph.References p.id q.id := by
    rw [hpid, hqid]
    exact ⟨by decide, by decide, derived, base, ⟨by decide +kernel, rfl⟩,
      ⟨by decide +kernel, rfl⟩, .super rfl (by decide)⟩
  apply hwritten p hp q hq hreferences
  intro hback
  exact hcycles.mp hnone q.id (hback.tail hreferences)

end Run

end TypeAtlas
