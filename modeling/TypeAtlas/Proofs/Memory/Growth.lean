import TypeAtlas.Memory.Image
import TypeAtlas.Proofs.Memory.Ordered

namespace TypeAtlas.Space

open Memory (Error)

/-- One memory comes of another by adding mappings of a kind. -/
inductive Grows (A : Mapping → Prop) (s : Space) : Space → Prop
  | refl : Grows A s s
  | insert {t u : Space} {m : Mapping} : Grows A s t → A m → t.insert m = .ok u → Grows A s u

variable {α β : Type} {A B : Mapping → Prop} {s t u : Space} {m n : Mapping}
  {ms : List Mapping} {region : Region} {contents : Bytes} {offset length cursor stop : Nat}
  {gap : Nat × Nat}

namespace Grows

theorem trans (hst : Grows A s t) (htu : Grows A t u) : Grows A s u := by
  induction htu with
  | refl => exact hst
  | insert _ hm hins ih => exact ih.insert hm hins

theorem mono (hAB : ∀ m, A m → B m) (h : Grows A s t) : Grows B s t := by
  induction h with
  | refl => exact .refl
  | insert _ hm hins ih => exact ih.insert (hAB _ hm) hins

theorem ordered (h : Grows A s t) (hs : s.Ordered) : t.Ordered := by
  induction h with
  | refl => exact hs
  | insert _ _ hins ih => exact ih.insert hins

theorem mem_or (h : Grows A s t) (hn : n ∈ t.mappings) : n ∈ s.mappings ∨ A n := by
  induction h with
  | refl => exact .inl hn
  | insert _ hm hins ih =>
    rcases mem_insert hins hn with rfl | hn
    · exact .inr hm
    · exact ih hn

end Grows

def Step.outcome (x : Step α) (s : Space) : Except (Failure Error) α × Space := x s

theorem Step.outcome_bind (x : Step α) (f : α → Step β) (s : Space) :
    Step.outcome (x >>= f) s = match Step.outcome x s with
      | (.ok a, t) => Step.outcome (f a) t
      | (.error e, t) => (.error e, t) := by
  have h : Step.outcome (x >>= f) s = Step.outcome
      (ExceptT.bindCont (m := StateM Space) f (Step.outcome x s).1) (Step.outcome x s).2 := rfl
  rw [h]
  rcases Step.outcome x s with ⟨_ | a, t⟩
  · rfl
  · rfl

theorem Step.outcome_get (s : Space) : Step.outcome get s = (.ok s, s) := rfl

def Adds (A : Mapping → Prop) (x : Step α) : Prop := ∀ s, Grows A s (Step.outcome x s).2

namespace Adds

variable {x : Step α} {f : α → Step β}

theorem pure (a : α) : Adds A (Pure.pure a : Step α) := fun _ => .refl

theorem throw (e : Failure Error) : Adds A (throw e : Step α) := fun _ => .refl

theorem get : Adds A (get : Step Space) := fun _ => .refl

theorem bind (hx : Adds A x) (hf : ∀ a, Adds A (f a)) : Adds A (x >>= f) := by
  intro s
  rw [Step.outcome_bind]
  have hgrows := hx s
  generalize Step.outcome x s = ended at hgrows ⊢
  obtain ⟨_ | a, t⟩ := ended
  · exact hgrows
  · exact hgrows.trans (hf a t)

theorem forM {f : α → Step Unit} {as : List α} (hf : ∀ a ∈ as, Adds A (f a)) :
    Adds A (as.forM f) := by
  induction as with
  | nil => exact .pure ()
  | cons a as ih =>
    refine Adds.bind (x := f a) (hf a (by simp)) fun _ => ih fun b hb => hf b ?_
    exact List.mem_cons_of_mem a hb

theorem foldlM {f : β → α → Step β} {as : List α} (hf : ∀ a ∈ as, ∀ b, Adds A (f b a)) (b : β) :
    Adds A (as.foldlM f b) := by
  induction as generalizing b with
  | nil => exact .pure b
  | cons a as ih =>
    rw [List.foldlM_cons]
    exact (hf a (by simp) b).bind fun b => ih (fun a ha => hf a (List.mem_cons_of_mem _ ha)) b

theorem insertStep (hm : A m) : Adds A (insertStep m) := by
  intro s
  rw [Space.insertStep, Step.outcome_bind, Step.outcome_get]
  dsimp only
  cases hins : s.insert m with
  | ok t => exact .insert .refl hm hins
  | error e => exact .refl

end Adds

def piece (region : Region) (contents : Bytes) (offset length : Nat) (gap : Nat × Nat) : Mapping :=
  ⟨⟨⟨gap.1, gap.2 - gap.1⟩, region.protection, region.name⟩,
    .file contents (offset + (gap.1 - region.start))
      (min (length - (gap.1 - region.start)) (gap.2 - gap.1))⟩

theorem mem_gaps (h : gap ∈ gaps ms cursor stop) :
    cursor ≤ gap.1 ∧ gap.1 < gap.2 ∧ gap.2 ≤ stop := by
  induction ms generalizing cursor with
  | nil =>
    rw [gaps] at h
    split at h
    case isTrue hlt =>
      rw [List.mem_singleton.mp h]
      exact ⟨Nat.le_refl _, hlt, Nat.le_refl _⟩
    case isFalse => simp at h
  | cons m ms ih =>
    simp only [gaps] at h
    split at h
    case isTrue => exact ih h
    case isFalse hinside =>
      have hrest (h : gap ∈ gaps ms (max cursor m.region.range.stop) stop) :
          cursor ≤ gap.1 ∧ gap.1 < gap.2 ∧ gap.2 ≤ stop :=
        ⟨Nat.le_trans (Nat.le_max_left ..) (ih h).1, (ih h).2⟩
      split at h
      case isTrue hlt =>
        rcases List.mem_cons.mp h with rfl | h
        · simp only [Bool.or_eq_true, decide_eq_true_eq, not_or, Nat.not_le] at hinside
          exact ⟨Nat.le_refl _, hlt, Nat.le_of_lt hinside.2⟩
        · exact hrest h
      case isFalse => exact hrest h

theorem adds_mapGap (h : A (piece region contents offset length gap)) :
    Adds A (mapGap region contents offset length gap) := by
  unfold mapGap
  dsimp only
  split
  case h_1 n hadd =>
    obtain ⟨_, rfl⟩ := Word.add_eq_ok_iff.mp hadd
    rw [pure_bind]
    exact .insertStep h
  case h_2 => exact fun _ => .refl

theorem adds_mapRegion (h : ∀ gap : Nat × Nat, region.start ≤ gap.1 → gap.1 < gap.2 →
    gap.2 ≤ region.range.stop → A (piece region contents offset length gap)) :
    Adds A (mapRegion region contents offset length) := by
  refine Adds.get.bind fun s => Adds.bind (.forM fun gap hgap => ?_) fun _ => .pure _
  obtain ⟨hstart, hlt, hstop⟩ := mem_gaps hgap
  exact adds_mapGap (h gap hstart hlt hstop)

end TypeAtlas.Space
