import TypeAtlas.Sdk.Order
import Mathlib.Logic.Relation

namespace TypeAtlas.Edge

open Relation

variable {edges : List Edge} {p q target : ObjectId}

def Links (edges : List Edge) (p q : ObjectId) : Prop := ⟨p, q⟩ ∈ edges

@[simp] theorem mem_outOf {e : Edge} : e ∈ outOf edges p ↔ e ∈ edges ∧ e.referencer = p := by
  simp [outOf]

@[simp] theorem mem_elsewhere {e : Edge} :
    e ∈ elsewhere edges p ↔ e ∈ edges ∧ e.referencer ≠ p := by
  simp [elsewhere]

theorem links_of_mem_outOf {e : Edge} (he : e ∈ outOf edges p) : Links edges p e.dependency := by
  obtain ⟨hmem, rfl⟩ := mem_outOf.mp he
  exact hmem

theorem mem_dependencies : q ∈ (outOf edges p).map dependency ↔ Links edges p q := by
  simp only [List.mem_map, mem_outOf, Links]
  constructor
  · rintro ⟨e, ⟨he, rfl⟩, rfl⟩
    exact he
  · intro h
    exact ⟨⟨p, q⟩, ⟨h, rfl⟩, rfl⟩

theorem links_elsewhere {a b : ObjectId} :
    Links (elsewhere edges p) a b ↔ Links edges a b ∧ a ≠ p := by
  simp [Links]

theorem outOf_elsewhere (h : q ≠ p) : outOf (elsewhere edges p) q = outOf edges q := by
  simp only [outOf, elsewhere, List.filter_filter]
  apply List.filter_congr
  intro e _
  by_cases he : e.referencer = q
  · simp [he, h]
  · simp [he]

theorem not_links_elsewhere : ¬ Links (elsewhere edges p) p q := by
  simp [Links]

theorem reflTransGen_of_elsewhere (h : ReflTransGen (Links (elsewhere edges p)) q target) :
    ReflTransGen (Links edges) q target :=
  ReflTransGen.mono (fun _ _ hl => (links_elsewhere.mp hl).1) _ _ h

theorem transGen_links_add {edges' : List Edge} {e : Edge} {a b : ObjectId}
    (hadd : ∀ e' ∈ edges', e' = e ∨ e' ∈ edges) (h : TransGen (Links edges') a b) :
    TransGen (Links edges) a b
      ∨ ReflTransGen (Links edges) a e.referencer ∧ ReflTransGen (Links edges) e.dependency b := by
  induction h with
  | single hab =>
    rcases hadd _ hab with rfl | hab
    · exact .inr ⟨.refl, .refl⟩
    · exact .inl (.single hab)
  | tail _ hbc ih =>
    rcases hadd _ hbc with rfl | hbc
    · rcases ih with ih | ih
      · exact .inr ⟨ih.to_reflTransGen, .refl⟩
      · exact .inr ⟨ih.1, .refl⟩
    · exact ih.imp (·.tail hbc) fun ih => ⟨ih.1, ih.2.tail hbc⟩

/-- A way to the target goes on from the last time that it passes the package. -/
theorem pass_or_avoid (h : ReflTransGen (Links edges) q target) :
    p = target ∨ ReflTransGen (Links (elsewhere edges p)) q target
      ∨ ∃ d, Links edges p d ∧ ReflTransGen (Links (elsewhere edges p)) d target := by
  induction h using ReflTransGen.head_induction_on with
  | refl => exact .inr (.inl .refl)
  | @head a b hab _ ih =>
    rcases ih with ih | ih | ih
    · exact .inl ih
    · by_cases ha : a = p
      · subst ha
        exact .inr (.inr ⟨b, hab, ih⟩)
      · exact .inr (.inl (.head (links_elsewhere.mpr ⟨hab, ha⟩) ih))
    · exact .inr (.inr ih)

/-- The search finds what references lead to, although it drops those of visited packages. -/
theorem reaches_iff {pending : List ObjectId} :
    reaches target edges pending = true ↔ ∃ p ∈ pending, ReflTransGen (Links edges) p target := by
  fun_induction reaches target edges pending with
  | case1 => simp
  | case2 edges rest => simpa using .inl .refl
  | case3 edges p rest hp ih =>
    rw [ih]
    constructor
    · rintro ⟨q, hq, h⟩
      rcases List.mem_append.mp hq with hq | hq
      · exact ⟨p, by simp, .head (mem_dependencies.mp hq) (reflTransGen_of_elsewhere h)⟩
      · exact ⟨q, by simp [hq], reflTransGen_of_elsewhere h⟩
    · rintro ⟨q, hq, h⟩
      rcases pass_or_avoid (p := p) h with h | h | ⟨d, hd, h⟩
      · exact absurd h hp
      · rcases List.mem_cons.mp hq with rfl | hq
        · rcases ReflTransGen.cases_head h with h | ⟨d, hd, _⟩
          · exact absurd h hp
          · exact absurd hd not_links_elsewhere
        · exact ⟨q, by simp [hq], h⟩
      · exact ⟨d, List.mem_append_left _ (mem_dependencies.mpr hd), h⟩

end TypeAtlas.Edge
