import TypeAtlas.Proofs.Resolution.References
import Mathlib.Data.List.Perm.Subperm

/-! When two objects come out under one name.  A name is an object's own name, behind the name of
what holds the object where another of its kind is called the same.  What is called the same is
judged before characters give way to underscores, and the underscore between the two parts may as
well belong to either. -/

namespace TypeAtlas.Graph

open Identifier

variable {g : Graph} {o p : Object}

def ownName (g : Graph) (o : Object) : List Char := sanitizeChars (g.nativeName o).toList

def holderName? (g : Graph) (o : Object) : Option (List Char) :=
  (o.outer.bind g.get?).map fun holder => sanitizeChars holder.name.toList

def joined : Option (List Char) → List Char
  | some holder => holder ++ ['_']
  | none => []

def qualifier (g : Graph) (o : Object) : List Char :=
  if g.isAmbiguous o then joined (g.holderName? o) else []

theorem toList_uniqueName (g : Graph) (o : Object) :
    (g.uniqueName o).toList = g.qualifier o ++ g.ownName o := by
  unfold uniqueName qualifier holderName? ownName sanitize
  split
  · cases o.outer.bind g.get? with
    | none => simp [joined]
    | some holder => simp [joined]
  · simp

theorem joined_injective : Function.Injective joined := by
  intro a b h
  cases a with
  | none => cases b <;> simp_all [joined]
  | some holder => cases b <;> simp_all [joined]

theorem eq_underscore_of_qualifier {init : List Char} {c : Char} (h : g.qualifier o = init ++ [c]) :
    c = '_' := by
  unfold qualifier at h
  split at h
  · cases hh : g.holderName? o with
    | none => simp [hh, joined] at h
    | some holder =>
      rw [hh, joined] at h
      exact (List.singleton_inj.mp (List.append_inj_right' h rfl)).symm
  · simp at h

def namesakes (g : Graph) (o : Object) : List Object :=
  g.objects.filter fun p => p.kind.tag = o.kind.tag && p.name == o.name

theorem mem_namesakes : p ∈ g.namesakes o
    ↔ p ∈ g.objects ∧ (p.kind.tag, p.name) = (o.kind.tag, o.name) := by
  simp [namesakes]

theorem isAmbiguous_iff (ho : o ∈ g.objects) : g.isAmbiguous o = true ↔
    ∃ p ∈ g.objects, p ≠ o ∧ (p.kind.tag, p.name) = (o.kind.tag, o.name) := by
  rw [show g.isAmbiguous o = decide (1 < (g.namesakes o).length) from rfl, decide_eq_true_eq]
  constructor
  · intro hlen
    by_contra hnone
    have hsub : g.namesakes o ⊆ [o] := by
      intro p hp
      by_contra hne
      exact hnone ⟨p, (mem_namesakes.mp hp).1, by simpa using hne, (mem_namesakes.mp hp).2⟩
    have hle := (List.subperm_of_subset (g.nodup_objects.filter _) hsub).length_le
    exact absurd hlen (Nat.not_lt.mpr hle)
  · rintro ⟨p, hp, hne, heq⟩
    have hnodup : [p, o].Nodup := by simpa using hne
    have hsub : [p, o] ⊆ g.namesakes o := by
      intro q hq
      rcases List.mem_pair.mp hq with rfl | rfl
      · exact mem_namesakes.mpr ⟨hp, heq⟩
      · exact mem_namesakes.mpr ⟨ho, rfl⟩
    exact (List.subperm_of_subset hnodup hsub).length_le

/-- The ways in which two names are one: part by part, or with a stretch at the seam that is read
as the end of one qualifier and as the start of the other's own name. -/
inductive Clash (g : Graph) (o p : Object) : Prop
  | alike : g.qualifier o = g.qualifier p → g.ownName o = g.ownName p → Clash g o p
  | left (seam : List Char) : seam ≠ [] → g.qualifier p = g.qualifier o ++ seam →
      g.ownName o = seam ++ g.ownName p → Clash g o p
  | right (seam : List Char) : seam ≠ [] → g.qualifier o = g.qualifier p ++ seam →
      g.ownName p = seam ++ g.ownName o → Clash g o p

theorem uniqueName_eq_iff : g.uniqueName o = g.uniqueName p ↔ g.Clash o p := by
  rw [← String.toList_inj, toList_uniqueName, toList_uniqueName]
  constructor
  · intro h
    obtain ⟨seam, hq, hown⟩ | ⟨seam, hq, hown⟩ := List.append_eq_append_iff.mp h
    · by_cases hs : seam = []
      · subst hs
        exact .alike (by simpa using hq.symm) (by simpa using hown)
      · exact .left seam hs hq hown
    · by_cases hs : seam = []
      · subst hs
        exact .alike (by simpa using hq) (by simpa using hown.symm)
      · exact .right seam hs hq hown
  · intro h
    cases h with
    | alike hq hown => rw [hq, hown]
    | left seam _ hq hown => rw [hq, hown, List.append_assoc]
    | right seam _ hq hown => rw [hq, hown, List.append_assoc]

theorem behind_of_seam {seam : List Char} (hne : seam ≠ [])
    (hq : g.qualifier p = g.qualifier o ++ seam) (hown : g.ownName o = seam ++ g.ownName p) :
    '_' :: g.ownName p <:+ g.ownName o := by
  obtain ⟨init, c, rfl⟩ := (List.eq_nil_or_concat' seam).resolve_left hne
  rw [← List.append_assoc] at hq
  obtain rfl := eq_underscore_of_qualifier hq
  exact ⟨init, by simp [hown]⟩

@[mk_iff] structure ToldApart (g : Graph) (o p : Object) : Prop where
  own_ne : (o.kind.tag, o.name) ≠ (p.kind.tag, p.name) → g.ownName o ≠ g.ownName p
  holder_ne : (o.kind.tag, o.name) = (p.kind.tag, p.name) → g.holderName? o ≠ g.holderName? p
  not_behind : ¬ '_' :: g.ownName p <:+ g.ownName o
  not_before : ¬ '_' :: g.ownName o <:+ g.ownName p

instance : Decidable (g.ToldApart o p) := decidable_of_iff' _ (toldApart_iff g o p)

theorem ToldApart.not_clash (h : g.ToldApart o p) (ho : o ∈ g.objects) (hp : p ∈ g.objects)
    (hne : o ≠ p) : ¬ g.Clash o p := by
  intro hclash
  cases hclash with
  | alike hq hown =>
    by_cases heq : (o.kind.tag, o.name) = (p.kind.tag, p.name)
    · have ha : g.isAmbiguous o := (isAmbiguous_iff ho).mpr ⟨p, hp, hne.symm, heq.symm⟩
      have ha' : g.isAmbiguous p := (isAmbiguous_iff hp).mpr ⟨o, ho, hne, heq⟩
      rw [qualifier, qualifier, if_pos ha, if_pos ha'] at hq
      exact h.holder_ne heq (joined_injective hq)
    · exact h.own_ne heq hown
  | left seam hs hq hown => exact h.not_behind (behind_of_seam hs hq hown)
  | right seam hs hq hown => exact h.not_before (behind_of_seam hs hq hown)

/-- A name of letters and digits that starts with a letter, and no native name in its place. -/
structure IsPlain (o : Object) : Prop where
  nativeName_eq : o.nativeName = none
  isLetterOrDigit : o.name.toList.all (fun c => isLetter c || isDigit c) = true
  not_isDigit : o.name.toList.head?.any isDigit = false

def mark (g : Graph) (o : Object) : List Char :=
  match o.kind.tag with
  | .classType => if g.derivesFrom o.id "Actor" then ['A'] else ['U']
  | .scriptStruct => ['F']
  | _ => []

theorem length_mark (h : o.kind.tag = p.kind.tag) : (g.mark o).length = (g.mark p).length := by
  unfold mark
  rw [h]
  split
  · split <;> split <;> rfl
  · rfl
  · rfl

theorem isLetter_of_mem_mark {c : Char} (h : c ∈ g.mark o) :
    isLetter c = true ∧ isDigit c = false := by
  unfold mark at h
  split at h
  · split at h <;> obtain rfl := List.mem_singleton.mp h <;> decide
  · obtain rfl := List.mem_singleton.mp h
    decide
  · cases h

theorem toList_nativeName (h : o.nativeName = none) :
    (g.nativeName o).toList = g.mark o ++ o.name.toList := by
  unfold nativeName mark
  rw [h]
  cases o.kind.tag with
  | classType => dsimp only; split <;> simp
  | scriptStruct => simp
  | _ => rfl

theorem sanitizeChars_of_isPart {cs : List Char} (hparts : ∀ c ∈ cs, isPart c = true)
    (hfirst : ∀ c ∈ cs.head?, isDigit c = false) : sanitizeChars cs = cs := by
  have hmap : cs.map (fun c => if isPart c then c else '_') = cs := by
    apply (List.map_congr_left fun c hc => if_pos (hparts c hc)).trans
    exact List.map_id' cs
  unfold sanitizeChars
  rw [hmap]
  cases cs with
  | nil => rfl
  | cons c cs => simp [hfirst c rfl]

namespace IsPlain

variable (h : IsPlain o)

include h

theorem isLetterOrDigit_mark (g : Graph) : ∀ c ∈ g.mark o ++ o.name.toList,
    (isLetter c || isDigit c) = true := by
  intro c hc
  cases List.mem_append.mp hc with
  | inl hmark => simp [(isLetter_of_mem_mark hmark).1]
  | inr hname => exact List.all_eq_true.mp h.isLetterOrDigit c hname

theorem ownName_eq (g : Graph) : g.ownName o = g.mark o ++ o.name.toList := by
  rw [ownName, toList_nativeName h.nativeName_eq]
  apply sanitizeChars_of_isPart
  · intro c hc
    simp [isPart, h.isLetterOrDigit_mark g c hc]
  · intro c hc
    rw [List.head?_append, Option.mem_def, Option.or_eq_some_iff] at hc
    cases hc with
    | inl hmark => exact (isLetter_of_mem_mark (List.mem_of_mem_head? hmark)).2
    | inr hname => simpa [hname.2] using h.not_isDigit

theorem underscore_notMem_ownName (g : Graph) : '_' ∉ g.ownName o := by
  intro hmem
  rw [h.ownName_eq] at hmem
  exact absurd (h.isLetterOrDigit_mark g _ hmem) (by decide)

theorem toldApart (h' : IsPlain p) (htag : o.kind.tag = p.kind.tag)
    (hholder : o.name = p.name → g.holderName? o ≠ g.holderName? p) : g.ToldApart o p where
  own_ne hne heq := by
    rw [h.ownName_eq, h'.ownName_eq] at heq
    have hname := (List.append_inj heq (length_mark htag)).2
    exact hne (by rw [htag, String.toList_inj.mp hname])
  holder_ne heq := hholder (Prod.mk.inj heq).2
  not_behind hsuffix := h.underscore_notMem_ownName g (hsuffix.subset List.mem_cons_self)
  not_before hsuffix := h'.underscore_notMem_ownName g (hsuffix.subset List.mem_cons_self)

end IsPlain

end TypeAtlas.Graph
