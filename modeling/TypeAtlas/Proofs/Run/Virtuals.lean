import TypeAtlas.Proofs.Resolution.Virtuals
import TypeAtlas.Proofs.Run.Ordered
import Mathlib.Data.List.Forall2

namespace TypeAtlas

variable {t : Target} {m₁ m₂ : Option Space} {p : Object} {ps : List Object} {ids : List ObjectId}
  {groups : List (ObjectId × List ObjectId)} {shared shared' : Resolution} {r r' : Run}

/-- Declarations of one class that differ in nothing but the methods behind the way to its class
object.  Those are the methods that are found in the one memory and in the other, so that they do
not differ either unless there are virtual functions to be found, and a live instance. -/
def ClassDecl.SameButVirtuals (t : Target) (m₁ m₂ : Option Space) (c₁ c₂ : ClassDecl) : Prop :=
  ∃ o, t.graph.get? c₁.id = some o
    ∧ { c₁ with extraMethods := [] } = { c₂ with extraMethods := [] }
    ∧ c₁.extraMethods =
      t.policy.methodsFor o.fullName ++ staticClass t.policy o :: t.policy.virtualsOf m₁ o
    ∧ c₂.extraMethods =
      t.policy.methodsFor o.fullName ++ staticClass t.policy o :: t.policy.virtualsOf m₂ o
    ∧ (c₁ ≠ c₂ → t.policy.virtualFunctionsFor? o.fullName ≠ none ∧ o.address ≠ 0)

structure PackageDecls.SameButVirtuals (t : Target) (m₁ m₂ : Option Space)
    (d₁ d₂ : PackageDecls) : Prop where
  id : d₁.id = d₂.id
  name : d₁.name = d₂.name
  enums : d₁.enums = d₂.enums
  constants : d₁.constants = d₂.constants
  structs : d₁.structs = d₂.structs
  classes : List.Forall₂ (ClassDecl.SameButVirtuals t m₁ m₂) d₁.classes d₂.classes

theorem forall₂_map_map {α β : Type} {R : β → β → Prop} {f g : α → β} {as : List α}
    (h : ∀ a ∈ as, R (f a) (g a)) : List.Forall₂ R (as.map f) (as.map g) := by
  rw [List.forall₂_map_left_iff, List.forall₂_map_right_iff, List.forall₂_same]
  exact h

theorem ClassDecl.IsStatic.sameButVirtuals {c : ClassDecl} (h : c.IsStatic t) :
    SameButVirtuals t m₁ m₂ (c.withVirtuals (t.reading m₁)) (c.withVirtuals (t.reading m₂)) := by
  obtain ⟨o, hget, hmethods⟩ := h
  have hwith (m : Option Space) : (c.withVirtuals (t.reading m)).extraMethods =
      t.policy.methodsFor o.fullName ++ staticClass t.policy o :: t.policy.virtualsOf m o := by
    simp [withVirtuals, hget, hmethods, Target.reading]
  refine ⟨o, hget, rfl, hwith m₁, hwith m₂, fun hne => ?_⟩
  by_contra hnone
  have hnil (m : Option Space) : t.policy.virtualsOf m o = [] :=
    Policy.virtualsOf_eq_nil (by tauto) m
  apply hne
  simp only [withVirtuals, Target.reading, hget, Option.map_some, hnil]

theorem PackageDecls.sameButVirtuals {d : PackageDecls} (h : ∀ c ∈ d.classes, c.IsStatic t) :
    SameButVirtuals t m₁ m₂ (d.withVirtuals (t.reading m₁)) (d.withVirtuals (t.reading m₂)) :=
  ⟨rfl, rfl, rfl, rfl, rfl, forall₂_map_map fun c hc => (h c hc).sameButVirtuals⟩

def Built.withVirtuals (t : Target) (b : Built) : Built :=
  { b with decls := b.decls.withVirtuals t }

namespace Run

def IsStatic (t : Target) (r : Run) : Prop := ∀ b ∈ r.built, ∀ c ∈ b.decls.classes, c.IsStatic t

structure Mirrors (t : Target) (r r' : Run) : Prop where
  built : r'.built = r.built.map (·.withVirtuals t)
  shared : r'.shared = r.shared

theorem build_of_reading (ht : t.Answers) {b : Built} {entries : List Log.Entry}
    (h : build (t.reading none) shared p ids = .ok (b, shared', entries)) :
    (∀ c ∈ b.decls.classes, c.IsStatic t)
      ∧ ∃ entries, build t shared p ids = .ok (b.withVirtuals t, shared', entries) := by
  obtain ⟨s, hs, heq⟩ := build_eq_ok_iff.mp h
  cases heq
  have hstart : (Session.start shared p).Mirrors t (.start shared p) :=
    ⟨rfl, rfl, fun c hc => nomatch hc⟩
  obtain ⟨s', hs', hmirrors⟩ := Build.Mirrored.addAll ht p.id ids _ _ _ s hstart hs
  have hsaved : s'.isSaved t.policy = s.isSaved t.policy := by
    rw [Session.isSaved, Session.isSaved, hmirrors.decls,
      PackageDecls.hasContent_withVirtuals hmirrors.isStatic]
  have hbuild := build_eq_ok_iff.mpr ⟨s', hs', rfl⟩
  rw [hsaved, hmirrors.decls, hmirrors.shared] at hbuild
  exact ⟨hmirrors.isStatic, _, hbuild⟩

theorem buildAll_of_reading (ht : t.Answers)
    (h : buildAll (t.reading none) groups shared ps = .ok r) :
    r.IsStatic t ∧ ∃ r', buildAll t groups shared ps = .ok r' ∧ r.Mirrors t r' := by
  induction ps generalizing shared r with
  | nil =>
    cases h
    exact ⟨by simp [IsStatic], _, rfl, rfl, rfl⟩
  | cons p ps ih =>
    obtain ⟨b, shared₁, entries, rest, hb, hrest, rfl⟩ := buildAll_cons_eq_ok_iff.mp h
    obtain ⟨hstatic, entries', hb'⟩ := build_of_reading ht hb
    obtain ⟨hstatics, rest', hrest', hmirrors⟩ := ih hrest
    refine ⟨?_, _, buildAll_cons_eq_ok_iff.mpr ⟨_, _, _, rest', hb', hrest', rfl⟩, ?_, ?_⟩
    · intro b' hb'
      cases List.mem_cons.mp hb' with
      | inl heq => exact heq ▸ hstatic
      | inr hb' => exact hstatics b' hb'
    · simp only [hmirrors.built, List.map_cons]
    · exact hmirrors.shared

namespace Mirrors

variable (h : r.Mirrors t r')

include h

theorem saved : r'.saved = r.saved.map (·.withVirtuals t) := by
  simp only [Run.saved, h.built, List.filter_map, List.map_map]
  rfl

theorem skipped : r'.skipped = r.skipped := by
  simp only [Run.skipped, h.built, List.filter_map, List.map_map]
  rfl

theorem ordered : r'.ordered = r.ordered.map (·.withVirtuals t) := by
  have hplaced (p : PackageDecls) : r'.isPlaced (p.withVirtuals t) = r.isPlaced p := by
    rw [isPlaced, isPlaced, h.shared]
    rfl
  rw [ordered_eq, ordered_eq, List.map_append]
  congr 1
  · simp only [h.saved, List.filter_map, Function.comp_def, hplaced]
  · have hfilter : r'.saved.filter r'.isPlaced =
        (r.saved.filter r.isPlaced).map (·.withVirtuals t) := by
      simp only [h.saved, List.filter_map, Function.comp_def, hplaced]
    rw [placed, placed, hfilter, h.shared]
    symm
    apply List.map_mergeSort
    intro p _ q _
    rfl

end Mirrors

theorem IsStatic.of_mem_saved {d : PackageDecls} (h : r.IsStatic t) (hd : d ∈ r.saved) :
    ∀ c ∈ d.classes, c.IsStatic t := by
  obtain ⟨b, hb, rfl⟩ := List.mem_map.mp hd
  exact h b (List.mem_filter.mp hb).1

theorem answers_reading {m : Option Space} (h : ∀ s ∈ m, s.IsCaptured) :
    (t.reading m).Answers :=
  fun s hs => ⟨(h s hs).ordered, (h s hs).backed⟩

/-- If a run without a memory comes to its end, so do runs with any two memories that are made of
captured blocks, or with one or none.  They agree on what packages share, which is the order of the
packages and the cycles in it, on the packages they skip, and on those they save and on the order in
which these are written, except for the methods of classes for virtual functions. -/
theorem same_but_virtuals (t : Target) (m₁ m₂ : Option Space) (h₁ : ∀ s ∈ m₁, s.IsCaptured)
    (h₂ : ∀ s ∈ m₂, s.IsCaptured) (shared : Resolution) (r : Run)
    (h : generate (t.reading none) shared = .ok r) :
    ∃ r₁ r₂, generate (t.reading m₁) shared = .ok r₁ ∧ generate (t.reading m₂) shared = .ok r₂
      ∧ r₁.shared = r₂.shared ∧ r₁.skipped = r₂.skipped
      ∧ List.Forall₂ (PackageDecls.SameButVirtuals t m₁ m₂) r₁.saved r₂.saved
      ∧ List.Forall₂ (PackageDecls.SameButVirtuals t m₁ m₂) r₁.ordered r₂.ordered := by
  obtain ⟨hstatic, r₁, hr₁, hm₁⟩ := buildAll_of_reading (answers_reading (t := t) h₁) h
  obtain ⟨_, r₂, hr₂, hm₂⟩ := buildAll_of_reading (answers_reading (t := t) h₂) h
  have hsaved (d : PackageDecls) (hd : d ∈ r.saved) : ∀ c ∈ d.classes, c.IsStatic t :=
    IsStatic.of_mem_saved hstatic hd
  refine ⟨r₁, r₂, hr₁, hr₂, hm₁.shared.trans hm₂.shared.symm,
    hm₁.skipped.trans hm₂.skipped.symm, ?_, ?_⟩
  · rw [hm₁.saved, hm₂.saved]
    exact forall₂_map_map fun d hd => PackageDecls.sameButVirtuals (hsaved d hd)
  · rw [hm₁.ordered, hm₂.ordered]
    apply forall₂_map_map
    intro d hd
    exact PackageDecls.sameButVirtuals (hsaved d (r.perm_ordered.mem_iff.mp hd))

def sibling (id : ObjectId) (name : String) (address : Address) : Object :=
  ⟨id, id, name, none, "Class Game." ++ name, some 1, some 1, address, .classType ⟨none, 8, []⟩⟩

def probe : VirtualFunction where
  pattern := ⟨[⟨0x40, true⟩, ⟨0x53, true⟩], by decide⟩
  template := "void Probe();"

def siblings : Target where
  graph := {
    objects := [⟨1, 0, "Game", none, "Package Game", none, none, 0, .package⟩,
      sibling 2 "Good" 0x1000, sibling 3 "Bad" 0x9000]
    distinct := by decide }
  policy := { Policy.standard with
    virtualFunctions := [("Class Game.Bad", [probe]), ("Class Game.Good", [probe])] }
  memory := none

def glimpse : List Block := [
  ⟨0x1000, .readWrite, "instance", [0, 0x20, 0, 0, 0, 0, 0, 0]⟩,
  ⟨0x2000, .read, "table", [0, 0x30, 0, 0, 0, 0, 0, 0, 0, 0, 0, 0, 0, 0, 0, 0]⟩,
  ⟨0x3000, .readExecute, "code", [0x90, 0x40, 0x53]⟩]

theorem same_but_virtuals_siblings : ∃ s, Space.ofBlocks glimpse = .ok s
    ∧ ∃ r r', generate (siblings.reading (some s)) .start = .ok r
      ∧ generate (siblings.reading none) .start = .ok r'
      ∧ r.saved.map (·.classes.map (·.extraMethods.length)) = [[2, 1]]
      ∧ r'.saved.map (·.classes.map (·.extraMethods.length)) = [[1, 1]]
      ∧ List.Forall₂ (PackageDecls.SameButVirtuals siblings (some s) none) r.ordered
        r'.ordered := by
  have hspace : Space.ofBlocks glimpse = .ok ⟨glimpse.map Block.mapping⟩ := by decide +kernel
  have hrun (m : Option Space) (counts : List (List Nat))
      (h : (generate (siblings.reading m) .start).map
        (fun r => r.saved.map (·.classes.map (·.extraMethods.length))) = .ok counts) :
      ∃ r, generate (siblings.reading m) .start = .ok r
        ∧ r.saved.map (·.classes.map (·.extraMethods.length)) = counts := exists_ok_of_map h
  obtain ⟨r, hr, hcounts⟩ := hrun (some ⟨glimpse.map Block.mapping⟩) [[2, 1]] (by decide +kernel)
  obtain ⟨r', hr', hcounts'⟩ := hrun none [[1, 1]] (by decide +kernel)
  obtain ⟨r₁, r₂, hr₁, hr₂, _, _, _, hordered⟩ := same_but_virtuals siblings
    (some ⟨glimpse.map Block.mapping⟩) none (fun s hs => ⟨glimpse, Option.some.inj hs ▸ hspace⟩)
    (by simp) .start r' hr'
  obtain rfl : r = r₁ := Except.ok.inj (hr.symm.trans hr₁)
  obtain rfl : r' = r₂ := Except.ok.inj (hr'.symm.trans hr₂)
  exact ⟨_, hspace, r, r', hr, hr', hcounts, hcounts', hordered⟩

end Run

end TypeAtlas
