import TypeAtlas.Host
import Mathlib.Data.List.Nodup

/-! Files that are written one after another.  A path goes through directories alone, and files are
never written over those, so that every path leads to the same place throughout. -/

namespace TypeAtlas.Disk

variable {d d₁ d' : Disk} {p q : Place} {n : Node} {path name : String} {contents : Bytes}
  {files : List (String × Bytes)} {as bs : List Char}

theorem lookup_filter_ne (h : q ≠ p) (nodes : List (Place × Node)) :
    (nodes.filter (·.1 ≠ p)).lookup q = nodes.lookup q := by
  induction nodes with
  | nil => rfl
  | cons e nodes ih =>
    by_cases he : e.1 = p
    · rw [List.filter_cons_of_neg (by simpa using he), ih, List.lookup_cons,
        beq_eq_false_iff_ne.mpr (he ▸ h)]
    · rw [List.filter_cons_of_pos (by simpa using he), List.lookup_cons, List.lookup_cons, ih]

theorem node?_put (hp : p ≠ []) : (d.put p n).node? q = if q = p then some n else d.node? q := by
  cases q with
  | nil => rw [if_neg hp.symm]; rfl
  | cons name above =>
    unfold node? put
    by_cases h : name :: above = p
    · simp [h]
    · simp only [if_neg h, List.lookup_cons, beq_eq_false_iff_ne.mpr h]
      exact lookup_filter_ne h d.nodes

theorem ne_nil_of_node?_ne (h : d.node? p ≠ some .directory) : p ≠ [] := by
  rintro rfl
  exact h rfl

structure SameDirectories (d d' : Disk) : Prop where
  home_eq : d'.home = d.home
  directory_iff (p : Place) : d'.node? p = some .directory ↔ d.node? p = some .directory

theorem SameDirectories.trans (h : d.SameDirectories d₁) (h' : d₁.SameDirectories d') :
    d.SameDirectories d' :=
  ⟨h'.home_eq.trans h.home_eq, fun p => (h'.directory_iff p).trans (h.directory_iff p)⟩

theorem SameDirectories.locate?_eq (h : d.SameDirectories d') (path : String) :
    d'.locate? path = d.locate? path := by
  have henter : d'.enter? = d.enter? := by
    funext p name
    simp only [enter?, ne_eq, h.directory_iff p]
  have hstart : d'.start = d.start := by
    funext path
    rw [start, start, h.home_eq]
  rw [locate?, locate?, henter, hstart]

theorem write?_eq_some_iff : d.write? path contents = some d' ↔
    ∃ p, d.locate? path = some p ∧ d.node? p ≠ some .directory ∧ d.put p (.file contents) = d' := by
  simp only [write?, Option.bind_eq_bind, Option.bind_eq_some_iff, Option.ite_none_left_eq_some,
    Option.some.injEq]

theorem sameDirectories_put (h : d.node? p ≠ some .directory) (contents : Bytes) :
    d.SameDirectories (d.put p (.file contents)) := by
  refine ⟨rfl, fun q => ?_⟩
  rw [node?_put (ne_nil_of_node?_ne h)]
  split
  case isTrue heq => simp [heq, h]
  case isFalse => rfl

def writeAll? (d : Disk) (files : List (String × Bytes)) : Option Disk :=
  files.foldlM (fun d f => d.write? f.1 f.2) d

/-- A path that leads to where a file is or may be. -/
def CanHold (d : Disk) (path : String) : Prop :=
  ∃ p, d.locate? path = some p ∧ d.node? p ≠ some .directory

theorem SameDirectories.canHold_iff (h : d.SameDirectories d') :
    d'.CanHold path ↔ d.CanHold path := by
  simp only [CanHold, h.locate?_eq, ne_eq, h.directory_iff]

theorem exists_writeAll?_iff :
    (∃ d', d.writeAll? files = some d') ↔ ∀ f ∈ files, d.CanHold f.1 := by
  induction files generalizing d with
  | nil => simp [writeAll?]
  | cons f files ih =>
    simp only [writeAll?, List.foldlM_cons, Option.bind_eq_bind, Option.bind_eq_some_iff,
      List.forall_mem_cons]
    constructor
    · rintro ⟨d', d₁, hwrite, hrest⟩
      obtain ⟨p, hp, hnode, rfl⟩ := write?_eq_some_iff.mp hwrite
      refine ⟨⟨p, hp, hnode⟩, fun g hg => (sameDirectories_put hnode f.2).canHold_iff.mp ?_⟩
      exact ih.mp ⟨d', hrest⟩ g hg
    · rintro ⟨⟨p, hp, hnode⟩, hrest⟩
      obtain ⟨d', hd'⟩ := ih.mpr fun g hg =>
        (sameDirectories_put hnode f.2).canHold_iff.mpr (hrest g hg)
      exact ⟨d', _, write?_eq_some_iff.mpr ⟨p, hp, hnode, rfl⟩, hd'⟩

/-- Every file leads to its place, all other places are as before, and where no two files lead to
one place, each place has the contents of its file. -/
theorem exists_places_of_writeAll? (h : d.writeAll? files = some d') :
    d.SameDirectories d' ∧ ∃ places, List.Forall₂ (fun p f => d.locate? f.1 = some p) places files
      ∧ (∀ q ∉ places, d'.node? q = d.node? q)
      ∧ (places.Nodup → List.Forall₂ (fun p f => d'.node? p = some (.file f.2)) places files) := by
  induction files generalizing d with
  | nil =>
    cases h
    exact ⟨⟨rfl, fun _ => Iff.rfl⟩, [], .nil, fun _ _ => rfl, fun _ => .nil⟩
  | cons f files ih =>
    simp only [writeAll?, List.foldlM_cons, Option.bind_eq_bind, Option.bind_eq_some_iff] at h
    obtain ⟨d₁, hwrite, hrest⟩ := h
    obtain ⟨p, hp, hnode, rfl⟩ := write?_eq_some_iff.mp hwrite
    have hfirst := sameDirectories_put hnode f.2
    obtain ⟨hsame, places, hplaces, hother, hheld⟩ := ih hrest
    refine ⟨hfirst.trans hsame, p :: places, .cons hp ?_, fun q hq => ?_, fun hnodup => ?_⟩
    · exact hplaces.imp fun q g hq => (hfirst.locate?_eq g.1).symm.trans hq
    · rw [List.mem_cons, not_or] at hq
      rw [hother q hq.2, node?_put (ne_nil_of_node?_ne hnode), if_neg hq.1]
    · obtain ⟨hp', hnodup⟩ := List.nodup_cons.mp hnodup
      refine .cons ?_ (hheld hnodup)
      rw [hother p hp', node?_put (ne_nil_of_node?_ne hnode), if_pos rfl]

theorem node?_of_makeStep {s s' : Disk × Place} (h : makeStep s name = some s') :
    s'.1.node? q = some (.file contents) ↔ s.1.node? q = some (.file contents) := by
  simp only [makeStep, Option.bind_eq_bind, Option.bind_eq_some_iff] at h
  obtain ⟨p, -, h⟩ := h
  split at h
  case h_1 => cases h; rfl
  case h_2 => cases h
  case h_3 hnone =>
    cases h
    have hp : p ≠ [] := by
      rintro rfl
      cases hnone
    rw [node?_put hp]
    split
    case isTrue heq => simp [heq, hnone]
    case isFalse => rfl

theorem node?_of_makeSteps {names : List String} {s s' : Disk × Place}
    (h : names.foldlM makeStep s = some s') :
    s'.1.node? q = some (.file contents) ↔ s.1.node? q = some (.file contents) := by
  induction names generalizing s with
  | nil =>
    cases h
    rfl
  | cons name names ih =>
    simp only [List.foldlM_cons, Option.bind_eq_bind, Option.bind_eq_some_iff] at h
    obtain ⟨s₁, hstep, h⟩ := h
    exact (ih h).trans (node?_of_makeStep hstep)

theorem node?_of_makeDirectory? (h : d.makeDirectory? path = some d') :
    d'.node? q = some (.file contents) ↔ d.node? q = some (.file contents) := by
  simp only [makeDirectory?, Option.bind_eq_bind, Option.bind_eq_some_iff] at h
  obtain ⟨names, -, s, hs, heq⟩ := h
  cases heq
  exact node?_of_makeSteps hs

theorem splitSlash_ne_nil (cs : List Char) : splitSlash cs ≠ [] := by
  cases cs with
  | nil => simp [splitSlash]
  | cons c cs =>
    unfold splitSlash
    split
    · simp
    · split <;> simp

theorem splitSlash_append_slash (as bs : List Char) :
    splitSlash (as ++ '/' :: bs) = splitSlash as ++ splitSlash bs := by
  induction as with
  | nil => simp [splitSlash]
  | cons a as ih =>
    obtain ⟨first, rest, has⟩ := List.exists_cons_of_ne_nil (splitSlash_ne_nil as)
    rw [List.cons_append, splitSlash, splitSlash, ih, has]
    split <;> rfl

theorem exists_splitSlash_append (h : '/' ∉ bs) (as : List Char) : ∃ init last,
    splitSlash as = init ++ [last] ∧ splitSlash (as ++ bs) = init ++ [last ++ bs] := by
  induction as with
  | nil =>
    refine ⟨[], [], rfl, ?_⟩
    induction bs with
    | nil => rfl
    | cons b bs ih =>
      rw [List.mem_cons, not_or] at h
      have hbs : splitSlash bs = [bs] := ih h.2
      rw [List.nil_append, splitSlash, if_neg (Ne.symm h.1), hbs]
      rfl
  | cons a as ih =>
    obtain ⟨init, last, has, happend⟩ := ih
    rw [List.cons_append, splitSlash, splitSlash, has, happend]
    split
    · exact ⟨[] :: init, last, rfl, rfl⟩
    · cases init with
      | nil => exact ⟨[], a :: last, rfl, rfl⟩
      | cons first init => exact ⟨(a :: first) :: init, last, rfl, rfl⟩

def lastName (cs : List Char) : List Char := (splitSlash cs).getLast?.getD []

theorem lastName_append_slash (as bs : List Char) : lastName (as ++ '/' :: bs) = lastName bs := by
  obtain ⟨last, hlast⟩ :=
    Option.isSome_iff_exists.mp (List.getLast?_isSome.mpr (splitSlash_ne_nil bs))
  rw [lastName, lastName, splitSlash_append_slash, List.getLast?_append, hlast]
  rfl

theorem lastName_append (h : '/' ∉ bs) (as : List Char) :
    lastName (as ++ bs) = lastName as ++ bs := by
  obtain ⟨init, last, has, happend⟩ := exists_splitSlash_append h as
  simp [lastName, has, happend]

/-- A name that leads on, and not to the directory itself or to the one around it. -/
def LeadsOn (name : List Char) : Prop := name ≠ [] ∧ name ≠ ['.'] ∧ name ≠ ['.', '.']

instance (name : List Char) : Decidable (LeadsOn name) := inferInstanceAs (Decidable (_ ∧ _ ∧ _))

theorem leadsOn_of_underscore_mem (h : '_' ∈ as) : LeadsOn as := by
  refine ⟨?_, ?_, ?_⟩ <;> rintro rfl <;> simp at h

theorem eq_cons_of_enter? (h : d.enter? p (String.ofList as) = some q) (has : LeadsOn as) :
    q = String.ofList as :: p := by
  obtain ⟨hempty, hself, haround⟩ := has
  have hdot : "." = String.ofList ['.'] := rfl
  have hdots : ".." = String.ofList ['.', '.'] := rfl
  have hnone : "" = String.ofList [] := rfl
  simp only [enter?, hdot, hdots, hnone, String.ofList_inj, hempty, hself, haround, or_self,
    if_false] at h
  split at h
  · cases h
  · split at h
    · exact (Option.some.inj h).symm
    · cases h

theorem head?_of_locate? (h : d.locate? path = some p) (hlast : LeadsOn (lastName path.toList)) :
    p.head? = some (String.ofList (lastName path.toList)) := by
  simp only [locate?, Option.bind_eq_bind, Option.bind_eq_some_iff] at h
  obtain ⟨names, hnames, hp⟩ := h
  obtain ⟨init, last, hsplit, -⟩ := exists_splitSlash_append List.not_mem_nil path.toList
  have hname : lastName path.toList = last := by simp [lastName, hsplit]
  have hnames : names = init.map String.ofList ++ [String.ofList last] := by
    unfold names? at hnames
    split at hnames
    · cases hnames
    · rw [← Option.some.inj hnames, hsplit]
      simp
  rw [hnames, List.foldlM_append] at hp
  simp only [Option.bind_eq_bind, Option.bind_eq_some_iff, List.foldlM_cons, List.foldlM_nil] at hp
  obtain ⟨above, -, q, henter, hq⟩ := hp
  cases hq
  rw [hname] at hlast ⊢
  rw [eq_cons_of_enter? henter hlast]
  rfl

theorem isAbsolute_append (hpath : path ≠ "") (behind : String) :
    isAbsolute (path ++ behind) = isAbsolute path := by
  obtain ⟨c, cs, hcs⟩ := List.exists_cons_of_ne_nil (mt String.toList_eq_nil_iff.mp hpath)
  simp [isAbsolute, hcs]

theorem exists_locate?_of_append {behind : String} (hpath : path ≠ "")
    (h : d.locate? (path ++ "/" ++ behind) = some q) : ∃ p, d.locate? path = some p
      ∧ ((splitSlash behind.toList).map String.ofList).foldlM d.enter? p = some q := by
  simp only [locate?, Option.bind_eq_bind, Option.bind_eq_some_iff] at h ⊢
  obtain ⟨names, hnames, hq⟩ := h
  have hstart : d.start (path ++ "/" ++ behind) = d.start path := by
    rw [start, start, String.append_assoc, isAbsolute_append hpath]
  unfold names? at hnames ⊢
  split at hnames
  case isTrue => cases hnames
  case isFalse hlong =>
    have hshort : ¬ (path.isEmpty || decide (pathLimit < path.utf8ByteSize)) := by
      simp only [String.utf8ByteSize_append, Bool.or_eq_true, decide_eq_true_eq, not_or] at hlong ⊢
      refine ⟨by simpa using hpath, ?_⟩
      omega
    rw [if_neg hshort]
    have hsplit : splitSlash (path ++ "/" ++ behind).toList =
        splitSlash path.toList ++ splitSlash behind.toList := by
      rw [String.toList_append, String.toList_append, List.append_assoc]
      exact splitSlash_append_slash _ _
    rw [← Option.some.inj hnames, hsplit, hstart, List.map_append, List.foldlM_append] at hq
    obtain ⟨p, hp, hq⟩ := Option.bind_eq_some_iff.mp hq
    exact ⟨p, ⟨_, rfl, hp⟩, hq⟩

def IsFlat (d : Disk) (path : String) : Prop :=
  ∀ p, d.locate? path = some p → ∀ name, d.node? (name :: p) ≠ some .directory

theorem SameDirectories.isFlat_iff (h : d.SameDirectories d') : d'.IsFlat path ↔ d.IsFlat path := by
  simp only [IsFlat, h.locate?_eq, ne_eq, h.directory_iff]

theorem IsFlat.slash_notMem (hflat : d.IsFlat path) (hpath : path ≠ "") {behind : String}
    (hhead : '_' ∈ as) (has : '/' ∉ as) (hbehind : behind.toList = as ++ bs)
    (h : d.CanHold (path ++ "/" ++ behind)) : '/' ∉ bs := by
  intro hslash
  obtain ⟨front, back, hbs, hfront⟩ := List.eq_append_cons_of_mem hslash
  obtain ⟨q, hq, -⟩ := h
  obtain ⟨p, hp, hq⟩ := exists_locate?_of_append hpath hq
  have hsplit : splitSlash behind.toList = (as ++ front) :: splitSlash back := by
    have hplain : '/' ∉ as ++ front := by simp [has, hfront]
    obtain ⟨init, last, hnil, hone⟩ := exists_splitSlash_append hplain []
    rw [hbehind, hbs, ← List.append_assoc, splitSlash_append_slash]
    cases init <;> simp_all [splitSlash]
  obtain ⟨next, rest, hback⟩ := List.exists_cons_of_ne_nil (splitSlash_ne_nil back)
  simp only [hsplit, hback, List.map_cons, List.foldlM_cons, Option.bind_eq_bind,
    Option.bind_eq_some_iff] at hq
  obtain ⟨p₁, hp₁, p₂, hp₂, -⟩ := hq
  have hleads : LeadsOn (as ++ front) :=
    leadsOn_of_underscore_mem (List.mem_append_left _ hhead)
  rw [eq_cons_of_enter? hp₁ hleads] at hp₂
  unfold enter? at hp₂
  rw [if_pos (hflat p hp _)] at hp₂
  cases hp₂

end TypeAtlas.Disk
