import TypeAtlas.Proofs.Resolution.Work
import Mathlib.Logic.Relation

/-! Seeing to a type in steps from call to call, where the calls that wait for others are kept on a
stack.  However types name each other the steps come to an end, and it is the one that the recursion
comes to, whose depth is never used up. -/

namespace TypeAtlas

open Build (outcome)

variable {t : Target} {package id : ObjectId} {ids : List ObjectId} {o : Object} {s s' : Session}
  {e : Overflow} {x y : Except Overflow Unit × Session}

namespace Status

def rank : Option Status → Nat
  | none => 0
  | some .notStarted => 1
  | some .inProgress => 2
  | some .done => 3

theorem rank_le (status : Option Status) : rank status ≤ 3 := by
  rcases status with _ | _ | _ | _ <;> decide

theorem Kept.rank_le {before behind : Option Status} (h : Kept before behind) :
    rank before ≤ rank behind := by
  rcases h with rfl | ⟨rfl, rfl⟩
  · exact Nat.le_refl _
  · exact Nat.zero_le _

end Status

namespace Session

theorem isEntered_iff : s.IsEntered id ↔ 2 ≤ Status.rank (s.status? id) := by
  unfold IsEntered
  rcases s.status? id with _ | _ | _ | _ <;> simp [Status.rank]

theorem kept_see (s : Session) (id other : ObjectId) :
    Status.Kept (s.status? other) ((s.see id).status? other) := by
  rw [status?_see]
  split
  case isTrue h => exact .inr ⟨h.1 ▸ h.2, rfl⟩
  case isFalse => exact .inl rfl

def meet (s : Session) (t : Target) (package id : ObjectId) : Option Object × Session :=
  match t.graph.declarable? id with
  | none => (none, s)
  | some o =>
    match t.graph.packageOf? id with
    | none => (none, s.see id)
    | some owner =>
      if owner ≠ package then (none, ((s.see id).ensure package).require t.graph owner package)
      else if s.IsEntered id then (none, (s.see id).ensure package)
      else (some o, ((s.see id).ensure package).enter id)

theorem kept_of_meet (h : s.meet t package id = (none, s')) (other : ObjectId) :
    Status.Kept (s.status? other) (s'.status? other) := by
  unfold meet at h
  split at h
  · cases h
    exact .inl rfl
  · split at h
    · cases h
      exact s.kept_see id other
    · split at h
      · cases h
        exact s.kept_see id other
      · split at h
        · cases h
          exact s.kept_see id other
        · cases h

theorem meet_eq_some (h : s.meet t package id = (some o, s')) :
    t.graph.Owns package o ∧ o.id = id ∧ ¬ s.IsEntered id
      ∧ ((s.see id).ensure package).enter id = s' := by
  unfold meet at h
  split at h
  case h_1 => cases h
  case h_2 o' hd =>
    split at h
    case h_1 => cases h
    case h_2 owner hp =>
      split at h
      case isTrue => cases h
      case isFalse hown =>
        obtain rfl := not_not.mp hown
        split at h
        case isTrue => cases h
        case isFalse hin =>
          cases h
          obtain rfl := Graph.id_of_declarable? hd
          exact ⟨⟨hd, hp⟩, rfl, hin, rfl⟩

theorem unentered_meet_lt (h : s.meet t package id = (some o, s')) :
    s'.unentered t.graph < s.unentered t.graph := by
  obtain ⟨howns, rfl, hin, rfl⟩ := meet_eq_some h
  apply Nat.lt_of_lt_of_le (unentered_enter_lt howns.declarable (mt isEntered_see.mp hin))
  exact unentered_le fun _ => isEntered_see.mpr

end Session

namespace Build

variable {depth : Nat}

theorem outcome_resolveWithin : outcome (resolveWithin t package (depth + 1) id) s =
    match s.meet t package id with
    | (none, s') => (.ok (), s')
    | (some o, s') => outcome (do
        (t.graph.prerequisites o).forM (resolveWithin t package depth)
        declare t o
        Build.finish id) s' := by
  unfold Session.meet
  cases hd : t.graph.declarable? id with
  | none => rw [resolveWithin_ignored hd]
  | some o =>
    cases hp : t.graph.packageOf? id with
    | none => rw [resolveWithin_homeless hd hp]
    | some owner =>
      by_cases hown : owner = package
      · subst hown
        rw [resolveWithin_of_own hd hp]
        by_cases hin : s.IsEntered id <;> simp [hin]
      · rw [resolveWithin_foreign hd hp hown]
        simp [hown]

theorem outcome_resolveWithin_of_none (h : s.meet t package id = (none, s')) :
    outcome (resolveWithin t package (depth + 1) id) s = (.ok (), s') := by
  rw [outcome_resolveWithin, h]

theorem outcome_resolveWithin_of_some (h : s.meet t package id = (some o, s')) :
    outcome (resolveWithin t package (depth + 1) id) s =
      outcome (do
        (t.graph.prerequisites o).forM (resolveWithin t package depth)
        declare t o
        Build.finish id) s' := by
  rw [outcome_resolveWithin, h]

end Build

/-- A call that work waits in, with what it will ask for next. -/
structure Frame where
  object : Object
  rest : List ObjectId

/-- Where the work stands: a call has been made, or the innermost of those that wait goes on. -/
inductive Stage
  | asked (id : ObjectId) (frames : List Frame) (s : Session)
  | back (frames : List Frame) (s : Session)

namespace Stage

def session : Stage → Session
  | .asked _ _ s => s
  | .back _ s => s

def frames : Stage → List Frame
  | .asked _ frames _ => frames
  | .back frames _ => frames

variable {a b c : Stage} {fs : List Frame}

def waiting (a : Stage) : List Object := a.frames.map Frame.object

def depth : Stage → Nat
  | .asked _ frames _ => frames.length + 1
  | .back frames _ => frames.length

inductive Step (t : Target) (package : ObjectId) : Stage → Stage → Prop
  | answer {id : ObjectId} {frames : List Frame} {s s' : Session} :
      s.meet t package id = (none, s') →
      Step t package (.asked id frames s) (.back frames s')
  | enter {id : ObjectId} {frames : List Frame} {s s' : Session} {o : Object} :
      s.meet t package id = (some o, s') →
      Step t package (.asked id frames s) (.back (⟨o, t.graph.prerequisites o⟩ :: frames) s')
  | ask {id : ObjectId} {ids : List ObjectId} {frames : List Frame} {s : Session} {o : Object} :
      Step t package (.back (⟨o, id :: ids⟩ :: frames) s) (.asked id (⟨o, ids⟩ :: frames) s)
  | declare {frames : List Frame} {s s' : Session} {o : Object} :
      outcome (Build.declare t o) s = (.ok (), s') →
      Step t package (.back (⟨o, []⟩ :: frames) s) (.back frames (s'.finish o.id))

theorem Step.unique (h : Step t package a b) (h' : Step t package a c) : b = c := by
  cases h <;> cases h' <;> simp_all

theorem Step.rank_le (h : Step t package a b) (other : ObjectId) :
    Status.rank (a.session.status? other) ≤ Status.rank (b.session.status? other) := by
  cases h with
  | answer hmeet => exact (Session.kept_of_meet hmeet other).rank_le
  | @enter id frames s s' o hmeet =>
    obtain ⟨-, -, hin, rfl⟩ := Session.meet_eq_some hmeet
    simp only [session, Session.status?_enter]
    split
    case isTrue heq =>
      rw [Session.isEntered_iff, ← heq] at hin
      exact Nat.le_of_not_le hin
    case isFalse => exact (s.kept_see id other).rank_le
  | ask => exact Nat.le_refl _
  | @declare frames s s' o hdecl =>
    simp only [session, Session.status?_finish]
    split
    case isTrue => exact Status.rank_le _
    case isFalse =>
      have hprogress := congrArg Resolution.progress (Build.declare_ok hdecl).1
      exact Nat.le_of_eq (congrArg Status.rank (Session.status?_congr hprogress other).symm)

def Reaches (t : Target) (package : ObjectId) : Stage → Stage → Prop :=
  Relation.ReflTransGen (Step t package)

theorem Reaches.rank_le (h : Reaches t package a b) (other : ObjectId) :
    Status.rank (a.session.status? other) ≤ Status.rank (b.session.status? other) := by
  induction h with
  | refl => exact Nat.le_refl _
  | tail _ hstep ih => exact Nat.le_trans ih (hstep.rank_le other)

theorem Reaches.isEntered (h : Reaches t package a b) (hin : a.session.IsEntered id) :
    b.session.IsEntered id := by
  rw [Session.isEntered_iff] at hin ⊢
  exact Nat.le_trans hin (h.rank_le id)

theorem Reaches.unentered_le (h : Reaches t package a b) :
    b.session.unentered t.graph ≤ a.session.unentered t.graph :=
  Session.unentered_le fun _ => h.isEntered

/-- How many steps are to be taken where no other type is entered: two for each type to ask for and
one for each call that waits. -/
def pending : Stage → Nat
  | .asked _ frames _ => 2 * (frames.flatMap Frame.rest).length + frames.length + 1
  | .back frames _ => 2 * (frames.flatMap Frame.rest).length + frames.length

theorem Step.unentered_lt_or (h : Step t package a b) :
    b.session.unentered t.graph < a.session.unentered t.graph ∨ b.pending < a.pending := by
  cases h with
  | answer => exact .inr (Nat.lt_succ_self _)
  | enter hmeet => exact .inl (Session.unentered_meet_lt hmeet)
  | ask =>
    right
    simp only [pending, List.flatMap_cons, List.length_append, List.length_cons]
    omega
  | declare =>
    right
    simp only [pending, List.flatMap_cons, List.length_append, List.length_cons]
    omega

theorem wellFounded_step (t : Target) (package : ObjectId) :
    WellFounded fun b a => Step t package a b := by
  apply Subrelation.wf _ (InvImage.wf (fun a : Stage => (a.session.unentered t.graph, a.pending))
    (Prod.lex Nat.lt_wfRel Nat.lt_wfRel).wf)
  intro b a h
  cases h.unentered_lt_or with
  | inl hless => exact .left _ _ hless
  | inr hless => exact Prod.Lex.right' _ (Reaches.unentered_le (.single h)) hless

inductive Final (t : Target) : Stage → Except Overflow Unit × Session → Prop
  | back (s : Session) : Final t (.back [] s) (.ok (), s)
  | stuck {o : Object} {frames : List Frame} {s s' : Session} {e : Overflow} :
      outcome (Build.declare t o) s = (.error e, s') →
      Final t (.back (⟨o, []⟩ :: frames) s) (.error e, s')

theorem Final.not_step (h : Final t a x) : ¬ Step t package a b := by
  intro hstep
  cases h with
  | back => cases hstep
  | stuck herror =>
    cases hstep with
    | declare hdecl => simp [hdecl] at herror

theorem Final.unique (h : Final t a x) (h' : Final t a y) : x = y := by
  cases h with
  | back => cases h'; rfl
  | stuck herror =>
    cases h' with
    | stuck herror' => exact herror.symm.trans herror'

theorem Reaches.unique (h : Reaches t package a b) (h' : Reaches t package a c) (hb : Final t b x)
    (hc : Final t c y) : x = y := by
  have hdeterministic : Relator.RightUnique (Step t package) := fun _ _ _ => Step.unique
  have heq : b = c := by
    cases Relation.ReflTransGen.total_of_right_unique hdeterministic h h' with
    | inl hmore =>
      rcases hmore.cases_head with heq | ⟨d, hstep, -⟩
      · exact heq
      · exact absurd hstep hb.not_step
    | inr hmore =>
      rcases hmore.cases_head with heq | ⟨d, hstep, -⟩
      · exact heq.symm
      · exact absurd hstep hc.not_step
  exact hb.unique (heq ▸ hc)

/-- From a stage the work gets back to some calls, or it is over before. -/
def GetsTo (t : Target) (package : ObjectId) (a : Stage) (fs : List Frame)
    (x : Except Overflow Unit × Session) : Prop :=
  match x with
  | (.ok (), s) => Reaches t package a (.back fs s)
  | (.error e, s) => ∃ b, Reaches t package a b ∧ Final t b (.error e, s)

theorem GetsTo.of_reaches (hab : Reaches t package a b) (h : GetsTo t package b fs x) :
    GetsTo t package a fs x := by
  rcases x with ⟨e | _, s⟩
  · obtain ⟨c, hbc, hc⟩ := h
    exact ⟨c, hab.trans hbc, hc⟩
  · exact hab.trans h

theorem GetsTo.exists_final (h : GetsTo t package a [] x) :
    ∃ b, Reaches t package a b ∧ Final t b x := by
  rcases x with ⟨e | _, s⟩
  · exact h
  · exact ⟨_, h, .back s⟩

end Stage

namespace Build

open Stage

variable {depth : Nat}

theorem getsTo_resolveWithin
    (deeper : ∀ {s ids o fs}, s.unentered t.graph < depth →
      GetsTo t package (.back (⟨o, ids⟩ :: fs) s) (⟨o, []⟩ :: fs)
        (outcome (ids.forM (resolveWithin t package depth)) s))
    (hd : s.unentered t.graph < depth + 1) (id : ObjectId) (fs : List Frame) :
    GetsTo t package (.asked id fs s) fs
      (outcome (resolveWithin t package (depth + 1) id) s) := by
  rcases hmeet : s.meet t package id with ⟨_ | o, s₁⟩
  · rw [outcome_resolveWithin_of_none hmeet]
    exact .single (.answer hmeet)
  · have hstep : Step t package (.asked id fs s) _ := .enter hmeet
    obtain ⟨-, rfl, -⟩ := Session.meet_eq_some hmeet
    -- The type that is entered makes up for the step deeper.
    have hless : s₁.unentered t.graph < depth := by
      have := Session.unentered_meet_lt hmeet
      omega
    have hnamed := (deeper hless).of_reaches (.single hstep)
    rw [outcome_resolveWithin_of_some hmeet, outcome_bind]
    rcases hlist : outcome ((t.graph.prerequisites o).forM (resolveWithin t package depth)) s₁
      with ⟨e | _, s₂⟩
    · rw [hlist] at hnamed
      exact hnamed
    · rw [hlist] at hnamed
      simp only
      rw [outcome_bind]
      rcases hdecl : outcome (declare t o) s₂ with ⟨e | _, s₃⟩
      · exact ⟨_, hnamed, .stuck hdecl⟩
      · exact hnamed.tail (.declare hdecl)

theorem getsTo_forM (hd : s.unentered t.graph < depth) (o : Object) (fs : List Frame) :
    GetsTo t package (.back (⟨o, ids⟩ :: fs) s) (⟨o, []⟩ :: fs)
      (outcome (ids.forM (resolveWithin t package depth)) s) := by
  induction depth generalizing s ids o fs with
  | zero => exact absurd hd (Nat.not_lt_zero _)
  | succ depth deeper =>
    induction ids generalizing s with
    | nil => exact .refl
    | cons id ids ih =>
      have hask : Reaches t package (.back (⟨o, id :: ids⟩ :: fs) s) _ := .single .ask
      have hcall := getsTo_resolveWithin (fun h => deeper h _ _) hd id (⟨o, ids⟩ :: fs)
      have hfirst := hcall.of_reaches hask
      have hcons : (id :: ids).forM (resolveWithin t package (depth + 1))
          = resolveWithin t package (depth + 1) id >>= fun _ =>
            ids.forM (resolveWithin t package (depth + 1)) := rfl
      rw [hcons, outcome_bind]
      rcases hresult : outcome (resolveWithin t package (depth + 1) id) s with ⟨e | _, s₁⟩
      · rw [hresult] at hfirst
        exact hfirst
      · rw [hresult] at hfirst
        exact (ih (Nat.lt_of_le_of_lt hfirst.unentered_le hd)).of_reaches hfirst

theorem getsTo_resolve : GetsTo t package (.asked id [] s) [] (outcome (resolve t package id) s) :=
  getsTo_resolveWithin (fun h => getsTo_forM h _ _) (Nat.lt_succ_of_le List.countP_le_length) id []

theorem outcome_resolve_eq_iff : outcome (resolve t package id) s = x ↔
    ∃ a, Reaches t package (.asked id [] s) a ∧ Final t a x := by
  have hgets : GetsTo t package (.asked id [] s) [] (outcome (resolve t package id) s) :=
    getsTo_resolve
  obtain ⟨a, ha, hfinal⟩ := hgets.exists_final
  constructor
  · rintro rfl
    exact ⟨a, ha, hfinal⟩
  · rintro ⟨b, hb, hfinal'⟩
    exact ha.unique hb hfinal hfinal'

end Build

end TypeAtlas
