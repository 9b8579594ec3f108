import TypeAtlas.Proofs.Graph.Elements
import TypeAtlas.Proofs.Memory.Completes
import TypeAtlas.Proofs.Resolution.Ends
import TypeAtlas.Proofs.Resolution.Steps
import TypeAtlas.Proofs.Resolution.Virtuals

namespace TypeAtlas

open Build (outcome)

variable {t : Target} {package id : ObjectId} {o : Object} {s s₀ s' : Session}

namespace Stage

variable {a b : Stage}

/-- What is kept on the way from a session: the types whose calls wait are different ones of the
package, entered since then and not finished yet, and all others that have been entered since then
are done. -/
structure Sound (t : Target) (package : ObjectId) (s₀ : Session) (a : Stage) : Prop where
  owns : ∀ o ∈ a.waiting, t.graph.Owns package o
  nodup : (a.waiting.map Object.id).Nodup
  fresh : ∀ o ∈ a.waiting, ¬ s₀.IsEntered o.id
  inProgress : ∀ o ∈ a.waiting, a.session.status? o.id = some .inProgress
  done : ∀ id, ¬ s₀.IsEntered id → a.session.IsEntered id → id ∉ a.waiting.map Object.id →
    a.session.status? id = some .done

theorem sound_asked (t : Target) (package id : ObjectId) (s : Session) :
    Sound t package s (.asked id [] s) where
  owns := by simp [waiting, frames]
  nodup := List.nodup_nil
  fresh := by simp [waiting, frames]
  inProgress := by simp [waiting, frames]
  done _ hin hin' := absurd hin' hin

variable {fs : List Frame} {ids : List ObjectId}

theorem Sound.of_kept (h : Sound t package s₀ a) (hwaiting : b.waiting = a.waiting)
    (hkept : ∀ id, Status.Kept (a.session.status? id) (b.session.status? id)) :
    Sound t package s₀ b where
  owns := hwaiting ▸ h.owns
  nodup := hwaiting ▸ h.nodup
  fresh := hwaiting ▸ h.fresh
  inProgress o ho := by
    have hin := h.inProgress o (hwaiting ▸ ho)
    rcases hkept o.id with hsame | ⟨hnone, -⟩
    · rw [hsame, hin]
    · rw [hin] at hnone
      cases hnone
  done id hnew hin hmem := by
    have hsame := (hkept id).eq_of_isEntered hin
    rw [Session.IsEntered, hsame] at hin
    rw [hsame]
    exact h.done id hnew hin (hwaiting ▸ hmem)

theorem Sound.enter (h : Sound t package s₀ (.asked o.id fs s)) (howns : t.graph.Owns package o)
    (hin : ¬ s.IsEntered o.id) (hnew : ¬ s₀.IsEntered o.id) :
    Sound t package s₀ (.back (⟨o, ids⟩ :: fs) (s.enter o.id)) := by
  have hother (o' : Object) (ho' : o' ∈ fs.map Frame.object) : o'.id ≠ o.id := by
    intro heq
    exact hin (heq ▸ .inl (h.inProgress o' ho'))
  constructor
  case owns => exact List.forall_mem_cons.mpr ⟨howns, h.owns⟩
  case nodup =>
    refine List.nodup_cons.mpr ⟨fun hmem => ?_, h.nodup⟩
    obtain ⟨o', ho', heq⟩ := List.mem_map.mp hmem
    exact hother o' ho' heq
  case fresh => exact List.forall_mem_cons.mpr ⟨hnew, h.fresh⟩
  case inProgress =>
    refine List.forall_mem_cons.mpr ⟨?_, fun o' ho' => ?_⟩
    · simp [session]
    · simp only [session, Session.status?_enter, if_neg (hother o' ho')]
      exact h.inProgress o' ho'
  case done =>
    intro id hbefore hnow hmem
    simp only [waiting, frames, List.map_cons, List.mem_cons, not_or] at hmem
    have hthen : s.IsEntered id := (Session.isEntered_enter.mp hnow).resolve_left hmem.1
    simp only [session, Session.status?_enter, if_neg hmem.1]
    exact h.done id hbefore hthen hmem.2

theorem Sound.finish (h : Sound t package s₀ (.back (⟨o, ids⟩ :: fs) s)) :
    Sound t package s₀ (.back fs (s.finish o.id)) := by
  obtain ⟨hnot, hnodup⟩ := List.nodup_cons.mp h.nodup
  have hother (o' : Object) (ho' : o' ∈ fs.map Frame.object) : o'.id ≠ o.id := fun heq =>
    hnot (heq ▸ List.mem_map_of_mem ho')
  constructor
  case owns => exact (List.forall_mem_cons.mp h.owns).2
  case nodup => exact hnodup
  case fresh => exact (List.forall_mem_cons.mp h.fresh).2
  case inProgress =>
    intro o' ho'
    simp only [session, Session.status?_finish, if_neg (hother o' ho')]
    exact (List.forall_mem_cons.mp h.inProgress).2 o' ho'
  case done =>
    intro id hbefore hnow hmem
    simp only [session, Session.status?_finish]
    split
    case isTrue => rfl
    case isFalse hne =>
      apply h.done id hbefore ((Session.isEntered_finish.mp hnow).resolve_left hne)
      exact List.not_mem_cons_of_ne_of_not_mem hne hmem

theorem Sound.step (h : Sound t package s₀ a)
    (hentered : ∀ id, s₀.IsEntered id → a.session.IsEntered id) (hstep : Step t package a b) :
    Sound t package s₀ b := by
  cases hstep with
  | answer hmeet => exact h.of_kept rfl (Session.kept_of_meet hmeet)
  | @enter id fs s s' o hmeet =>
    obtain ⟨howns, rfl, hin, rfl⟩ := Session.meet_eq_some hmeet
    have hmet : Sound t package s₀ (.asked o.id fs ((s.see o.id).ensure package)) :=
      h.of_kept rfl (s.kept_see o.id)
    exact hmet.enter howns (mt Session.isEntered_see.mp hin) (mt (hentered o.id) hin)
  | ask => exact h.of_kept rfl fun _ => .inl rfl
  | @declare fs s s' o hdecl =>
    have hdeclared : Sound t package s₀ (.back (⟨o, []⟩ :: fs) s') := by
      refine h.of_kept (by rfl) fun id => .inl ?_
      exact Session.status?_congr (congrArg Resolution.progress (Build.declare_ok hdecl).1) id
    exact hdeclared.finish

theorem Reaches.sound (h : Reaches t package (.asked id [] s) a) : Sound t package s a := by
  induction h with
  | refl => exact sound_asked t package id s
  | tail hreaches hstep ih => exact ih.step (fun _ => Reaches.isEntered hreaches) hstep

theorem Sound.length_waiting_le (h : Sound t package s₀ a) :
    a.waiting.length ≤ ((t.graph.typesOf package).filter fun o => ¬ s₀.IsEntered o.id).length := by
  apply (List.subperm_of_subset h.nodup.of_map _).length_le
  intro o ho
  have hfresh := h.fresh o ho
  exact List.mem_filter.mpr ⟨Graph.mem_typesOf.mpr (h.owns o ho), by simpa using hfresh⟩

theorem depth_le (a : Stage) : a.depth ≤ a.waiting.length + 1 := by
  cases a with
  | asked => simp [depth, waiting, frames]
  | back => simp [depth, waiting, frames]

theorem Step.waiting_le_or (h : Step t package a b) : b.waiting.length ≤ a.waiting.length
    ∨ ∃ o, b.waiting = o :: a.waiting ∧ t.graph.Owns package o ∧ ¬ a.session.IsEntered o.id
      ∧ b.session.status? o.id = some .inProgress := by
  cases h with
  | answer => exact .inl (Nat.le_refl _)
  | @enter id fs s s' o hmeet =>
    obtain ⟨howns, rfl, hin, rfl⟩ := Session.meet_eq_some hmeet
    exact .inr ⟨o, rfl, howns, hin, by simp [session]⟩
  | ask => exact .inl (Nat.le_refl _)
  | declare => exact .inl (by simp [waiting, frames])

end Stage

def Target.LaysOut (t : Target) (o : Object) : Prop :=
  (o.isStruct → ∃ members, StructDecl.layout t o 0 = .ok members)
    ∧ (o.isClass → ∃ members, ClassDecl.ownMembers t o = .ok members)

theorem Target.laysOut_of_isOk (hstruct : (StructDecl.layout t o 0).isOk)
    (hclass : (ClassDecl.ownMembers t o).isOk) : t.LaysOut o := by
  have hok {x : Except Overflow (List Member)} (h : x.isOk) : ∃ members, x = .ok members := by
    cases x with
    | error e => cases h
    | ok members => exact ⟨members, rfl⟩
  exact ⟨fun _ => hok hstruct, fun _ => hok hclass⟩

def Target.Looks (t : Target) (o : Object) : Prop :=
  o.isClass → ∃ found, ClassDecl.virtualMethods t o = .ok found

theorem StructDecl.exists_ofObject {members : List Member} (h : layout t o 0 = .ok members) :
    ∃ d, ofObject t o = .ok d :=
  ⟨_, by rw [ofObject, h]; rfl⟩

theorem ClassDecl.exists_ofObject {members : List Member}
    {found : List ExtraMethod × List Log.Entry} (h : ownMembers t o = .ok members)
    (hfound : virtualMethods t o = .ok found) : ∃ d, ofObject t o = .ok d :=
  ⟨_, by rw [ofObject, membersOf, h, hfound]; rfl⟩

namespace Build

open Stage

theorem ends_declare (hlayout : t.LaysOut o) (hlooks : t.Looks o) : Ends (declare t o) := by
  cases hk : o.kind with
  | scriptStruct =>
    have hstruct : o.isStruct := by simp [Object.isStruct, hk, ObjectKind.tag]
    obtain ⟨members, hmembers⟩ := hlayout.1 hstruct
    obtain ⟨d, hd⟩ := StructDecl.exists_ofObject hmembers
    exact .declare_struct hstruct hd
  | classType =>
    have hclass : o.isClass := by simp [Object.isClass, hk, ObjectKind.tag]
    obtain ⟨members, hmembers⟩ := hlayout.2 hclass
    obtain ⟨found, hfound⟩ := hlooks hclass
    obtain ⟨d, hd⟩ := ClassDecl.exists_ofObject hmembers hfound
    exact .declare_class hclass hd
  | _ =>
    simp only [declare, hk]
    exact .pure ()

/-- Work could only stop at a type of the package that it has entered. -/
theorem exists_outcome_resolve
    (h : ∀ o, t.graph.Owns package o → ¬ s.IsEntered o.id → t.LaysOut o ∧ t.Looks o) :
    ∃ s', outcome (resolve t package id) s = (.ok (), s') := by
  obtain ⟨a, ha, hfinal⟩ := outcome_resolve_eq_iff.mp (rfl : outcome (resolve t package id) s = _)
  rcases hresult : outcome (resolve t package id) s with ⟨e | _, s'⟩
  · rw [hresult] at hfinal
    cases hfinal with
    | @stuck o fs s₁ s' e herror =>
      have hwaits : o ∈ (Stage.back (⟨o, []⟩ :: fs) s₁).waiting := by simp [waiting, frames]
      obtain ⟨hlayout, hlooks⟩ := h o (ha.sound.owns o hwaits) (ha.sound.fresh o hwaits)
      obtain ⟨_, s₂, hdecl⟩ := ends_declare hlayout hlooks s₁
      rw [hdecl] at herror
      cases herror
  · exact ⟨s', rfl⟩

theorem done_of_outcome_resolve (h : outcome (resolve t package id) s = (.ok (), s'))
    {other : ObjectId} (hbefore : ¬ s.IsEntered other) (hnow : s'.IsEntered other) :
    s'.status? other = some .done := by
  obtain ⟨a, ha, hfinal⟩ := outcome_resolve_eq_iff.mp h
  cases hfinal
  exact ha.sound.done other hbefore hnow (by simp [waiting, frames])

/-- Whatever types name each other, and whatever has been entered before: the steps end, and as the
recursion does, so that how deep it may go never matters.  No type falls back from being entered or
done, calls begin to wait only with a type of the package entered for that, and so there is at most
one call more under way than there are types of the package to enter.  What is entered on the way is
done when the work comes back, and it does as long as the types of the package that it may enter can
be laid out and no look into the memory is abandoned, which none is in a memory whose bytes all have
their places.  Where no container leads back to itself, the types of properties are looked into all
the way down. -/
theorem resolve_comes_back (t : Target) (package id : ObjectId) (s : Session) :
    (WellFounded fun b a => Step t package a b)
    ∧ (∀ x, outcome (resolve t package id) s = x ↔
      ∃ a, Reaches t package (.asked id [] s) a ∧ Final t a x)
    ∧ (∀ a b, Step t package a b →
      (∀ other, Status.rank (a.session.status? other) ≤ Status.rank (b.session.status? other))
        ∧ (b.waiting.length ≤ a.waiting.length ∨ ∃ o, b.waiting = o :: a.waiting
          ∧ t.graph.Owns package o ∧ ¬ a.session.IsEntered o.id
          ∧ b.session.status? o.id = some .inProgress))
    ∧ (∀ a, Reaches t package (.asked id [] s) a →
      (∀ o ∈ a.waiting, t.graph.Owns package o ∧ ¬ s.IsEntered o.id
          ∧ a.session.status? o.id = some .inProgress)
        ∧ a.depth ≤ ((t.graph.typesOf package).filter fun o => ¬ s.IsEntered o.id).length + 1)
    ∧ (∀ s', outcome (resolve t package id) s = (.ok (), s') →
      ∀ other, ¬ s.IsEntered other → s'.IsEntered other → s'.status? other = some .done)
    ∧ ((∀ o, t.graph.Owns package o → ¬ s.IsEntered o.id → t.LaysOut o ∧ t.Looks o) →
      ∃ s', outcome (resolve t package id) s = (.ok (), s'))
    ∧ (t.Answers → ∀ o, t.Looks o)
    ∧ (t.graph.Nests → ∀ p depth, t.graph.objects.length < depth →
      t.graph.infoWithin depth p = t.graph.info p) := by
  refine ⟨wellFounded_step t package, fun x => outcome_resolve_eq_iff,
    fun a b hstep => ⟨hstep.rank_le, hstep.waiting_le_or⟩, fun a ha => ⟨fun o ho => ?_, ?_⟩,
    fun s' h other => done_of_outcome_resolve h, exists_outcome_resolve, fun hanswers o _ => ?_,
    fun hnests p depth => Graph.infoWithin_eq_info hnests p⟩
  · exact ⟨ha.sound.owns o ho, ha.sound.fresh o ho, ha.sound.inProgress o ho⟩
  · exact Nat.le_trans a.depth_le (Nat.succ_le_succ ha.sound.length_waiting_le)
  · obtain ⟨entries, hfound⟩ := hanswers.virtualMethods o
    exact ⟨_, hfound⟩

def knot : Target where
  graph := {
    objects := [
      ⟨1, 0, "Game", none, "Package Game", none, none, 0, .package⟩,
      ⟨2, 1, "World", none, "Class Game.World", some 1, some 1, 0, .classType ⟨some 2, 16, [6, 7]⟩⟩,
      ⟨3, 2, "Left", none, "ScriptStruct Game.Left", some 1, some 1, 0,
        .scriptStruct ⟨none, 16, [9]⟩⟩,
      ⟨4, 3, "Right", none, "ScriptStruct Game.Right", some 1, some 1, 0,
        .scriptStruct ⟨some 5, 16, [10]⟩⟩,
      ⟨5, 4, "Base", none, "ScriptStruct Game.Base", some 1, some 1, 0,
        .scriptStruct ⟨some 4, 16, []⟩⟩,
      ⟨6, 5, "Held", none, "StructProperty Game.World.Held", some 2, some 1, 0,
        .property ⟨0, 0, 1, 0, .struct 3⟩⟩,
      ⟨7, 6, "All", none, "ArrayProperty Game.World.All", some 2, some 1, 0,
        .property ⟨0, 0, 1, 0, .array 8⟩⟩,
      ⟨8, 7, "All", none, "StructProperty Game.World.All.All", some 7, some 1, 0,
        .property ⟨0, 0, 1, 0, .struct 3⟩⟩,
      ⟨9, 8, "Next", none, "StructProperty Game.Left.Next", some 3, some 1, 0,
        .property ⟨0, 0, 1, 0, .struct 4⟩⟩,
      ⟨10, 9, "Last", none, "StructProperty Game.Right.Last", some 4, some 1, 0,
        .property ⟨0, 0, 1, 0, .struct 3⟩⟩]
    distinct := by decide }
  policy := .standard
  memory := none

def unbegun : Session := ⟨.start, .empty 1 "Game", []⟩

theorem resolve_comes_back_knot : ∃ s', outcome (resolve knot 1 2) unbegun = (.ok (), s')
    ∧ (∀ id ∈ [2, 3, 4, 5], s'.status? id = some .done)
    ∧ (∀ a, Reaches knot 1 (.asked 2 [] unbegun) a → a.depth ≤ 5)
    ∧ ∀ p, knot.graph.infoWithin 100 p = knot.graph.info p := by
  obtain ⟨-, -, -, hstages, hdone, hreturns, hlooks, hinfo⟩ := resolve_comes_back knot 1 2 unbegun
  have hanswers : knot.Answers := fun s hs => nomatch hs
  have hlaid : ∀ o ∈ knot.graph.typesOf 1,
      (StructDecl.layout knot o 0).isOk ∧ (ClassDecl.ownMembers knot o).isOk := by decide +kernel
  obtain ⟨s', hs'⟩ := hreturns fun o howns _ => by
    obtain ⟨hstruct, hclass⟩ := hlaid o (Graph.mem_typesOf.mpr howns)
    exact ⟨Target.laysOut_of_isOk hstruct hclass, hlooks hanswers o⟩
  have hentered : ∀ id ∈ [2, 3, 4, 5], ¬ unbegun.IsEntered id
      ∧ (outcome (resolve knot 1 2) unbegun).2.IsEntered id := by decide +kernel
  have hcount : ((knot.graph.typesOf 1).filter fun o => ¬ unbegun.IsEntered o.id).length = 4 := by
    decide +kernel
  have hnests : knot.graph.Nests := Graph.nests_of_lt (by decide +kernel)
  refine ⟨s', hs', fun id hid => ?_, fun a ha => ?_, fun p => hinfo hnests p 100 (by decide)⟩
  · obtain ⟨hbefore, hnow⟩ := hentered id hid
    rw [hs'] at hnow
    exact hdone s' hs' id hbefore hnow
  · have hdepth := (hstages a ha).2
    rwa [hcount] at hdepth

def stranded : Target where
  graph := {
    objects := [
      ⟨1, 0, "Game", none, "Package Game", none, none, 0, .package⟩,
      ⟨2, 1, "World", none, "Class Game.World", some 1, some 1, 0x5000, .classType ⟨none, 8, []⟩⟩]
    distinct := by decide }
  policy := { Policy.standard with
    virtualFunctions := [("Class Game.World", [⟨⟨[⟨0x40, true⟩], by decide⟩, "void Probe();"⟩])] }
  memory := some (Space.Step.outcome (Space.wideImage.mapInto (some 0x5000)) Space.empty).2

theorem resolve_abandoned : Image.load Space.wideFile = .ok Space.wideImage
    ∧ (Space.Step.outcome (Space.wideImage.mapInto (some 0x5000)) Space.empty).1 = .ok 1
    ∧ stranded.graph.Nests
    ∧ (∀ o, stranded.graph.Owns 1 o → stranded.LaysOut o)
    ∧ (outcome (resolve stranded 1 2) unbegun).1 = .error .add := by
  refine ⟨by decide +kernel, by decide +kernel, ?_, ?_, by decide +kernel⟩
  · exact Graph.nests_of_lt (by decide +kernel)
  · have hlaid : ∀ o ∈ stranded.graph.typesOf 1,
        (StructDecl.layout stranded o 0).isOk ∧ (ClassDecl.ownMembers stranded o).isOk := by
      decide +kernel
    intro o howns
    obtain ⟨hstruct, hclass⟩ := hlaid o (Graph.mem_typesOf.mpr howns)
    exact Target.laysOut_of_isOk hstruct hclass

end Build

end TypeAtlas
