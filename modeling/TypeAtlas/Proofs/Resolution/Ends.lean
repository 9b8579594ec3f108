import TypeAtlas.Proofs.Resolution.Declares

namespace TypeAtlas.Build

variable {α β : Type} {t : Target} {package : ObjectId} {o : Object}

def Ends (m : Build α) : Prop := ∀ s, ∃ a s', outcome m s = (.ok a, s')

namespace Ends

theorem pure (a : α) : Ends (Pure.pure a : Build α) := fun s => ⟨a, s, rfl⟩

theorem update (f : Session → Session) : Ends (Build.update f) := fun s => ⟨(), f s, rfl⟩

theorem lift {x : Except Overflow α} {a : α} (h : x = .ok a) : Ends (liftM x : Build α) :=
  fun s => ⟨a, s, by rw [h]; rfl⟩

theorem bind {m : Build α} {f : α → Build β} (hm : Ends m) (hf : ∀ a, Ends (f a)) :
    Ends (m >>= f) := by
  intro s
  obtain ⟨a, s₁, h₁⟩ := hm s
  obtain ⟨b, s', h'⟩ := hf a s₁
  exact ⟨b, s', outcome_bind_ok.mpr ⟨a, s₁, h₁, h'⟩⟩

theorem forM {f : α → Build Unit} {as : List α} (h : ∀ a ∈ as, Ends (f a)) : Ends (as.forM f) := by
  induction as with
  | nil => exact pure ()
  | cons a as ih =>
    exact bind (h a (by simp)) fun _ => ih fun a ha => h a (List.mem_cons_of_mem _ ha)

theorem declare_struct {d : StructDecl} (hk : o.isStruct) (h : StructDecl.ofObject t o = .ok d) :
    Ends (declare t o) := by
  unfold declare
  split
  case h_1 => exact bind (lift h) fun _ => update _
  case h_2 a hclass => simp [Object.isStruct, hclass, ObjectKind.tag] at hk
  case h_3 => exact pure ()

theorem declare_class {d : ClassDecl} {entries : List Log.Entry} (hk : o.isClass)
    (h : ClassDecl.ofObject t o = .ok (d, entries)) : Ends (declare t o) := by
  unfold declare
  split
  case h_1 a hstruct => simp [Object.isClass, hstruct, ObjectKind.tag] at hk
  case h_2 => exact bind (lift h) fun _ => bind (update _) fun _ => update _
  case h_3 => exact pure ()

theorem resolveWithin (h : ∀ o, t.graph.Owns package o → Ends (declare t o)) (depth : Nat)
    (id : ObjectId) : Ends (resolveWithin t package depth id) := by
  induction depth generalizing id with
  | zero => exact pure ()
  | succ depth ih =>
    intro s
    cases hd : t.graph.declarable? id with
    | none => exact ⟨_, _, resolveWithin_ignored hd⟩
    | some o =>
      cases hp : t.graph.packageOf? id with
      | none => exact ⟨_, _, resolveWithin_homeless hd hp⟩
      | some owner =>
        by_cases hown : owner = package
        · subst hown
          obtain rfl := Graph.id_of_declarable? hd
          rw [resolveWithin_of_own hd hp]
          split
          · exact ⟨_, _, rfl⟩
          · exact bind (forM fun id _ => ih id) (fun _ => bind (h o ⟨hd, hp⟩) fun _ => update _) _
        · exact ⟨_, _, resolveWithin_foreign hd hp hown⟩

theorem add (h : ∀ o, t.graph.Owns package o → Ends (declare t o)) (o : Object) :
    Ends (add t package o) := by
  unfold Build.add
  split
  case h_1 =>
    split
    · exact update _
    · exact pure ()
  case h_2 =>
    split
    · exact update _
    · exact pure ()
  case h_3 => exact resolveWithin h _ _
  case h_4 => exact resolveWithin h _ _
  case h_5 => exact pure ()

theorem addAll (h : ∀ o, t.graph.Owns package o → Ends (declare t o)) (ids : List ObjectId) :
    Ends (addAll t package ids) :=
  forM fun o _ => add h o

end Ends

end TypeAtlas.Build
