import TypeAtlas.Proofs.Run.Runs

namespace TypeAtlas

namespace Run

variable {t : Target} {shared : Resolution} {p : Object} {ps : List Object}

def process (t : Target) (shared : Resolution) (package : Object) :
    Except Overflow (Built × Resolution) :=
  match (Build.process t package.id).run.run (.start shared package) with
  | (.error e, _) => .error e
  | (.ok (), s) => .ok (⟨s.decls, s.isSaved t.policy⟩, s.shared)

def processAll (t : Target) : Resolution → List Object → Except Overflow (List Built × Resolution)
  | shared, [] => .ok ([], shared)
  | shared, p :: ps => do
    let (b, shared) ← process t shared p
    let (built, shared) ← processAll t shared ps
    return (b :: built, shared)

theorem process_eq (t : Target) (shared : Resolution) (p : Object) : process t shared p =
    (build t shared p ((t.graph.grouped.lookup p.id).getD [])).map fun x => (x.1, x.2.1) := by
  rw [Graph.lookup_grouped, process, build, Build.process]
  rcases (Build.addAll t p.id _).run.run (.start shared p) with ⟨_ | ⟨⟩, s⟩
  · rfl
  · rfl

theorem processAll_eq (t : Target) (shared : Resolution) (ps : List Object) :
    processAll t shared ps
      = (buildAll t t.graph.grouped shared ps).map fun r => (r.built, r.shared) := by
  induction ps generalizing shared with
  | nil => rfl
  | cons p ps ih =>
    rw [processAll, buildAll, process_eq]
    cases build t shared p ((t.graph.grouped.lookup p.id).getD []) with
    | error e => rfl
    | ok x =>
      obtain ⟨b, shared₁, entries⟩ := x
      have hrest := ih shared₁
      cases hb : buildAll t t.graph.grouped shared₁ ps with
      | error e =>
        rw [hb] at hrest
        simp [bind, Except.bind, Except.map, hrest, hb]
      | ok r =>
        rw [hb] at hrest
        simp [bind, Except.bind, Except.map, hrest, hb, pure, Except.pure]

/-- To group the objects once comes to the same as to have every package pick its own.  The groups
are what the packages pick, in the order of capture and wherever the owners of objects lead.  All
packages then declare the same and are saved alike, the same types are declared and the packages in
the same order in the end, with the same references and cycles on record, and where one way is
abandoned, so is the other. -/
theorem generate_picks (t : Target) (shared : Resolution) :
    (∀ package, (t.graph.grouped.lookup package).getD []
        = (t.graph.objects.map Object.id).filter fun id => t.graph.packageOf? id = some package)
      ∧ processAll t shared t.graph.packages
        = (generate t shared).map fun r => (r.built, r.shared) := by
  constructor
  · exact t.graph.lookup_grouped
  · exact processAll_eq t shared t.graph.packages

end Run

end TypeAtlas
