import TypeAtlas.Proofs.Run.Package
import TypeAtlas.Sdk.Run
import Mathlib.Data.List.Induction

namespace TypeAtlas

open PackageOrder (Call)

variable {t : Target} {p : Object} {id q : ObjectId} {ids : List ObjectId} {ps : List Object}
  {shared shared' : Resolution} {built : List Built} {calls : List Call}

namespace Graph

theorem lookup_join (p id q : ObjectId) (groups : List (ObjectId × List ObjectId)) :
    ((join p id groups).lookup q).getD [] =
      (groups.lookup q).getD [] ++ if q = p then [id] else [] := by
  induction groups with
  | nil =>
    by_cases h : q = p
    · simp [join, h]
    · simp [join, h, List.lookup_cons, beq_eq_false_iff_ne.mpr h]
  | cons group groups ih =>
    obtain ⟨p', ids⟩ := group
    by_cases hp : p' = p
    · by_cases h : q = p
      · simp [join, hp, h]
      · simp [join, hp, h, List.lookup_cons, beq_eq_false_iff_ne.mpr h]
    · by_cases h : q = p'
      · simp [join, hp, h]
      · simp [join, hp, List.lookup_cons, beq_eq_false_iff_ne.mpr h, ih]

theorem lookup_grouped (g : Graph) (q : ObjectId) : (g.grouped.lookup q).getD [] =
    (g.objects.map Object.id).filter fun id => g.packageOf? id = some q := by
  unfold grouped
  induction g.objects using List.reverseRecOn with
  | nil => rfl
  | append_singleton os o ih =>
    rw [List.foldl_append, List.map_append, List.filter_append, ← ih]
    cases h : g.packageOf? o.id with
    | none => simp [h]
    | some p =>
      simp only [List.foldl_cons, List.foldl_nil, h, lookup_join]
      by_cases hq : q = p
      · simp [hq, h]
      · simp [hq, h, Ne.symm hq]

end Graph

inductive Runs (t : Target) :
    Resolution → List Object → List Built → List Call → Resolution → Prop
  | nil (shared : Resolution) : Runs t shared [] [] [] shared
  | cons {shared shared' : Resolution} {p : Object} {ps : List Object} {s : Session}
      {declared : List Object} {built : List Built} {calls rest : List Call} :
      Work t p.id (.start shared p) declared calls s →
      (∀ o, t.graph.Owns p.id o → s.IsEntered o.id) →
      Runs t s.shared ps built rest shared' →
      Runs t shared (p :: ps) (⟨s.decls, s.isSaved t.policy⟩ :: built) (calls ++ rest) shared'

namespace Run

theorem exists_ok_of_map {ε α β : Type} {x : Except ε α} {f : α → β} {b : β}
    (h : x.map f = .ok b) : ∃ a, x = .ok a ∧ f a = b := by
  cases x with
  | error e => cases h
  | ok a =>
    cases h
    exact ⟨a, rfl, rfl⟩

theorem build_eq_ok_iff {result : Built × Resolution × List Log.Entry} :
    build t shared p ids = .ok result ↔
      ∃ s, Build.outcome (Build.addAll t p.id ids) (.start shared p) = (.ok (), s)
        ∧ result = (⟨s.decls, s.isSaved t.policy⟩, s.shared,
          s.log ++ if s.isSaved t.policy then [] else [skipNote p.name]) := by
  have hbuild : build t shared p ids = match
      Build.outcome (Build.addAll t p.id ids) (.start shared p) with
    | (.error e, _) => .error e
    | (.ok (), s) => .ok (⟨s.decls, s.isSaved t.policy⟩, s.shared,
        s.log ++ if s.isSaved t.policy then [] else [skipNote p.name]) := rfl
  rw [hbuild]
  rcases Build.outcome (Build.addAll t p.id ids) (.start shared p) with ⟨_ | ⟨⟩, s⟩
  · simp
  · constructor
    · intro h
      exact ⟨s, rfl, (Except.ok.inj h).symm⟩
    · intro ⟨s', hs, heq⟩
      cases hs
      rw [heq]

theorem build_ok {b : Built} {entries : List Log.Entry}
    (hids : ∀ id, id ∈ ids ↔
      id ∈ t.graph.objects.map Object.id ∧ t.graph.packageOf? id = some p.id)
    (h : build t shared p ids = .ok (b, shared', entries)) :
    ∃ s declared calls, Work t p.id (.start shared p) declared calls s
      ∧ (∀ o, t.graph.Owns p.id o → s.IsEntered o.id)
      ∧ b = ⟨s.decls, s.isSaved t.policy⟩ ∧ shared' = s.shared := by
  obtain ⟨s, hs, heq⟩ := build_eq_ok_iff.mp h
  obtain ⟨declared, calls, hwork, hentered⟩ := Build.exists_work_of_addAll hids hs
  cases heq
  exact ⟨s, declared, calls, hwork, hentered, rfl, rfl⟩

theorem buildAll_cons_eq_ok_iff {groups : List (ObjectId × List ObjectId)} {r : Run} :
    buildAll t groups shared (p :: ps) = .ok r ↔ ∃ b shared₁ entries rest,
      build t shared p ((groups.lookup p.id).getD []) = .ok (b, shared₁, entries)
      ∧ buildAll t groups shared₁ ps = .ok rest
      ∧ r = ⟨b :: rest.built, rest.shared, entries ++ rest.log⟩ := by
  rw [buildAll, Overflow.bind_eq_ok]
  constructor
  · intro ⟨⟨b, shared₁, entries⟩, hb, h⟩
    obtain ⟨rest, hrest, h⟩ := Overflow.bind_eq_ok.mp h
    exact ⟨b, shared₁, entries, rest, hb, hrest, (Overflow.pure_eq_ok.mp h).symm⟩
  · intro ⟨b, shared₁, entries, rest, hb, hrest, heq⟩
    refine ⟨_, hb, Overflow.bind_eq_ok.mpr ⟨rest, hrest, ?_⟩⟩
    rw [heq]
    rfl

theorem runs_of_buildAll {groups : List (ObjectId × List ObjectId)} {r : Run}
    (hgroups : ∀ p id, id ∈ (groups.lookup p).getD [] ↔
      id ∈ t.graph.objects.map Object.id ∧ t.graph.packageOf? id = some p)
    (h : buildAll t groups shared ps = .ok r) :
    ∃ calls, Runs t shared ps r.built calls r.shared := by
  induction ps generalizing shared r with
  | nil =>
    cases h
    exact ⟨[], .nil shared⟩
  | cons p ps ih =>
    obtain ⟨b, shared₁, entries, rest, hb, hrest, rfl⟩ := buildAll_cons_eq_ok_iff.mp h
    obtain ⟨s, declared, calls, hwork, hentered, rfl, rfl⟩ := build_ok (hgroups p.id) hb
    obtain ⟨calls', hruns⟩ := ih hrest
    exact ⟨calls ++ calls', .cons hwork hentered hruns⟩

theorem exists_build_ok (hids : ∀ id ∈ ids, t.graph.packageOf? id = some p.id)
    (hentered : ∀ o, t.graph.Owns p.id o → (Session.start shared p).IsEntered o.id) :
    ∃ result, build t shared p ids = .ok result := by
  obtain ⟨s, hs⟩ : ∃ s, Build.outcome (Build.addAll t p.id ids) (.start shared p) = (.ok (), s) :=
    Build.exists_forM_ok (fun o => Build.packageOf?_of_mem hids) hentered
  exact ⟨_, build_eq_ok_iff.mpr ⟨s, hs, rfl⟩⟩

theorem exists_buildAll_ok {groups : List (ObjectId × List ObjectId)}
    (hgroups : ∀ p id, id ∈ (groups.lookup p).getD [] ↔
      id ∈ t.graph.objects.map Object.id ∧ t.graph.packageOf? id = some p)
    (hentered : ∀ p ∈ ps, ∀ o, t.graph.Owns p.id o → (Session.start shared p).IsEntered o.id) :
    ∃ r, buildAll t groups shared ps = .ok r := by
  induction ps generalizing shared with
  | nil => exact ⟨_, rfl⟩
  | cons p ps ih =>
    have hids (id : ObjectId) (hid : id ∈ (groups.lookup p.id).getD []) :
        t.graph.packageOf? id = some p.id := ((hgroups p.id id).mp hid).2
    obtain ⟨⟨b, shared₁, entries⟩, hb⟩ := exists_build_ok hids (hentered p (by simp))
    obtain ⟨s, declared, calls, hwork, _, rfl, rfl⟩ := build_ok (hgroups p.id) hb
    have hrest (p' : Object) (hp' : p' ∈ ps) (o : Object) (howns : t.graph.Owns p'.id o) :
        (Session.start s.shared p').IsEntered o.id := by
      have hin : (Session.start shared p).IsEntered o.id :=
        hentered p' (List.mem_cons_of_mem _ hp') o howns
      have hsame : s.status? o.id = (Session.start shared p).status? o.id := hwork.isEntered hin
      have hstart : (Session.start s.shared p').status? o.id = s.status? o.id := rfl
      rw [Session.IsEntered, hstart, hsame]
      exact hin
    obtain ⟨rest, hrest⟩ := ih hrest
    exact ⟨_, buildAll_cons_eq_ok_iff.mpr ⟨_, _, _, rest, hb, hrest, rfl⟩⟩

theorem exists_runs {r : Run} (h : generate t shared = .ok r) :
    ∃ calls, Runs t shared t.graph.packages r.built calls r.shared := by
  apply runs_of_buildAll _ h
  intro p id
  simp [Graph.lookup_grouped]

theorem exists_generate_ok
    (hentered : ∀ p ∈ t.graph.packages, ∀ o, t.graph.Owns p.id o →
      (Session.start shared p).IsEntered o.id) :
    ∃ r, generate t shared = .ok r := by
  apply exists_buildAll_ok _ hentered
  intro p id
  simp [Graph.lookup_grouped]

end Run

end TypeAtlas
