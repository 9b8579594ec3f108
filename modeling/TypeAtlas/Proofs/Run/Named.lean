import TypeAtlas.Proofs.Graph.Named
import TypeAtlas.Proofs.Run.Recorded

namespace TypeAtlas

variable {g : Graph} {t : Target} {o p : Object} {package : ObjectId} {b : Built} {r : Run}

namespace Graph

theorem name_of_enum? {e : EnumDecl} (h : g.enum? o = some e) : e.name = g.uniqueName o := by
  unfold enum? at h
  split at h
  · simp only [EnumDecl.ofObject?, Option.ite_none_left_eq_some, Option.some.injEq] at h
    rw [← h.2]
  · cases h

def namedOf (g : Graph) (package : ObjectId) : List Object :=
  (g.typesOf package).filter Object.isStruct
    ++ (g.objectsOf package).filter fun o => (g.enum? o).isSome

def named (g : Graph) : List Object := g.packages.flatMap fun p => g.namedOf p.id

theorem mem_of_mem_namedOf (h : o ∈ g.namedOf package) :
    o ∈ g.objects ∧ g.packageOf? o.id = some package := by
  cases List.mem_append.mp h with
  | inl hs =>
    have howns := mem_typesOf.mp (List.mem_filter.mp hs).1
    exact ⟨(get?_eq_some.mp (declarable?_eq_some.mp howns.declarable).1).1, howns.package_eq⟩
  | inr he => simpa [objectsOf] using (List.mem_filter.mp he).1

theorem mem_objects_of_mem_named (h : o ∈ g.named) : o ∈ g.objects := by
  obtain ⟨p, _, hp⟩ := List.mem_flatMap.mp h
  exact (mem_of_mem_namedOf hp).1

theorem nodup_namedOf (g : Graph) (package : ObjectId) : (g.namedOf package).Nodup := by
  apply List.Nodup.append
  · exact (g.nodup_objects.filter _).filter _
  · exact (g.nodup_objects.filter _).filter _
  · intro o hs he
    have hstruct := (List.mem_filter.mp hs).2
    have henum := (List.mem_filter.mp he).2
    unfold enum? at henum
    split at henum
    · simp_all [Object.isStruct, ObjectKind.tag]
    · simp at henum

theorem nodup_named (g : Graph) : g.named.Nodup := by
  rw [named, List.nodup_flatMap]
  constructor
  · exact fun p _ => g.nodup_namedOf p.id
  · apply (List.pairwise_map.mp g.nodup_packages).imp
    intro p q hne o hp hq
    have hboth := (mem_of_mem_namedOf hp).2.symm.trans (mem_of_mem_namedOf hq).2
    exact hne (Option.some_inj.mp hboth)

end Graph

def Built.names (b : Built) : List String :=
  b.decls.structs.map (·.nativeName) ++ b.decls.enums.map (·.name)

def Run.names (r : Run) : List String := r.built.flatMap Built.names

theorem Extras.map_enums (h : Extras g p b) : b.decls.enums.map (·.name) =
    ((g.objectsOf p.id).filter fun o => (g.enum? o).isSome).map g.uniqueName := by
  rw [h.enums]
  induction g.objectsOf p.id with
  | nil => rfl
  | cons o os ih =>
    cases he : g.enum? o with
    | none => simp [he, ih]
    | some e => simp [he, ih, Graph.name_of_enum? he]

theorem Processed.perm_names (h : Processed t .start p b) (hextras : Extras t.graph p b) :
    b.names.Perm ((t.graph.namedOf p.id).map t.graph.uniqueName) := by
  obtain ⟨declared, hperm, hdeclares⟩ := h.declares
  rw [Resolution.start, Graph.typesLeft_empty] at hperm
  obtain ⟨structs, hstructs, hall⟩ := hdeclares.structs
  rw [Built.names, Graph.namedOf, List.map_append, hextras.map_enums, hstructs, PackageDecls.empty,
    List.nil_append, map_eq_of_forall₂ hall fun _ _ hd => (StructDecl.ofObject_eq_ok hd).2.2]
  exact ((hperm.filter _).map _).append_right _

namespace Run

theorem perm_names (h : generate t .start = .ok r) :
    r.names.Perm (t.graph.named.map t.graph.uniqueName) := by
  rw [names, Graph.named, List.map_flatMap]
  apply perm_flatMap_of_forall₂ _ fun _ _ => id
  exact .mp (fun _ _ hp hextras => hp.perm_names hextras)
    (processed_of_generate h Resolution.isIdle_start) (extras_of_buildAll h).1

theorem nodup_names_iff (h : generate t .start = .ok r) :
    r.names.Nodup ↔ t.graph.named.Pairwise fun o p => ¬ t.graph.Clash o p := by
  rw [(perm_names h).nodup_iff, List.Nodup, List.pairwise_map]
  simp only [ne_eq, Graph.uniqueName_eq_iff]

/-- Two names are the same exactly where they clash, and objects that are told apart never do.  Plain
names of one kind are told apart as soon as what is called the same is held by what is called
differently.  A run declares its structs and enumerations under these names, each under a name of
its own exactly if no two of them clash. -/
theorem names_apart (t : Target) :
    (∀ o ∈ t.graph.objects, ∀ p ∈ t.graph.objects, o ≠ p →
      (t.graph.uniqueName o = t.graph.uniqueName p ↔ t.graph.Clash o p)
      ∧ (t.graph.ToldApart o p → t.graph.uniqueName o ≠ t.graph.uniqueName p)
      ∧ (o.kind.tag = p.kind.tag → Graph.IsPlain o → Graph.IsPlain p →
        (o.name = p.name → t.graph.holderName? o ≠ t.graph.holderName? p) →
        t.graph.uniqueName o ≠ t.graph.uniqueName p))
    ∧ ∀ r, generate t .start = .ok r →
      r.names.Perm (t.graph.named.map t.graph.uniqueName)
      ∧ (r.names.Nodup ↔ t.graph.named.Pairwise fun o p => ¬ t.graph.Clash o p)
      ∧ (t.graph.named.Pairwise t.graph.ToldApart → r.names.Nodup) := by
  constructor
  · intro o ho p hp hne
    have hapart (h : t.graph.ToldApart o p) : t.graph.uniqueName o ≠ t.graph.uniqueName p :=
      fun heq => h.not_clash ho hp hne (Graph.uniqueName_eq_iff.mp heq)
    refine ⟨Graph.uniqueName_eq_iff, hapart, fun htag hplain hplain' hholder => ?_⟩
    exact hapart (hplain.toldApart hplain' htag hholder)
  · intro r hr
    refine ⟨perm_names hr, nodup_names_iff hr, fun h => (nodup_names_iff hr).mpr ?_⟩
    apply (h.and t.graph.nodup_named).imp_of_mem
    intro o p ho hp ⟨hapart, hne⟩
    exact hapart.not_clash (Graph.mem_objects_of_mem_named ho) (Graph.mem_objects_of_mem_named hp)
      hne

def engineSettings : Object :=
  ⟨3, 2, "Settings", none, "ScriptStruct Engine.Settings", some 1, some 1, 0,
    .scriptStruct ⟨none, 4, []⟩⟩

def gameSettings : Object :=
  ⟨4, 3, "Settings", none, "ScriptStruct Game.Settings", some 2, some 2, 0,
    .scriptStruct ⟨none, 8, []⟩⟩

def settings : Target where
  graph := {
    objects := [
      ⟨1, 0, "Engine", none, "Package Engine", none, none, 0, .package⟩,
      ⟨2, 1, "Game", none, "Package Game", none, none, 0, .package⟩,
      engineSettings, gameSettings,
      ⟨5, 4, "Only", none, "ScriptStruct Game.Only", some 2, some 2, 0,
        .scriptStruct ⟨none, 8, []⟩⟩,
      ⟨6, 5, "Settings", none, "Enum Game.Settings", some 2, some 2, 0,
        .enumeration ["Settings::Low", "Settings::High"]⟩]
    distinct := by decide }
  policy := .standard
  memory := none

theorem names_apart_settings :
    settings.graph.uniqueName engineSettings ≠ settings.graph.uniqueName gameSettings
    ∧ ∃ r, generate settings .start = .ok r
      ∧ r.names.Perm ["Engine_FSettings", "Game_FSettings", "FOnly", "Settings"]
      ∧ r.names.Nodup := by
  obtain ⟨hpair, hrun⟩ := names_apart settings
  have hends : (generate settings .start).map (fun _ => ()) = .ok () := by decide +kernel
  obtain ⟨r, hr, _⟩ := exists_ok_of_map hends
  obtain ⟨hperm, _, hapart⟩ := hrun r hr
  have hnames : settings.graph.named.map settings.graph.uniqueName =
      ["Engine_FSettings", "Game_FSettings", "FOnly", "Settings"] := by decide +kernel
  refine ⟨?_, r, hr, hnames ▸ hperm, hapart (by decide +kernel)⟩
  obtain ⟨_, _, hplain⟩ := hpair engineSettings (by simp [settings]) gameSettings
    (by simp [settings]) (by decide)
  have hengine : Graph.IsPlain engineSettings := ⟨rfl, by decide +kernel, by decide +kernel⟩
  have hgame : Graph.IsPlain gameSettings := ⟨rfl, by decide +kernel, by decide +kernel⟩
  exact hplain rfl hengine hgame fun _ => by decide +kernel

def lookalikes : Target where
  graph := {
    objects := [
      ⟨1, 0, "Engine", none, "Package Engine", none, none, 0, .package⟩,
      ⟨2, 1, "Game", none, "Package Game", none, none, 0, .package⟩,
      ⟨3, 2, "Foo Bar", none, "ScriptStruct Engine.Foo Bar", some 1, some 1, 0,
        .scriptStruct ⟨none, 4, []⟩⟩,
      ⟨4, 3, "Foo-Bar", none, "ScriptStruct Game.Foo-Bar", some 2, some 2, 0,
        .scriptStruct ⟨none, 8, []⟩⟩]
    distinct := by decide }
  policy := .standard
  memory := none

theorem not_nodup_names : (∃ o ∈ lookalikes.graph.objects, ∃ p ∈ lookalikes.graph.objects, o ≠ p
      ∧ o.kind.tag = p.kind.tag
      ∧ lookalikes.graph.uniqueName o = lookalikes.graph.uniqueName p)
    ∧ ∃ r, generate lookalikes .start = .ok r ∧ r.names = ["FFoo_Bar", "FFoo_Bar"] := by
  constructor
  · decide +kernel
  · have hrun : (generate lookalikes .start).map names = .ok ["FFoo_Bar", "FFoo_Bar"] := by
      decide +kernel
    exact exists_ok_of_map hrun

end Run

end TypeAtlas
