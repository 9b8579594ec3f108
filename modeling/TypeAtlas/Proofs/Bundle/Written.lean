import TypeAtlas.Proofs.Bundle.Names
import TypeAtlas.Proofs.Bundle.Places
import TypeAtlas.Proofs.Run.Ordered

namespace TypeAtlas

open Disk (lastName LeadsOn)

variable {t : Target} {r : Run} {p : Object} {shared shared' : Resolution} {ps : List Object}
  {built : List Built} {withManifest : Bool} {root : String} {m m' : Machine} {d d' : Disk}
  {files : List (String × String)}

theorem Runs.map_name {calls : List PackageOrder.Call}
    (h : Runs t shared ps built calls shared') : built.map (·.decls.name) = ps.map Object.name := by
  induction h with
  | nil => rfl
  | cons hwork _ _ ih => rw [List.map_cons, List.map_cons, ih, hwork.declares.name_eq]; rfl

namespace Run

theorem sublist_map_name (h : generate t shared = .ok r) :
    (r.saved.map (·.name)).Sublist (t.graph.packages.map Object.name) := by
  obtain ⟨calls, hruns⟩ := exists_runs h
  rw [← hruns.map_name, saved, List.map_map]
  exact List.filter_sublist.map _

end Run

theorem Run.ordered_eq_saved (hplaced : ∀ p ∈ r.saved, r.isPlaced p)
    (hsorted : r.saved.Pairwise fun p q =>
      (r.shared.order.position? p.id).getD 0 ≤ (r.shared.order.position? q.id).getD 0) :
    r.ordered = r.saved := by
  have hnone : r.saved.filter (!r.isPlaced ·) = [] :=
    List.filter_eq_nil_iff.mpr (by simpa using hplaced)
  rw [ordered_eq, placed, hnone, List.filter_eq_self.mpr hplaced, List.nil_append]
  exact List.mergeSort_of_pairwise (hsorted.imp decide_eq_true)

namespace Bundle

theorem length_files (t : Target) (r : Run) (withManifest : Bool) :
    (Bundle.files t r withManifest).length
      = 3 * r.saved.length + 1 + if withManifest then 1 else 0 := by
  have hpackages (ps : List PackageDecls) :
      (ps.flatMap (packageFiles t.policy)).length = 3 * ps.length := by
    induction ps with
    | nil => rfl
    | cons p ps ih =>
      rw [List.flatMap_cons, List.length_append, ih, List.length_cons, packageFiles,
        List.length_map, FileKind.all, List.length_cons, List.length_cons, List.length_cons,
        List.length_nil]
      omega
  rw [Bundle.files, List.length_append, hpackages, r.perm_ordered.length_eq]
  cases withManifest <;> rfl

def onDisk (root : String) (files : List (String × String)) : List (String × Bytes) :=
  files.map fun f => (join root f.1, Bytes.ofText f.2)

def ran (step : StateM Machine Bool) (m : Machine) : Bool × Machine := step m

theorem ran_guarded (d : Option Disk) (rest : StateM Machine Bool) (m : Machine) :
    ran (do if ← Machine.change d then rest else return false) m =
      match d with
      | some d => ran rest { m with disk := d }
      | none => (false, m) := by
  cases d <;> rfl

theorem ran_writeAll_cons (name text : String) :
    ran (writeAll Machine.host root ((name, text) :: files)) m =
      match m.disk.write? (join root name) (Bytes.ofText text) with
      | some d => ran (writeAll Machine.host root files) { m with disk := d }
      | none => (false, m) :=
  ran_guarded _ _ m

theorem ran_writeAll_eq_iff : ran (writeAll Machine.host root files) m = (true, m') ↔
    ∃ d, m.disk.writeAll? (onDisk root files) = some d ∧ { m with disk := d } = m' := by
  induction files generalizing m with
  | nil =>
    have hnil : ran (writeAll Machine.host root []) m = (true, m) := rfl
    simp [hnil, onDisk, Disk.writeAll?]
  | cons f files ih =>
    obtain ⟨name, text⟩ := f
    have hdisk : m.disk.writeAll? (onDisk root ((name, text) :: files)) =
        (m.disk.write? (join root name) (Bytes.ofText text)).bind
          (·.writeAll? (onDisk root files)) := rfl
    rw [ran_writeAll_cons, hdisk]
    cases m.disk.write? (join root name) (Bytes.ofText text) with
    | none => simp
    | some d => simpa using ih

theorem ran_write_eq_iff : ran (write Machine.host root files) m = (true, m') ↔
    ∃ d d', m.disk.makeDirectory? (join root directory) = some d
      ∧ d.writeAll? (onDisk root files) = some d' ∧ { m with disk := d' } = m' := by
  have hmake : ran (write Machine.host root files) m =
      match m.disk.makeDirectory? (join root directory) with
      | some d => ran (writeAll Machine.host root files) { m with disk := d }
      | none => (false, m) := ran_guarded _ _ m
  rw [hmake]
  cases m.disk.makeDirectory? (join root directory) with
  | none => simp
  | some d => simp [ran_writeAll_eq_iff]

theorem mem_onDisk (root : String) {f : String × String} (h : f ∈ files) :
    (join root f.1, Bytes.ofText f.2) ∈ onDisk root files :=
  List.mem_map.mpr ⟨f, h, rfl⟩

theorem ran_write_iff : (ran (write Machine.host root files) m).1 = true ↔
    ∃ d, m.disk.makeDirectory? (join root directory) = some d
      ∧ ∀ f ∈ files, d.CanHold (join root f.1) := by
  have hran : (ran (write Machine.host root files) m).1 = true ↔
      ∃ m', ran (write Machine.host root files) m = (true, m') := by
    constructor
    · exact fun hdone => ⟨_, Prod.ext hdone rfl⟩
    · exact fun ⟨m', hm'⟩ => by rw [hm']
  rw [hran]
  constructor
  · rintro ⟨m', hm'⟩
    obtain ⟨d, d', hmake, hwrite, -⟩ := ran_write_eq_iff.mp hm'
    have hall : ∀ f ∈ onDisk root files, d.CanHold f.1 := Disk.exists_writeAll?_iff.mp ⟨d', hwrite⟩
    exact ⟨d, hmake, fun f hf => hall (join root f.1, Bytes.ofText f.2) (mem_onDisk root hf)⟩
  · rintro ⟨d, hmake, hhold⟩
    have hall : ∀ f ∈ onDisk root files, d.CanHold f.1 := List.forall_mem_map.mpr hhold
    obtain ⟨d', hwrite⟩ := Disk.exists_writeAll?_iff.mpr hall
    exact ⟨_, ran_write_eq_iff.mpr ⟨d, d', hmake, hwrite, rfl⟩⟩

/-- Under a root, files have been written and nothing else: each has its text at a place of its own,
and there are no other files than before. -/
structure Leaves (root : String) (files : List (String × String)) (d d' : Disk)
    (places : List Place) : Prop where
  nodup : places.Nodup
  held : List.Forall₂ (fun p f => d'.locate? (join root f.1) = some p
    ∧ d'.node? p = some (.file (Bytes.ofText f.2))) places files
  others : ∀ q ∉ places, ∀ contents,
    d'.node? q = some (.file contents) ↔ d.node? q = some (.file contents)

theorem inside_eq (directory : String) :
    inside directory = "" ∨ ∃ front, (inside directory).toList = front ++ ['/'] := by
  unfold inside
  split
  case isTrue h =>
    rw [Bool.or_eq_true, decide_eq_true_eq] at h
    exact h.imp (by simp) List.getLast?_eq_some_iff.mp
  case isFalse => exact .inr ⟨directory.toList, by simp⟩

theorem lastName_join (directory name : String) :
    lastName (join directory name).toList = lastName name.toList := by
  unfold join
  split
  · rfl
  · rw [String.toList_append]
    rcases inside_eq directory with hnone | ⟨front, hfront⟩
    · simp [hnone]
    · rw [hfront, List.append_assoc]
      exact Disk.lastName_append_slash _ _

theorem join_join {root name : String} (h : Disk.isAbsolute name = false) :
    join root (join directory name) = join root directory ++ "/" ++ name := by
  have hinside : inside directory = "SDK/" := by decide +kernel
  have hplain : Disk.isAbsolute directory = false := by decide +kernel
  have hplain' : Disk.isAbsolute ("SDK/" ++ name) = false := by simp [Disk.isAbsolute]
  have hdirectory : "SDK/" ++ name = directory ++ ("/" ++ name) := by
    rw [← String.append_assoc]
    rfl
  simp only [join, h, hinside, hplain, hplain', Bool.false_eq_true, if_false]
  rw [hdirectory, ← String.append_assoc, ← String.append_assoc]

theorem slash_notMem_ending {kind : FileKind} {name : String} (h : '/' ∉ name.toList) :
    '/' ∉ kind.ending name := by
  have hsuffix : '/' ∉ kind.suffix.toList := by cases kind <;> decide +kernel
  simp [FileKind.ending, h, hsuffix]

theorem map_lastName_namesBehind {front : List Char} {packages : List PackageDecls}
    (h : ∀ p ∈ packages, '/' ∉ p.name.toList) :
    (namesBehind front packages withManifest).map lastName
      = namesBehind (lastName front) packages withManifest := by
  have hpackage (p : PackageDecls) (hp : p ∈ packages) :
      (endings front p.name).map lastName = endings (lastName front) p.name := by
    rw [endings, List.map_map]
    exact List.map_congr_left fun kind _ => Disk.lastName_append (slash_notMem_ending (h p hp)) _
  rw [namesBehind, List.map_append, List.map_flatMap, List.flatMap_congr hpackage]
  cases withManifest <;> rfl

theorem leadsOn_of_mem_namesBehind {front name : List Char} {packages : List PackageDecls}
    (h : name ∈ namesBehind front packages withManifest) : LeadsOn name := by
  rcases List.mem_append.mp h with h | h
  · obtain ⟨p, -, h⟩ := List.mem_flatMap.mp h
    obtain ⟨kind, -, rfl⟩ := List.mem_map.mp h
    exact Disk.leadsOn_of_underscore_mem (by simp [FileKind.ending])
  · have hextra : ∀ name ∈ "SDK.hpp".toList ::
        (if withManifest then ["manifest.json".toList] else []), LeadsOn name := by
      cases withManifest <;> decide +kernel
    exact hextra name h

theorem nodup_of_lastNames {places : List Place}
    (h : List.Forall₂ (fun p f => d.locate? f.1 = some p) places (onDisk root files))
    (hleads : ∀ f ∈ files, LeadsOn (lastName f.1.toList))
    (hnodup : (files.map fun f => lastName f.1.toList).Nodup) : places.Nodup := by
  have hheads : places.map List.head?
      = (files.map fun f => lastName f.1.toList).map fun cs => some (String.ofList cs) := by
    induction files generalizing places with
    | nil =>
      cases h
      rfl
    | cons f files ih =>
      cases h with
      | cons hp hrest =>
        have hname := lastName_join root f.1
        have hhead := Disk.head?_of_locate? hp (hname ▸ hleads f (by simp))
        rw [List.map_cons, List.map_cons, List.map_cons, hhead, hname,
          ih hrest (fun f hf => hleads f (List.mem_cons_of_mem _ hf)) (List.nodup_cons.mp hnodup).2]
  refine List.Nodup.of_map List.head? (hheads ▸ hnodup.map fun as bs heq => ?_)
  exact String.ofList_inj.mp (Option.some.inj heq)

theorem Leaves.read?_eq {places : List Place} (h : Leaves root files d d' places)
    {name text : String} (hf : (name, text) ∈ files) :
    d'.read? (join root name) = some (Bytes.ofText text) := by
  obtain ⟨p, -, hp, hnode⟩ := exists_of_forall₂ h.held hf
  simp only at hp hnode
  rw [Disk.read?, hp]
  simp [hnode]

variable (hfiles : files.Perm (Bundle.files t r withManifest))

include hfiles

theorem mem_files_of_saved {package : PackageDecls} (h : package ∈ r.saved) (kind : FileKind) :
    (join directory (kind.fileName t.policy package.name), package.text t.policy kind)
      ∈ files := by
  apply hfiles.mem_iff.mpr
  apply List.mem_append_left
  have hkind : kind ∈ FileKind.all := by cases kind <;> decide
  exact List.mem_flatMap.mpr
    ⟨package, r.perm_ordered.mem_iff.mpr h, List.mem_map.mpr ⟨kind, hkind, rfl⟩⟩

theorem slash_notMem_of_written (hshort : '/' ∉ t.policy.shortName.toList)
    (hflat : m'.disk.IsFlat (join root directory))
    (hran : ran (write Machine.host root files) m = (true, m')) {package : PackageDecls}
    (h : package ∈ r.saved) : '/' ∉ package.name.toList := by
  obtain ⟨d, d', hmake, hwrite, rfl⟩ := ran_write_eq_iff.mp hran
  have hsame := (Disk.exists_places_of_writeAll? hwrite).1
  have hfile := mem_onDisk root (mem_files_of_saved hfiles h .structs)
  have hhold := Disk.exists_writeAll?_iff.mp ⟨d', hwrite⟩ _ hfile
  have hplain : Disk.isAbsolute (FileKind.structs.fileName t.policy package.name) = false := by
    rw [isAbsolute_fileName, Disk.isAbsolute, decide_eq_false_iff_not]
    exact fun hhead => hshort (List.mem_of_mem_head? hhead)
  rw [join_join hplain] at hhold
  have hbehind : (FileKind.structs.fileName t.policy package.name).toList
      = (t.policy.shortName.toList ++ ['_'])
        ++ (package.name.toList ++ '_' :: FileKind.structs.suffix.toList) := by
    rw [FileKind.toList_fileName, FileKind.ending, List.append_assoc]
    rfl
  have hnone : join root directory ≠ "" := by simp [join, directory, Disk.isAbsolute]
  have hrest :=
    (hsame.isFlat_iff.mp hflat).slash_notMem hnone (by simp) (by simp [hshort]) hbehind hhold
  exact fun hmem => hrest (List.mem_append_left _ hmem)

theorem exists_leaves (hnodup : (r.saved.map (·.name)).Nodup)
    (hplain : ∀ p ∈ r.saved, '/' ∉ p.name.toList)
    (hran : ran (write Machine.host root files) m = (true, m')) :
    ∃ places, Leaves root files m.disk m'.disk places := by
  obtain ⟨d, d', hmake, hwrite, rfl⟩ := ran_write_eq_iff.mp hran
  obtain ⟨hsame, places, hplaces, hothers, hheld⟩ := Disk.exists_places_of_writeAll? hwrite
  have hplain' (p : PackageDecls) (hp : p ∈ r.ordered) : '/' ∉ p.name.toList :=
    hplain p (r.perm_ordered.mem_iff.mp hp)
  have hnames : (files.map fun f => lastName f.1.toList).Perm
      (namesBehind (lastName t.policy.shortName.toList) r.ordered withManifest) := by
    rw [← lastName_join directory, ← map_lastName_namesBehind hplain', ← map_toList_files,
      List.map_map]
    exact hfiles.map _
  have hapart : places.Nodup := by
    apply nodup_of_lastNames hplaces
    · intro f hf
      exact leadsOn_of_mem_namesBehind (hnames.mem_iff.mp (List.mem_map_of_mem hf))
    · rw [hnames.nodup_iff, nodup_namesBehind_iff, (r.perm_ordered.map _).nodup_iff]
      exact hnodup
  refine ⟨places, hapart, ?held, fun q hq contents => ?others⟩
  case held =>
    have hboth := hplaces.mp (S := fun p f => d'.locate? f.1 = some p
      ∧ d'.node? p = some (.file f.2)) (fun p f hp hf => ⟨(hsame.locate?_eq f.1).trans hp, hf⟩)
      (hheld hapart)
    exact List.forall₂_map_right_iff.mp hboth
  case others => rw [hothers q hq, Disk.node?_of_makeDirectory? hmake]

omit hfiles

/-- Two files of a run share a name only if they are of one kind and of packages that share theirs,
so that no two do exactly if no two saved packages do.  Files can be written, one after another in
any order, just where each leads to a place that is no directory.  Under names of their own, the
packages that are saved then have three files each, which hold their texts at the end; beside the
header and the manifest nothing else has been written.  That goes for names without slashes, and
where the directory has no others in it, no others can be written. -/
theorem files_apart (h : Run.generate t shared = .ok r)
    (hfiles : files.Perm (Bundle.files t r withManifest)) (root : String) (m : Machine) :
    (∀ kind kind' : FileKind, ∀ p ∈ r.saved, ∀ q ∈ r.saved,
      kind.fileName t.policy p.name = kind'.fileName t.policy q.name
        ↔ kind = kind' ∧ p.name = q.name)
    ∧ ((files.map (·.1)).Nodup ↔ (r.saved.map (·.name)).Nodup)
    ∧ ((t.graph.packages.map Object.name).Nodup → (r.saved.map (·.name)).Nodup)
    ∧ files.length = (3 * r.saved.length + 1 + if withManifest then 1 else 0)
    ∧ ((ran (write Machine.host root files) m).1 = true ↔
      ∃ d, m.disk.makeDirectory? (join root directory) = some d
        ∧ ∀ f ∈ files, d.CanHold (join root f.1))
    ∧ ∀ m', ran (write Machine.host root files) m = (true, m') →
      (r.saved.map (·.name)).Nodup →
      (∀ p ∈ r.saved, '/' ∉ p.name.toList)
        ∨ '/' ∉ t.policy.shortName.toList ∧ m'.disk.IsFlat (join root directory) →
      (∃ places, Leaves root files m.disk m'.disk places)
        ∧ ∀ p ∈ r.saved, ∀ kind : FileKind,
          m'.disk.read? (join root (join directory (kind.fileName t.policy p.name)))
            = some (Bytes.ofText (p.text t.policy kind)) := by
  refine ⟨fun _ _ _ _ _ _ => FileKind.fileName_inj, ?names, fun hnodup =>
    hnodup.sublist (Run.sublist_map_name h), ?length, ?ends, fun m' hran hnodup hplain => ?leaves⟩
  case names =>
    rw [(hfiles.map _).nodup_iff, nodup_map_files_iff, (r.perm_ordered.map _).nodup_iff]
  case length => rw [hfiles.length_eq, length_files]
  case ends => exact ran_write_iff
  case leaves =>
    have hslash : ∀ p ∈ r.saved, '/' ∉ p.name.toList := by
      rcases hplain with hplain | ⟨hshort, hflat⟩
      · exact hplain
      · exact fun p hp => slash_notMem_of_written hfiles hshort hflat hran hp
    obtain ⟨places, hleaves⟩ := exists_leaves hfiles hnodup hslash hran
    refine ⟨⟨places, hleaves⟩, fun p hp kind => ?_⟩
    have hmem := mem_files_of_saved hfiles hp kind
    exact hleaves.read?_eq hmem

def sideBySide (first second : String) : Target where
  graph := {
    objects := [
      ⟨1, 0, first, none, "Package " ++ first, none, none, 0, .package⟩,
      ⟨2, 1, second, none, "Package " ++ second, none, none, 0, .package⟩,
      ⟨3, 2, "Inner", none, "ScriptStruct Inner", some 1, some 1, 0, .scriptStruct ⟨none, 8, []⟩⟩,
      ⟨4, 3, "Outer", none, "ScriptStruct Outer", some 2, some 2, 0, .scriptStruct ⟨none, 16, []⟩⟩]
    distinct := by simp }
  policy := .standard
  memory := none

def written (root : String) (ps : List PackageDecls) : Bool × Machine :=
  ran (write Machine.host root
    (ps.flatMap (packageFiles .standard) ++ [("SDK.hpp", Source.umbrella .standard ps)]))
    (.ofDisk .empty)

theorem ran_write_eq_written {first second : String} (root : String)
    (h : (r.saved.map fun p => r.shared.order.position? p.id) = [some 0, some 1]) :
    ran (write Machine.host root (Bundle.files (sideBySide first second) r false)) (.ofDisk .empty)
      = written root r.saved := by
  have hplaced : ∀ place ∈ r.saved.map (fun p => r.shared.order.position? p.id), place.isSome := by
    simp [h]
  have hsorted : (r.saved.map fun p => r.shared.order.position? p.id).Pairwise
      fun i j => i.getD 0 ≤ j.getD 0 := by simp [h]
  rw [List.pairwise_map] at hsorted
  rw [Bundle.files, Run.ordered_eq_saved (List.forall_mem_map.mp hplaced) hsorted]
  rfl

theorem files_apart_side_by_side : ∃ r, Run.generate (sideBySide "Engine" "Game") .start = .ok r
    ∧ r.saved.map (·.name) = ["Engine", "Game"]
    ∧ ∀ root ∈ ["out", "/sdk/out/"],
      ∃ m, ran (write Machine.host root (Bundle.files (sideBySide "Engine" "Game") r false))
          (.ofDisk .empty) = (true, m)
        ∧ ∀ p ∈ r.saved, ∀ kind : FileKind,
          m.disk.read? (join root (join directory (kind.fileName .standard p.name)))
            = some (Bytes.ofText (p.text .standard kind)) := by
  have hrun : (Run.generate (sideBySide "Engine" "Game") .start).map (fun r =>
      ((r.saved.map fun p => r.shared.order.position? p.id), r.saved.map (·.name),
        ["out", "/sdk/out/"].map fun root => (written root r.saved).1))
      = .ok ([some 0, some 1], ["Engine", "Game"], [true, true]) := by
    decide +kernel
  obtain ⟨r, hr, heq⟩ := Run.exists_ok_of_map hrun
  simp only [Prod.mk.injEq] at heq
  obtain ⟨hplaces, hnames, hdone⟩ := heq
  refine ⟨r, hr, hnames, fun root hroot => ?_⟩
  have hran : ran (write Machine.host root (Bundle.files (sideBySide "Engine" "Game") r false))
      (.ofDisk .empty) = (true, (written root r.saved).2) := by
    rw [ran_write_eq_written root hplaces]
    have hall : ∀ done ∈ ["out", "/sdk/out/"].map fun root => (written root r.saved).1,
        done = true := by simp [hdone]
    exact Prod.ext (List.forall_mem_map.mp hall root hroot) rfl
  obtain ⟨_, _, _, _, _, hleaves⟩ := files_apart hr
    (.refl (Bundle.files (sideBySide "Engine" "Game") r false)) root (.ofDisk .empty)
  have hplain : ∀ name ∈ r.saved.map (·.name), '/' ∉ name.toList := by
    rw [hnames]
    decide +kernel
  obtain ⟨-, hread⟩ := hleaves _ hran (hnames ▸ by decide +kernel)
    (.inl fun p hp => hplain p.name (List.mem_map_of_mem hp))
  exact ⟨_, hran, hread⟩

theorem files_overwritten : ∃ r, Run.generate (sideBySide "Engine" "Engine") .start = .ok r
    ∧ (Bundle.files (sideBySide "Engine" "Engine") r false).length = 7
    ∧ (∃ p ∈ r.saved, ∃ q ∈ r.saved, p.structs ≠ q.structs
      ∧ ∀ kind : FileKind, kind.fileName .standard p.name = kind.fileName .standard q.name)
    ∧ ∃ m, ran (write Machine.host "out" (Bundle.files (sideBySide "Engine" "Engine") r false))
        (.ofDisk .empty) = (true, m)
      ∧ m.disk.files.length = 4 := by
  have hrun : (Run.generate (sideBySide "Engine" "Engine") .start).map (fun r =>
      ((r.saved.map fun p => r.shared.order.position? p.id), (written "out" r.saved).1,
        (written "out" r.saved).2.disk.files.length,
        r.saved.any fun p => r.saved.any fun q => p.structs ≠ q.structs ∧ p.name = q.name))
      = .ok ([some 0, some 1], true, 4, true) := by decide +kernel
  obtain ⟨r, hr, heq⟩ := Run.exists_ok_of_map hrun
  simp only [Prod.mk.injEq, List.any_eq_true, decide_eq_true_eq] at heq
  obtain ⟨hplaces, hdone, hleft, p, hp, q, hq, hstructs, hname⟩ := heq
  have hsaved : r.saved.length = 2 := by rw [← List.length_map, hplaces]; rfl
  refine ⟨r, hr, by rw [length_files, hsaved]; rfl, ⟨p, hp, q, hq, hstructs, fun _ => hname ▸ rfl⟩,
    (written "out" r.saved).2, ?_, hleft⟩
  rw [ran_write_eq_written "out" hplaces]
  exact Prod.ext hdone rfl

end Bundle

end TypeAtlas
