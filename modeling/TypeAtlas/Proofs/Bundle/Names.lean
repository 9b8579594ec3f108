import TypeAtlas.Sdk.Bundle
import Mathlib.Data.List.Nodup

namespace TypeAtlas

variable {kind kind' : FileKind} {policy : Policy} {name name' : String} {front : List Char}
  {ps : List PackageDecls} {t : Target} {r : Run} {withManifest : Bool}

namespace FileKind

def ending (kind : FileKind) (name : String) : List Char :=
  '_' :: name.toList ++ '_' :: kind.suffix.toList

theorem toList_fileName (kind : FileKind) (policy : Policy) (name : String) :
    (kind.fileName policy name).toList = policy.shortName.toList ++ kind.ending name := by
  simp [fileName, ending]

theorem eq_of_suffix (h : kind.suffix.toList <:+ kind'.suffix.toList) : kind = kind' := by
  cases kind <;> cases kind' <;> first | rfl | exact absurd h (by decide +kernel)

theorem ending_inj : kind.ending name = kind'.ending name' ↔ kind = kind' ∧ name = name' := by
  constructor
  · intro h
    have hbehind : kind.suffix.toList <:+ kind'.ending name' := ⟨'_' :: name.toList ++ ['_'], by
      rw [← h]
      simp [ending]⟩
    have hbehind' : kind'.suffix.toList <:+ kind'.ending name' :=
      ⟨'_' :: name'.toList ++ ['_'], by simp [ending]⟩
    obtain rfl : kind = kind' := (List.suffix_or_suffix_of_suffix hbehind hbehind').elim
      eq_of_suffix fun h => (eq_of_suffix h).symm
    have hname := List.append_inj_left' h rfl
    exact ⟨rfl, String.toList_inj.mp (List.cons.inj hname).2⟩
  · rintro ⟨rfl, rfl⟩
    rfl

theorem fileName_inj :
    kind.fileName policy name = kind'.fileName policy name' ↔ kind = kind' ∧ name = name' := by
  rw [← String.toList_inj, toList_fileName, toList_fileName, List.append_right_inj, ending_inj]

end FileKind

namespace Bundle

def endings (front : List Char) (name : String) : List (List Char) :=
  FileKind.all.map fun kind => front ++ kind.ending name

theorem nodup_endings (front : List Char) (name : String) : (endings front name).Nodup := by
  apply List.Nodup.map _ (by decide)
  intro kind kind' h
  exact (FileKind.ending_inj.mp (List.append_cancel_left h)).1

theorem disjoint_endings_iff :
    (endings front name).Disjoint (endings front name') ↔ name ≠ name' := by
  constructor
  · rintro h rfl
    have hmem : front ++ FileKind.structs.ending name ∈ endings front name :=
      List.mem_map_of_mem (by decide)
    exact h hmem hmem
  · intro hne _ h h'
    obtain ⟨kind, -, rfl⟩ := List.mem_map.mp h
    obtain ⟨kind', -, heq⟩ := List.mem_map.mp h'
    exact hne (FileKind.ending_inj.mp (List.append_cancel_left heq)).2.symm

theorem nodup_flatMap_endings_iff :
    (ps.flatMap fun p => endings front p.name).Nodup ↔ (ps.map (·.name)).Nodup := by
  have hapart : (Function.onFun List.Disjoint fun p : PackageDecls => endings front p.name)
      = fun p q => p.name ≠ q.name := funext₂ fun _ _ => propext disjoint_endings_iff
  rw [List.nodup_flatMap, hapart]
  exact (and_iff_right fun _ _ => nodup_endings front _).trans List.pairwise_map.symm

def namesBehind (front : List Char) (ps : List PackageDecls) (withManifest : Bool) :
    List (List Char) :=
  (ps.flatMap fun p => endings front p.name)
    ++ "SDK.hpp".toList :: if withManifest then ["manifest.json".toList] else []

theorem nodup_namesBehind_iff :
    (namesBehind front ps withManifest).Nodup ↔ (ps.map (·.name)).Nodup := by
  -- The header and the manifest have no underscore in their names.
  have hplain : ∀ name ∈ "SDK.hpp".toList ::
      (if withManifest then ["manifest.json".toList] else []), '_' ∉ name := by
    cases withManifest <;> decide +kernel
  have hextra :
      ("SDK.hpp".toList :: if withManifest then ["manifest.json".toList] else []).Nodup := by
    cases withManifest <;> decide +kernel
  rw [namesBehind, List.nodup_append, nodup_flatMap_endings_iff]
  refine ⟨fun h => h.1, fun h => ⟨h, hextra, ?_⟩⟩
  rintro name hname _ hother rfl
  obtain ⟨p, -, hname⟩ := List.mem_flatMap.mp hname
  obtain ⟨kind, -, rfl⟩ := List.mem_map.mp hname
  exact hplain _ hother (by simp [FileKind.ending])

theorem isAbsolute_fileName (kind : FileKind) (policy : Policy) (name : String) :
    Disk.isAbsolute (kind.fileName policy name) = Disk.isAbsolute policy.shortName := by
  rw [Disk.isAbsolute, Disk.isAbsolute, FileKind.toList_fileName]
  cases policy.shortName.toList <;> simp [FileKind.ending]

theorem toList_join_fileName (kind : FileKind) (policy : Policy) (name : String) :
    (join directory (kind.fileName policy name)).toList
      = (join directory policy.shortName).toList ++ kind.ending name := by
  unfold join
  rw [isAbsolute_fileName]
  split <;> simp [FileKind.toList_fileName]

theorem map_toList_files (t : Target) (r : Run) (withManifest : Bool) :
    (files t r withManifest).map (·.1.toList)
      = namesBehind (join directory t.policy.shortName).toList r.ordered withManifest := by
  unfold files namesBehind packageFiles
  rw [List.map_append, List.map_flatMap]
  congr 1
  · refine congrArg (List.flatMap · r.ordered) (funext fun p => ?_)
    rw [List.map_map]
    exact List.map_congr_left fun kind _ => toList_join_fileName kind t.policy p.name
  · cases withManifest <;> rfl

theorem nodup_map_files_iff (t : Target) (r : Run) (withManifest : Bool) :
    ((files t r withManifest).map (·.1)).Nodup ↔ (r.ordered.map (·.name)).Nodup := by
  have hlists : Function.Injective String.toList := fun _ _ => String.toList_inj.mp
  rw [← nodup_namesBehind_iff, ← map_toList_files t r withManifest, ← List.nodup_map_iff hlists,
    List.map_map]
  rfl

end Bundle

end TypeAtlas
