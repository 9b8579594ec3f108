import TypeAtlas.Proofs.Method.Frame

namespace TypeAtlas.Method

open Layout (Entry Preordered Sorted)

def demoted (p : Parameter) : Parameter :=
  if p.role = .result then { p with role := .output } else p

section OneResult

variable {κ : Type} {returns : κ → Bool} {cs : List κ} {ps : List Parameter} {p : Parameter}

theorem demoted_of_ne (h : p.role ≠ .result) : demoted p = p := if_neg h

theorem role_demoted (h : p.role = .result) : (demoted p).role = .output := by
  rw [demoted, if_pos h]

theorem role_demoted_ne (p : Parameter) : (demoted p).role ≠ .result := by
  unfold demoted
  split
  case isTrue => simp
  case isFalse h => exact h

theorem oneResult_true (ps : List Parameter) :
    oneResult true ps = (ps.map demoted, ps.filter (·.role = .result)) := by
  induction ps with
  | nil => rfl
  | cons p ps ih =>
    by_cases h : p.role = .result
    · simp [oneResult, ih, h, demoted]
    · simp [oneResult, ih, h, demoted]

theorem oneResult_cons_result (h : p.role = .result) (ps : List Parameter) :
    oneResult false (p :: ps) = (p :: ps.map demoted, ps.filter (·.role = .result)) := by
  simp [oneResult, oneResult_true, h]

theorem oneResult_cons_other (h : p.role ≠ .result) (ps : List Parameter) :
    oneResult false (p :: ps) = (p :: (oneResult false ps).1, (oneResult false ps).2) := by
  simp [oneResult, h]

theorem forall₂_oneResult {R : κ → Parameter → Prop} (hR : ∀ c p, R c p → R c (demoted p))
    (h : List.Forall₂ R cs ps) : List.Forall₂ R cs (oneResult false ps).1 := by
  induction h with
  | nil => exact .nil
  | @cons c p cs ps hp h ih =>
    by_cases hr : p.role = .result
    · rw [oneResult_cons_result hr]
      exact .cons hp (List.forall₂_map_right_iff.mpr (h.imp hR))
    · rw [oneResult_cons_other hr]
      exact .cons hp ih

/-- Of children that are returned exactly where their parameters are results, those that are
returned have the results, whatever becomes of the parameters. -/
theorem filter_zip_map (h : List.Forall₂ (fun c p => returns c = true ↔ p.role = .result) cs ps)
    (f : Parameter → Parameter) :
    (((cs.zip (ps.map f)).filter (returns ·.1)).map Prod.snd) =
      (ps.filter (·.role = .result)).map f := by
  induction h with
  | nil => rfl
  | @cons c p cs ps hp h ih =>
    by_cases hr : p.role = .result
    · simp [ih, hr, hp.mpr hr]
    · simp [ih, hr, mt hp.mp hr]

structure FirstIsResult (returned settled extra : List Parameter) : Prop where
  result : settled.filter (·.role = .result) = returned.take 1
  output : ∀ p ∈ returned.drop 1, p.role = .output
  extra : returned.drop 1 = extra.map demoted

theorem firstIsResult
    (h : List.Forall₂ (fun c p => returns c = true ↔ p.role = .result) cs ps) :
    FirstIsResult (((cs.zip (oneResult false ps).1).filter (returns ·.1)).map Prod.snd)
      (oneResult false ps).1 (oneResult false ps).2 := by
  induction h with
  | nil => exact ⟨rfl, by simp, rfl⟩
  | @cons c p cs ps hp h ih =>
    by_cases hr : p.role = .result
    · have hnone : (ps.map demoted).filter (·.role = .result) = [] := by
        simp [List.filter_eq_nil_iff, role_demoted_ne]
      have hreturned : (((c :: cs).zip (p :: ps.map demoted)).filter (returns ·.1)).map Prod.snd
          = p :: (ps.filter (·.role = .result)).map demoted := by
        rw [← filter_zip_map h, List.zip_cons_cons,
          List.filter_cons_of_pos (by simp [hp.mpr hr]), List.map_cons]
      rw [oneResult_cons_result hr, hreturned]
      refine ⟨?_, fun q hq => ?_, rfl⟩
      · rw [List.filter_cons_of_pos (by simp [hr]), hnone]
        rfl
      · obtain ⟨q, hmem, rfl⟩ := List.mem_map.mp hq
        exact role_demoted (by simpa using (List.mem_filter.mp hmem).2)
    · have hreturned (qs : List Parameter) :
          ((c :: cs).zip (p :: qs)).filter (returns ·.1) = (cs.zip qs).filter (returns ·.1) := by
        rw [List.zip_cons_cons, List.filter_cons_of_neg (by simp [mt hp.mp hr])]
      rw [oneResult_cons_other hr, hreturned]
      refine ⟨?_, ih.output, ih.extra⟩
      rw [List.filter_cons_of_neg (by simp [hr])]
      exact ih.result

end OneResult

section Frame

variable {g : Graph} {policy : Policy} {o : Object} {f : Function} {children : List ObjectId}
  {names : List String} {c : Entry × Nat} {p : Parameter} {flags : Nat} {r : Role}

def returns (e : Entry) : Bool := Flags.has e.2.flags Flags.returnParameter

def returned (frame : List (Entry × Nat)) (ps : List Parameter) : List Parameter :=
  ((frame.zip ps).filter (returns ·.1.1)).map Prod.snd

/-- A method has a parameter for each child that takes part in calls, in the order of the frame.
The first that is returned is the result, each other one an output with a warning, and those that
are not returned have the roles of their flags. -/
structure Frames (g : Graph) (policy : Policy) (o : Object) (children : List ObjectId)
    (frame : List (Entry × Nat)) (m : Method) (log : List Log.Entry) : Prop where
  sorted : Sorted (eligible g children) frame
  describes :
    List.Forall₂ (Describes g policy (namesOf (eligible g children))) frame m.parameters
  role : List.Forall₂ (fun c p => returns c.1 = false → Role.ofFlags? c.1.2.flags = some p.role)
    frame m.parameters
  result : m.withRole .result = (returned frame m.parameters).take 1
  output : ∀ p ∈ (returned frame m.parameters).drop 1, p.role = .output
  warned : log = ((returned frame m.parameters).drop 1).map (extraResult o)

theorem eq_result_iff (h : Role.ofFlags? flags = some r) :
    Flags.has flags Flags.returnParameter = true ↔ r = .result := by
  unfold Role.ofFlags? at h
  split at h
  case isTrue hreturn => simp_all
  case isFalse hreturn =>
    have hne : r ≠ .result := by grind
    simp [hreturn, hne]

theorem Describes.demoted (h : Describes g policy names c p) :
    Describes g policy names c (demoted p) := by
  unfold Method.demoted
  split
  case isTrue => exact ⟨h.name, h.type, h.byReference, h.flags⟩
  case isFalse => exact h

theorem extraResult_demoted (o : Object) (p : Parameter) :
    extraResult o (demoted p) = extraResult o p := by
  unfold demoted
  split <;> rfl

theorem exists_frames (hf : o.function? = some f) (h : Preordered (eligible g f.children)) :
    ∃ frame m log, ofFunction? g policy o = some (m, log)
      ∧ Frames g policy o f.children frame m log := by
  obtain ⟨frame, hsorted, hframe⟩ := exists_frame policy h
  have hreturns : List.Forall₂ (fun (c : Entry × Nat) p => returns c.1 = true ↔ p.role = .result)
      frame (parametersOf g policy f.children) := hframe.imp fun c p hp => eq_result_iff hp.2
  have hfirst := firstIsResult hreturns
  rw [ofFunction?, hf]
  refine ⟨frame, _, _, rfl, hsorted, ?_, ?_, hfirst.result, hfirst.output, ?_⟩
  · exact forall₂_oneResult (fun c p => Describes.demoted) (hframe.imp fun c p hp => hp.1)
  · refine forall₂_oneResult (fun c p hp hnot => ?_) (hframe.imp fun c p hp _ => hp.2)
    have hne : p.role ≠ .result := mt (eq_result_iff (hp hnot)).mpr (by simpa [returns] using hnot)
    rw [demoted_of_ne hne]
    exact hp hnot
  · rw [returned, hfirst.extra, List.map_map]
    exact List.map_congr_left fun p _ => (extraResult_demoted o p).symm

end Frame

section Functions

variable {seen : List String} {os : List Object} {o : Object}

structure FirstOfEachName (fs chosen : List Object) : Prop where
  sublist : chosen.Sublist fs
  nodup : (chosen.map Object.fullName).Nodup
  first : ∀ o ∈ chosen, fs.find? (·.fullName = o.fullName) = some o
  every : ∀ o ∈ fs, o.fullName ∈ chosen.map Object.fullName

def functionsAmong (os : List Object) : List Object := os.filter (·.function?.isSome)

theorem isPassed_iff : (o.function?.isNone || seen.contains o.fullName) = true ↔
    (o.function?.isSome = true → o.fullName ∈ seen) := by
  cases o.function? <;> simp

theorem distinctFunctions_first (h : o ∈ distinctFunctions seen os) : o.fullName ∉ seen ∧
    (functionsAmong os).find? (·.fullName = o.fullName) = some o := by
  fun_induction distinctFunctions seen os with
  | case1 => cases h
  | case2 seen q os hpass ih =>
    obtain ⟨hfresh, hfind⟩ := ih h
    refine ⟨hfresh, ?_⟩
    rw [functionsAmong, List.filter_cons]
    split
    case isTrue hq =>
      have hne : q.fullName ≠ o.fullName := fun heq => hfresh (heq ▸ isPassed_iff.mp hpass hq)
      rw [List.find?_cons_of_neg (by simpa using hne)]
      exact hfind
    case isFalse => exact hfind
  | case3 seen q os hkeep ih =>
    rw [isPassed_iff, Classical.not_imp] at hkeep
    rw [functionsAmong, List.filter_cons_of_pos (by simpa using hkeep.1)]
    rcases List.mem_cons.mp h with rfl | h
    · exact ⟨hkeep.2, by simp⟩
    · obtain ⟨hfresh, hfind⟩ := ih h
      rw [List.mem_cons, not_or] at hfresh
      refine ⟨hfresh.2, ?_⟩
      rw [List.find?_cons_of_neg (by simpa using Ne.symm hfresh.1)]
      exact hfind

theorem sublist_distinctFunctions (seen : List String) (os : List Object) :
    (distinctFunctions seen os).Sublist (functionsAmong os) := by
  fun_induction distinctFunctions seen os with
  | case1 => exact .slnil
  | case2 seen q os _ ih => exact ih.trans ((List.sublist_cons_self q os).filter _)
  | case3 seen q os hkeep ih =>
    rw [isPassed_iff, Classical.not_imp] at hkeep
    rw [functionsAmong, List.filter_cons_of_pos (by simpa using hkeep.1)]
    exact ih.cons_cons q

theorem nodup_distinctFunctions (seen : List String) (os : List Object) :
    ((distinctFunctions seen os).map Object.fullName).Nodup := by
  fun_induction distinctFunctions seen os with
  | case1 => exact .nil
  | case2 _ _ _ _ ih => exact ih
  | case3 seen q os _ ih =>
    rw [List.map_cons, List.nodup_cons]
    refine ⟨fun hmem => ?_, ih⟩
    obtain ⟨o, ho, hname⟩ := List.mem_map.mp hmem
    exact (distinctFunctions_first ho).1 (by simp [hname])

theorem fullName_mem_distinctFunctions (h : o ∈ functionsAmong os) (hfresh : o.fullName ∉ seen) :
    o.fullName ∈ (distinctFunctions seen os).map Object.fullName := by
  obtain ⟨hmem, hfunction⟩ := List.mem_filter.mp h
  clear h
  fun_induction distinctFunctions seen os with
  | case1 => cases hmem
  | case2 seen q os hpass ih =>
    rcases List.mem_cons.mp hmem with rfl | hmem
    · exact absurd (isPassed_iff.mp hpass hfunction) hfresh
    · exact ih hfresh hmem
  | case3 seen q os _ ih =>
    rw [List.map_cons, List.mem_cons]
    by_cases hname : o.fullName = q.fullName
    · exact .inl hname
    · rcases List.mem_cons.mp hmem with rfl | hmem
      · exact absurd rfl hname
      · exact .inr (ih (by simp [hname, hfresh]) hmem)

theorem firstOfEachName (os : List Object) :
    FirstOfEachName (functionsAmong os) (distinctFunctions [] os) where
  sublist := sublist_distinctFunctions [] os
  nodup := nodup_distinctFunctions [] os
  first _ ho := (distinctFunctions_first ho).2
  every _ ho := fullName_mem_distinctFunctions ho List.not_mem_nil

theorem map_ofFunction? (g : Graph) (policy : Policy) (seen : List String) (os : List Object) :
    (distinctFunctions seen os).map (ofFunction? g policy) =
      ((distinctFunctions seen os).filterMap (ofFunction? g policy)).map some := by
  rw [List.map_filterMap_some_eq_filter_map_isSome, eq_comm, List.filter_eq_self]
  intro built hbuilt
  obtain ⟨o, ho, rfl⟩ := List.mem_map.mp hbuilt
  have hfunction := (List.mem_filter.mp ((sublist_distinctFunctions seen os).subset ho)).2
  obtain ⟨f, hf⟩ := Option.isSome_iff_exists.mp hfunction
  rw [ofFunction?, hf]
  rfl

end Functions

/-- Each function has a method with a parameter for each child that takes part in calls, in the
order of the frame.  The functions of a type have their methods in the order in which they are
children, the first of each full name and no other. -/
theorem methods_of_functions (g : Graph) (policy : Policy) :
    (∀ (o : Object) (f : Function), o.function? = some f → Preordered (eligible g f.children) →
      ∃ frame m log, ofFunction? g policy o = some (m, log)
        ∧ Frames g policy o f.children frame m log)
    ∧ ∀ (owner : ObjectId) (o : Object), g.get? owner = some o →
      ∃ (chosen : List Object) (built : List (Method × List Log.Entry)),
      FirstOfEachName (functionsAmong (o.children.filterMap g.get?)) chosen
      ∧ chosen.map (ofFunction? g policy) = built.map some
      ∧ ofChildren g policy owner = (built.map Prod.fst, (built.map Prod.snd).flatten) := by
  refine ⟨fun o f => exists_frames, fun owner o ho => ?_⟩
  exact ⟨_, _, firstOfEachName _, map_ofFunction? g policy [] _, by rw [ofChildren, ho]⟩

def pair : Object :=
  ⟨2, 2, "Pair", none, "Function Game.Actor.Pair", some 1, none, 0, .function ⟨0, [4, 5, 6, 7]⟩⟩

def pairAgain : Object :=
  ⟨3, 3, "Pair", none, "Function Game.Actor.Pair", some 1, none, 0, .function ⟨0, []⟩⟩

def secondResult : Entry := Layout.entry 4 "Last" ⟨4, 4, 1, 1152, .plain .int32⟩

def firstResult : Entry := Layout.entry 5 "Value" ⟨0, 4, 1, 1152, .plain .int32⟩

def namesake : Entry := Layout.entry 6 "Value" ⟨8, 4, 1, 128, .plain .float⟩

def paired : Graph where
  objects := [
    ⟨1, 1, "Actor", none, "Class Game.Actor", none, none, 0, .classType ⟨none, 8, [2, 3]⟩⟩,
    pair, pairAgain, secondResult.1, firstResult.1, namesake.1,
    (Layout.entry 7 "Local" ⟨12, 4, 1, 1, .plain .int32⟩).1]
  distinct := by decide

theorem eligible_paired :
    eligible paired [4, 5, 6, 7] = [secondResult, firstResult, namesake] := by cbv

theorem methods_of_functions_pair : Preordered (eligible paired [4, 5, 6, 7])
    ∧ (∃ frame m log, ofFunction? paired .standard pair = some (m, log)
      ∧ Frames paired .standard pair [4, 5, 6, 7] frame m log
      ∧ m.parameters.map (fun p => (p.name, p.role)) =
        [("Value", .result), ("Last", .output), ("Value01", .input)])
    ∧ ∃ (chosen : List Object) (built : List (Method × List Log.Entry)),
      FirstOfEachName [pair, pairAgain] chosen
      ∧ chosen.map (ofFunction? paired .standard) = built.map some
      ∧ ofChildren paired .standard 1 = (built.map Prod.fst, (built.map Prod.snd).flatten) := by
  obtain ⟨hmethod, hchosen⟩ := methods_of_functions paired .standard
  have hpre : Preordered (eligible paired [4, 5, 6, 7]) := by
    rw [eligible_paired, Preordered]
    decide
  have hparameters : (ofFunction? paired .standard pair).map (fun built =>
      built.1.parameters.map fun p => (p.name, p.role)) =
        some [("Value", .result), ("Last", .output), ("Value01", .input)] := by cbv
  obtain ⟨frame, m, log, hm, hframes⟩ := hmethod pair _ rfl hpre
  refine ⟨hpre, ⟨frame, m, log, hm, hframes, ?_⟩, hchosen 1 _ rfl⟩
  simpa [hm] using hparameters

end TypeAtlas.Method
