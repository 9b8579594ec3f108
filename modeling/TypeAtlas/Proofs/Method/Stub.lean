import TypeAtlas.Proofs.Graph.Numbered
import TypeAtlas.Proofs.Method.Results

/-! The texts of a method.  Its signatures and the stub that makes its calls are printed apart, each
with filters of its own, and take the same parameters as inputs, as outputs and as the result. -/

namespace TypeAtlas

namespace Method

section Lines

variable {ls : List String}

def lines (text : String) : List String := (text.toList.splitOn '\n').map String.ofList

def unlines (ls : List String) : String := String.join (ls.map (· ++ "\n"))

def IsLine (l : String) : Prop := '\n' ∉ l.toList

instance (l : String) : Decidable (IsLine l) := inferInstanceAs (Decidable ('\n' ∉ l.toList))

theorem unlines_nil : unlines [] = "" := rfl

theorem unlines_cons (l : String) (ls : List String) :
    unlines (l :: ls) = l ++ "\n" ++ unlines ls :=
  String.join_cons

theorem unlines_append (ls ls' : List String) :
    unlines (ls ++ ls') = unlines ls ++ unlines ls' := by
  rw [unlines, List.map_append, String.join_append]
  rfl

theorem lines_unlines (h : ∀ l ∈ ls, IsLine l) : lines (unlines ls) = ls ++ [""] := by
  induction ls with
  | nil => rfl
  | cons l ls ih =>
    obtain ⟨hl, hls⟩ := List.forall_mem_cons.mp h
    have hcons : (unlines (l :: ls)).toList = l.toList ++ '\n' :: (unlines ls).toList := by
      simp [unlines_cons, String.toList_append]
    rw [lines, hcons, List.splitOn_append_cons_self_of_not_mem hl, List.map_cons,
      String.ofList_toList, List.cons_append, ← ih hls]
    rfl

end Lines

section Names

variable {g : Graph} {policy : Policy} {o : Object} {m : Method} {log : List Log.Entry}
  {p : Parameter}

theorem isPart_of_mem_name_parametersOf {children : List ObjectId}
    (h : p ∈ parametersOf g policy children) : ∀ c ∈ p.name.toList, Identifier.isPart c = true := by
  obtain ⟨⟨part, name⟩, hmem, rfl⟩ := List.mem_map.mp h
  obtain ⟨i, hi⟩ := List.getElem?_of_mem (List.of_mem_zip (List.mem_mergeSort.mp hmem)).2
  rw [NamesTaken.getElem?_all_none, List.getElem?_map, Option.map_map] at hi
  obtain ⟨part', -, rfl⟩ := Option.map_eq_some_iff.mp hi
  exact fun c => Identifier.isPart_of_mem_numbered

theorem map_name_oneResult (ps : List Parameter) :
    (oneResult false ps).1.map Parameter.name = ps.map Parameter.name := by
  have hkept : List.Forall₂ (fun p q : Parameter => p.name = q.name) ps (oneResult false ps).1 := by
    refine forall₂_oneResult (fun p q h => ?_) (List.forall₂_same.mpr fun p _ => rfl)
    unfold demoted
    split <;> exact h
  have hnames : List.Forall₂ Eq (ps.map Parameter.name)
      ((oneResult false ps).1.map Parameter.name) :=
    List.forall₂_map_left_iff.mpr (List.forall₂_map_right_iff.mpr hkept)
  exact (List.forall₂_eq_eq_eq ▸ hnames).symm

theorem exists_parameters (h : ofFunction? g policy o = some (m, log)) :
    ∃ children, m.parameters = (oneResult false (parametersOf g policy children)).1 := by
  unfold ofFunction? at h
  split at h
  case h_1 => cases h
  case h_2 f _ =>
    cases h
    exact ⟨f.children, rfl⟩

theorem isPart_of_mem_name (h : ofFunction? g policy o = some (m, log)) (hp : p ∈ m.parameters) :
    ∀ c ∈ p.name.toList, Identifier.isPart c = true := by
  obtain ⟨children, hm⟩ := exists_parameters h
  have hname := List.mem_map_of_mem (f := Parameter.name) hp
  rw [hm, map_name_oneResult] at hname
  obtain ⟨q, hq, hname⟩ := List.mem_map.mp hname
  exact hname ▸ isPart_of_mem_name_parametersOf hq

theorem isLine_name (h : ofFunction? g policy o = some (m, log)) (hp : p ∈ m.parameters) :
    IsLine p.name :=
  fun hmem => absurd (isPart_of_mem_name h hp _ hmem) (by decide)

theorem withRole_result (h : ofFunction? g policy o = some (m, log)) :
    m.withRole .result = m.result?.toList := by
  obtain ⟨children, hm⟩ := exists_parameters h
  have hroles : List.Forall₂ (fun c p : Parameter => decide (c.role = .result) = true ↔
      p.role = .result) (parametersOf g policy children) (parametersOf g policy children) :=
    List.forall₂_same.mpr fun p _ => decide_eq_true_iff
  have hfirst := (firstIsResult hroles).result
  rw [← hm, List.take_one] at hfirst
  rw [result?, ← List.head?_filter, withRole, hfirst, Option.head?_toList]

end Names

section Signature

variable {m : Method}

def arguments (listed : List Parameter) : String :=
  "(" ++ ", ".intercalate (listed.map Parameter.declaration) ++ ")"

/-- Signatures of a method list its parameters other than the result, the inputs first and those of
one role in the order of the frame.  The definition has the owner before the name, and only the
declaration says that the method is static. -/
structure Signs (m : Method) (returned : String) (listed : List Parameter) : Prop where
  once : listed.Perm (m.parameters.filter (·.role ≠ .result))
  inputsFirst : listed.Pairwise fun p q => q.role = .input → p.role = .input
  inOrder : ∀ r ≠ .result, listed.filter (·.role = r) = m.parameters.filter (·.role = r)
  named : ∀ p ∈ listed, ∃ type, p.declaration = type ++ " " ++ p.name
  declaration : m.signature none =
    (if m.isStatic then "static " else "") ++ (returned ++ " " ++ (m.name ++ arguments listed))
  definition : ∀ owner : String, m.signature (some owner) =
    returned ++ " " ++ (owner ++ "::" ++ (m.name ++ arguments listed))

def returnType (m : Method) : String := (m.result?.map Parameter.type).getD "void"

theorem role_of_mem_withRole {p : Parameter} {r : Role} (h : p ∈ m.withRole r) : p.role = r := by
  simpa using (List.mem_filter.mp h).2

theorem filter_withRole (r r' : Role) : (m.withRole r).filter (·.role = r') =
    if r = r' then m.withRole r else [] := by
  split
  case isTrue h =>
    exact List.filter_eq_self.mpr fun p hp => by simp [role_of_mem_withRole hp, h]
  case isFalse h =>
    exact List.filter_eq_nil_iff.mpr fun p hp => by simp [role_of_mem_withRole hp, h]

theorem exists_declaration (p : Parameter) : ∃ type, p.declaration = type ++ " " ++ p.name := by
  unfold Parameter.declaration
  split
  case isTrue => exact ⟨"const " ++ p.type ++ "&", by simp [String.append_assoc]⟩
  case isFalse =>
    split
    case isTrue => exact ⟨p.type ++ "*", by simp [String.append_assoc]⟩
    case isFalse => exact ⟨p.type, rfl⟩

theorem signs (m : Method) :
    Signs m m.returnType (m.withRole .input ++ m.withRole .output) where
  once := by
    have hsplit := List.filter_append_perm (·.role = .input)
      (m.parameters.filter (·.role ≠ .result))
    rw [List.filter_filter, List.filter_filter] at hsplit
    refine List.Perm.trans (.of_eq ?_) hsplit
    congr 1
    · exact List.filter_congr fun p _ => by cases p.role <;> decide
    · exact List.filter_congr fun p _ => by cases p.role <;> decide
  inputsFirst := by
    rw [List.pairwise_append]
    refine ⟨?_, ?_, fun p hp _ _ _ => role_of_mem_withRole hp⟩
    · exact List.pairwise_of_forall_mem_list fun p hp _ _ _ => role_of_mem_withRole hp
    · refine List.pairwise_of_forall_mem_list fun p _ q hq hinput => ?_
      rw [role_of_mem_withRole hq] at hinput
      cases hinput
  inOrder r hr := by
    rw [List.filter_append, filter_withRole, filter_withRole]
    cases r with
    | input => simp [withRole]
    | output => simp [withRole]
    | result => exact absurd rfl hr
  named p _ := exists_declaration p
  declaration := by
    unfold signature returnType arguments
    cases m.result? <;> simp [String.append_assoc]
  definition owner := by
    unfold signature returnType arguments
    cases m.result? <;> simp [String.append_assoc]

end Signature

section Stub

variable {m : Method} {p : Parameter}

def fieldLine (p : Parameter) : String := "\t\t" ++ Pad.right 30 p.type ++ " " ++ p.name ++ ";"

def copyInLine (p : Parameter) : String := "\tparams." ++ p.name ++ " = " ++ p.name ++ ";"

def copyOutLines (p : Parameter) : List String :=
  ["\tif (" ++ p.name ++ " != nullptr)", "\t\t*" ++ p.name ++ " = params." ++ p.name ++ ";"]

def returnLine (p : Parameter) : String := "\treturn params." ++ p.name ++ ";"

def opens (start line : String) : Bool := start.toList.isPrefixOf line.toList

def handOvers : List String := ["\tparams.", "\tif (", "\t\t*", "\treturn "]

def isHandOver (line : String) : Bool := handOvers.any (opens · line)

def opening (m : Method) (policy : Policy) : String :=
  "\x7b\n\tstatic auto fn = " ++ m.lookup policy ++ ";\n\n"
    ++ "\tstruct\n\t\x7b\n" ++ unlines (m.parameters.map fieldLine) ++ "\t\x7d params;\n"

def callLines (isNative isStatic : Bool) : List String :=
  ["", "\tauto flags = fn->FunctionFlags;"]
    ++ (if isNative then ["\tfn->FunctionFlags |= 0x400;"] else [])
    ++ (if isStatic then
      ["", "\tstatic auto defaultObj = StaticClass()->CreateDefaultObject();",
        "\tdefaultObj->ProcessEvent(fn, &params);"]
      else ["", "\tUObject::ProcessEvent(fn, &params);"])
    ++ ["", "\tfn->FunctionFlags = flags;"]

def stubLines (m : Method) : List String :=
  (m.withRole .input).map copyInLine
    ++ callLines m.isNative m.isStatic
    ++ (if (m.withRole .output).isEmpty then []
      else "" :: (m.withRole .output).flatMap copyOutLines)
    ++ (m.result?.toList.flatMap fun r => ["", returnLine r])
    ++ ["\x7d"]

/-- What a stub does with its parameters around the call: it copies each input in, copies each
output out where there is something to copy to, and returns the result. -/
structure HandsOver (m : Method) (stub : String) : Prop where
  lines : (lines stub).filter isHandOver = (m.withRole .input).map copyInLine
    ++ (m.withRole .output).flatMap copyOutLines ++ (m.withRole .result).map returnLine
  guarded : (m.withRole .output).flatMap copyOutLines <:+: Method.lines stub

inductive Returns (m : Method) (stub : String) : String → Prop
  | result {r : Parameter} : m.withRole .result = [r] →
      [returnLine r, "\x7d", ""] <:+ lines stub → Returns m stub r.type
  | nothing : m.withRole .result = [] →
      (∀ line ∈ lines stub, opens "\treturn " line = false) → Returns m stub "void"

theorem isLine_append {a b : String} : IsLine (a ++ b) ↔ IsLine a ∧ IsLine b := by
  simp only [IsLine, String.toList_append, List.mem_append, not_or]

theorem opens_append (start rest : String) : opens start (start ++ rest) = true := by
  rw [opens, List.isPrefixOf_iff_prefix, String.toList_append]
  exact List.prefix_append ..

theorem unlines_callLines (isNative isStatic : Bool) : unlines (callLines isNative isStatic) =
    "\n" ++ "\tauto flags = fn->FunctionFlags;\n"
      ++ (if isNative then "\tfn->FunctionFlags |= 0x400;\n" else "") ++ "\n"
      ++ (if isStatic then
        "\tstatic auto defaultObj = StaticClass()->CreateDefaultObject();\n"
          ++ "\tdefaultObj->ProcessEvent(fn, &params);\n\n"
        else "\tUObject::ProcessEvent(fn, &params);\n\n")
      ++ "\tfn->FunctionFlags = flags;\n" := by
  cases isNative <;> cases isStatic <;> decide

-- Definitions with long texts are unfolded without their equations, which take long to prove.

theorem field_eq (p : Parameter) : field p = fieldLine p ++ "\n" := by
  delta field fieldLine
  simp only [String.append_assoc]
  rfl

theorem copyIn_eq (p : Parameter) : copyIn p = copyInLine p ++ "\n" := by
  delta copyIn copyInLine
  simp only [String.append_assoc]
  rfl

theorem copyOut_eq (p : Parameter) : copyOut p = unlines (copyOutLines p) := by
  delta copyOut copyOutLines
  simp only [unlines_cons, unlines_nil, String.append_assoc]
  rfl

theorem unlines_returnLine (p : Parameter) :
    unlines ["", returnLine p] = "\n\treturn params." ++ p.name ++ ";\n" := by
  delta returnLine
  simp only [unlines_cons, unlines_nil, String.append_assoc]
  rfl

theorem unlines_map {text line : Parameter → String} (h : ∀ p, text p = line p ++ "\n")
    (ps : List Parameter) : unlines (ps.map line) = String.join (ps.map text) := by
  rw [unlines, List.map_map]
  congr 1
  exact List.map_congr_left fun p _ => (h p).symm

theorem unlines_outputs (ps : List Parameter) :
    unlines (if ps.isEmpty then [] else "" :: ps.flatMap copyOutLines) =
      if ps.isEmpty then "" else "\n" ++ String.join (ps.map copyOut) := by
  have hcopies : unlines (ps.flatMap copyOutLines) = String.join (ps.map copyOut) := by
    induction ps with
    | nil => rfl
    | cons p ps ih =>
      rw [List.flatMap_cons, unlines_append, ih, ← copyOut_eq, List.map_cons, String.join_cons]
  split
  case isTrue => rfl
  case isFalse => rw [unlines_cons, hcopies, String.empty_append]

theorem body_eq (m : Method) (policy : Policy) :
    m.body policy = m.opening policy ++ unlines m.stubLines := by
  have hclose : unlines ["\x7d"] = "\x7d\n" := rfl
  rw [stubLines, unlines_append, unlines_append, unlines_append, unlines_append, hclose,
    unlines_map copyIn_eq, unlines_callLines, unlines_outputs]
  delta body opening
  rw [unlines_map field_eq]
  cases m.result? with
  | none =>
    simp only [Option.toList_none, List.flatMap_nil, unlines_nil, String.append_assoc]
  | some r =>
    simp only [Option.toList_some, List.flatMap_singleton, unlines_returnLine, String.append_assoc]

theorem isLine_copyInLine (h : IsLine p.name) : IsLine (copyInLine p) := by
  delta copyInLine
  simp only [isLine_append, h, and_true]
  decide

theorem isLine_of_mem_copyOutLines {l : String} (h : IsLine p.name) (hl : l ∈ copyOutLines p) :
    IsLine l := by
  delta copyOutLines at hl
  rcases List.mem_pair.mp hl with rfl | rfl
  · simp only [isLine_append, h, and_true]
    decide
  · simp only [isLine_append, h, and_true]
    decide

theorem isLine_returnLine (h : IsLine p.name) : IsLine (returnLine p) := by
  delta returnLine
  simp only [isLine_append, h, and_true]
  decide

theorem isLine_of_mem_stubLines (h : ∀ p ∈ m.parameters, IsLine p.name) :
    ∀ l ∈ m.stubLines, IsLine l := by
  have hrole {r : Role} {p : Parameter} (hp : p ∈ m.withRole r) : IsLine p.name :=
    h p (List.mem_filter.mp hp).1
  have hcall : ∀ l ∈ callLines m.isNative m.isStatic, IsLine l := by
    cases m.isNative <;> cases m.isStatic <;> decide
  have hempty : IsLine "" := by simp [IsLine]
  have hclose : IsLine "\x7d" := by simp [IsLine]
  have houtputs : ∀ l ∈ (m.withRole .output).flatMap copyOutLines, IsLine l := by
    intro l hl
    obtain ⟨p, hp, hl⟩ := List.mem_flatMap.mp hl
    exact isLine_of_mem_copyOutLines (hrole hp) hl
  have hresult : ∀ l ∈ m.result?.toList.flatMap fun r => ["", returnLine r], IsLine l := by
    intro l hl
    obtain ⟨r, hr, hl⟩ := List.mem_flatMap.mp hl
    rcases List.mem_pair.mp hl with rfl | rfl
    · exact hempty
    · exact isLine_returnLine (h r (List.mem_of_find?_eq_some (Option.mem_toList.mp hr)))
  intro l hl
  simp only [stubLines, List.mem_append, List.mem_singleton] at hl
  rcases hl with (((hl | hl) | hl) | hl) | rfl
  · obtain ⟨p, hp, rfl⟩ := List.mem_map.mp hl
    exact isLine_copyInLine (hrole hp)
  · exact hcall l hl
  · split at hl
    case isTrue => cases hl
    case isFalse => exact List.forall_mem_cons.mpr ⟨hempty, houtputs⟩ l hl
  · exact hresult l hl
  · exact hclose

theorem isHandOver_append {start : String} (h : start ∈ handOvers) (rest : String) :
    isHandOver (start ++ rest) = true :=
  List.any_eq_true.mpr ⟨start, h, opens_append start rest⟩

theorem isHandOver_copyInLine (p : Parameter) : isHandOver (copyInLine p) = true := by
  delta copyInLine
  rw [String.append_assoc, String.append_assoc, String.append_assoc]
  exact isHandOver_append (by simp [handOvers]) _

theorem isHandOver_copyOutLines {l : String} (h : l ∈ copyOutLines p) : isHandOver l = true := by
  delta copyOutLines at h
  rcases List.mem_pair.mp h with rfl | rfl
  · rw [String.append_assoc]
    exact isHandOver_append (by simp [handOvers]) _
  · rw [String.append_assoc, String.append_assoc, String.append_assoc]
    exact isHandOver_append (by simp [handOvers]) _

theorem isHandOver_returnLine (p : Parameter) : isHandOver (returnLine p) = true := by
  have hline : "\treturn params." = "\treturn " ++ "params." := rfl
  delta returnLine
  rw [hline, String.append_assoc, String.append_assoc]
  exact isHandOver_append (by simp [handOvers]) _

theorem filter_stubLines (m : Method) : (m.stubLines ++ [""]).filter isHandOver =
    (m.withRole .input).map copyInLine ++ (m.withRole .output).flatMap copyOutLines
      ++ m.result?.toList.map returnLine := by
  have hempty : isHandOver "" = false := by decide
  have hclose : isHandOver "\x7d" = false := by decide
  have hinputs : ((m.withRole .input).map copyInLine).filter isHandOver =
      (m.withRole .input).map copyInLine := by
    refine List.filter_eq_self.mpr fun l hl => ?_
    obtain ⟨p, -, rfl⟩ := List.mem_map.mp hl
    exact isHandOver_copyInLine p
  have hcall : (callLines m.isNative m.isStatic).filter isHandOver = [] := by
    cases m.isNative <;> cases m.isStatic <;> decide
  have houtputs : (if (m.withRole .output).isEmpty then []
      else "" :: (m.withRole .output).flatMap copyOutLines).filter isHandOver =
        (m.withRole .output).flatMap copyOutLines := by
    split
    case isTrue h => rw [List.isEmpty_iff.mp h]; rfl
    case isFalse =>
      rw [List.filter_cons_of_neg (by simp [hempty])]
      refine List.filter_eq_self.mpr fun l hl => ?_
      obtain ⟨p, -, hl⟩ := List.mem_flatMap.mp hl
      exact isHandOver_copyOutLines hl
  have hresult : (m.result?.toList.flatMap fun r => ["", returnLine r]).filter isHandOver =
      m.result?.toList.map returnLine := by
    cases m.result? with
    | none => rfl
    | some r => simp [hempty, isHandOver_returnLine]
  simp only [stubLines, List.filter_append, hinputs, hcall, houtputs, hresult,
    List.filter_singleton, hclose, hempty]
  simp

theorem lines_stub (h : ∀ p ∈ m.parameters, IsLine p.name) :
    lines (unlines m.stubLines) = m.stubLines ++ [""] :=
  lines_unlines (isLine_of_mem_stubLines h)

theorem handsOver (h : ∀ p ∈ m.parameters, IsLine p.name)
    (hresult : m.withRole .result = m.result?.toList) : HandsOver m (unlines m.stubLines) where
  lines := by rw [lines_stub h, filter_stubLines, hresult]
  guarded := by
    rw [lines_stub h, stubLines]
    by_cases hnone : (m.withRole .output).isEmpty = true
    · rw [List.isEmpty_iff.mp hnone]
      exact List.nil_infix
    · rw [if_neg hnone]
      exact ⟨(m.withRole .input).map copyInLine ++ callLines m.isNative m.isStatic ++ [""],
        (m.result?.toList.flatMap fun r => ["", returnLine r]) ++ ["\x7d", ""], by simp⟩

theorem not_opens_return {line : String} (h : line ∈ (m.withRole .input).map copyInLine
    ++ (m.withRole .output).flatMap copyOutLines) : opens "\treturn " line = false := by
  rcases List.mem_append.mp h with h | h
  · obtain ⟨p, -, rfl⟩ := List.mem_map.mp h
    delta copyInLine
    simp [opens, String.toList_append, List.isPrefixOf]
  · obtain ⟨p, -, h⟩ := List.mem_flatMap.mp h
    delta copyOutLines at h
    rcases List.mem_pair.mp h with rfl | rfl
    · simp [opens, String.toList_append, List.isPrefixOf]
    · simp [opens, String.toList_append, List.isPrefixOf]

theorem returns_returnType (h : ∀ p ∈ m.parameters, IsLine p.name)
    (hresult : m.withRole .result = m.result?.toList) :
    Returns m (unlines m.stubLines) m.returnType := by
  rw [returnType]
  cases hr : m.result? with
  | some r =>
    refine .result (by rw [hresult, hr]; rfl) ?_
    rw [lines_stub h, stubLines, hr, List.append_assoc, List.append_assoc]
    exact (List.suffix_cons "" _).trans (List.suffix_append ..)
  | none =>
    refine .nothing (by rw [hresult, hr]; rfl) fun line hline => ?_
    by_contra hreturn
    rw [Bool.not_eq_false] at hreturn
    have hover : isHandOver line = true := List.any_eq_true.mpr ⟨_, by simp [handOvers], hreturn⟩
    have hmem : line ∈ (m.stubLines ++ [""]).filter isHandOver :=
      List.mem_filter.mpr ⟨lines_stub h ▸ hline, hover⟩
    rw [filter_stubLines, hr, Option.toList_none, List.map_nil, List.append_nil] at hmem
    simp [not_opens_return hmem] at hreturn

end Stub

/-- The signatures of a method and its stub take the same parameters.  The signatures list them
without the result, whose type they return.  Under every policy the stub declares all of them in
its parameter block, copies the inputs in, copies the outputs out where there is something to copy
to, and ends by returning the result, if there is one. -/
theorem stub_of_signature {g : Graph} {policy : Policy} {o : Object} {m : Method}
    {log : List Log.Entry} (h : ofFunction? g policy o = some (m, log)) :
    ∃ returned listed, Signs m returned listed ∧ ∀ stubPolicy, ∃ stub,
      m.body stubPolicy = m.opening stubPolicy ++ stub
      ∧ HandsOver m stub ∧ Returns m stub returned := by
  have hnames : ∀ p ∈ m.parameters, IsLine p.name := fun p hp => isLine_name h hp
  have hresult := withRole_result h
  exact ⟨_, _, signs m, fun stubPolicy => ⟨_, body_eq m stubPolicy, handsOver hnames hresult,
    returns_returnType hnames hresult⟩⟩

def trace : Object :=
  ⟨2, 2, "Trace", none, "Function Game.World.Trace", some 1, none, 0,
    .function ⟨8192, [3, 4, 5, 6]⟩⟩

def traced : Graph where
  objects := [
    ⟨1, 1, "World", none, "Class Game.World", none, none, 0, .classType ⟨none, 8, [2]⟩⟩, trace,
    (Layout.entry 3 "Hit" ⟨4, 4, 1, 384, .plain .int32⟩).1,
    (Layout.entry 4 "Range" ⟨0, 4, 1, 386, .plain .float⟩).1,
    (Layout.entry 5 "Found" ⟨8, 4, 1, 1152, .plain .int32⟩).1,
    (Layout.entry 6 "Code" ⟨12, 4, 1, 1152, .plain .int32⟩).1]
  distinct := by decide

theorem stub_of_signature_trace : ∃ m log, ofFunction? traced .standard trace = some (m, log)
    ∧ m.signature none = "static int Trace(float Range, int* Hit, int* Code)"
    ∧ ∃ returned listed, Signs m returned listed ∧ ∀ stubPolicy, ∃ stub,
      m.body stubPolicy = m.opening stubPolicy ++ stub
      ∧ HandsOver m stub ∧ Returns m stub returned := by
  have hsignature : (ofFunction? traced .standard trace).map (fun built => built.1.signature none) =
      some "static int Trace(float Range, int* Hit, int* Code)" := by
    simp only [signature, Option.isNone_none]
    cbv
  obtain ⟨⟨m, log⟩, hm, hdeclared⟩ := Option.map_eq_some_iff.mp hsignature
  exact ⟨m, log, hm, hdeclared, stub_of_signature hm⟩

end Method

end TypeAtlas
