import TypeAtlas.Sdk.Declaration.Basic

namespace TypeAtlas

def hex4 (n : Nat) : String := "0x" ++ Hex.upperPadded 4 n

def Member.line (m : Member) : String :=
  "\t" ++ Pad.right 50 m.type ++ " " ++ Pad.right 50 (m.name ++ ";") ++ "\t\t// "
    ++ hex4 m.offset ++ "(" ++ hex4 m.size ++ ")"
    ++ (if m.comment.isEmpty then "" else " " ++ m.comment)
    ++ (if m.flags.isEmpty then "" else " (" ++ m.flags ++ ")") ++ "\n"

def constantText (name value : String) : String :=
  "#define CONST_" ++ Pad.right 50 name ++ " " ++ value ++ "\n"

namespace EnumDecl

def valueText (value : String × Nat) : String :=
  "\t" ++ Pad.right 30 value.1 ++ " = " ++ toString value.2

def text (e : EnumDecl) : String :=
  "// " ++ e.fullName ++ "\nenum class " ++ e.name ++ "\n\x7b\n"
    ++ ",\n".intercalate (e.values.zipIdx.map valueText) ++ "\n\x7d;\n\n"

end EnumDecl

namespace ExtraMethod

def declaration (m : ExtraMethod) : String :=
  match m.form with
  | .inline => m.body
  | .outOfLine => "\t" ++ m.signature ++ ";"

def declarations (ms : List ExtraMethod) : String :=
  if ms.isEmpty then "" else "\n" ++ String.join (ms.map fun m => m.declaration ++ "\n\n")

def definitions (ms : List ExtraMethod) : String :=
  String.join ((ms.filter (·.form = .outOfLine)).map fun m => m.body ++ "\n\n")

end ExtraMethod

namespace StructDecl

def sizeText (s : StructDecl) : String :=
  if 0 < s.inheritedSize then
    hex4 s.ownSize ++ " (" ++ hex4 s.size ++ " - " ++ hex4 s.inheritedSize ++ ")"
  else hex4 s.size

def opening (s : StructDecl) : String :=
  "// " ++ s.fullName ++ "\n// " ++ s.sizeText ++ "\n" ++ s.head ++ "\n\x7b\n"

def memberText (s : StructDecl) : String :=
  String.join (s.members.map Member.line) ++ ExtraMethod.declarations s.extraMethods

def text (s : StructDecl) : String := s.opening ++ s.memberText ++ "\x7d;\n"

end StructDecl

def ClassDecl.text (c : ClassDecl) : String :=
  c.opening ++ "public:\n" ++ c.memberText
    ++ (if c.methods.isEmpty then ""
      else "\n" ++ String.join (c.methods.map fun m => "\t" ++ m.signature none ++ ";\n"))
    ++ "\x7d;\n\n"

namespace Method

def parameterLine (p : Parameter) : String :=
  "// " ++ Pad.right 30 p.type ++ " " ++ Pad.right 30 p.name ++ " (" ++ p.flags ++ ")\n"

def definition (m : Method) (policy : Policy) (owner : String) : String :=
  "// " ++ m.fullName ++ "\n// (" ++ m.flags ++ ")\n"
    ++ (if m.parameters.isEmpty then ""
      else "// Parameters:\n" ++ String.join (m.parameters.map parameterLine))
    ++ "\n" ++ m.signature (some owner) ++ "\n" ++ m.body policy ++ "\n\n"

end Method

inductive FileKind
  | structs | classes | functions
  deriving DecidableEq, Repr

namespace FileKind

def all : List FileKind := [.structs, .classes, .functions]

def suffix : FileKind → String
  | .structs => "structs.hpp"
  | .classes => "classes.hpp"
  | .functions => "functions.cpp"

def fileName (kind : FileKind) (policy : Policy) (package : String) : String :=
  policy.shortName ++ "_" ++ package ++ "_" ++ kind.suffix

end FileKind

namespace Source

def pragma : String := "#pragma once\n\n"

def nameLine (policy : Policy) : String := "// Name: " ++ policy.shortName ++ "\n\n"

def wrapped (policy : Policy) (start declarations : String) : String :=
  start ++ nameLine policy ++ "#ifdef _MSC_VER\n\t#pragma pack(push, 0x8)\n#endif\n\n"
    ++ "namespace SDK\n\x7b\n" ++ declarations
    ++ "\x7d\n\n#ifdef _MSC_VER\n\t#pragma pack(pop)\n#endif\n"

def rule : String := "//" ++ String.ofList (List.replicate 75 '-')

def heading (title : String) : String := rule ++ "\n// " ++ title ++ "\n" ++ rule ++ "\n\n"

def titled (title : String) (texts : List String) (closing : String) : String :=
  if texts.isEmpty then "" else heading title ++ String.join texts ++ closing

end Source

namespace PackageDecls

open Source

def structsText (p : PackageDecls) (policy : Policy) : String :=
  wrapped policy pragma (titled "Script Structs" (p.structs.map (·.text ++ "\n")) "")

def classesText (p : PackageDecls) (policy : Policy) : String :=
  wrapped policy pragma
    (titled "Constants" (p.constants.map fun c => constantText c.1 c.2) "\n"
      ++ titled "Enums" (p.enums.map (·.text ++ "\n")) "\n"
      ++ titled "Classes" (p.classes.map (·.text ++ "\n")) "")

def classDefinitions (policy : Policy) (c : ClassDecl) : String :=
  ExtraMethod.definitions c.extraMethods
    ++ String.join (c.methods.map (·.definition policy c.nativeName))

def functionsText (p : PackageDecls) (policy : Policy) : String :=
  wrapped policy "#include \"../SDK.hpp\"\n\n"
    (heading "Functions"
      ++ String.join (p.structs.map fun s => ExtraMethod.definitions s.extraMethods)
      ++ String.join (p.classes.map (classDefinitions policy)))

def text (p : PackageDecls) (policy : Policy) : FileKind → String
  | .structs => p.structsText policy
  | .classes => p.classesText policy
  | .functions => p.functionsText policy

def includes (policy : Policy) (p : PackageDecls) : String :=
  String.join ([FileKind.structs, .classes].map fun kind =>
    "#include \"SDK/" ++ kind.fileName policy p.name ++ "\"\n")

end PackageDecls

def Source.umbrella (policy : Policy) (packages : List PackageDecls) : String :=
  pragma ++ nameLine policy ++ "#include <set>\n#include <string>\n\n"
    ++ String.join (packages.map (PackageDecls.includes policy))

end TypeAtlas
