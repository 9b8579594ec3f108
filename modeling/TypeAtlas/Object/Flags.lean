
namespace TypeAtlas.Flags

def has (flags bit : Nat) : Bool := flags.testBit bit

def text (table : List (Nat × String)) (flags : Nat) : String :=
  ", ".intercalate ((table.filter fun e => has flags e.1).map (·.2))

def propertyNames : List (Nat × String) :=
  [(0, "Edit"), (1, "ConstParm"), (2, "BlueprintVisible"), (3, "ExportObject"),
   (4, "BlueprintReadOnly"), (5, "Net"), (6, "EditFixedSize"), (7, "Parm"), (8, "OutParm"),
   (9, "ZeroConstructor"), (10, "ReturnParm"), (11, "DisableEditOnTemplate"), (13, "Transient"),
   (14, "Config"), (16, "DisableEditOnInstance"), (17, "EditConst"), (18, "GlobalConfig"),
   (19, "InstancedReference"), (21, "DuplicateTransient"), (22, "SubobjectReference"),
   (24, "SaveGame"), (25, "NoClear"), (27, "ReferenceParm"), (28, "BlueprintAssignable"),
   (29, "Deprecated"), (30, "IsPlainOldData"), (31, "RepSkip"), (32, "RepNotify"),
   (33, "Interp"), (34, "NonTransactional"), (35, "EditorOnly"), (36, "NoDestructor"),
   (38, "AutoWeak"), (39, "ContainsInstancedReference"), (40, "AssetRegistrySearchable"),
   (41, "SimpleDisplay"), (42, "AdvancedDisplay"), (43, "Protected"), (44, "BlueprintCallable"),
   (45, "BlueprintAuthorityOnly"), (46, "TextExportTransient"), (47, "NonPieDuplicateTransient"),
   (48, "ExposeOnSpawn"), (49, "PersistentInstance"), (50, "UobjectWrapper"),
   (51, "HasGetValueTypeHash"), (52, "NativeAccessSpecifierPublic"),
   (53, "NativeAccessSpecifierProtected"), (54, "NativeAccessSpecifierPrivate")]

def functionNames : List (Nat × String) :=
  [(0, "Final"), (1, "RequiredApi"), (2, "BlueprintAuthorityOnly"), (3, "BlueprintCosmetic"),
   (6, "Net"), (7, "NetReliable"), (8, "NetRequest"), (9, "Exec"), (10, "Native"), (11, "Event"),
   (12, "NetResponse"), (13, "Static"), (14, "NetMulticast"), (16, "MulticastDelegate"),
   (17, "Public"), (18, "Private"), (19, "Protected"), (20, "Delegate"), (21, "NetServer"),
   (22, "HasOutParms"), (23, "HasDefaults"), (24, "NetClient"), (25, "DllImport"),
   (26, "BlueprintCallable"), (27, "BlueprintEvent"), (28, "BlueprintPure"), (30, "Const"),
   (31, "NetValidate")]

def parameter : Nat := 7

def outParameter : Nat := 8

def returnParameter : Nat := 10

def constParameter : Nat := 1

def native : Nat := 10

def static : Nat := 13

end TypeAtlas.Flags
