import EventSchema.Digraph.Basic
import EventSchema.Package.Files

/-!
# Late binding

Loading a module loads the packages around it and everything that it imports at once, so the names
that a module of an object takes from deferred references have to wait. Binding a version package
gives every loaded module the names that it lacks. That loads the modules which the names come from,
and these may lack names themselves, so it goes on in rounds until no loaded module of the package
lacks a name.

Modules go by their full names, which are told apart by what they start with: the modules of a
version package are those whose names start with the name of the package and a dot.

Every round settles a module that was not settled, so the number of modules bounds the rounds.
-/

namespace EventSchema.Package

/-! ### Full names -/

/-- The full name of a module, or of a package, in a package. -/
def inPackage (package name : String) : String := package ++ "." ++ name

/-- Whether a full name is one of a module in a package. -/
def isWithin (package name : String) : Bool := (package ++ ".").toList.isPrefixOf name.toList

/-- The package around a module: what stands before the last dot of its name. -/
def enclosing (name : String) : String :=
  match name.toList.reverse.dropWhile (· ≠ '.') with
  | [] => name
  | _ :: before => String.ofList before.reverse

/-- The version package of a module: a module stands in a sub-package of it. -/
def versionPackage (module : String) : String := enclosing (enclosing module)

/-! ### Modules -/

/-- A name that a module takes late from a module beside it. -/
structure LateBinding where
  /-- The name that it goes by. -/
  localName : String
  /-- The module beside this one that it comes from. -/
  sibling : String
  /-- The name that it has there. -/
  exported : String
  deriving DecidableEq, Inhabited

/-- What loading a module comes to. -/
structure PackageModule where
  /-- The names that the module defines or passes on. -/
  defined : List String
  /-- The full names of the modules that are loaded with it. -/
  eager : List String
  /-- The names that it takes late. -/
  late : List LateBinding
  deriving Inhabited

/-- Modules by their full names. -/
abbrev Library := Table PackageModule

/-- A sub-package of a version package. -/
structure Folder where
  /-- Its name. -/
  name : String
  /-- The file that makes it a package. -/
  barrel : Barrel
  /-- Its modules by their own names. -/
  modules : List (String × PackageModule)

/-- The names that a module takes late. Of two that would go by one name the last one counts. -/
def lateBindings (imports : Table (List Binding)) : List LateBinding :=
  (Table.ofList (imports.sorted.entries.flatMap fun i =>
    i.2.map fun b => (b.localName, LateBinding.mk b.localName i.1 b.exported))).values

/-- The module of an entity, which imports modules of objects at once and late. -/
def PackageModule.ofEntity (p : Plan) (package : String) (e : Entity) : PackageModule :=
  let links := linksOf p.objects p.deferral e
  { defined := [e.typeName, dictName e]
    eager := links.filterMap fun link =>
      match link.1 with
      | .eager _ => some (inPackage package (inPackage objectsPackage (moduleOf link.2)))
      | _ => none
    late := lateBindings (lateImports e links) }

/-- The module of an enumeration, which imports nothing. -/
def PackageModule.ofEnum (e : EnumModel) : PackageModule := ⟨[e.typeName, e.labelsName], [], []⟩

namespace Folder

/-- The full name of the sub-package. -/
def fullName (package : String) (f : Folder) : String := inPackage package f.name

/-- The full name of a module of the sub-package. -/
def moduleName (package : String) (f : Folder) (module : String) : String :=
  inPackage package (inPackage f.name module)

/-- The module of the barrel, which imports all that it exports. -/
def root (package : String) (f : Folder) : String × PackageModule :=
  (f.fullName package,
    ⟨f.barrel.exported, package :: f.barrel.imports.map fun i => f.moduleName package i.1, []⟩)

/-- The modules with what is loaded with them. A file with a dot in its name is no module. -/
def members (package : String) (f : Folder) : List (String × PackageModule) :=
  (f.modules.filter fun m => !m.1.toList.contains '.').map fun m =>
    (f.moduleName package m.1, { m.2 with eager := package :: f.fullName package :: m.2.eager })

end Folder

/-- The sub-packages of a version package. -/
def Plan.folders (p : Plan) (package : String) : List Folder :=
  [⟨objectsPackage, .ofObjects p,
      p.objects.values.map fun e => (moduleOf e, PackageModule.ofEntity p package e)⟩,
    ⟨eventsPackage, .ofEvents p,
      p.events.values.map fun e => (moduleOf e, PackageModule.ofEntity p package e)⟩,
    ⟨enumsPackage, .ofEnums p, p.enums.entries.map fun e => (e.1, PackageModule.ofEnum e.2)⟩]

/-- The version package itself, which imports its sub-packages. -/
def rootModule (package : String) : String × PackageModule :=
  let subPackages := [enumsPackage, eventsPackage, objectsPackage]
  (package, ⟨versionName :: subPackages, subPackages.map (inPackage package), []⟩)

/-- The modules of a version package. -/
def Plan.modules (p : Plan) (package : String) : Library :=
  .ofList (rootModule package ::
    (p.folders package).flatMap fun f => f.root package :: f.members package)

/-- The modules that are loaded with a module, none if there is no such module. -/
def eagerOf (library : Library) (module : String) : List String :=
  ((library.get? module).getD default).eager

/-- The names that a module takes late. -/
def lateOf (library : Library) (module : String) : List LateBinding :=
  ((library.get? module).getD default).late

/-- The names that a module defines or passes on. -/
def definedBy (library : Library) (module : String) : List String :=
  ((library.get? module).getD default).defined

/-- The module that a late name comes from. -/
def siblingOf (module : String) (b : LateBinding) : String := inPackage (enclosing module) b.sibling

/-! ### Loading -/

/-- Why names could not be bound. -/
inductive BindError where
  /-- There is no such module. -/
  | moduleMissing (module : String)
  /-- A module has no such name. -/
  | nameMissing (module name : String)
  /-- The rounds did not come to an end. -/
  | unfinished
  deriving DecidableEq

/-- A name that a module was given. -/
structure BoundName where
  /-- The module. -/
  module : String
  /-- The name. -/
  localName : String
  /-- The module that it comes from. -/
  source : String
  /-- The name that it has there. -/
  exported : String
  deriving DecidableEq

/-- What is loaded and bound. -/
structure Loader where
  /-- The loaded modules. -/
  loaded : List String
  /-- The modules that were given all their names. -/
  settled : List String
  /-- The names that modules were given, the last one first. -/
  names : List BoundName
  deriving Inhabited

namespace Loader

/-- What a name of a module was bound to last. -/
def boundTo? (s : Loader) (module name : String) : Option (String × String) :=
  (s.names.find? fun b => b.module = module && b.localName = name).map
    fun b => (b.source, b.exported)

/-- Load a module with everything that is loaded with it. All modules and all that they import bound
how deep this goes. -/
def load (library : Library) (s : Loader) (module : String) : Except BindError Loader :=
  let depth := library.size + (library.values.flatMap PackageModule.eager).length + 2
  let found := Digraph.explore (eagerOf library) depth s.loaded [module]
  match found.find? fun m => !library.has m with
  | some missing => .error (.moduleMissing missing)
  | none => .ok { s with loaded := s.loaded ++ found }

/-! ### Binding -/

/-- Give a module a name that it takes late. -/
def bindName (library : Library) (module : String) (s : Loader) (b : LateBinding) :
    Except BindError Loader := do
  let source := siblingOf module b
  let s ← s.load library source
  if (definedBy library source).contains b.exported then
    .ok { s with names := ⟨module, b.localName, source, b.exported⟩ :: s.names }
  else .error (.nameMissing source b.exported)

/-- Give a module all the names that it takes late. -/
def bindModule (library : Library) (s : Loader) (module : String) : Except BindError Loader := do
  let s ← (lateOf library module).foldlM (bindName library module) s
  .ok { s with settled := s.settled ++ [module] }

/-- The loaded modules of a package that lack names, ascending. -/
def pending (library : Library) (package : String) (s : Loader) : List String :=
  (NameSet.ofList s.loaded).toList.filter fun m =>
    isWithin package m && !s.settled.contains m && !(lateOf library m).isEmpty

/-- Give the loaded modules of a package their names, in rounds. -/
def bindRounds (library : Library) (package : String) :
    (rounds : Nat) → Loader → Except BindError Loader
  | 0, _ => .error .unfinished
  | rounds + 1, s =>
    match s.pending library package with
    | [] => .ok s
    | lacking => do bindRounds library package rounds (← lacking.foldlM (bindModule library) s)

/-- Give every loaded module in the version package of a module the names that it lacks. -/
def bind (library : Library) (module : String) (s : Loader) : Except BindError Loader :=
  bindRounds library (versionPackage module) (library.size + 1) s

end Loader

end EventSchema.Package
