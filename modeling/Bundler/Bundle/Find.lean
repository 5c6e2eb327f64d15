import Bundler.Bundle.Manifest
import Bundler.Import.Retarget
/-!
# Finding the files of a bundle

The search starts from the modules that the entrypoints name and follows the imports of their
records. It stops at the first import without a compiled file and at the first record that cannot be
used. Each file found is marked with the entrypoints that reach it.
-/

namespace Bundler

/-- A place where a program starts: the specifier that was asked for, and its module. -/
structure Entrypoint where
  specifier : String
  module : Path
  deriving DecidableEq, Repr

/-- A compiled file of a bundle: its record, and the specifiers of the entrypoints that reach it,
ascending. -/
structure BundleFile where
  record : Record
  entrypoints : List String
  deriving DecidableEq, Repr

/-- Files by path, in path order. -/
abbrev BundleFiles := List (Path × BundleFile)

/-- The files below a build root that are reached from entrypoints. -/
structure Bundle where
  root : Path
  entrypoints : List Entrypoint
  files : BundleFiles
  deriving DecidableEq, Repr

namespace Bundle

/-- Records by path, in path order. -/
abbrev Records := List (Path × Record)

/-- A search under way: the files found, and those of them whose imports are still to be followed,
the next one first. -/
structure Search where
  records : Records
  pending : List Path
  deriving DecidableEq, Repr

/-- Adds a file with its record, unless it was found before. -/
def Search.add (t : FileTree) (root : Path) (s : Search) (path : Path) : Except LinkError Search :=
  match Sorted.find? Path.compare path s.records with
  | some _ => .ok s
  | none =>
    match Record.require t (root.join (Record.pathFor path)) with
    | .error e => .error (.record e)
    | .ok record =>
      .ok ⟨Sorted.insert Path.compare path record s.records, path :: s.pending⟩

/-- Adds what a file imports. -/
def Search.addImports (t : FileTree) (root importer : Path) :
    List Path → Search → Except LinkError Search
  | [], s => .ok s
  | i :: rest, s =>
    if t.isFile (root.join i) then
      match s.add t root i with
      | .error e => .error e
      | .ok s => addImports t root importer rest s
    else .error (.missingImport i importer)

/-- Follows imports until nothing is left to follow, for at most as many files as the first argument
says. -/
def Search.follow (t : FileTree) (root : Path) : Nat → Search → Except LinkError Search
  | 0, s => .ok s
  | n + 1, s =>
    match s.pending with
    | [] => .ok s
    | path :: pending =>
      let imports := ((Sorted.find? Path.compare path s.records).map (·.imports)).getD []
      match addImports t root path imports { s with pending } with
      | .error e => .error e
      | .ok s => follow t root n s

/-- Resolves specifiers and adds their modules, one after the other. -/
def Search.addEntrypoints (t : FileTree) (root : Path) :
    List String → Search → Except LinkError (List Entrypoint × Search)
  | [], s => .ok ([], s)
  | specifier :: rest, s =>
    match resolve t root ⟨""⟩ specifier with
    | .error e => .error (.resolve e)
    | .ok module =>
      match s.add t root module with
      | .error e => .error e
      | .ok s =>
        match addEntrypoints t root rest s with
        | .error e => .error e
        | .ok (entrypoints, s) => .ok (⟨specifier, module⟩ :: entrypoints, s)

/-- How many imports are listed by all records of a tree, and so, with the entrypoints, how many
different paths a search can come upon. -/
def importCount (t : FileTree) : Nat :=
  t.entries.foldr (fun entry count => count +
    match entry.2 with
    | .directory => 0
    | .file content =>
      match Record.decode content with
      | .error _ => 0
      | .ok r => r.imports.length) 0

/-! ## Reachability -/

/-- What the record of a file imports. -/
def importsOf (records : Records) (path : Path) : List Path :=
  ((Sorted.find? Path.compare path records).map (·.imports)).getD []

/-- All files that can be reached from the pending ones, for at most as many visits as the first
argument says. -/
def reach (records : Records) : Nat → List Path → List Path → List Path
  | 0, _, seen => seen
  | _ + 1, [], seen => seen
  | n + 1, path :: pending, seen =>
    if seen.any (fun p => decide (p.Same path)) then reach records n pending seen
    else reach records n (importsOf records path ++ pending) (path :: seen)

/-- All files that can be reached from a module, itself included. -/
def reachable (records : Records) (module : Path) : List Path :=
  reach records (records.foldr (fun r count => count + r.2.imports.length) 2) [module] []

/-- The files with the entrypoints that reach them. -/
def markFiles (records : Records) (entrypoints : List Entrypoint) : BundleFiles :=
  let reached := entrypoints.map fun e => (e.specifier, reachable records e.module)
  records.map fun (path, record) =>
    let specifiers := reached.filterMap fun (specifier, paths) =>
      if paths.any (fun p => decide (p.Same path)) then some specifier else none
    (path, ⟨record, Sorted.keys Ord.compare specifiers⟩)

/-- The bundle of some entrypoints over the compiled files below a build root. A repeated specifier
counts once. -/
def find (t : FileTree) (root : Path) (specifiers : List String) : Except LinkError Bundle :=
  match Search.addEntrypoints t root (keepFirst specifiers) ⟨[], []⟩ with
  | .error e => .error e
  | .ok (entrypoints, s) =>
    match s.follow t root (importCount t + specifiers.length + 1) with
    | .error e => .error e
    | .ok s => .ok ⟨root, entrypoints, markFiles s.records entrypoints⟩

end Bundle
end Bundler
