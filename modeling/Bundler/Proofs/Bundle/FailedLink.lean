import Bundler.Proofs.Bundle.Found
import Bundler.Proofs.Bundle.Rewritten
/-!
# What a failed link leaves

A link that fails leaves the manifest that was published (`Rewritten.read_manifest`), but not always the chunks
that the manifest names: a chunk whose members did not change has the name of the published one, and is
written in its place. Nothing is lost where the chunks are up to date (`Rewritten.kept`). A bundle that
was found can only miss modules of entrypoints (`exists_entrypoint_of_unread`), because the search looks for the
file of each import and not for these; then the published chunk is torn (`link_brokenPackage`).
-/

namespace Bundler

open FileTree

variable {root dir : Path} {c : Chunk} {chunks : List Chunk} {t u : FileTree} {l : Location} {content : Bytes}

namespace Bundle

/-! ## A bundle that was published -/

theorem Rewritten.read_manifest (h : Rewritten root dir chunks t u) {published : Bytes}
    (hpublished : t.read (dir.join Manifest.fileName) = .ok published) :
    u.read (dir.join Manifest.fileName) = .ok published :=
  (h.same.read_iff not_written_manifest).2 hpublished

theorem makeDirectories_of_manifest {published : Bytes} (h : t.read (dir.join Manifest.fileName) = .ok published) :
    t.makeDirectories dir = (t, .ok ()) := by
  have hname : IsName Manifest.fileName.text := isName_of_length (by decide)
  exact makeDirectories_of_read hname (by decide) h

/-- Where a manifest is, a write that fails has written some of the chunks, and not the manifest. -/
theorem ends_of_write_error {e : LinkError} {published : Bytes}
    (hpublished : t.read (dir.join Manifest.fileName) = .ok published) (h : write root dir chunks t = (u, .error e)) :
    ∃ errors, Ends root dir chunks t u errors := by
  obtain ⟨errors, hends, -⟩ := ends_of_writeChunks root dir chunks t
  refine ⟨errors, ?_⟩
  unfold write at h
  rw [makeDirectories_of_manifest hpublished] at h
  dsimp only at h
  split at h
  · next hwrite =>
    cases h
    rw [hwrite] at hends
    exact hends
  · next hwrite =>
    rw [hwrite] at hends
    split at h
    · cases h
      exact hends
    · cases h

/-- The modules of a chunk can be read, and a file that is where the chunk's file goes is the same. -/
structure UpToDate (root dir : Path) (t : FileTree) (c : Chunk) : Prop where
  readable : ∀ m ∈ c.files, ∃ source, t.read (root.join m.1) = .ok source
  same : ∀ content, t.node? (place (dir.join ⟨c.fileName⟩)) = some (.file content) →
    content = chunkContent c (Script.compiledText t root)

theorem Rewritten.kept (h : Rewritten root dir chunks t u) (hcurrent : ∀ c ∈ chunks, UpToDate root dir t c)
    (hfile : t.node? l = some (.file content)) : u.node? l = some (.file content) := by
  cases h.left l content hfile with
  | kept h => exact h
  | whole c hc hplace h =>
    subst hplace
    rw [(hcurrent c hc).same content hfile]
    exact h
  | torn c hc hplace before after module hpaths hunread h =>
    have hmem : module ∈ c.files.map Prod.fst := hpaths ▸ List.mem_append_right _ List.mem_cons_self
    obtain ⟨m, hm, rfl⟩ := List.mem_map.1 hmem
    obtain ⟨source, hsource⟩ := (hcurrent c hc).readable m hm
    exact absurd hsource (hunread source)

/-- Only the module of an entrypoint can be missing from a bundle that was found. -/
theorem exists_entrypoint_of_unread {specifiers : List String} {b : Bundle} {f : Path × BundleFile}
    (h : find t root specifiers = .ok b) (hf : f ∈ b.files) (hunread : ∀ source, t.read (root.join f.1) ≠ .ok source) :
    ∃ e ∈ b.entrypoints, e.module = f.1 := by
  obtain ⟨s, hs⟩ := exists_followed h
  rcases hs.valid.listed (f.1, f.2.record) (hs.of_mem hf) with hm | ⟨hfile, -⟩
  · exact List.mem_map.1 hm
  · obtain ⟨source, hsource⟩ := read_of_isFile hfile
    exact absurd hsource (hunread source)

end Bundle

namespace Project

variable {p : Project} {t' : FileTree} {e : LinkError}

/-- What is left where writing some chunks over a published bundle failed. -/
structure Survived (p : Project) (chunks : List Chunk) (t t' : FileTree) : Prop where
  manifest : t'.read (p.dist.join Manifest.fileName) = t.read (p.dist.join Manifest.fileName)
  left : ∀ l content, t.node? l = some (.file content) → Bundle.Left p.buildRoot p.dist chunks t t' l content
  kept : (∀ c ∈ chunks, Bundle.UpToDate p.buildRoot p.dist t c) →
    ∀ l content, t.node? l = some (.file content) → t'.node? l = some (.file content)

theorem survived_of_reaches {s : Bundle.Press} (published : t.read (p.dist.join Manifest.fileName) = .ok content)
    (ha : Bundle.Apart p.buildRoot p.dist chunks t)
    (h : Bundle.Press.Reaches p.buildRoot p.dist (.start chunks t) s) (hclosed : s.drafts = []) :
    p.Survived chunks t s.tree := by
  have hu := ha.rewritten_of_reaches h hclosed
  exact ⟨by rw [published, hu.read_manifest published], hu.left, fun hcurrent l content => hu.kept hcurrent⟩

theorem survived_of_write_error (published : t.read (p.dist.join Manifest.fileName) = .ok content)
    (ha : Bundle.Apart p.buildRoot p.dist chunks t)
    (h : Bundle.write p.buildRoot p.dist chunks t = (t', .error e)) : p.Survived chunks t t' := by
  obtain ⟨errors, hends⟩ := Bundle.ends_of_write_error published h
  exact survived_of_reaches published ha hends rfl

theorem link_of_write {b : Bundle} {manifest : Manifest} (hlast : p.lastManifest t = none)
    (hfind : Bundle.find t p.buildRoot p.entrypoints = .ok b)
    (hwrite : Bundle.write p.buildRoot p.dist (p.chunker.chunks b.entrypoints b.files) t = (t', .ok manifest)) :
    ∃ linked, p.link t = (t', .ok linked) := by
  refine ⟨⟨manifest, b.files.length, (p.chunker.chunks b.entrypoints b.files).length⟩, ?_⟩
  rw [link, hfind, hlast]
  dsimp only
  rw [hwrite]

theorem link_of_write_error {b : Bundle} (hfind : Bundle.find t p.buildRoot p.entrypoints = .ok b)
    (hwrite : Bundle.write p.buildRoot p.dist (p.chunker.chunks b.entrypoints b.files) t = (t', .error e)) :
    p.link t = (t', .error e) := by
  rw [link, hfind]
  dsimp only
  rw [hwrite]

/-! ## A package without its main file -/

/-- A project with a package to start. -/
def packageProject : Project := { default ⟨"/w"⟩ with entrypoints := ["./src/pkg"] }

/-- The entrypoint that starts the package. -/
def packageEntry : Entrypoint := ⟨"./src/pkg", ⟨"src/pkg/m.js"⟩⟩

/-- The record of the package's main file. -/
def packageRecord : Record := ⟨⟨"build/src/pkg/m.js"⟩, "", []⟩

/-- The bundle of the package. -/
def packageBundle : Bundle := ⟨⟨"/w/build"⟩, [packageEntry], [(⟨"src/pkg/m.js"⟩, ⟨packageRecord, ["./src/pkg"]⟩)]⟩

/-- The chunk of the package. -/
def packageChunk : Chunk := ⟨some packageEntry, [(⟨"src/pkg/m.js"⟩, "")], []⟩

/-- The name of the chunk. -/
def packageName : String := "m.a7e2a26489493dfd3ac0da0c96eb37c2cc7762b608a7242f08c7bc5db89e54e5.js"

/-- The manifest of the chunk. -/
def packageManifest : Manifest := Manifest.empty.register "./src/pkg" packageName []

/-- The file of the chunk. -/
def packageFile : Bytes := Bundle.chunkContent packageChunk fun _ => [0x78]

/-- The compiled package but for its main file. -/
def packageEntries : List (Location × Node) :=
  [(["w"], .directory), (["w", "build"], .directory), (["w", "build", "src"], .directory),
    (["w", "build", "src", "pkg"], .directory),
    (["w", "build", "src", "pkg", "package.json"], .file (Utf8.encode "\x7b\"main\":\"m.js\"\x7d")),
    (["w", "build", "src", "pkg", "m.js.meta.cbor"], .file packageRecord.encode)]

/-- The directory with the compiled package. -/
def compiledPackage : FileTree := ⟨(["w", "build", "src", "pkg", "m.js"], .file [0x78]) :: packageEntries, [], []⟩

/-- The directory with an empty directory for bundles. -/
def packageDist : FileTree := compiledPackage.put ["w", "dist"] .directory

/-- The directory with a text in the file of the chunk. -/
def packageWith (text : Bytes) : FileTree := packageDist.put ["w", "dist", packageName] (.file text)

/-- The directory with the bundle of the package. -/
def publishedPackage : FileTree :=
  (packageWith packageFile).put ["w", "dist", "manifest.json"] (.file (Utf8.encode packageManifest.toJson))

/-- The same directory without the compiled main file. -/
def brokenPackage : FileTree := publishedPackage.erase ["w", "build", "src", "pkg", "m.js"]

/-- The directory without the compiled main file and with another text in the file of the chunk. -/
def tornPackage (text : Bytes) : FileTree :=
  ⟨(["w", "dist", packageName], .file text) ::
    (["w", "dist", "manifest.json"], .file (Utf8.encode packageManifest.toJson)) :: (["w", "dist"], .directory) ::
    packageEntries, [], []⟩

theorem put_brokenPackage (text : Bytes) :
    brokenPackage.put ["w", "dist", packageName] (.file text) = tornPackage text :=
  rfl

theorem put_tornPackage (text other : Bytes) :
    (tornPackage text).put ["w", "dist", packageName] (.file other) = tornPackage other := rfl

theorem put_packageWith (text other : Bytes) :
    (packageWith text).put ["w", "dist", packageName] (.file other) = packageWith other := rfl

theorem names_package :
    packageProject.buildRoot = ⟨"/w/build"⟩ ∧ packageProject.dist = ⟨"/w/dist"⟩ ∧ packageChunk.fileName = packageName ∧
      place (Path.join ⟨"/w/dist"⟩ ⟨packageName⟩) = ["w", "dist", packageName] ∧
      place (Path.join ⟨"/w/dist"⟩ Manifest.fileName) = ["w", "dist", "manifest.json"] := by decide +kernel

/-- The package is found, and what is written for it can be written. -/
theorem found_compiledPackage :
    (Bundle.find compiledPackage ⟨"/w/build"⟩ ["./src/pkg"]).toOption = some packageBundle ∧
      packageProject.lastManifest compiledPackage = none ∧
      ((compiledPackage.makeDirectories ⟨"/w/dist"⟩).1, (compiledPackage.makeDirectories ⟨"/w/dist"⟩).2.toOption) =
        (packageDist, some ()) ∧
      (packageDist.write (Path.join ⟨"/w/dist"⟩ ⟨packageName⟩) []).toOption.isSome ∧
      ((packageWith []).read (Path.join ⟨"/w/build"⟩ ⟨"src/pkg/m.js"⟩)).toOption = some [0x78] ∧
      ((packageWith []).write (Path.join ⟨"/w/dist"⟩ ⟨packageName⟩) []).toOption.isSome ∧
      ((packageWith packageFile).write (Path.join ⟨"/w/dist"⟩ Manifest.fileName) []).toOption.isSome := by decide

/-- The package is found without its main file, which cannot be read. -/
theorem found_brokenPackage :
    (Bundle.Search.addEntrypoints brokenPackage ⟨"/w/build"⟩ (keepFirst ["./src/pkg"]) ⟨[], []⟩).toOption =
        some ([packageEntry], ⟨[(⟨"src/pkg/m.js"⟩, packageRecord)], [⟨"src/pkg/m.js"⟩]⟩) ∧
      (brokenPackage.read (Path.join ⟨"/w/dist"⟩ Manifest.fileName)).toOption.isSome ∧
      (brokenPackage.write (Path.join ⟨"/w/dist"⟩ ⟨packageName⟩) []).toOption.isSome ∧
      ((tornPackage []).read (Path.join ⟨"/w/build"⟩ ⟨"src/pkg/m.js"⟩)).toOption = none ∧
      ((tornPackage []).write (Path.join ⟨"/w/dist"⟩ ⟨packageName⟩) []).toOption.isSome := by decide

theorem markFiles_package :
    Bundle.markFiles [(⟨"src/pkg/m.js"⟩, packageRecord)] [packageEntry] = packageBundle.files := by decide

theorem outside_package : ¬ place ⟨"/w/dist"⟩ <+: place (Path.join ⟨"/w/build"⟩ ⟨"src/pkg/m.js"⟩) := by decide

theorem postamble_package : Script.postamble packageChunk ≠ [] := by decide

theorem find_brokenPackage : Bundle.find brokenPackage ⟨"/w/build"⟩ ["./src/pkg"] = .ok packageBundle := by
  obtain ⟨hentrypoints, -⟩ := found_brokenPackage
  have hfollow : Bundle.Search.follow brokenPackage ⟨"/w/build"⟩ 1
      ⟨[(⟨"src/pkg/m.js"⟩, packageRecord)], [⟨"src/pkg/m.js"⟩]⟩ = .ok ⟨[(⟨"src/pkg/m.js"⟩, packageRecord)], []⟩ := rfl
  rw [Bundle.find_of_done (eq_of_toOption hentrypoints) hfollow rfl (by decide), markFiles_package]
  rfl

theorem writeChunks_packageDist : Bundle.writeChunks ⟨"/w/build"⟩ ⟨"/w/dist"⟩ [packageChunk] packageDist =
    (packageWith packageFile, .ok ()) := by
  obtain ⟨-, -, hname, hplace, -⟩ := names_package
  obtain ⟨-, -, -, hempty, hread, hrefill, -⟩ := found_compiledPackage
  have hread := eq_of_toOption hread
  have htext : Script.compiledText (packageWith []) ⟨"/w/build"⟩ ⟨"src/pkg/m.js"⟩ = [0x78] :=
    Script.compiledText_of_read hread
  have hcontent :
      Bundle.chunkContent packageChunk (Script.compiledText (packageWith []) ⟨"/w/build"⟩) = packageFile := by
    rw [packageFile, Bundle.chunkContent_eq_iff rfl rfl]
    exact Script.body_congr fun module hm => by rw [List.mem_singleton.1 hm, htext]
  rw [Bundle.writeChunks_singleton_iff, hname]
  refine ⟨packageWith [], ?_, fun m hm => ?_, ?_⟩
  · rw [write_of_isSome hempty, hplace]
    rfl
  · rw [List.mem_singleton.1 hm, htext]
    exact hread
  · rw [hcontent, write_of_isSome hrefill, hplace, put_packageWith]

theorem write_compiledPackage : Bundle.write ⟨"/w/build"⟩ ⟨"/w/dist"⟩ [packageChunk] compiledPackage =
    (publishedPackage, .ok packageManifest) := by
  obtain ⟨-, -, hname, -, hmanifest⟩ := names_package
  obtain ⟨-, -, hmake, -, -, -, hsave⟩ := found_compiledPackage
  have hmanifests : Manifest.ofChunks [packageChunk] = packageManifest := by
    rw [packageManifest, ← hname]
    rfl
  have hsaved : packageManifest.save (packageWith packageFile) (Path.join ⟨"/w/dist"⟩ Manifest.fileName) =
      .ok publishedPackage := by
    rw [Manifest.save, write_of_isSome hsave, hmanifest]
    rfl
  rw [← hmanifests] at hsaved ⊢
  exact Bundle.write_of_parts (pair_of_toOption hmake) writeChunks_packageDist hsaved

/-- The package was published. -/
theorem link_compiledPackage : ∃ linked, packageProject.link compiledPackage = (publishedPackage, .ok linked) := by
  obtain ⟨hroot, hdist, -⟩ := names_package
  obtain ⟨hfind, hlast, -⟩ := found_compiledPackage
  have hfound :
      Bundle.find compiledPackage packageProject.buildRoot packageProject.entrypoints = .ok packageBundle := by
    rw [hroot]
    exact eq_of_toOption hfind
  have hwrite := write_compiledPackage
  rw [← hroot, ← hdist] at hwrite
  exact link_of_write hlast hfound hwrite

/-- The main file is not missed before the file of its chunk is emptied. -/
theorem write_brokenPackage : ∃ e, Bundle.write ⟨"/w/build"⟩ ⟨"/w/dist"⟩ [packageChunk] brokenPackage =
    (tornPackage (Script.preamble packageChunk), .error e) := by
  obtain ⟨-, -, hname, hplace, -⟩ := names_package
  obtain ⟨-, hpublished, hempty, hunread, hrefill⟩ := found_brokenPackage
  obtain ⟨bytes, hpublished⟩ := Option.isSome_iff_exists.1 hpublished
  cases hread : (tornPackage []).read (Path.join ⟨"/w/build"⟩ ⟨"src/pkg/m.js"⟩) with
  | ok source =>
    rw [hread] at hunread
    cases hunread
  | error error =>
    have hmodules : Script.modules (tornPackage []) ⟨"/w/build"⟩ (packageChunk.files.map Prod.fst) =
        ([], some (.inaccessible ⟨"src/pkg/m.js"⟩ error)) := by
      show Script.modules _ _ [_] = _
      rw [Script.modules_cons, hread]
    have hchunks : Bundle.writeChunks ⟨"/w/build"⟩ ⟨"/w/dist"⟩ [packageChunk] brokenPackage =
        (tornPackage (Script.preamble packageChunk), .error (.inaccessible ⟨"src/pkg/m.js"⟩ error)) := by
      refine Bundle.writeChunks_of_unread ?_ hmodules ?_
      · rw [hname, write_of_isSome hempty, hplace, put_brokenPackage]
      · rw [hname, write_of_isSome hrefill, hplace, put_tornPackage, List.append_nil]
    exact ⟨_, Bundle.write_of_error (Bundle.makeDirectories_of_manifest (eq_of_toOption hpublished)) hchunks⟩

theorem link_brokenPackage :
    ∃ e, packageProject.link brokenPackage = (tornPackage (Script.preamble packageChunk), .error e) := by
  obtain ⟨hroot, hdist, -⟩ := names_package
  obtain ⟨e, hwrite⟩ := write_brokenPackage
  refine ⟨e, link_of_write_error (b := packageBundle) ?_ ?_⟩
  · rw [hroot]
    exact find_brokenPackage
  · rw [hroot, hdist]
    exact hwrite

theorem apart_package : Bundle.Apart packageProject.buildRoot packageProject.dist [packageChunk] brokenPackage where
  single l _ group hgroup := by
    have hlinks : brokenPackage.links = [] := rfl
    rw [hlinks] at hgroup
    cases hgroup
  outside c hc m hm := by
    obtain ⟨hroot, hdist, -⟩ := names_package
    cases List.mem_singleton.1 hc
    cases List.mem_singleton.1 hm
    rw [hroot, hdist]
    exact outside_package

/-! ## What is left -/

/-- A failed link leaves the published manifest. It leaves all other files too, where the chunks are up to date.
Else the file of a chunk may be the new one, or a torn one: the modules of entrypoints are not looked for before
their chunks are written. So it is however the chunks are written beside each other and wherever that stops, when no
file is open. -/
theorem link_failed (published : t.read (p.dist.join Manifest.fileName) = .ok content) :
    (∀ chunks, Bundle.Apart p.buildRoot p.dist chunks t →
      (∀ s, Bundle.Press.Reaches p.buildRoot p.dist (.start chunks t) s → s.drafts = [] →
        p.Survived chunks t s.tree) ∧
      ∀ t' e, Bundle.write p.buildRoot p.dist chunks t = (t', .error e) → p.Survived chunks t t') ∧
    ∀ t' e, p.link t = (t', .error e) → t' = t ∨ ∃ b, Bundle.find t p.buildRoot p.entrypoints = .ok b ∧
      (∀ f ∈ b.files, (∀ source, t.read (p.buildRoot.join f.1) ≠ .ok source) →
        ∃ e ∈ b.entrypoints, e.module = f.1) ∧
      (Bundle.Apart p.buildRoot p.dist (p.chunker.chunks b.entrypoints b.files) t →
        p.Survived (p.chunker.chunks b.entrypoints b.files) t t') := by
  refine ⟨fun chunks ha =>
      ⟨fun s => survived_of_reaches published ha, fun t' e => survived_of_write_error published ha⟩,
    fun t' e h => ?_⟩
  unfold link at h
  dsimp only at h
  split at h
  · cases h
    exact .inl rfl
  next b hfind =>
  split at h
  · next hwrite =>
    cases h
    exact .inr ⟨b, hfind, fun f hf => Bundle.exists_entrypoint_of_unread hfind hf,
      fun ha => survived_of_write_error published ha hwrite⟩
  · cases h

/-- The published chunk of the package is torn. -/
theorem link_failed_package :
    (∃ linked, packageProject.link compiledPackage = (publishedPackage, .ok linked)) ∧
      ∃ torn e, packageProject.link brokenPackage = (torn, .error e) ∧
        brokenPackage.node? ["w", "dist", packageName] = some (.file packageFile) ∧
        torn.node? ["w", "dist", packageName] = some (.file (Script.preamble packageChunk)) ∧
        Script.preamble packageChunk ≠ packageFile ∧ packageProject.Survived [packageChunk] brokenPackage torn := by
  obtain ⟨e, hlink⟩ := link_brokenPackage
  obtain ⟨hroot, hdist, -⟩ := names_package
  obtain ⟨bytes, hpublished⟩ := Option.isSome_iff_exists.1 found_brokenPackage.2.1
  have hpublished : brokenPackage.read (packageProject.dist.join Manifest.fileName) = .ok bytes := by
    rw [hdist]
    exact eq_of_toOption hpublished
  have hdamaged : Script.preamble packageChunk ≠ packageFile := by
    rw [packageFile, Bundle.chunkContent, List.append_assoc, Ne, List.self_eq_append_right]
    exact fun hnil => postamble_package (List.append_eq_nil_iff.1 hnil).2
  refine ⟨link_compiledPackage, _, e, hlink, rfl, rfl, hdamaged, ?_⟩
  obtain ⟨-, hfailed⟩ := link_failed hpublished
  rcases hfailed _ e hlink with hsame | ⟨b, hfind, -, hsurvived⟩
  · have hnode : some (Node.file (Script.preamble packageChunk)) = some (.file packageFile) :=
      congrArg (·.node? ["w", "dist", packageName]) hsame
    exact absurd (Node.file.inj (Option.some.inj hnode)) hdamaged
  · rw [hroot] at hfind
    obtain rfl : packageBundle = b := Except.ok.inj (find_brokenPackage.symm.trans hfind)
    exact hsurvived apart_package

end Project
end Bundler
