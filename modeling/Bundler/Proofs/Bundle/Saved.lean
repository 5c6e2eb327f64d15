import Bundler.Proofs.Bundle.Manifest
import Bundler.Proofs.FileTree.Inside
/-!
# Manifests on disk

A manifest that was saved is loaded as it was, whatever its texts consist of, and of the entrypoints that were
registered in it the last entry of each specifier is loaded (`load_saved`).
-/

namespace Bundler.Manifest

variable {m : Manifest} {t u : FileTree} {path : Path} {specifier : String} {entry : ManifestEntry}
  {entries : List (String × ManifestEntry)}

theorem load_of_save (hw : t.WellLinked) (h : m.save t path = .ok u) : load u path = .ok (some m) := by
  unfold save at h
  split at h
  · cases h
  · next hwrite =>
    cases h
    rw [load, FileTree.read_of_write hw hwrite]
    dsimp only
    rw [decode_toJson]

/-! ## Registering -/

/-- The manifest with some entrypoints registered, one after the other. -/
def registerAll (m : Manifest) (entries : List (String × ManifestEntry)) : Manifest :=
  entries.foldl (fun m e => m.register e.1 e.2.file e.2.loads) m

theorem get?_register {key file : String} {loads : List String} :
    (m.register key file loads).get? specifier = if specifier = key then some ⟨file, loads⟩ else m.get? specifier := by
  rw [get?, register, Sorted.find?_insert]
  exact if_congr Std.LawfulEqCmp.compare_eq_iff_eq rfl rfl

/-- Of the entries of a specifier the last one counts. -/
theorem get?_registerAll (m : Manifest) (entries : List (String × ManifestEntry)) (specifier : String) :
    (m.registerAll entries).get? specifier = (entries.reverse.lookup specifier).or (m.get? specifier) := by
  induction entries generalizing m with
  | nil => rfl
  | cons e entries ih =>
    obtain ⟨key, entry⟩ := e
    have hrest : (m.registerAll ((key, entry) :: entries)) =
        (m.register key entry.file entry.loads).registerAll entries := rfl
    rw [hrest, ih, get?_register, List.reverse_cons, List.lookup_append, Option.or_assoc]
    by_cases hkey : specifier = key
    · simp [hkey]
    · have hbeq : (specifier == key) = false := by simpa using hkey
      simp [List.lookup_cons, hkey, hbeq]

theorem mem_iff_get? : (specifier, entry) ∈ m.entries ↔ m.get? specifier = some entry :=
  Sorted.mem_iff_find? m.ascending

/-- A manifest is loaded as it was saved. So the last entry that was registered of a specifier is loaded, and no other
one of that specifier. -/
theorem load_saved (hw : t.WellLinked) (path : Path) :
    (∀ m u, save m t path = .ok u → load u path = .ok (some m)) ∧
      ∀ (m : Manifest) entries u, (m.registerAll entries).save t path = .ok u →
        ∃ loaded, load u path = .ok (some loaded) ∧ (loaded.entries.map Prod.fst).Nodup ∧
          ∀ specifier, loaded.get? specifier = (entries.reverse.lookup specifier).or (m.get? specifier) ∧
            ∀ entry, (specifier, entry) ∈ loaded.entries ↔ loaded.get? specifier = some entry := by
  refine ⟨fun m u hsave => load_of_save hw hsave, fun m entries u hsave => ?_⟩
  refine ⟨m.registerAll entries, load_of_save hw hsave, Sorted.nodup_of_ascending (m.registerAll entries).ascending, ?_⟩
  exact fun specifier => ⟨get?_registerAll m entries specifier, fun entry => mem_iff_get?⟩

/-- A page with a quote in its name is registered twice, and another one with a backslash and a line break. -/
def quotedPages : List (String × ManifestEntry) :=
  [("./\"a\".js", ⟨"a.1.js", []⟩), ("./b\\\n.js", ⟨"b.1.js", []⟩), ("./\"a\".js", ⟨"a.2.js", ["common.1.js"]⟩)]

/-- The directory of a bundle that was linked before. -/
def linkedBefore : FileTree :=
  ⟨[(["dist"], .directory), (["dist", "manifest.json"], .file (Utf8.encode (toJson empty)))], [], []⟩

/-- The manifest of these pages takes the place of an older one, and the page that was registered twice is loaded with
its second entry. -/
theorem load_saved_quoted : linkedBefore.WellLinked ∧
    ∃ u loaded, (empty.registerAll quotedPages).save linkedBefore ⟨"/dist/manifest.json"⟩ = .ok u ∧
      load u ⟨"/dist/manifest.json"⟩ = .ok (some loaded) ∧
      loaded.get? "./\"a\".js" = some ⟨"a.2.js", ["common.1.js"]⟩ ∧ loaded.get? "./b\\\n.js" = some ⟨"b.1.js", []⟩ := by
  have hw : linkedBefore.WellLinked := fun group hgroup => absurd hgroup List.not_mem_nil
  obtain ⟨u, hsave⟩ : ∃ u, (empty.registerAll quotedPages).save linkedBefore ⟨"/dist/manifest.json"⟩ = .ok u := by
    have hsaved : ((empty.registerAll quotedPages).save linkedBefore ⟨"/dist/manifest.json"⟩).toOption.isSome := by
      decide
    cases hsave : (empty.registerAll quotedPages).save linkedBefore ⟨"/dist/manifest.json"⟩ with
    | ok u => exact ⟨u, rfl⟩
    | error e =>
      rw [hsave] at hsaved
      cases hsaved
  obtain ⟨loaded, hload, -, hentries⟩ := (load_saved hw ⟨"/dist/manifest.json"⟩).2 empty quotedPages u hsave
  refine ⟨hw, u, loaded, hsave, hload, (hentries _).1.trans ?_, (hentries _).1.trans ?_⟩ <;> decide

end Bundler.Manifest
