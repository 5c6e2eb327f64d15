import Bundler.Proofs.Compile.Outputs
import Bundler.Proofs.Import.Retarget
/-!
# What a compiled script imports

The record of a script lists the modules that its imports name, and the compiled script asks for these modules
(`compiled_imports`), unless the path of one of them has the quote in it that its literal stands in. Then the literal
ends at that quote (`compiled_imports_quoted`).
-/

namespace Bundler.Compiler

open FileTree

variable {c : Compiler} {file : SourceFile} {t t' : FileTree} {imports : List Path}

/-- What a compiled script asks for, and what its record lists. After the transpiler there is some text. A specifier in
it that names a module becomes the path of that module, the others stay, and the scanner finds exactly these in the
compiled script if and only if no such path has the quote of its literal in it. The record lists the modules that are
named, in any case. -/
theorem compiled_imports (hscript : isScript (source file) = true)
    (ho : ∀ u, c.lookupTree? file t = some u → c.Orderly file u)
    (h : c.compileFile file t = (t', .ok (.fresh imports))) :
    ∃ u text compiled content, c.lookupTree? file t = some u ∧
      u.read (c.root.join (c.destination file)) = .ok text ∧
      t'.node? (c.target file) = some (.file compiled) ∧
      (Import.specifiers compiled =
          ((Import.specifiers text).map fun specifier => (c.names file u specifier).getD specifier) ↔
        Import.Quotable (c.names file u) text) ∧
      imports = (keepFirst ((Import.specifiers text).filterMap (c.names file u))).map Path.mk ∧
      t.read (c.root.join (source file)) = .ok content ∧
      t'.node? (c.recordPlace file) =
        some (.file (Record.encode ⟨c.destination file, (Digest.hash content).toHex, imports⟩)) := by
  obtain ⟨content, hread, h⟩ := recompile_of_fresh h
  cases recompiled h with
  | done _ t₁ u t₃ _ parent transpiled himports record =>
    have hu := lookupTree?_eq parent transpiled
    have hretarget := himports
    unfold retargetImports at hretarget
    rw [if_pos hscript] at hretarget
    obtain ⟨text, htext, -, -⟩ := retargetFile_eq hretarget
    obtain ⟨ho₃, -, hcompiled, himports⟩ := retargetImports_eq (ho u hu) (node?_of_read htext) himports
    rw [outcome, if_pos hscript] at hcompiled himports
    -- the record is written last, in another place than the compiled file
    obtain ⟨t₄, hparent, hwrite⟩ := save_ok record
    have hgrows := grows_makeParent ho₃.links (c.recordPath file)
    rw [hparent] at hgrows
    have ho₄ := ho₃.grows hgrows
    have hother := node?_write_of_alone hwrite ho₄.target (recordPlace_ne_target c file).symm
    obtain ⟨hspecifiers, hlisted⟩ := Import.specifiers_retarget_iff (c.names file u) text
    refine ⟨u, text, _, content, hu, htext, hother.trans (hgrows.kept _ _ hcompiled), hspecifiers, ?_, hread,
      node?_write hwrite⟩
    rw [himports, hlisted]

/-! ## A directory with a quote in its name -/

/-- A script imports another one that lies beside it. -/
def quotedScripts : FileTree :=
  ⟨[(["w"], .directory), (["w", "src"], .directory), (["w", "src", "a\"b"], .directory),
    (["w", "src", "a\"b", "x.js"], .file (Utf8.encode "require(\"./y\")")), (["w", "src", "a\"b", "y.js"], .file [])],
    [], []⟩

/-- The script that imports. -/
def quotedImporter : SourceFile := (⟨"src"⟩, ⟨"a\"b/x.js"⟩)

/-- The module that it imports. -/
def quotedModule : String := "src/a\"b/y.js"

theorem compileFile_quoted :
    (copier.compileFile quotedImporter quotedScripts).2.toOption = some (.fresh [⟨quotedModule⟩]) ∧
      (copier.compileFile quotedImporter quotedScripts).1.node? (copier.target quotedImporter) =
        some (.file (Utf8.encode "require(\"src/a\"b/y.js\")")) := by decide

theorem specifiers_quoted : Import.specifiers (Utf8.encode "require(\"src/a\"b/y.js\")") = ["src/a"] := by decide

theorem lookupTree_quoted : ∀ u ∈ copier.lookupTree? quotedImporter quotedScripts, u.links = [] ∧
    (u.read (copier.root.join (copier.destination quotedImporter))).toOption.map Import.specifiers = some ["./y"] := by
  decide

/-- The path of the module ends the literal that it is put into. The record lists the module, and the compiled script
asks for something else. -/
theorem compiled_imports_quoted :
    ∃ t' u text compiled,
      copier.compileFile quotedImporter quotedScripts = (t', .ok (.fresh [⟨quotedModule⟩])) ∧
      copier.lookupTree? quotedImporter quotedScripts = some u ∧ Import.specifiers text = ["./y"] ∧
      t'.node? (copier.target quotedImporter) = some (.file compiled) ∧ Import.specifiers compiled = ["src/a"] ∧
      ¬ Import.Quotable (copier.names quotedImporter u) text := by
  obtain ⟨hanswer, hnode⟩ := compileFile_quoted
  have hmade := pair_of_toOption (congrArg (Prod.mk _) hanswer)
  obtain ⟨u, text, compiled, -, hu, htext, hcompiled, hiff, himports, -⟩ :=
    compiled_imports (by decide) (fun u hu => orderly_of_links (lookupTree_quoted u hu).1) hmade
  obtain rfl : compiled = Utf8.encode "require(\"src/a\"b/y.js\")" := by simpa using hcompiled.symm.trans hnode
  have hfound := (lookupTree_quoted u hu).2
  rw [htext] at hfound
  have hfound : Import.specifiers text = ["./y"] := Option.some.inj hfound
  refine ⟨_, u, text, _, hmade, hu, hfound, hcompiled, specifiers_quoted, fun hquotable => ?_⟩
  have hsame := hiff.2 hquotable
  rw [specifiers_quoted, hfound] at hsame
  rw [hfound] at himports
  cases hname : copier.names quotedImporter u "./y" with
  | none => simp [hname, keepFirst] at himports
  | some name =>
    simp only [List.filterMap_cons, hname, List.filterMap_nil, keepFirst, List.filter_nil, List.map_cons, List.map_nil,
      List.cons.injEq, Path.mk.injEq, and_true] at himports
    simp only [List.map_cons, List.map_nil, hname, Option.getD_some, List.cons.injEq, and_true] at hsame
    rw [← himports] at hsame
    exact absurd hsame (by decide)

end Bundler.Compiler
