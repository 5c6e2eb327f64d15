import Bundler.Proofs.Compile.Frame
import Bundler.Proofs.Resolve
/-!
# Compiling in a tree that was touched elsewhere

Where the transpiler makes its file of the source and of what the compiled file was (`Acts`), a file that was
found is compiled in a tree that was touched `Elsewhere` just as in the tree as it was: with the same answer,
the same compiled file and the same record (`compileFile_elsewhere`). Elsewhere is where neither the source nor
the outputs of the file are, nor anything that is looked at when its imports are replaced (`probes`).
-/

namespace Bundler

open FileTree

/-- What is put in the place of imports depends on what their specifiers name. -/
theorem Import.retarget_eq_of_scan {f g : String → Option String} {text : Bytes}
    (h : ∀ i ∈ scan text, f i.specifier = g i.specifier) : retarget f text = retarget g text := by
  have hfound : (scan text).map (fun i => (i.span, f i.specifier)) =
      (scan text).map fun i => (i.span, g i.specifier) := by
    apply List.map_congr_left
    intro i hi
    rw [h i hi]
  unfold retarget
  rw [hfound]

/-- What replacing the imports of a file with some text comes to. -/
theorem retargetFile_of_read {t : FileTree} {root file base : Path} {text : Bytes} (h : t.read file = .ok text) :
    retargetFile t root file base =
      if (Import.retarget (moduleOf t root base) text).source = text then
        .ok (t, (Import.retarget (moduleOf t root base) text).imports.map Path.mk)
      else
        (t.write file (Import.retarget (moduleOf t root base) text).source).map fun t' =>
          (t', (Import.retarget (moduleOf t root base) text).imports.map Path.mk) := by
  unfold retargetFile
  rw [h]
  dsimp only
  rw [@retarget_congr _ t root base text]
  · by_cases hsame : (Import.retarget (moduleOf t root base) text).source = text
    · rw [if_pos hsame, if_pos hsame]
    · rw [if_neg hsame, if_neg hsame]
      cases t.write file (Import.retarget (moduleOf t root base) text).source <;> rfl
  · intro specifier
    unfold moduleOf
    cases resolve t root base specifier <;> rfl

namespace Compiler

open Bundler.Path (Component ofComponents)

variable {c : Compiler} {t t' u u' : FileTree} {sources : List Path} {file f g : SourceFile} {cs : List Component}
  {name : String} {l k : Location} {O W : Location → Prop} {content : Bytes}

/-! ## What a file depends on -/

/-- How the transpiler of a file ends and what it leaves as the compiled file. -/
abbrev Action := Bytes → Option Node → Option Node × Except TranspileError Unit

/-- The transpiler of a file writes the compiled file only. Where the directory of that file is there, what it makes
is a function of the source and of what the compiled file was. It does not panic. -/
structure Acts (c : Compiler) (file : SourceFile) (act : Action) : Prop where
  tidy : c.Tidy file
  acts : ∀ t t' r content, c.Orderly file t → (∀ k ∈ c.way file, t.node? k = some .directory) →
    t.read (c.root.join (source file)) = .ok content → c.transpile file t = (t', r) →
      t'.node? (c.target file) = (act content (t.node? (c.target file))).1 ∧
        r = (act content (t.node? (c.target file))).2.mapError .error

/-- The paths that are looked at when a file is compiled, to see what its imports name. -/
def probes (c : Compiler) (file : SourceFile) (t : FileTree) : List Path :=
  if isScript (source file) && ! ((c.compileFile file t).2 matches .ok .cached) then
    match c.lookupTree? file t with
    | none => []
    | some u =>
      match u.read (c.root.join (c.destination file)) with
      | .error _ => []
      | .ok text =>
        (Import.scan text).flatMap fun i =>
          Resolve.probed u c.root ((source file).parent?.getD ⟨""⟩) i.specifier
  else []

theorem mem_probes {p : Path} {text : Bytes} {i : Import} (hscript : isScript (source file) = true)
    (hfresh : (c.compileFile file t).2 ≠ .ok .cached) (hu : c.lookupTree? file t = some u)
    (htext : u.read (c.root.join (c.destination file)) = .ok text) (hi : i ∈ Import.scan text)
    (hp : p ∈ Resolve.probed u c.root ((source file).parent?.getD ⟨""⟩) i.specifier) : p ∈ c.probes file t := by
  have hanswer : ((c.compileFile file t).2 matches .ok .cached) = false := by
    split
    · next heq => exact absurd heq hfresh
    · rfl
  unfold probes
  rw [hscript, hanswer, hu]
  dsimp only
  rw [htext]
  exact List.mem_flatMap.2 ⟨i, hi, hp⟩

/-- A tree was touched where a file neither is nor has its outputs, and where nothing leads to them but
directories. -/
structure Elsewhere (c : Compiler) (file : SourceFile) (O W : Location → Prop) (t u : FileTree) : Prop where
  touched : Touched O W t u
  source : ¬ O (c.sourcePlace file)
  output : ∀ l ∈ c.outputs file, ¬ O l ∧ (W l → t.node? l ≠ none)
  way : ∀ k ∈ c.way file, O k → t.node? k = some .directory

namespace Elsewhere

variable (h : c.Elsewhere file O W t u)
include h

theorem same_output (hl : l ∈ c.outputs file) : u.node? l = t.node? l :=
  h.touched.same (h.output l hl).1 (h.output l hl).2

theorem same_way (hk : k ∈ c.way file) : u.node? k = t.node? k ∨ t.node? k = none ∧ u.node? k = some .directory := by
  by_cases ho : O k
  · have hdir := h.way k hk ho
    rw [hdir, h.touched.directory k hdir]
    exact .inl rfl
  · exact (h.touched.entry k ho).imp id And.right

/-- The outputs denote what they denoted. -/
theorem at?_output {p : Path} {s : String} (hf : c.Filed file cs name) (hp : t.Proper)
    (hs : t.Steady (c.root.join (c.destination file))) (hpath : p.components = cs ++ [.name s])
    (hl : place p ∈ c.outputs file) : u.at? p = t.at? p := by
  obtain ⟨pre, names, hsplit, hpre⟩ := hs
  have hsteady : t.Steady p := by
    refine ⟨pre, names, ?_, hpre⟩
    rw [← hsplit, hf.compiled, hpath, List.dropLast_concat, List.dropLast_concat]
  exact at?_of_past hp h.touched (h.output _ hl).1 (hsteady.past hpath (h.output _ hl).2)

end Elsewhere

/-- The source of a file that was found is read as before. -/
theorem read_source_congr (hp : t.Proper) (hf : f ∈ c.discover t sources) (h : Touched O W t u)
    (hO : ¬ O (c.sourcePlace f)) : u.read (c.root.join (source f)) = t.read (c.root.join (source f)) := by
  obtain ⟨-, hdir, names, hne, hpath, content, hfile⟩ := (mem_discover hp).1 hf
  have hspelled : Spelled names := fun name hname => hp.spelled hfile name (List.mem_append_right _ hname)
  have hplace := sourcePlace_eq (c := c) hne hspelled hpath
  have hnode : u.node? (c.sourcePlace f) = t.node? (c.sourcePlace f) := by
    apply h.same hO
    intro _ hnone
    rw [hplace, hfile] at hnone
    cases hnone
  refine (read_congr (fun k hk => ?_) hnode).symm
  rw [trail, source, hpath, ← Path.join_assoc, components_join_names _ hne hspelled, mem_along_append,
    ← place_eq_foldl] at hk
  rcases hk with hk | hk
  · have hk := directory_of_mem_trail hdir hk
    exact .of_directory hk (h.directory k hk)
  · obtain ⟨part, hpart, rfl⟩ := mem_along_names.1 hk
    by_cases heq : part = names
    · rw [heq, ← hplace]
      exact .of_eq hnode
    · -- above the source there are directories
      have hk := hp.above hfile ((List.prefix_append_right_inj _).2 hpart) fun hsame =>
        heq (List.append_cancel_left hsame)
      exact .of_directory hk (h.directory _ hk)

/-- Whether a file counts as up to date depends on what its outputs denote. -/
theorem isCurrent_congr (hrecord : u.at? (c.recordPath file) = t.at? (c.recordPath file))
    (htarget : u.at? (c.root.join (c.destination file)) = t.at? (c.root.join (c.destination file))) (hash : String) :
    c.isCurrent u file hash = c.isCurrent t file hash := by
  rw [Bool.eq_iff_iff, isCurrent_iff, isCurrent_iff]
  simp only [read_eq_ok, FileTree.contains, hrecord, htarget]

/-! ## Step by step -/

/-- Two trees in which the directory of the outputs of a file is there and the outputs are the same. -/
structure Mates (c : Compiler) (file : SourceFile) (cs : List Component) (t u : FileTree) : Prop where
  there : cs = [] ∨ t.isDirectory (ofComponents cs) = true
  there' : cs = [] ∨ u.isDirectory (ofComponents cs) = true
  orderly : c.Orderly file t
  orderly' : c.Orderly file u
  same : ∀ l ∈ c.outputs file, u.node? l = t.node? l

/-- The ends of two attempts with the same answer and the same outputs. -/
def SameEnd {α : Type} (c : Compiler) (file : SourceFile) (x y : FileTree × α) : Prop :=
  y.2 = x.2 ∧ ∀ l ∈ c.outputs file, y.1.node? l = x.1.node? l

namespace Mates

theorem symm (h : c.Mates file cs t u) : c.Mates file cs u t :=
  ⟨h.there', h.there, h.orderly', h.orderly, fun l hl => (h.same l hl).symm⟩

variable (h : c.Mates file cs t u)
include h

/-- On the trails of the outputs the trees are alike. -/
theorem alike {p : Path} {s : String} (hpath : p.components = cs ++ [.name s]) (hl : place p ∈ c.outputs file)
    (hk : k ∈ trail p) : Alike t u k := by
  have hcs : cs <+: p.components := hpath ▸ List.prefix_append _ _
  rcases (mem_trail_concat hpath).1 hk with hk | heq
  · exact .of_directory (directory_of_isDirectory hcs h.there hk) (directory_of_isDirectory hcs h.there' hk)
  · rw [heq]
    exact .of_eq (h.same _ hl)

/-- Touched at the outputs only, and there alike, the trees stay as they are to each other. -/
theorem touched (ht : Touched (· ∈ c.outputs file) (fun _ => False) t t')
    (hu : Touched (· ∈ c.outputs file) (fun _ => False) u u') (hsame : ∀ l ∈ c.outputs file, u'.node? l = t'.node? l) :
    c.Mates file cs t' u' where
  there := h.there.imp id (isDirectory_of_directories ht.directory)
  there' := h.there'.imp id (isDirectory_of_directories hu.directory)
  orderly := h.orderly.touched ht fun _ hl => h.orderly.alone hl
  orderly' := h.orderly'.touched hu fun _ hl => h.orderly'.alone hl
  same := hsame

/-- One output is written alike, the other one is left alone. -/
theorem touched_one {m : Location} (hm : m ∈ c.outputs file) (ht : Touched (· = m) (fun _ => False) t t')
    (hu : Touched (· = m) (fun _ => False) u u') (hsame : u'.node? m = t'.node? m) : c.Mates file cs t' u' := by
  have only {v v' : FileTree} (hv : Touched (· = m) (fun _ => False) v v') :
      Touched (· ∈ c.outputs file) (fun _ => False) v v' := hv.more fun l hl => hl ▸ hm
  refine h.touched (only ht) (only hu) fun l hl => ?_
  by_cases heq : l = m
  · rw [heq]
    exact hsame
  · rw [ht.same heq fun hw => hw.elim, hu.same heq fun hw => hw.elim]
    exact h.same l hl

theorem transpile {act : Action} (hact : c.Acts file act) (hf : c.Filed file cs name)
    (hread : t.read (c.root.join (source file)) = .ok content)
    (hread' : u.read (c.root.join (source file)) = .ok content) :
    (c.transpile file u).2 = (c.transpile file t).2 ∧
      c.Mates file cs (c.transpile file t).1 (c.transpile file u).1 := by
  have hmem : c.target file ∈ c.outputs file := List.mem_cons_self
  have hway := hf.directory_of_way h.there
  have hway' := hf.directory_of_way h.there'
  rcases ht : c.transpile file t with ⟨t', r⟩
  rcases hu : c.transpile file u with ⟨u', r'⟩
  obtain ⟨hnode, hanswer⟩ := hact.acts _ _ _ _ h.orderly hway hread ht
  obtain ⟨hnode', hanswer'⟩ := hact.acts _ _ _ _ h.orderly' hway' hread' hu
  rw [h.same _ hmem] at hnode' hanswer'
  have htouched := hact.tidy _ _ _ _ h.orderly hread ht
  have htouched' := hact.tidy _ _ _ _ h.orderly' hread' hu
  exact ⟨hanswer'.trans hanswer.symm, h.touched_one hmem htouched htouched' (hnode'.trans hnode.symm)⟩

/-- Writing an output succeeds in both trees or in none. -/
theorem write {p : Path} {s : String} (hpath : p.components = cs ++ [.name s]) (hl : place p ∈ c.outputs file)
    (content : Bytes) :
    (∃ e, t.write p content = .error e ∧ u.write p content = .error e) ∨
      ∃ t' u', t.write p content = .ok t' ∧ u.write p content = .ok u' ∧ c.Mates file cs t' u' := by
  have heq := write_congr (fun k hk => h.alike hpath hl hk) content
  cases ht : t.write p content with
  | error e =>
    cases hu : u.write p content with
    | error e' =>
      rw [ht, hu] at heq
      cases heq
      exact .inl ⟨e, rfl, rfl⟩
    | ok u' =>
      rw [ht, hu] at heq
      cases heq
  | ok t' =>
    cases hu : u.write p content with
    | error e' =>
      rw [ht, hu] at heq
      cases heq
    | ok u' =>
      have hnode : u'.node? (place p) = t'.node? (place p) := by rw [node?_write ht, node?_write hu]
      exact .inr ⟨t', u', rfl, rfl, h.touched_one hl (touched_write ht (h.orderly.alone hl))
        (touched_write hu (h.orderly'.alone hl)) hnode⟩

/-- Imports are replaced alike where their specifiers name the same modules. -/
theorem retargetImports (hf : c.Filed file cs name)
    (hnames : isScript (source file) = true → ∀ text, t.read (c.root.join (c.destination file)) = .ok text →
      ∀ i ∈ Import.scan text, c.names file u i.specifier = c.names file t i.specifier) :
    (∃ e, c.retargetImports t file = .error e ∧ c.retargetImports u file = .error e) ∨
      ∃ t' u' is, c.retargetImports t file = .ok (t', is) ∧ c.retargetImports u file = .ok (u', is) ∧
        c.Mates file cs t' u' := by
  have hmem : place (c.root.join (c.destination file)) ∈ c.outputs file := List.mem_cons_self
  have hread := read_congr (fun k hk => h.alike hf.compiled hmem hk) (h.same _ hmem)
  unfold Compiler.retargetImports
  dsimp only
  by_cases hscript : isScript (source file) = true
  · rw [if_pos hscript, if_pos hscript]
    cases htext : t.read (c.root.join (c.destination file)) with
    | error e =>
      left
      rw [htext] at hread
      exact ⟨e, by rw [retargetFile, htext], by rw [retargetFile, ← hread]⟩
    | ok text =>
      rw [htext] at hread
      have hsame : Import.retarget (moduleOf u c.root ((source file).parent?.getD ⟨""⟩)) text =
          Import.retarget (moduleOf t c.root ((source file).parent?.getD ⟨""⟩)) text :=
        Import.retarget_eq_of_scan (hnames hscript text htext)
      rw [retargetFile_of_read htext, retargetFile_of_read hread.symm, hsame]
      split
      · exact .inr ⟨t, u, _, rfl, rfl, h⟩
      · rcases h.write hf.compiled hmem (Import.retarget _ text).source with ⟨e, ht, hu⟩ | ⟨t', u', ht, hu, h'⟩
        · exact .inl ⟨e, by rw [ht]; rfl, by rw [hu]; rfl⟩
        · exact .inr ⟨t', u', _, by rw [ht]; rfl, by rw [hu]; rfl, h'⟩
  · rw [if_neg hscript, if_neg hscript]
    exact .inr ⟨t, u, [], rfl, rfl, h⟩

/-- Records are saved alike. -/
theorem save (hf : c.Filed file cs name) (r : Record) :
    c.SameEnd file (r.save t (c.recordPath file)) (r.save u (c.recordPath file)) := by
  have hmem : place (c.recordPath file) ∈ c.outputs file := List.mem_cons_of_mem _ List.mem_cons_self
  unfold Record.save
  rw [makeParent_of_isDirectory hf.record h.there, makeParent_of_isDirectory hf.record h.there']
  dsimp only
  rcases h.write hf.record hmem r.encode with ⟨e, ht, hu⟩ | ⟨t', u', ht, hu, h'⟩
  · rw [ht, hu]
    exact ⟨rfl, h.same⟩
  · rw [ht, hu]
    exact ⟨rfl, h'.same⟩

end Mates

/-! ## The whole way -/

/-- When its directory was made a file is compiled alike. -/
theorem recompile_of_mates {act : Action} {hash : String} {t₁ u₁ : FileTree} (hact : c.Acts file act)
    (hf : c.Filed file cs name) (h : c.Mates file cs t₁ u₁)
    (hread : t₁.read (c.root.join (source file)) = .ok content)
    (hread' : u₁.read (c.root.join (source file)) = .ok content)
    (hparent : t.makeParent (c.root.join (c.destination file)) = (t₁, .ok ()))
    (hparent' : u.makeParent (c.root.join (c.destination file)) = (u₁, .ok ()))
    (hnames : ∀ t₂ u₂, c.transpile file t₁ = (t₂, .ok ()) → c.transpile file u₁ = (u₂, .ok ()) →
      isScript (source file) = true → ∀ text, t₂.read (c.root.join (c.destination file)) = .ok text →
        ∀ i ∈ Import.scan text, c.names file u₂ i.specifier = c.names file t₂ i.specifier) :
    c.SameEnd file (c.recompile file hash t) (c.recompile file hash u) := by
  obtain ⟨hanswer, h₂⟩ := h.transpile hact hf hread hread'
  unfold recompile
  dsimp only
  rw [hparent, hparent']
  dsimp only
  rcases ht : c.transpile file t₁ with ⟨t₂, r⟩
  rcases hu : c.transpile file u₁ with ⟨u₂, r'⟩
  rw [ht, hu] at hanswer h₂
  obtain rfl : r' = r := hanswer
  have hrun := ht
  have hrun' := hu
  unfold transpile at hrun hrun'
  rw [hrun, hrun']
  rcases r' with e | ⟨⟩
  · exact ⟨rfl, h₂.same⟩
  dsimp only
  rcases h₂.retargetImports hf (hnames t₂ u₂ ht hu) with ⟨e, ht₃, hu₃⟩ | ⟨t₃, u₃, is, ht₃, hu₃, h₃⟩
  · rw [ht₃, hu₃]
    exact ⟨rfl, h₂.same⟩
  · rw [ht₃, hu₃]
    obtain ⟨hsaved, hsame⟩ := h₃.save hf ⟨c.destination file, hash, is⟩
    dsimp only
    rcases hrecord : Record.save ⟨c.destination file, hash, is⟩ t₃ (c.recordPath file) with ⟨t₄, r⟩
    rcases hrecord' : Record.save ⟨c.destination file, hash, is⟩ u₃ (c.recordPath file) with ⟨u₄, r'⟩
    rw [hrecord, hrecord'] at hsaved hsame
    obtain rfl : r' = r := hsaved
    rcases r' with e | ⟨⟩
    · exact ⟨rfl, hsame⟩
    · exact ⟨rfl, hsame⟩

theorem recompile_snd_ne_cached {hash : String} : (c.recompile file hash t).2 ≠ .ok .cached := by
  rcases h : c.recompile file hash t with ⟨t', r⟩
  rintro rfl
  exact recompile_ne_cached h

section Elsewhere

variable {act : Action} (hact : c.Acts file act) (hf : c.Filed file cs name) (hp : t.Proper)
  (ho : c.Orderly file t) (hs : t.Steady (c.root.join (c.destination file))) (h : c.Elsewhere file O W t u)
  (halone : ∀ l, O l → t.Alone l)
include hact hf hp ho hs h halone

/-- What a specifier names does not depend on what was touched elsewhere. -/
theorem names_elsewhere {t₁ t₂ u₁ u₂ : FileTree} (hread : t.read (c.root.join (source file)) = .ok content)
    (hread' : u.read (c.root.join (source file)) = .ok content)
    (hparent : t.makeParent (c.root.join (c.destination file)) = (t₁, .ok ()))
    (hparent' : u.makeParent (c.root.join (c.destination file)) = (u₁, .ok ()))
    (htranspiled : c.transpile file t₁ = (t₂, .ok ())) (htranspiled' : c.transpile file u₁ = (u₂, .ok ()))
    {specifier : String}
    (hO : ∀ p ∈ Resolve.probed t₂ c.root ((source file).parent?.getD ⟨""⟩) specifier,
      ¬ (O (place (c.root.join p)) ∨ place (c.root.join p) ∈ c.outputs file))
    (hW : ∀ p ∈ Resolve.probed t₂ c.root ((source file).parent?.getD ⟨""⟩) specifier,
      Past (fun l => (W l ∨ l ∈ c.way file) ∧ t.node? l = none) (c.root.join p)) :
    c.names file u₂ specifier = c.names file t₂ specifier := by
  have ho' := ho.touched h.touched halone
  have hs' := hs.of_directories h.touched.directory
  have both {v v₁ v₂ : FileTree} (hv : c.Orderly file v) (hsteady : v.Steady (c.root.join (c.destination file)))
      (hread : v.read (c.root.join (source file)) = .ok content)
      (hparent : v.makeParent (c.root.join (c.destination file)) = (v₁, .ok ()))
      (htranspiled : c.transpile file v₁ = (v₂, .ok ())) : Touched (· ∈ c.outputs file) (· ∈ c.way file) v v₂ := by
    obtain ⟨hgrows, hv₁⟩ := hv.parent hparent
    have hmade := hact.tidy _ _ _ _ hv₁ (hgrows.read hread) htranspiled
    exact (hf.touched_parent hf.compiled hsteady hv.links hparent).trans (hmade.more outputs_of_target)
  have ht := both ho hs hread hparent htranspiled
  have hu := both ho' hs' hread' hparent' htranspiled'
  have way {k : Location} (hk : k ∈ c.way file) (hO : O k) : t.node? k = some .directory := h.way k hk hO
  have ht₂ : Touched (fun l => O l ∨ l ∈ c.outputs file) (fun l => W l ∨ l ∈ c.way file) t t₂ := by
    refine ht.mono_of_apart (fun _ => .inr) (fun _ => .inr) ?_
    intro l hout hl hk
    rw [way hk (hl.resolve_right hout)]
    nofun
  have hu₂ : Touched (fun l => O l ∨ l ∈ c.outputs file) (fun l => W l ∨ l ∈ c.way file) t u₂ := by
    have hfirst : Touched (fun l => O l ∨ l ∈ c.outputs file) (fun l => W l ∨ l ∈ c.way file) t u := by
      refine h.touched.mono_of_apart (fun _ => .inl) (fun _ => .inl) ?_
      intro l hnot hl
      exact (h.output l (hl.resolve_left hnot)).2
    refine hfirst.trans (hu.mono_of_apart (fun _ => .inr) (fun _ => .inr) ?_)
    intro l hout hl hk
    rw [h.touched.directory l (way hk (hl.resolve_right hout))]
    nofun
  exact moduleOf_eq hp ht₂ hu₂ hO hW

/-- A file that is not up to date is compiled again as it is in the tree as it was. -/
theorem recompile_elsewhere (hread : t.read (c.root.join (source file)) = .ok content)
    (hread' : u.read (c.root.join (source file)) = .ok content)
    (hstale : ¬ c.isCurrent t file (Digest.hash content).toHex = true)
    (hO : ∀ p ∈ c.probes file t, ¬ (O (place (c.root.join p)) ∨ place (c.root.join p) ∈ c.outputs file))
    (hW : ∀ p ∈ c.probes file t, Past (fun l => (W l ∨ l ∈ c.way file) ∧ t.node? l = none) (c.root.join p)) :
    c.SameEnd file (c.recompile file (Digest.hash content).toHex t)
      (c.recompile file (Digest.hash content).toHex u) := by
  have ho' := ho.touched h.touched halone
  have hs' := hs.of_directories h.touched.directory
  have hparent := makeParent_congr hp ho.links ho'.links hf.compiled hs h.touched.directory fun k hk =>
    h.same_way (hf.way_eq ▸ hk)
  rcases ht : t.makeParent (c.root.join (c.destination file)) with ⟨t₁, r⟩
  rcases hu : u.makeParent (c.root.join (c.destination file)) with ⟨u₁, r'⟩
  rw [ht, hu] at hparent
  obtain rfl : r' = r := hparent
  have hsame (l : Location) (hl : l ∈ c.outputs file) : u₁.node? l = t₁.node? l := by
    rw [hf.same_output_parent hf.compiled hs ho.links ht hl, hf.same_output_parent hf.compiled hs' ho'.links hu hl]
    exact h.same_output hl
  rcases r' with e | ⟨⟩
  · -- the attempt ends with the directory that could not be made
    unfold recompile
    dsimp only
    rw [ht, hu]
    exact ⟨rfl, hsame⟩
  · obtain ⟨hgrows, ho₁⟩ := ho.parent ht
    obtain ⟨hgrows', ho₁'⟩ := ho'.parent hu
    have mates : c.Mates file cs t₁ u₁ :=
      ⟨isDirectory_of_makeParent ho.links hf.compiled hs ht, isDirectory_of_makeParent ho'.links hf.compiled hs' hu,
        ho₁, ho₁', hsame⟩
    refine recompile_of_mates hact hf mates (hgrows.read hread) (hgrows'.read hread') ht hu ?_
    intro t₂ u₂ ht₂ hu₂ hscript text htext i hi
    have hprobed {p : Path} (hmem : p ∈ Resolve.probed t₂ c.root ((source file).parent?.getD ⟨""⟩) i.specifier) :
        p ∈ c.probes file t := by
      refine mem_probes hscript ?_ (lookupTree?_eq ht ht₂) htext hi hmem
      rw [compileFile_of_read hread, if_neg hstale]
      exact recompile_snd_ne_cached
    exact names_elsewhere hact hf hp ho hs h halone hread hread' ht hu ht₂ hu₂ (fun p hmem => hO p (hprobed hmem))
      fun p hmem => hW p (hprobed hmem)

/-- A file is compiled in a tree that was touched elsewhere as it is in the tree as it was. -/
theorem compileFile_elsewhere (hfound : file ∈ c.discover t sources)
    (hO : ∀ p ∈ c.probes file t, ¬ (O (place (c.root.join p)) ∨ place (c.root.join p) ∈ c.outputs file))
    (hW : ∀ p ∈ c.probes file t, Past (fun l => (W l ∨ l ∈ c.way file) ∧ t.node? l = none) (c.root.join p)) :
    c.SameEnd file (c.compileFile file t) (c.compileFile file u) := by
  have hsame : ∀ l ∈ c.outputs file, u.node? l = t.node? l := fun l hl => h.same_output hl
  have hread := read_source_congr hp hfound h.touched h.source
  have hcurrent := isCurrent_congr (h.at?_output hf hp hs hf.record (List.mem_cons_of_mem _ List.mem_cons_self))
    (h.at?_output hf hp hs hf.compiled List.mem_cons_self)
  cases hcontent : t.read (c.root.join (source file)) with
  | error e =>
    rw [hcontent] at hread
    rw [compileFile_of_error hcontent, compileFile_of_error hread]
    exact ⟨rfl, hsame⟩
  | ok content =>
    rw [hcontent] at hread
    rw [compileFile_of_read hcontent, compileFile_of_read hread, hcurrent]
    split
    · exact ⟨rfl, hsame⟩
    · next hstale => exact recompile_elsewhere hact hf hp ho hs h halone hcontent hread hstale hO hW

end Elsewhere
end Compiler
end Bundler
