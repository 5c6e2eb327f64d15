import Bundler.Proofs.Compile.Schedule
/-!
# A report is about all files

A run over the files of a tree that answers with a report has compiled each of them, once, and none of them failed
(`report_complete`). A task that skips its file ends as well as one that compiles it, but a file is skipped only after
an error of the run was noted. Nothing is asked of what compiling a file does: files may get in each other's way, fail
and panic, and the caller may cancel at any time.
-/

namespace Bundler.Compiler

open Run (Reaches Returned StartedAt startedIn replay)

variable {c : Compiler} {t : FileTree} {files : List SourceFile} {f : SourceFile} {id : TaskId} {ids : List TaskId}
  {p : Progress} {s : Run Progress Empty} {report : CompileReport}

/-- What compiling a file comes to, for each of the numbered files. -/
abbrev Compiling := TaskId → SourceFile → FileTree → FileTree × Except (Failure CompileError) Compiled

/-- What the tasks of files do, whatever it is that compiles a file. -/
def taskOf (compile : Compiling) (files : List SourceFile) : Work Progress Empty :=
  fun cancelled id progress =>
    if cancelled then (progress, .ok ())
    else
      match files[id]? with
      | none => (progress, .ok ())
      | some file =>
        match compile id file progress.tree with
        | (tree, .ok .cached) =>
          let report := { progress.report with cached := progress.report.cached + 1 }
          ({ progress with tree, report }, .ok ())
        | (tree, .ok (.fresh _)) =>
          let report := { progress.report with compiled := progress.report.compiled + 1 }
          ({ progress with tree, report }, .ok ())
        | (tree, .error (.error e)) =>
          ({ progress with tree, errors := progress.errors ++ [e] }, .ok ())
        | (tree, .error (.panic p)) => ({ progress with tree }, .error (.panic p))

theorem task_eq (c : Compiler) (files : List SourceFile) : c.task files = taskOf (fun _ => c.compileFile) files := by
  unfold task taskOf
  rfl

variable {compile : Compiling}

/-! ## What is counted -/

/-- How many files a report counts. -/
def total (report : CompileReport) : Nat := report.compiled + report.cached

/-- A task that ends well and notes no error has compiled its file, and counts it. -/
theorem counted_of_taskOf (hf : files[id]? = some f) (hanswer : (taskOf compile files false id p).2 = .ok ())
    (herrors : (taskOf compile files false id p).1.errors = []) :
    p.errors = [] ∧ (∃ x, compile id f p.tree = ((taskOf compile files false id p).1.tree, .ok x)) ∧
      total (taskOf compile files false id p).1.report = total p.report + 1 := by
  unfold taskOf at hanswer herrors ⊢
  rw [if_neg Bool.false_ne_true, hf] at hanswer herrors ⊢
  dsimp only at hanswer herrors ⊢
  rcases hmade : compile id f p.tree with ⟨u, (e | panic) | (_ | imports)⟩ <;> rw [hmade] at hanswer herrors
  · exact absurd (List.append_eq_nil_iff.1 herrors).2 (List.cons_ne_nil _ _)
  · cases hanswer
  · exact ⟨herrors, ⟨_, rfl⟩, (Nat.add_assoc _ _ _).symm⟩
  · exact ⟨herrors, ⟨_, rfl⟩, Nat.add_right_comm _ _ _⟩

/-- Tasks that all end well, and of which none notes an error, have compiled their files, and count them. -/
theorem counted_of_replay (hids : ∀ id ∈ ids, id < files.length)
    (hanswers : ∀ id before, id :: before <:+ ids →
      (taskOf compile files false id (replay (taskOf compile files) before p)).2 = .ok ())
    (herrors : (replay (taskOf compile files) ids p).errors = []) :
    total (replay (taskOf compile files) ids p).report = total p.report + ids.length ∧
      ∀ id before f, id :: before <:+ ids → files[id]? = some f →
        ∃ x, (compile id f (replay (taskOf compile files) before p).tree).2 = .ok x := by
  induction ids with
  | nil => exact ⟨rfl, fun id before f h => absurd (List.suffix_nil.1 h) (List.cons_ne_nil _ _)⟩
  | cons first rest ih =>
    rw [List.forall_mem_cons] at hids
    obtain ⟨g, hg⟩ : ∃ g, files[first]? = some g := ⟨_, List.getElem?_eq_getElem hids.1⟩
    obtain ⟨hbefore, ⟨x, hmade⟩, hcount⟩ := counted_of_taskOf hg (hanswers first rest List.suffix_rfl) herrors
    obtain ⟨hcounts, hall⟩ :=
      ih hids.2 (fun id before h => hanswers id before (h.trans (List.suffix_cons first rest))) hbefore
    constructor
    · rw [Run.replay_cons, hcount, hcounts, List.length_cons, Nat.add_assoc]
    · intro id before f hsuffix hf
      rcases List.suffix_cons_iff.1 hsuffix with heq | hsuffix
      · cases heq
        rw [hg] at hf
        cases hf
        exact ⟨x, congrArg Prod.snd hmade⟩
      · exact hall id before f hsuffix hf

/-! ## Reports -/

/-- What is true of a run that answers with a report: the task of each file was started, once, where nothing had told it
to stop, and compiling the file went well; and the report counts all files. -/
structure Whole (c : Compiler) (compile : Compiling) (files : List SourceFile) (start s : Run Progress Empty)
    (report : CompileReport) : Prop where
  once : (startedIn s.history).Perm (List.range files.length)
  made : ∀ id f, files[id]? = some f → ∃ u, StartedAt (c.graph files) (taskOf compile files) start s id u ∧
    u.token = false ∧ ∃ x, (compile id f u.world.tree).2 = .ok x
  counted : report.compiled + report.cached = files.length

/-- On the way of a run the task of a file is started that is skipped, or fails, or panics. -/
def Fails (c : Compiler) (compile : Compiling) (files : List SourceFile) (start s : Run Progress Empty) : Prop :=
  ∃ id f u, files[id]? = some f ∧ StartedAt (c.graph files) (taskOf compile files) start s id u ∧
    (u.token = true ∨ ∀ x, (compile id f u.world.tree).2 ≠ .ok x)

section Run

variable {cancelled : Bool}
  (h : Reaches (c.graph files) (taskOf compile files) (startRun cancelled t) s) (hreturned : s.Returned)
include h hreturned

/-- Wherever a run that answers with a report has started a task, it went well. -/
theorem made_of_report (hanswer : conclude s = .ok report) :
    (startedIn s.history).Perm (List.range files.length) ∧ total report = files.length ∧
      ∀ id f u, files[id]? = some f → StartedAt (c.graph files) (taskOf compile files) (startRun cancelled t) s id u →
        u.token = false ∧ ∃ x, (compile id f u.world.tree).2 = .ok x := by
  obtain ⟨phase, herrors, rfl⟩ := of_conclude hreturned hanswer
  obtain ⟨hperm, hworld⟩ := ran_all h phase
  rw [hworld] at herrors
  obtain ⟨hcount, hmade⟩ := counted_of_replay (fun id hid => List.mem_range.1 (hperm.mem_iff.1 hid))
    (fun id before hsuffix => Run.ok_of_started h phase hsuffix) herrors
  refine ⟨hperm, ?_, fun id f u hf hstart => ?_⟩
  · rw [hworld, hcount, hperm.length_eq, List.length_range]
    exact Nat.zero_add _
  · have hstarted := hstart.suffix
    obtain ⟨v, i, hu, -, made, hafter⟩ := hstart
    have hbefore := (Run.step_of_move made).token (hafter.token (Run.token_of_ok h phase))
    rw [hu.world_eq hbefore]
    exact ⟨hbefore, hmade id _ f hstarted hf⟩

theorem whole_of_report (hanswer : conclude s = .ok report) :
    Whole c compile files (startRun cancelled t) s report := by
  obtain ⟨hperm, hcount, hmade⟩ := made_of_report h hreturned hanswer
  refine ⟨hperm, fun id f hf => ?_, hcount⟩
  obtain ⟨hid, -⟩ := List.getElem?_eq_some_iff.1 hf
  obtain ⟨u, hu⟩ := Run.exists_startedAt h (Run.mem_startedIn.1 (hperm.mem_iff.2 (List.mem_range.2 hid)))
  exact ⟨u, hu, hmade id f u hf hu⟩

theorem error_of_fails (hfails : Fails c compile files (startRun cancelled t) s) : ∃ e, conclude s = .error e := by
  cases hanswer : conclude s with
  | error e => exact ⟨e, rfl⟩
  | ok report =>
    obtain ⟨id, f, u, hf, hstart, hbad⟩ := hfails
    obtain ⟨htoken, x, hx⟩ := (made_of_report h hreturned hanswer).2.2 id f u hf hstart
    rcases hbad with hskipped | hfailed
    · rw [htoken] at hskipped
      cases hskipped
    · exact absurd hx (hfailed x)

end Run

/-- A compilation that was cancelled or is not complete is never reported as a success. Whatever compiling a file comes
to, whenever the caller cancels and whoever's turn it is at each step: a run that answers with a report has compiled
every file, once, and counts all of them; and where a file was skipped, failed or panicked, the answer is an error. What
a tree is compiled by is one of these runs. -/
theorem report_complete (c : Compiler) (cancelled : Bool) (t : FileTree) :
    (∀ compile files s, Reaches (c.graph files) (taskOf compile files) (startRun cancelled t) s → s.Returned →
      (∀ report, conclude s = .ok report → Whole c compile files (startRun cancelled t) s report) ∧
        (Fails c compile files (startRun cancelled t) s → ∃ e, conclude s = .error e)) ∧
    ∀ sources, ∃ s, Reaches (c.graph (c.discover t sources))
        (taskOf (fun _ => c.compileFile) (c.discover t sources)) (startRun cancelled t) s ∧
      s.Returned ∧ c.compileTree sources cancelled t = (s.world.tree, conclude s) :=
  ⟨fun _ _ _ h hreturned => ⟨fun _ => whole_of_report h hreturned, error_of_fails h hreturned⟩,
    fun _ => ⟨_, Run.reaches_solve _ _ _ _ _, Run.solve_returns _ _ _ _ _, rfl⟩⟩

/-! ## A caller that cancels -/

/-- Two scripts. -/
def twoScripts : List SourceFile := [(⟨"src"⟩, ⟨"a.js"⟩), (⟨"src"⟩, ⟨"b.js"⟩)]

/-- Both are up to date. -/
def upToDate : Compiling := fun _ _ tree => (tree, .ok .cached)

/-- The run over them without choices, after so many steps; the caller cancels as soon as both were handed over. -/
def cancelledAfter (n : Nat) : Run Progress Empty :=
  Run.continue_ (copier.graph twoScripts) (taskOf upToDate twoScripts) (fun s => s.inFlight.length = 2) n
    (startRun false ⟨[], [], []⟩)

/-- Where nobody cancels, both scripts are compiled and counted. Where the caller cancels while the first one is
compiled, the second one is skipped, and the answer is an error although no task failed. -/
theorem report_complete_cancelled :
    (∃ s, conclude s = .ok ⟨0, 2⟩ ∧ Whole copier upToDate twoScripts (startRun false ⟨[], [], []⟩) s ⟨0, 2⟩) ∧
      Fails copier upToDate twoScripts (startRun false ⟨[], [], []⟩) (cancelledAfter 17) ∧
      (cancelledAfter 17).world.report = ⟨0, 1⟩ ∧ ∃ e, conclude (cancelledAfter 17) = .error e := by
  have hreaches (n : Nat) : Reaches (copier.graph twoScripts) (taskOf upToDate twoScripts)
      (startRun false ⟨[], [], []⟩) (cancelledAfter n) := Run.reaches_continue _ _ _ n _
  have hcomplete := (report_complete copier false ⟨[], [], []⟩).1 upToDate twoScripts
  constructor
  · have hanswer : conclude (Run.solve (copier.graph twoScripts) (taskOf upToDate twoScripts) (fun _ => false) false
        ⟨⟨[], [], []⟩, [], ⟨0, 0⟩⟩) = .ok ⟨0, 2⟩ := rfl
    exact ⟨_, hanswer, (hcomplete _ (Run.reaches_solve _ _ _ _ _) (Run.solve_returns _ _ _ _ _)).1 _ hanswer⟩
  · have hlaunch : (cancelledAfter 13).move (copier.graph twoScripts) (taskOf upToDate twoScripts) (.launch 0) =
        some (cancelledAfter 14) := rfl
    have hafter : cancelledAfter 17 = Run.continue_ (copier.graph twoScripts) (taskOf upToDate twoScripts)
        (fun s => s.inFlight.length = 2) 3 (cancelledAfter 14) := rfl
    have hfails : Fails copier upToDate twoScripts (startRun false ⟨[], [], []⟩) (cancelledAfter 17) :=
      ⟨1, (⟨"src"⟩, ⟨"b.js"⟩), cancelledAfter 13, rfl,
        ⟨_, 0, hreaches 13, rfl, hlaunch, hafter ▸ Run.reaches_continue _ _ _ 3 _⟩, .inl rfl⟩
    exact ⟨hfails, rfl, (hcomplete _ (hreaches 17) ⟨_, rfl⟩).2 hfails⟩

end Bundler.Compiler
