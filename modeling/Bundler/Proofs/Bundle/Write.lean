import Bundler.Bundle.Write
import Bundler.Proofs.Bundle.Script
import Bundler.Proofs.FileTree.Inside
/-!
# Writing chunks beside each other

Chunks are written in steps, and a step of one chunk can come at any time between those of the others. In all that can
be come to, a chunk's file gets the chunk's modules as they could be read, and nothing else is changed: this is the
invariant `Press.Sound`, kept by each step (`Sound.step`). To write them without choices is one way to write them
(`ends_of_writeChunks`); it succeeds exactly where each file can be written and each module can be read while the files
are empty (`writeChunks_ok_iff`).
-/

namespace Bundler.Bundle

open FileTree

variable {root dir : Path} {c : Chunk} {chunks order opened : List Chunk} {t t' u v ready : FileTree} {d d' : Draft}
  {drafts rest : List Draft} {errors : List LinkError} {s s' : Press} {content : Bytes} {A : Location → Prop}

/-- What the file of a chunk holds. -/
def chunkContent (c : Chunk) (text : Path → Bytes) : Bytes :=
  Script.preamble c ++ Script.body text (c.files.map Prod.fst) ++ Script.postamble c

theorem chunkContent_eq_iff {c c' : Chunk} {text text' : Path → Bytes}
    (hstart : c.entrypoint.map (·.module) = c'.entrypoint.map (·.module)) (hloads : c.loads = c'.loads) :
    chunkContent c text = chunkContent c' text' ↔
      Script.body text (c.files.map Prod.fst) = Script.body text' (c'.files.map Prod.fst) := by
  rw [chunkContent, chunkContent, Script.preamble_congr hstart, Script.postamble_congr hstart hloads,
    List.append_left_inj, List.append_right_inj]

/-! ## One chunk -/

namespace Draft

/-- The next module is read, or is the first that cannot be read. -/
theorem read_cases (h : d.read t root = some d') : ∃ module rest, d.unread = module :: rest ∧
    ((∃ source, t.read (root.join module) = .ok source ∧
        d' = { d with text := d.text ++ Script.wrap module source, unread := rest }) ∨
      ∃ e, t.read (root.join module) = .error e ∧
        d' = { d with unread := [], failure := some (.inaccessible module e) }) := by
  unfold read at h
  split at h
  · cases h
  next module rest hunread =>
  split at h
  · next e hread => exact ⟨module, rest, hunread, .inr ⟨e, hread, (Option.some.inj h).symm⟩⟩
  · next source hread => exact ⟨module, rest, hunread, .inl ⟨source, hread, (Option.some.inj h).symm⟩⟩

theorem chunk_read (h : d.read t root = some d') : d'.chunk = d.chunk := by
  obtain ⟨-, -, -, ⟨-, -, rfl⟩ | ⟨-, -, rfl⟩⟩ := read_cases h <;> rfl

theorem read_of_ok {module : Path} {unread : List Path} {source : Bytes} (hunread : d.unread = module :: unread)
    (h : t.read (root.join module) = .ok source) :
    d.read t root = some { d with text := d.text ++ Script.wrap module source, unread } := by
  simp only [read, hunread, h]

theorem read_of_error {module : Path} {unread : List Path} {e : IoError} (hunread : d.unread = module :: unread)
    (h : t.read (root.join module) = .error e) :
    d.read t root = some { d with unread := [], failure := some (.inaccessible module e) } := by
  simp only [read, hunread, h]

/-- A chunk whose file is open stays open when a module is read. -/
theorem exists_open_of_read (turn : drafts.Perm (d :: rest)) (reads : d.read t root = some d') {d₀ : Draft}
    (h : d₀ ∈ drafts) : ∃ d₁ ∈ d' :: rest, d₁.chunk = d₀.chunk := by
  rcases List.mem_cons.1 (turn.mem_iff.1 h) with rfl | hrest
  · exact ⟨d', List.mem_cons_self, chunk_read reads⟩
  · exact ⟨d₀, List.mem_cons_of_mem _ hrest, rfl⟩

theorem bytes_whole (h : (whole t root c).failure = none) :
    (∀ m ∈ c.files, t.read (root.join m.1) = .ok (Script.compiledText t root m.1)) ∧
      (whole t root c).bytes = chunkContent c (Script.compiledText t root) := by
  obtain ⟨hread, htext⟩ := Script.modules_all h
  refine ⟨fun m hm => hread m.1 (List.mem_map_of_mem hm), ?_⟩
  rw [bytes, h, chunkContent, ← htext]
  rfl

theorem whole_of_read (h : ∀ m ∈ c.files, t.read (root.join m.1) = .ok (Script.compiledText t root m.1)) :
    (whole t root c).failure = none := by
  have hread : ∀ module ∈ c.files.map Prod.fst,
      t.read (root.join module) = .ok (Script.compiledText t root module) := by
    intro module hm
    obtain ⟨m, hmem, rfl⟩ := List.mem_map.1 hm
    exact h m hmem
  exact congrArg Prod.snd (Script.modules_of_read hread)

/-- What was read for a chunk so far, of a tree that was changed at some places only. Where no place was changed, it is
what could be read at first. -/
structure Gathered (A : Location → Prop) (root : Path) (t : FileTree) (d : Draft) (sources : List (Path × Bytes)) :
    Prop where
  text : d.text = Script.preamble d.chunk ++ Script.wrapped sources
  kept : ∀ m ∈ sources, ¬ A (place (root.join m.1)) → t.read (root.join m.1) = .ok m.2
  going : d.failure = none → sources.map Prod.fst ++ d.unread = d.chunk.files.map Prod.fst
  stopped : ∀ e, d.failure = some e → d.unread = [] ∧ ∃ module after,
    d.chunk.files.map Prod.fst = sources.map Prod.fst ++ module :: after ∧
      (¬ A (place (root.join module)) → ∀ source, t.read (root.join module) ≠ .ok source)

theorem gathered_new (A : Location → Prop) (root : Path) (t : FileTree) (c : Chunk) : (new c).Gathered A root t [] where
  text := (List.append_nil _).symm
  kept m hm := absurd hm List.not_mem_nil
  going _ := rfl
  stopped e he := by cases he

theorem Gathered.read {sources : List (Path × Bytes)} (h : d.Gathered A root t sources) (hsame : SameBut A t u)
    (hread : d.read u root = some d') : ∃ sources, d'.Gathered A root t sources := by
  have hgoing : d.failure = none := by
    cases hfailure : d.failure with
    | none => rfl
    | some e => simp [Draft.read, (h.stopped e hfailure).1] at hread
  have hpaths := h.going hgoing
  obtain ⟨module, rest, hunread, ⟨source, hmodule, rfl⟩ | ⟨e, hmodule, rfl⟩⟩ := read_cases hread
  · rw [hunread] at hpaths
    refine ⟨sources ++ [(module, source)], ⟨?_, ?_, fun _ => ?_, fun e he => ?_⟩⟩
    · rw [h.text, Script.wrapped_append, List.append_assoc]
    · refine List.forall_mem_append.2 ⟨h.kept, List.forall_mem_singleton.2 fun hnot => ?_⟩
      exact (hsame.read_iff hnot).1 hmodule
    · rw [List.map_append, List.append_assoc]
      exact hpaths
    · rw [hgoing] at he
      cases he
  · rw [hunread] at hpaths
    refine ⟨sources, ⟨h.text, h.kept, nofun,
      fun e' _ => ⟨rfl, module, rest, hpaths.symm, fun hnot source hsource => ?_⟩⟩⟩
    rw [(hsame.read_iff hnot).2 hsource] at hmodule
    cases hmodule

end Draft

/-! ## All that can be come to -/

/-- Whatever is written into the files of some chunks, nothing is changed elsewhere. -/
def Confined (A : Location → Prop) (dir : Path) (chunks : List Chunk) (t : FileTree) : Prop :=
  ∀ c ∈ chunks, ∀ u v content, SameBut A t u → u.write (dir.join ⟨c.fileName⟩) content = .ok v → SameBut A u v

namespace Press

theorem Reaches.trans {a b : Press} (h : Reaches root dir s a) (h' : Reaches root dir a b) : Reaches root dir s b := by
  induction h with
  | refl => exact h'
  | step made _ ih => exact .step made (ih h')

/-- While chunks are written, nothing but their files is changed; and what is to go into the files was read. -/
structure Sound (A : Location → Prop) (root dir : Path) (chunks : List Chunk) (t : FileTree) (s : Press) : Prop where
  same : SameBut A t s.tree
  waits : ∀ c ∈ s.waiting, c ∈ chunks
  drafts : ∀ d ∈ s.drafts, d.chunk ∈ chunks ∧ (∃ v, s.tree.write (d.path dir) [] = .ok v) ∧
    ∃ sources, d.Gathered A root t sources

namespace Sound

theorem start (A : Location → Prop) (root dir : Path) (chunks : List Chunk) (t : FileTree) :
    Sound A root dir chunks t (.start chunks t) := ⟨.refl _ t, fun _ hc => hc, fun _ hd => absurd hd List.not_mem_nil⟩

/-- A chunk whose turn it is is one of those that are written, and so are the others that wait. -/
theorem waits_cons (h : Sound A root dir chunks t s) {rest : List Chunk} (turn : s.waiting.Perm (c :: rest)) :
    c ∈ chunks ∧ ∀ c ∈ rest, c ∈ chunks :=
  List.forall_mem_cons.1 fun c hc => h.waits c (turn.mem_iff.2 hc)

theorem drafts_cons (h : Sound A root dir chunks t s) (turn : s.drafts.Perm (d :: rest)) :
    (d.chunk ∈ chunks ∧ (∃ v, s.tree.write (d.path dir) [] = .ok v) ∧ ∃ sources, d.Gathered A root t sources) ∧
      ∀ d ∈ rest, d.chunk ∈ chunks ∧ (∃ v, s.tree.write (d.path dir) [] = .ok v) ∧
        ∃ sources, d.Gathered A root t sources :=
  List.forall_mem_cons.1 fun d hd => h.drafts d (turn.mem_iff.2 hd)

/-- A file of a chunk is written. -/
theorem wrote (h : Sound A root dir chunks t s) (hconfined : Confined A dir chunks t) (hc : c ∈ chunks)
    (hwrite : s.tree.write (dir.join ⟨c.fileName⟩) content = .ok u) :
    Sound A root dir chunks t { s with tree := u } := by
  have hsame := hconfined c hc _ _ _ h.same hwrite
  refine ⟨h.same.trans hsame, h.waits, fun d hd => ?_⟩
  obtain ⟨hchunk, ⟨v, hopen⟩, hgathered⟩ := h.drafts d hd
  exact ⟨hchunk, hsame.exists_write hopen [], hgathered⟩

theorem step (h : Sound A root dir chunks t s) (hconfined : Confined A dir chunks t) (hstep : Step root dir s s') :
    Sound A root dir chunks t s' := by
  cases hstep with
  | opened turn empties =>
    obtain ⟨hc, hrest⟩ := h.waits_cons turn
    have hsound := h.wrote hconfined hc empties
    refine ⟨hsound.same, hrest, List.forall_mem_append.2 ⟨hsound.drafts, List.forall_mem_singleton.2 ?_⟩⟩
    have hsame := hconfined _ hc _ _ _ h.same empties
    exact ⟨hc, hsame.exists_write empties [], [], Draft.gathered_new A root t _⟩
  | refused turn refuses => exact ⟨h.same, (h.waits_cons turn).2, h.drafts⟩
  | skipped turn failed => exact ⟨h.same, (h.waits_cons turn).2, h.drafts⟩
  | read turn reads =>
    obtain ⟨⟨hchunk, hopen, sources, hgathered⟩, hrest⟩ := h.drafts_cons turn
    refine ⟨h.same, h.waits, List.forall_mem_cons.2 ⟨?_, hrest⟩⟩
    rw [Draft.path, Draft.chunk_read reads]
    exact ⟨hchunk, hopen, hgathered.read h.same reads⟩
  | flushed turn early writes => exact h.wrote hconfined (h.drafts _ turn).1 writes
  | closed turn done writes =>
    have hsound := h.wrote hconfined (h.drafts_cons turn).1.1 writes
    exact ⟨hsound.same, hsound.waits, (hsound.drafts_cons turn).2⟩
  | stuck turn done refuses => exact ⟨h.same, h.waits, (h.drafts_cons turn).2⟩

end Sound

/-- What each step keeps holds at the end. -/
theorem Reaches.induct {P : Press → Prop} (h : Reaches root dir s s')
    (hkeep : ∀ a b, P a → Step root dir a b → P b) (hs : P s) : P s' := by
  induction h with
  | refl => exact hs
  | step made _ ih => exact ih (hkeep _ _ hs made)

end Press

/-! ## Without choices -/

theorem openAll_nil : openAll dir [] t = (t, [], []) := rfl

theorem closeAll_nil : closeAll dir [] t = (t, []) := rfl

-- As with reading modules, writing is sealed for the length limit.
seal FileTree.write in
theorem openAll_cons (c : Chunk) (rest : List Chunk) (t : FileTree) : openAll dir (c :: rest) t =
    match t.write (dir.join ⟨c.fileName⟩) [] with
    | .error e => ((openAll dir rest t).1, (openAll dir rest t).2.1,
        .inaccessible (dir.join ⟨c.fileName⟩) e :: (openAll dir rest t).2.2)
    | .ok u => ((openAll dir rest u).1, c :: (openAll dir rest u).2.1, (openAll dir rest u).2.2) := rfl

seal FileTree.write in
theorem closeAll_cons (d : Draft) (rest : List Draft) (t : FileTree) : closeAll dir (d :: rest) t =
    match t.write (d.path dir) d.bytes with
    | .error e => ((closeAll dir rest t).1, d.refusal dir e :: (closeAll dir rest t).2)
    | .ok u => ((closeAll dir rest u).1, d.failure.toList ++ (closeAll dir rest u).2) := rfl

theorem openAll_of_write {rest : List Chunk} (h : t.write (dir.join ⟨c.fileName⟩) [] = .ok u) :
    openAll dir (c :: rest) t =
      ((openAll dir rest u).1, c :: (openAll dir rest u).2.1, (openAll dir rest u).2.2) := by
  rw [openAll_cons, h]

theorem closeAll_of_write (h : t.write (d.path dir) d.bytes = .ok u) :
    closeAll dir (d :: rest) t = ((closeAll dir rest u).1, d.failure.toList ++ (closeAll dir rest u).2) := by
  rw [closeAll_cons, h]

theorem writeChunks_eq : writeChunks root dir chunks t =
    ((closeAll dir ((openAll dir chunks t).2.1.map (Draft.whole (openAll dir chunks t).1 root))
        (openAll dir chunks t).1).1,
      Press.verdict ((openAll dir chunks t).2.2 ++
        (closeAll dir ((openAll dir chunks t).2.1.map (Draft.whole (openAll dir chunks t).1 root))
          (openAll dir chunks t).1).2)) := rfl

theorem verdict_ok_iff : Press.verdict errors = .ok () ↔ errors = [] := by
  cases errors <;> simp [Press.verdict]

namespace Press

theorem reaches_openAll (chunks : List Chunk) (s : Press) (h : s.waiting = chunks) : Reaches root dir s
    ⟨(openAll dir chunks s.tree).1, [], s.drafts ++ (openAll dir chunks s.tree).2.1.map .new,
      s.errors ++ (openAll dir chunks s.tree).2.2⟩ := by
  induction chunks generalizing s with
  | nil =>
    rw [openAll_nil, List.map_nil, List.append_nil, List.append_nil, ← h]
    exact .refl s
  | cons c rest ih =>
    have turn : s.waiting.Perm (c :: rest) := h ▸ .refl _
    rw [openAll_cons]
    cases hempty : s.tree.write (dir.join ⟨c.fileName⟩) [] with
    | error e =>
      have hrest := ih { s with waiting := rest, errors := s.errors ++ [.inaccessible (dir.join ⟨c.fileName⟩) e] } rfl
      rw [List.append_assoc] at hrest
      exact .step (.refused turn hempty) hrest
    | ok u =>
      have hrest := ih { s with tree := u, waiting := rest, drafts := s.drafts ++ [.new c] } rfl
      rw [List.append_assoc] at hrest
      exact .step (.opened turn hempty) hrest

/-- The modules of a chunk are read one after the other. -/
theorem reaches_modules (unread : List Path) {text : Bytes} (s : Press)
    (h : s.drafts.Perm (⟨c, text, unread, none⟩ :: rest)) : ∃ drafts, Reaches root dir s { s with drafts } ∧
      drafts.Perm
        (⟨c, text ++ (Script.modules s.tree root unread).1, [], (Script.modules s.tree root unread).2⟩ :: rest) := by
  induction unread generalizing s text with
  | nil =>
    rw [Script.modules_nil, List.append_nil]
    exact ⟨s.drafts, .refl s, h⟩
  | cons module unread ih =>
    rw [Script.modules_cons]
    cases hread : s.tree.read (root.join module) with
    | error e =>
      dsimp only
      rw [List.append_nil]
      exact ⟨_, .step (.read h (Draft.read_of_error rfl hread)) (.refl _), .refl _⟩
    | ok source =>
      obtain ⟨drafts, hrest, hperm⟩ :=
        ih { s with drafts := ⟨c, text ++ Script.wrap module source, unread, none⟩ :: rest } (.refl _)
      refine ⟨drafts, Reaches.step (.read h (Draft.read_of_ok rfl hread)) hrest, ?_⟩
      rw [List.append_assoc] at hperm
      exact hperm

theorem reaches_whole (opened : List Chunk) (rest : List Draft) (s : Press)
    (h : s.drafts.Perm (opened.map .new ++ rest)) : ∃ drafts, Reaches root dir s { s with drafts } ∧
      drafts.Perm (opened.map (.whole s.tree root) ++ rest) := by
  induction opened generalizing s rest with
  | nil => exact ⟨s.drafts, .refl s, by simpa using h⟩
  | cons c opened ih =>
    obtain ⟨drafts, hfirst, hperm⟩ := reaches_modules (c.files.map Prod.fst) s h
    obtain ⟨drafts', hothers, hperm'⟩ := ih (.whole s.tree root c :: rest) { s with drafts }
      (hperm.trans List.perm_middle.symm)
    exact ⟨drafts', hfirst.trans hothers, hperm'.trans List.perm_middle⟩

theorem reaches_closeAll (drafts : List Draft) (s : Press) (h : s.drafts.Perm drafts)
    (hread : ∀ d ∈ drafts, d.unread = []) : Reaches root dir s
      ⟨(closeAll dir drafts s.tree).1, s.waiting, [], s.errors ++ (closeAll dir drafts s.tree).2⟩ := by
  induction drafts generalizing s with
  | nil =>
    rw [closeAll_nil, List.append_nil, ← h.eq_nil]
    exact .refl s
  | cons d rest ih =>
    rw [List.forall_mem_cons] at hread
    rw [closeAll_cons]
    cases hwrite : s.tree.write (d.path dir) d.bytes with
    | error e =>
      have hrest := ih { s with drafts := rest, errors := s.errors ++ [d.refusal dir e] } (.refl _) hread.2
      rw [List.append_assoc] at hrest
      exact .step (.stuck h hread.1 hwrite) hrest
    | ok u =>
      have hrest := ih { s with tree := u, drafts := rest, errors := s.errors ++ d.failure.toList } (.refl _) hread.2
      rw [List.append_assoc] at hrest
      exact .step (.closed h hread.1 hwrite) hrest

end Press

/-- To write chunks without choices is one way to write them beside each other. -/
theorem ends_of_writeChunks (root dir : Path) (chunks : List Chunk) (t : FileTree) :
    ∃ errors, Ends root dir chunks t (writeChunks root dir chunks t).1 errors ∧
      (writeChunks root dir chunks t).2 = Press.verdict errors := by
  have hopen : Press.Reaches root dir (.start chunks t)
      ⟨(openAll dir chunks t).1, [], (openAll dir chunks t).2.1.map .new, (openAll dir chunks t).2.2⟩ :=
    Press.reaches_openAll chunks (.start chunks t) rfl
  rw [writeChunks_eq]
  generalize openAll dir chunks t = all at hopen ⊢
  obtain ⟨ready, opened, refused⟩ := all
  obtain ⟨drafts, hread, hperm⟩ : ∃ drafts, Press.Reaches root dir ⟨ready, [], opened.map .new, refused⟩
      ⟨ready, [], drafts, refused⟩ ∧ drafts.Perm (opened.map (.whole ready root) ++ []) :=
    Press.reaches_whole opened [] _ (by rw [List.append_nil])
  rw [List.append_nil] at hperm
  have hclose : Press.Reaches root dir ⟨ready, [], drafts, refused⟩ _ :=
    Press.reaches_closeAll (opened.map (.whole ready root)) ⟨ready, [], drafts, refused⟩ hperm
      (List.forall_mem_map.2 fun _ _ => rfl)
  exact ⟨_, (hopen.trans hread).trans hclose, rfl⟩

/-- The chunks may be listed in another order. -/
theorem Ends.of_perm (hperm : chunks.Perm order) (h : Ends root dir order t u errors) :
    Ends root dir chunks t u errors := by
  unfold Ends at h ⊢
  -- nothing is begun, so the first step takes a chunk that waits
  cases h with
  | refl => rw [hperm.eq_nil]; exact .refl _
  | step made rest =>
    cases made with
    | opened turn empties => exact .step (.opened (hperm.trans turn) empties) rest
    | refused turn refuses => exact .step (.refused (hperm.trans turn) refuses) rest
    | skipped turn failed => exact absurd rfl failed
    | read turn _ => cases turn.nil_eq
    | flushed turn _ _ => cases turn
    | closed turn _ _ => cases turn.nil_eq
    | stuck turn _ _ => cases turn.nil_eq

/-- Other chunks may wait all the time. -/
theorem Press.Reaches.waiting_append (h : Press.Reaches root dir s s') (more : List Chunk) :
    Press.Reaches root dir { s with waiting := s.waiting ++ more } { s' with waiting := s'.waiting ++ more } := by
  induction h with
  | refl => exact .refl _
  | step made _ ih =>
    refine .step ?_ ih
    cases made with
    | opened turn empties => exact .opened (turn.append_right more) empties
    | refused turn refuses => exact .refused (turn.append_right more) refuses
    | skipped turn failed => exact .skipped (turn.append_right more) failed
    | read turn reads => exact .read turn reads
    | flushed turn early writes => exact .flushed turn early writes
    | closed turn done writes => exact .closed turn done writes
    | stuck turn done refuses => exact .stuck turn done refuses

/-- Chunks may be written one after the other. -/
theorem Ends.cons (h : Ends root dir [c] t v []) (hrest : Ends root dir order v u errors) :
    Ends root dir (c :: order) t u errors := (h.waiting_append order).trans hrest

/-! ## Success -/

theorem opened_of_nil (h : (openAll dir chunks t).2.2 = []) : (openAll dir chunks t).2.1 = chunks := by
  induction chunks generalizing t with
  | nil => rfl
  | cons c rest ih =>
    rw [openAll_cons] at h ⊢
    split at h
    · cases h
    · exact congrArg (c :: ·) (ih h)

/-- Files that can be closed are closed one after the other. -/
theorem closeAll_append {before after : List Draft} (h : closeAll dir (before ++ after) t = (t', [])) :
    ∃ u, closeAll dir before t = (u, []) ∧ closeAll dir after u = (t', []) := by
  induction before generalizing t with
  | nil => exact ⟨t, rfl, h⟩
  | cons d before ih =>
    rw [List.cons_append, closeAll_cons] at h
    split at h
    · cases h
    next v hwrite =>
    obtain ⟨rfl, herrors⟩ := Prod.mk.inj h
    obtain ⟨hfailure, hrest⟩ := List.append_eq_nil_iff.1 herrors
    obtain ⟨u, hbefore, hafter⟩ := ih (Prod.ext rfl hrest)
    refine ⟨u, ?_, hafter⟩
    rw [closeAll_of_write hwrite, hbefore, hfailure]
    rfl

theorem closeAll_first (h : closeAll dir (d :: rest) t = (t', [])) :
    ∃ u, closeAll dir [d] t = (u, []) ∧ closeAll dir rest u = (t', []) :=
  closeAll_append (show closeAll dir ([d] ++ rest) t = _ from h)

theorem closeAll_singleton_iff : closeAll dir [d] t = (t', []) ↔
    d.failure = none ∧ t.write (d.path dir) d.bytes = .ok t' := by
  rw [closeAll_cons]
  cases t.write (d.path dir) d.bytes with
  | error e => simp
  | ok u => simp [closeAll_nil, and_comm]

theorem failure_of_closeAll (h : closeAll dir drafts t = (t', [])) : ∀ d ∈ drafts, d.failure = none := by
  intro d hd
  obtain ⟨before, after, rfl⟩ := List.append_of_mem hd
  obtain ⟨u, -, hrest⟩ := closeAll_append h
  obtain ⟨v, hown, -⟩ := closeAll_first hrest
  exact (closeAll_singleton_iff.1 hown).1

/-- Chunks are written without an error when all files can be opened, all modules can be read then, and all files can
be closed. -/
theorem writeChunks_ok_iff : writeChunks root dir chunks t = (t', .ok ()) ↔ ∃ ready,
    openAll dir chunks t = (ready, chunks, []) ∧
      (∀ c ∈ chunks, ∀ m ∈ c.files, ready.read (root.join m.1) = .ok (Script.compiledText ready root m.1)) ∧
      closeAll dir (chunks.map (.whole ready root)) ready = (t', []) := by
  constructor
  · intro h
    obtain ⟨htree, hverdict⟩ := Prod.mk.inj (writeChunks_eq.symm.trans h)
    obtain ⟨hrefused, hfailed⟩ := List.append_eq_nil_iff.1 (verdict_ok_iff.1 hverdict)
    have hopened := opened_of_nil hrefused
    rw [hopened] at htree hfailed
    have hclose :
        closeAll dir (chunks.map (.whole (openAll dir chunks t).1 root)) (openAll dir chunks t).1 = (t', []) :=
      Prod.ext htree hfailed
    refine ⟨_, Prod.ext rfl (Prod.ext hopened hrefused), fun c hc => ?_, hclose⟩
    exact (Draft.bytes_whole (failure_of_closeAll hclose _ (List.mem_map_of_mem hc))).1
  · rintro ⟨ready, hopen, -, hclose⟩
    rw [writeChunks_eq, hopen]
    dsimp only
    rw [hclose]
    rfl

theorem ends_of_writeChunks_ok (h : writeChunks root dir chunks t = (u, .ok ())) : Ends root dir chunks t u [] := by
  obtain ⟨errors, hends, hverdict⟩ := ends_of_writeChunks root dir chunks t
  rw [h] at hends hverdict
  rwa [verdict_ok_iff.1 hverdict.symm] at hends

/-- The file of a chunk is emptied, and then it is filled with the modules as they are read. -/
theorem writeChunks_singleton_iff : writeChunks root dir [c] t = (t', .ok ()) ↔
    ∃ ready, t.write (dir.join ⟨c.fileName⟩) [] = .ok ready ∧
      (∀ m ∈ c.files, ready.read (root.join m.1) = .ok (Script.compiledText ready root m.1)) ∧
      ready.write (dir.join ⟨c.fileName⟩) (chunkContent c (Script.compiledText ready root)) = .ok t' := by
  rw [writeChunks_ok_iff]
  refine exists_congr fun ready => ?_
  have hopen : openAll dir [c] t = (ready, [c], []) ↔ t.write (dir.join ⟨c.fileName⟩) [] = .ok ready := by
    rw [openAll_cons]
    cases t.write (dir.join ⟨c.fileName⟩) [] <;> simp [openAll_nil]
  rw [hopen, List.forall_mem_singleton, List.map_singleton, closeAll_singleton_iff]
  refine and_congr_right fun _ => and_congr_right fun hread => ?_
  have hwhole := Draft.whole_of_read hread
  rw [(Draft.bytes_whole hwhole).2]
  exact and_iff_right hwhole

/-- The file of a chunk is torn where its modules cannot be read. -/
theorem writeChunks_of_unread {text : Bytes} {e : LinkError} (hempty : t.write (dir.join ⟨c.fileName⟩) [] = .ok ready)
    (hmodules : Script.modules ready root (c.files.map Prod.fst) = (text, some e))
    (hfill : ready.write (dir.join ⟨c.fileName⟩) (Script.preamble c ++ text) = .ok u) :
    writeChunks root dir [c] t = (u, .error e) := by
  have hopen : openAll dir [c] t = (ready, [c], []) := openAll_of_write hempty
  have hwhole : Draft.whole ready root c = ⟨c, Script.preamble c ++ text, [], some e⟩ := by rw [Draft.whole, hmodules]
  have hclose : closeAll dir [⟨c, Script.preamble c ++ text, [], some e⟩] ready = (u, [e]) := by
    exact closeAll_of_write hfill
  rw [writeChunks_eq, hopen]
  dsimp only
  rw [List.map_singleton, hwhole, hclose]
  rfl

/-! ## What can be written -/

section Writable

variable (hconfined : Confined A dir chunks t) (hopen : ∀ c ∈ chunks, ∃ v, t.write (dir.join ⟨c.fileName⟩) [] = .ok v)
include hconfined hopen

theorem exists_openAll (hsame : SameBut A t u) (hopened : ∀ c ∈ opened, c ∈ chunks) :
    ∃ ready, openAll dir opened u = (ready, opened, []) ∧ SameBut A t ready := by
  induction opened generalizing u with
  | nil => exact ⟨u, rfl, hsame⟩
  | cons c rest ih =>
    rw [List.forall_mem_cons] at hopened
    obtain ⟨v, hfirst⟩ := hopen c hopened.1
    obtain ⟨w, hempty⟩ := hsame.exists_write hfirst []
    obtain ⟨ready, hrest, hready⟩ := ih (hsame.trans (hconfined c hopened.1 u w [] hsame hempty)) hopened.2
    refine ⟨ready, ?_, hready⟩
    rw [openAll_of_write hempty, hrest]

theorem exists_closeAll (hsame : SameBut A t u) (hdrafts : ∀ d ∈ drafts, d.chunk ∈ chunks ∧ d.failure = none) :
    ∃ v, closeAll dir drafts u = (v, []) ∧ SameBut A t v := by
  induction drafts generalizing u with
  | nil => exact ⟨u, rfl, hsame⟩
  | cons d rest ih =>
    rw [List.forall_mem_cons] at hdrafts
    obtain ⟨⟨hchunk, hwhole⟩, hrest⟩ := hdrafts
    obtain ⟨v, hfirst⟩ := hopen d.chunk hchunk
    obtain ⟨w, hfill⟩ := hsame.exists_write hfirst d.bytes
    obtain ⟨last, hclosed, hlast⟩ := ih (hsame.trans (hconfined d.chunk hchunk u w _ hsame hfill)) hrest
    refine ⟨last, ?_, hlast⟩
    rw [closeAll_of_write hfill, hclosed, hwhole]
    rfl

/-- Where the files of the chunks can be written and their modules can be read, the chunks are written. -/
theorem exists_writeChunks
    (hread : ∀ c ∈ chunks, ∀ m ∈ c.files, ∃ source, t.read (root.join m.1) = .ok source) :
    ∃ u, writeChunks root dir chunks t = (u, .ok ()) ∧ SameBut A t u := by
  obtain ⟨ready, hopened, hready⟩ := exists_openAll hconfined hopen (.refl A t) fun _ hc => hc
  have hmodules (c : Chunk) (hc : c ∈ chunks) (m : Path × String) (hm : m ∈ c.files) :
      ready.read (root.join m.1) = .ok (Script.compiledText ready root m.1) := by
    obtain ⟨source, hsource⟩ := hread c hc m hm
    obtain ⟨content, hcontent⟩ := hready.exists_read hsource
    rw [hcontent, Script.compiledText_of_read hcontent]
  have hwhole (c : Chunk) (hc : c ∈ chunks) : (Draft.whole ready root c).failure = none :=
    Draft.whole_of_read (hmodules c hc)
  have hdrafts : ∀ d ∈ chunks.map (Draft.whole ready root), d.chunk ∈ chunks ∧ d.failure = none :=
    List.forall_mem_map.2 fun c hc => ⟨hc, hwhole c hc⟩
  obtain ⟨u, hclosed, hu⟩ := exists_closeAll hconfined hopen hready hdrafts
  exact ⟨u, writeChunks_ok_iff.2 ⟨ready, hopened, hmodules, hclosed⟩, hu⟩

end Writable

end Bundler.Bundle
