import Sokoban.Host.Memory
import Sokoban.Proofs.Check.FileNames
import Sokoban.Proofs.Host.Logged

/-!
# Checks that share no file

The checks of the pairs of a board may run at the same time, because each of them reads and writes
files of its own. A board is checked on a host that is watched, which does the same as unwatched.
-/

namespace Sokoban

variable {σ τ : Type}

namespace Decomposer

variable [Journal (StateM σ)] [Clock (StateM σ)] [Journal (StateM τ)] [Clock (StateM τ)]
  {R : σ → τ → Prop} {d : Decomposer (StateM σ)} {d' : Decomposer (StateM τ)}

/-- The same board is to be checked on two hosts, on which the checkers do alike. -/
structure Corresponds (R : σ → τ → Prop) (d : Decomposer (StateM σ)) (d' : Decomposer (StateM τ)) :
    Prop where
  board : d'.board = d.board
  limit : d'.limit = d.limit
  stem : d'.stem = d.stem
  check : ∀ s index, Alike R (d.checker.check s (d.stemOf index)).run
    (d'.checker.check s (d.stemOf index)).run
  record : JournalsAlike R
  now : ClocksAlike R

namespace Corresponds

theorem stemOf_eq (h : d.Corresponds R d') (index : Nat) : d'.stemOf index = d.stemOf index := by
  rw [Decomposer.stemOf, Decomposer.stemOf, h.stem]

theorem jobs (h : d.Corresponds R d') : Alike R d.jobs.run d'.jobs.run := by
  unfold Decomposer.jobs Decomposer.models Session.pairs Session.compilePair
  rw [h.board, h.limit]
  refine Alike.bind_run (.bind_run ?_ fun pairs => ?_) fun _ => .pure _
  · exact .bind_run (h.record.recordAll _) fun _ => .pure _
  · refine .mapM_run (fun pair => .bind_run (.during _ ?_) fun _ => .pure _) pairs
    exact .bind_run (.ofResult _) fun s => .bind_run (h.record.recordAll _) fun _ => .pure _

theorem consult (h : d.Corresponds R d') (job : Job) :
    Alike R (d.consult job).run (d'.consult job).run := by
  unfold Decomposer.consult
  rw [h.stemOf_eq]
  exact (h.check _ _).during _

theorem conclude (h : d.Corresponds R d') (job : Job) (report : Report) :
    Alike R (Decomposer.conclude job report : ExceptT Fault (StateM σ) PairReport).run
      (Decomposer.conclude job report).run :=
  (h.record.note _ _).bind_run fun _ => .pure _

theorem handOver (h : d.Corresponds R d') (job : Job) (answer : Result Report) :
    Alike R (ofResult answer >>= Decomposer.conclude job :
        ExceptT Fault (StateM σ) PairReport).run
      (ofResult answer >>= Decomposer.conclude job).run :=
  .bind_run (.ofResult _) (h.conclude job)

theorem turn (h : d.Corresponds R d') (t : Thread) : Alike R (d.turn t) (d'.turn t) := by
  obtain ⟨job, stage⟩ := t
  cases stage with
  | waiting => exact (h.consult job).bind fun _ => .pure _
  | answered answer => exact (h.handOver job answer).bind fun _ => .pure _
  | ended answer => exact .pure _

theorem turnOf (h : d.Corresponds R d') (threads : List Thread) (index : Nat) :
    Alike R (d.turnOf threads index) (d'.turnOf threads index) := by
  unfold Decomposer.turnOf
  cases threads[index]? with
  | some t => exact (h.turn t).bind fun _ => .pure _
  | none => exact .pure _

theorem join (h : d.Corresponds R d') (t : Thread) : Alike R (d.join t) (d'.join t) := by
  obtain ⟨job, stage⟩ := t
  cases stage with
  | waiting => exact .bind_run (h.consult job) (h.conclude job)
  | answered answer => exact h.handOver job answer
  | ended answer => exact .pure _

theorem since (h : d.Corresponds R d') (begun : Duration) :
    Alike R (Decomposer.since begun : ExceptT Fault (StateM σ) Duration).run
      (Decomposer.since begun).run :=
  .bind_lift h.now fun _ => .pure _

theorem runParallel (h : d.Corresponds R d') (schedule : Schedule) :
    Alike R (d.runParallel schedule).run (d'.runParallel schedule).run := by
  unfold Decomposer.runParallel
  refine .bind_lift h.now fun begun => .bind_run h.jobs fun jobs => ?_
  refine .bind_lift (.foldlM h.turnOf _ _) fun threads => ?_
  refine .bind_lift (.mapM h.join _) fun answers => ?_
  exact .bind_run (.ofResult _) fun pairs => .bind_run (h.since begun) fun _ => .pure _

end Corresponds

end Decomposer

/-! ## The files of each check -/

structure FileUse where
  stem : String
  accesses : List Access

/-- What is handed over in a check: its two files, and the switch of the command. -/
def ExternalChecker.MayUse (c : ExternalChecker) (stem : String) (a : Access) : Prop :=
  ∀ file ∈ a.files, file = "-int" ∨ file ∈ c.files c.engine stem

/-- A check is that of a pair, and no file of another pair is handed over, whatever the engine. -/
def Decomposer.IsApart {m : Type → Type} (d : Decomposer m) (c : ExternalChecker) (u : FileUse) :
    Prop :=
  ∃ j, u.stem = d.stemOf j ∧
    ∀ a ∈ u.accesses, ∀ i ≠ j, ∀ e, a.files.Disjoint (c.files e (d.stemOf i))

theorem Decomposer.isApart_of_mayUse {m : Type → Type} (d : Decomposer m) {c : ExternalChecker}
    {index : Nat} {accesses : List Access} (h : ∀ a ∈ accesses, c.MayUse (d.stemOf index) a) :
    d.IsApart c ⟨d.stemOf index, accesses⟩ := by
  refine ⟨index, rfl, fun a ha i hi e file hfile hother => ?_⟩
  have hnodup := (d.nodup_fileName_files c c.engine e hi.symm).of_map
  rcases h a ha file hfile with rfl | hown
  · exact absurd (d.dot_mem_of_mem_files c hother) (by simp)
  · exact List.disjoint_of_nodup_append hnodup hown hother

variable [Journal (StateM σ)] [Clock (StateM σ)] [Files (StateM σ)] [Commands (StateM σ)]

namespace ExternalChecker

/-- Watched, a check does what it does unwatched, and hands over nothing but what it may use. -/
theorem alike_check (c : ExternalChecker) (s : System) (stem : String) :
    Alike (Logged.Over (c.MayUse stem)) (c.check s stem : ExceptT Fault (StateM σ) Report).run
      (c.check s stem).run := by
  let R : σ → Logged Access σ → Prop := Logged.Over (c.MayUse stem)
  have hrecord : JournalsAlike R := Logged.journalsAlike
  have hclock : ClocksAlike R := Logged.clocksAlike
  have hdirectory : c.MayUse stem (.makeDirectory c.directory) := by simp [MayUse, Access.files]
  have hcreate : c.MayUse stem (.createFile (c.modelPath stem)) := by
    simp [MayUse, Access.files, ExternalChecker.files]
  have hwrite : ∀ text, c.MayUse stem (.writeFile (c.modelPath stem) text) := by
    simp [MayUse, Access.files, ExternalChecker.files]
  have hrun : c.MayUse stem
      (.runCommand ⟨c.command, ["-int", c.modelPath stem], c.engine.script⟩) := by
    simp [MayUse, Access.files, ExternalChecker.files]
  have houtput : ∀ text, c.MayUse stem (.writeFile (c.outputPath stem) text) := by
    simp [MayUse, Access.files, ExternalChecker.files]
  unfold ExternalChecker.check
  refine .bind_run (.during _ (.ask (Logged.alike_logging hdirectory _))) fun _ => ?_
  refine .bind_run (Logged.alike_writeModel s hcreate hwrite) fun _ => ?_
  refine .bind_run (hrecord.note _ _) fun _ => .bind_lift hclock fun begun => ?_
  refine .bind_lift (Logged.alike_logging hrun _) fun answer => ?_
  refine .bind_run (.during _ (.ofResult _)) fun printed => .bind_lift hclock fun ended => ?_
  refine .bind_run (.during _ (.ask (Logged.alike_logging (houtput printed) _))) fun _ => ?_
  exact .bind_run (hrecord.recordAll _) fun _ => .pure _

/-- The checker on a host with a log of checks: each is watched, and what it uses is entered. -/
def watched (c : ExternalChecker) : Checker (StateM (Logged FileUse σ)) where
  engine := c.engine
  check s stem := ExceptT.mk fun t =>
    let ended := (c.check s stem : ExceptT Fault (StateM (Logged Access σ)) Report).run.run
      ⟨t.host, []⟩
    (ended.1, ⟨ended.2.host, t.log ++ [⟨stem, ended.2.log⟩]⟩)

theorem alike_watched (c : ExternalChecker) {P : FileUse → Prop} {stem : String}
    (h : ∀ accesses, (∀ a ∈ accesses, c.MayUse stem a) → P ⟨stem, accesses⟩) (s : System) :
    Alike (Logged.Over P) (c.check s stem : ExceptT Fault (StateM σ) Report).run
      (c.watched.check s stem).run := by
  rintro _ ⟨host, log⟩ ⟨rfl, hlog⟩
  obtain ⟨hanswer, hhost, haccesses⟩ :=
    c.alike_check s stem host ⟨host, []⟩ ⟨rfl, List.forall_mem_nil _⟩
  refine ⟨hanswer, hhost, ?_⟩
  change ∀ e ∈ log ++ [_], P e
  rw [List.forall_mem_append, List.forall_mem_singleton]
  exact ⟨hlog, h _ haccesses⟩

end ExternalChecker

namespace Decomposer

/-- The files of two pairs have different names, whatever the engines; and in a run under any
schedule, which does the same watched as unwatched, each check is that of a pair and is handed no
file of another pair. -/
theorem pairs_apart (c : ExternalChecker) (b : Board) (limit : Nat) (stem : String)
    (schedule : Schedule) (host : σ) :
    let d : Decomposer (StateM σ) := ⟨b, limit, c.toChecker, stem⟩
    let watched : Decomposer (StateM (Logged FileUse σ)) := ⟨b, limit, c.watched, stem⟩
    (∀ e f i j, i ≠ j →
      (c.files e (d.stemOf i) ++ c.files f (d.stemOf j)).Nodup ∧
      ((c.files e (d.stemOf i) ++ c.files f (d.stemOf j)).map Path.fileName).Nodup) ∧
    let plain := (d.runParallel schedule).run.run host
    let seen := (watched.runParallel schedule).run.run ⟨host, []⟩
    seen.1 = plain.1 ∧ seen.2.host = plain.2 ∧ ∀ check ∈ seen.2.log, d.IsApart c check := by
  intro d watched
  refine ⟨fun e f i j hij => ?_, ?_⟩
  · have hnames := d.nodup_fileName_files c e f hij
    exact ⟨hnames.of_map, hnames⟩
  · have hsame : d.Corresponds (Logged.Over (d.IsApart c)) watched :=
      ⟨rfl, rfl, rfl, fun s index => c.alike_watched (fun _ => d.isApart_of_mayUse) s,
        Logged.journalsAlike, Logged.clocksAlike⟩
    obtain ⟨hanswer, hhost, hlog⟩ :=
      hsame.runParallel schedule host ⟨host, []⟩ ⟨rfl, List.forall_mem_nil _⟩
    exact ⟨hanswer, hhost, hlog⟩

/-- An absolute stem, so that the directory is left aside, and numbers of which one begins like the
other. -/
theorem pairs_apart_of_absolute_stem :
    let c : ExternalChecker := ⟨"nuXmv", .bdd, "out"⟩
    let d : Decomposer (StateM Memory) := ⟨⟨[[.keeper]], 1, by decide⟩, 3, c.toChecker, "/tmp/b"⟩
    (1 : Nat) ≠ 11 ∧ ((c.files .bdd (d.stemOf 1) ++ c.files (.bmc 7) (d.stemOf 11)).map
      Path.fileName).Nodup := by
  intro c d
  exact ⟨by decide, ((pairs_apart c d.board 3 "/tmp/b" .inOrder ({} : Memory)).1 .bdd (.bmc 7) 1 11
    (by decide)).2⟩

end Decomposer

end Sokoban
