import Mathlib.Data.List.Nodup
import Sokoban.Proofs.Check.Jobs
import Sokoban.Proofs.Host.Ensures
import Sokoban.Proofs.Text.Delimited

/-!
# Threads that check pairs

What the checker answers is taken to depend on the system and the stem alone, and what it was asked
is followed along a computation. A thread asks the checker once, whenever its turns come, and the
answer that it leaves behind is that of its job checked alone.
-/

namespace Sokoban

/-! ## Lists -/

section Lists

variable {α : Type} {l a b c new : List α}

theorem exists_set_eq {i : Nat} {x : α} (h : l[i]? = some x) :
    ∃ before after, l = before ++ x :: after ∧ ∀ y, l.set i y = before ++ y :: after := by
  obtain ⟨hlt, rfl⟩ := List.getElem?_eq_some_iff.1 h
  refine ⟨l.take i, l.drop (i + 1), ?_, fun y => ?_⟩
  · rw [← List.drop_eq_getElem_cons hlt, List.take_append_drop]
  · rw [List.set_eq_take_append_cons_drop, if_pos hlt]

theorem perm_insert (h : l.Perm (a ++ (b ++ c))) (new : List α) :
    (l ++ new).Perm (a ++ ((b ++ new) ++ c)) := by
  refine (h.append_right new).trans ?_
  simp only [List.append_assoc]
  exact (List.perm_append_comm.append_left b).append_left a

theorem perm_exchange (a b c d : List α) : (a ++ (b ++ (c ++ d))).Perm (a ++ (c ++ (b ++ d))) :=
  (List.perm_append_comm_assoc b c d).append_left a

end Lists

/-! ## Questions and answers -/

abbrev Question := System × String

namespace Decomposer

variable {σ : Type} {answer : System → String → Result Report} {job : Job}

def question (d : Decomposer (StateM σ)) (job : Job) : Question :=
  (job.system, d.stemOf job.index)

def answerTo (d : Decomposer (StateM σ)) (answer : System → String → Result Report) (job : Job) :
    Result Report :=
  .during (.checkingPair job.index job.pair) (answer job.system (d.stemOf job.index))

def outcome (d : Decomposer (StateM σ)) (answer : System → String → Result Report) (job : Job) :
    Result PairReport :=
  (d.answerTo answer job).map fun report => ⟨job.index, job.pair, report⟩

theorem answerTo_of_ok (d : Decomposer (StateM σ)) {report : Report}
    (h : answer job.system (d.stemOf job.index) = .ok report) :
    d.answerTo answer job = .ok report := by
  rw [answerTo, h]
  rfl

theorem answerTo_of_error (d : Decomposer (StateM σ)) {fault : Fault}
    (h : answer job.system (d.stemOf job.index) = .error fault) :
    d.answerTo answer job = .error (fault.during (.checkingPair job.index job.pair)) := by
  rw [answerTo, h]
  rfl

theorem nodup_questions (d : Decomposer (StateM σ)) {jobs : List Job}
    (hjobs : d.board.IsJobs d.limit jobs) : (jobs.map d.question).Nodup := by
  -- the stems end with the numbers of the pairs
  have hstem : Function.Injective d.stemOf :=
    fun i j h => Text.eq_of_toString_eq ((String.append_right_inj _).1 h)
  have hindex : jobs.map (·.index) = List.range jobs.length := by
    refine List.ext_getElem (by simp) fun i hi _ => ?_
    rw [List.getElem_map, List.getElem_range]
    exact (hjobs.job i _ (List.getElem?_eq_getElem (by simpa using hi))).1
  have hstems : ((jobs.map d.question).map (·.2)).Nodup := by
    have hmap : (jobs.map d.question).map (·.2) = (jobs.map (·.index)).map d.stemOf := by
      simp [question, Function.comp_def]
    rw [hmap, hindex]
    exact List.nodup_range.map hstem
  exact .of_map _ hstems

variable [Journal (StateM σ)] [Clock (StateM σ)] {d : Decomposer (StateM σ)}
  {P : List Question → σ → Prop}

/-- The checker answers in this way, and it can be said of a state which questions were put to the
checker until then: only checking adds to them. -/
structure Tracks (d : Decomposer (StateM σ)) (answer : System → String → Result Report)
    (P : List Question → σ → Prop) : Prop where
  check : ∀ l s stem, Ensures (P l) (d.checker.check s stem).run fun r st =>
    r = answer s stem ∧ P (l ++ [(s, stem)]) st
  record : ∀ l e, Ensures (P l) (Journal.record e : StateM σ Unit) fun _ => P l
  now : ∀ l, Ensures (P l) (Clock.now : StateM σ Duration) fun _ => P l

namespace Tracks

theorem note (h : d.Tracks answer P) (l : List Question) (level : Level) (message : String) :
    Ensures (P l) (note level message : ExceptT Fault (StateM σ) Unit).run fun r st =>
      r = .ok () ∧ P l st :=
  .note (h.record l) level message

theorem recordAll (h : d.Tracks answer P) (l : List Question) (entries : List Entry) :
    Ensures (P l) (Session.recordAll entries : ExceptT Fault (StateM σ) Unit).run fun r st =>
      r = .ok () ∧ P l st :=
  .recordAll (h.record l) entries

end Tracks

/-- Whatever the host, the pairs of a board become jobs: none of their systems is refused. -/
theorem exists_jobs (d : Decomposer (StateM σ)) (hb : d.board.Fits) :
    ∃ jobs, d.board.IsJobs d.limit jobs ∧ ∀ {answer P}, d.Tracks answer P → ∀ l,
      Ensures (P l) d.jobs.run fun r st => r = .ok jobs ∧ P l st := by
  obtain ⟨jobs, hjobs⟩ := Board.exists_isJobs hb d.limit
  refine ⟨jobs, hjobs, fun {answer P} h l => ?_⟩
  rw [jobs_eq hjobs]
  exact (h.recordAll l _).bind_ok fun _ hst => ⟨rfl, hst⟩

/-! ## Checking a single pair -/

namespace Tracks

variable {job : Job} {l : List Question}

theorem consult (h : d.Tracks answer P) (l : List Question) (job : Job) :
    Ensures (P l) (d.consult job).run fun r st =>
      r = d.answerTo answer job ∧ P (l ++ [d.question job]) st := by
  refine ((h.check l job.system (d.stemOf job.index)).during _).mono ?_
  rintro r st ⟨_, rfl, rfl, hst⟩
  exact ⟨rfl, hst⟩

theorem conclude (h : d.Tracks answer P) (l : List Question) (job : Job) (report : Report) :
    Ensures (P l) (Decomposer.conclude job report : ExceptT Fault (StateM σ) PairReport).run
      fun r st => r = .ok ⟨job.index, job.pair, report⟩ ∧ P l st :=
  (h.note l _ _).bind_ok fun _ hst => ⟨rfl, hst⟩

theorem handOver (h : d.Tracks answer P) (l : List Question) (job : Job) :
    Ensures (P l) (ofResult (d.answerTo answer job) >>= Decomposer.conclude job :
      ExceptT Fault (StateM σ) PairReport).run fun r st => r = d.outcome answer job ∧ P l st := by
  unfold outcome
  cases d.answerTo answer job with
  | ok report => exact Ensures.bind_ok (Ensures.ofResult (P := P l) _) (h.conclude l job report)
  | error e => exact Ensures.bind_error (Ensures.ofResult (P := P l) _)

theorem checkJob (h : d.Tracks answer P) (l : List Question) (job : Job) :
    Ensures (P l) (d.checkJob job).run fun r st =>
      r = d.outcome answer job ∧ P (l ++ [d.question job]) st := by
  have hconsult := h.consult l job
  unfold outcome
  cases hanswer : d.answerTo answer job with
  | ok report =>
      rw [hanswer] at hconsult
      exact hconsult.bind_ok (h.conclude _ job report)
  | error e =>
      rw [hanswer] at hconsult
      exact hconsult.bind_error

end Tracks

/-! ## Threads -/

def asked (d : Decomposer (StateM σ)) (t : Thread) : List Question :=
  match t.stage with
  | .waiting => []
  | .answered _ => [d.question t.job]
  | .ended _ => [d.question t.job]

/-- What a thread holds is what is answered about its job, or what becomes of it. -/
def Faithful (d : Decomposer (StateM σ)) (answer : System → String → Result Report) (t : Thread) :
    Prop :=
  match t.stage with
  | .waiting => True
  | .answered r => r = d.answerTo answer t.job
  | .ended r => r = d.outcome answer t.job

namespace Tracks

variable {t : Thread}

/-- A turn keeps a thread faithful, and the checker is asked nothing but its question, if that. -/
theorem turn (h : d.Tracks answer P) (l : List Question) (ht : d.Faithful answer t) :
    Ensures (P l) (d.turn t) fun u st => u.job = t.job ∧ d.Faithful answer u ∧
      ∃ new, d.asked u = d.asked t ++ new ∧ P (l ++ new) st := by
  obtain ⟨job, stage⟩ := t
  cases stage with
  | waiting =>
      refine (h.consult l job).bind fun r => ?_
      rintro st ⟨rfl, hst⟩
      exact ⟨rfl, rfl, [d.question job], rfl, hst⟩
  | answered r =>
      obtain rfl : r = d.answerTo answer job := ht
      refine (h.handOver l job).bind fun r => ?_
      rintro st ⟨rfl, hst⟩
      exact ⟨rfl, rfl, [], rfl, by rw [List.append_nil]; exact hst⟩
  | ended r =>
      intro st hst
      exact ⟨rfl, ht, [], (List.append_nil _).symm, by rw [List.append_nil]; exact hst⟩

/-- A thread that is waited for leaves behind what becomes of its job and has asked its question. -/
theorem join (h : d.Tracks answer P) (l : List Question) (ht : d.Faithful answer t) :
    Ensures (P l) (d.join t) fun r st => r = d.outcome answer t.job ∧
      ∃ new, d.asked t ++ new = [d.question t.job] ∧ P (l ++ new) st := by
  obtain ⟨job, stage⟩ := t
  cases stage with
  | waiting =>
      refine (h.checkJob l job).mono ?_
      rintro r st ⟨hr, hst⟩
      exact ⟨hr, [d.question job], rfl, hst⟩
  | answered r =>
      obtain rfl : r = d.answerTo answer job := ht
      refine (h.handOver l job).mono ?_
      rintro r st ⟨hr, hst⟩
      exact ⟨hr, [], rfl, by rw [List.append_nil]; exact hst⟩
  | ended r => exact fun st hst => ⟨ht, [], rfl, by rw [List.append_nil]; exact hst⟩

end Tracks

/-- How far the threads of some jobs have come: each is faithful, and the checker was asked exactly
what they have asked, in some order. -/
structure Progress (d : Decomposer (StateM σ)) (answer : System → String → Result Report)
    (P : List Question → σ → Prop) (jobs : List Job) (threads : List Thread) (st : σ) : Prop where
  jobs : threads.map (·.job) = jobs
  faithful : ∀ t ∈ threads, d.Faithful answer t
  asked : ∃ l : List Question, l.Perm (threads.flatMap d.asked) ∧ P l st

namespace Tracks

variable {jobs : List Job} {threads : List Thread}

theorem turnOf (h : d.Tracks answer P) (threads : List Thread) (index : Nat) :
    Ensures (d.Progress answer P jobs threads) (d.turnOf threads index)
      (d.Progress answer P jobs) := by
  unfold Decomposer.turnOf
  cases hindex : threads[index]? with
  | none => exact fun _ hst => hst
  | some t =>
      -- the other threads stay as they are, and what the one asked anew goes to the end of the list
      obtain ⟨before, after, rfl, hset⟩ := exists_set_eq hindex
      rintro st ⟨rfl, hfaithful, l, hperm, hst⟩
      rw [List.forall_mem_append, List.forall_mem_cons] at hfaithful
      obtain ⟨hbefore, ht, hafter⟩ := hfaithful
      obtain ⟨hjob, hturned, new, hnew, hst'⟩ := h.turn l ht st hst
      change d.Progress answer P _ (List.set _ index ((d.turn t).run st).1) ((d.turn t).run st).2
      rw [hset]
      refine ⟨by simp [hjob], ?_, l ++ new, ?_, hst'⟩
      · rw [List.forall_mem_append, List.forall_mem_cons]
        exact ⟨hbefore, hturned, hafter⟩
      · rw [List.flatMap_append, List.flatMap_cons] at hperm ⊢
        rw [hnew]
        exact perm_insert hperm new

theorem turns (h : d.Tracks answer P) (turns : List Nat) (threads : List Thread) :
    Ensures (d.Progress answer P jobs threads) (turns.foldlM d.turnOf threads)
      (d.Progress answer P jobs) := by
  induction turns generalizing threads with
  | nil => exact fun _ hst => hst
  | cons index rest ih =>
      rw [List.foldlM_cons]
      exact (h.turnOf threads index).bind ih

theorem joinAll (h : d.Tracks answer P) (l : List Question)
    (hthreads : ∀ t ∈ threads, d.Faithful answer t) :
    Ensures (P l) (threads.mapM d.join) fun rs st =>
      rs = threads.map (fun t => d.outcome answer t.job) ∧
        ∃ new, (threads.flatMap d.asked ++ new).Perm (threads.map fun t => d.question t.job) ∧
          P (l ++ new) st := by
  induction threads generalizing l with
  | nil => exact fun st hst => ⟨rfl, [], .refl _, by rw [List.append_nil]; exact hst⟩
  | cons t rest ih =>
      obtain ⟨ht, hrest⟩ := List.forall_mem_cons.1 hthreads
      rw [List.mapM_cons]
      refine (h.join l ht).bind fun r => ?_
      rintro st ⟨rfl, first, hfirst, hst⟩
      obtain ⟨hrs, more, hmore, hst'⟩ := ih (l ++ first) hrest st hst
      refine ⟨congrArg (List.cons _) hrs, first ++ more, ?_, by rwa [← List.append_assoc]⟩
      -- what the first thread asked at last comes before what the others had asked
      rw [List.flatMap_cons, List.map_cons, ← List.singleton_append, ← hfirst]
      simp only [List.append_assoc]
      exact (perm_exchange _ _ _ _).trans ((hmore.append_left first).append_left _)

end Tracks

end Decomposer

end Sokoban
