import EpicPoold.Foundations.Progress
import EpicPoold.HashpoolSettle

/-! check_client_work and a hash pool together: a job lies on the stack of the thread that
checks a share, its address is queued, and the thread waits for the promise in it. -/

namespace EpicPoold

open Foundations Hashpool

/-- The pool with jobs that are told apart by the thread they belong to. -/
abbrev PoolKind.tagged (K : PoolKind) (T : Type) : PoolKind where
  Job := T × K.Job
  jobId job := K.jobId job.2
  Request := K.Request
  requestId := K.requestId
  Data := K.Data
  blank := K.blank
  assign := K.assign
  Phase := K.Phase
  entry := K.entry
  body := K.body

def Hashpool.Discipline.tagged {K : PoolKind} (D : Discipline K) (T : Type) :
    Discipline (K.tagged T) where
  built := D.built
  inPhase := D.inPhase
  mayAssign := D.mayAssign
  jobId_valid job := D.jobId_valid job.2
  entry_ok := D.entry_ok
  body_phase := D.body_phase
  body_store := D.body_store
  assign_built := D.assign_built
  assign_phase := D.assign_phase

/-- A thread outside check_client_work, in `future.wait` before the promise is set, or past
it with the result in the job. -/
inductive Caller (K : PoolKind) (T : Type) where
  | outside
  | waiting (job : K.Job)
  | answered (job : K.Job) (report : Finished (K.tagged T))

/-- `spoiled` is a promise set a second time, or a result written to a stack that no longer
holds the job. `returned` are the results of check_client_work. -/
structure ShareChecks (K : PoolKind) (T : Type) where
  pool : Hashpool.State (K.tagged T)
  caller : T → Caller K T
  returned : List (T × K.Job × Finished (K.tagged T))
  spoiled : Bool

inductive ShareAction (K : PoolKind) (T : Type) where
  | check (t : T) (job : K.Job)
  | wake (t : T)
  | pool (a : Hashpool.Action (K.tagged T))

namespace ShareChecks

variable {K : PoolKind} {T : Type}

def jobOf : WorkerPc (K.tagged T) → Option (T × K.Job)
  | .scan job _ => some job
  | .lockShared job _ => some job
  | .recheck job _ => some job
  | .hash job _ => some job
  | .finish job _ _ => some job
  | _ => none

def reportOf : WorkerPc (K.tagged T) → Option (Finished (K.tagged T))
  | .finish job _ used => some ⟨job, used.isNone, used⟩
  | _ => none

section Steps

variable [DecidableEq T]

def deliver (s : ShareChecks K T) (report : Finished (K.tagged T)) : ShareChecks K T :=
  match s.caller report.job.1 with
  | .waiting job =>
      { s with caller := Function.update s.caller report.job.1 (.answered job report) }
  | _ => { s with spoiled := true }

def afterPool (s : ShareChecks K T) (a : Hashpool.Action (K.tagged T))
    (pool : Hashpool.State (K.tagged T)) : ShareChecks K T :=
  match a with
  | .worker w =>
      match reportOf (s.pool.workers w) with
      | some report => { s with pool := pool }.deliver report
      | none => { s with pool := pool }
  | _ => { s with pool := pool }

/-- Jobs are pushed by check_client_work only. -/
def ofPool : Hashpool.Action (K.tagged T) → Bool
  | .pushJob _ => false
  | _ => true

def next (s : ShareChecks K T) : ShareAction K T → Option (ShareChecks K T)
  | .check t job =>
      match s.caller t with
      | .outside =>
          (Hashpool.next s.pool (.pushJob (t, job))).map (fun pool =>
            { s with pool := pool, caller := Function.update s.caller t (.waiting job) })
      | _ => none
  | .wake t =>
      match s.caller t with
      | .answered job report =>
          some { s with
            caller := Function.update s.caller t .outside
            returned := s.returned ++ [(t, job, report)] }
      | _ => none
  | .pool a => if ofPool a then (Hashpool.next s.pool a).map (s.afterPool a) else none

variable (K T) in
def system : System (ShareChecks K T) (ShareAction K T) where
  start s := Hashpool.Start s.pool ∧ (∀ t, s.caller t = .outside) ∧ s.returned = [] ∧
    s.spoiled = false
  next := next

theorem deliver_pool (s : ShareChecks K T) (report : Finished (K.tagged T)) :
    (s.deliver report).pool = s.pool := by
  unfold deliver
  split
  · rfl
  · rfl

theorem afterPool_pool (s : ShareChecks K T) (a : Hashpool.Action (K.tagged T))
    (q : Hashpool.State (K.tagged T)) : (s.afterPool a q).pool = q := by
  cases a with
  | worker w =>
      simp only [afterPool]
      split
      · rw [deliver_pool]
      · rfl
  | request | node | dataset | pushJob => rfl

end Steps

/-- Each job that the pool has belongs to a thread that waits for it, and the pool has it
once; whoever waits has its job with the pool. -/
structure Owned (s : ShareChecks K T) : Prop where
  queued : ∀ t job, (t, job) ∈ s.pool.jobs → s.caller t = .waiting job
  held : ∀ w t job, jobOf (s.pool.workers w) = some (t, job) → s.caller t = .waiting job
  once : (s.pool.jobs.map Prod.fst).Nodup
  apart : ∀ w v t job other, jobOf (s.pool.workers w) = some (t, job) →
    jobOf (s.pool.workers v) = some (t, other) → w = v
  either : ∀ w t job, jobOf (s.pool.workers w) = some (t, job) → t ∉ s.pool.jobs.map Prod.fst
  kept : ∀ t job, s.caller t = .waiting job →
    (t, job) ∈ s.pool.jobs ∨ ∃ w, jobOf (s.pool.workers w) = some (t, job)
  clean : s.spoiled = false

/-- What a step of the pool does to the jobs it has: nothing, or a worker takes one off
the queue, or a worker is done with its own. -/
inductive Handled (p : Hashpool.State (K.tagged T)) (a : Hashpool.Action (K.tagged T))
    (q : Hashpool.State (K.tagged T)) : Prop
  | still (jobs : q.jobs = p.jobs) (held : ∀ w, jobOf (q.workers w) = jobOf (p.workers w))
      (silent : ∀ w, a = .worker w → reportOf (p.workers w) = none)
      (reports : q.finished = p.finished)
  | popped (w : Fin hashThdCount) (job : T × K.Job) (rest : List (T × K.Job)) (own : a = .worker w)
      (front : p.jobs = job :: rest) (jobs : q.jobs = rest) (free : jobOf (p.workers w) = none)
      (held : jobOf (q.workers w) = some job)
      (others : ∀ v, v ≠ w → jobOf (q.workers v) = jobOf (p.workers v))
      (silent : reportOf (p.workers w) = none) (reports : q.finished = p.finished)
  | finished (w : Fin hashThdCount) (report : Finished (K.tagged T)) (own : a = .worker w)
      (jobs : q.jobs = p.jobs) (ready : reportOf (p.workers w) = some report)
      (held : jobOf (p.workers w) = some report.job) (free : jobOf (q.workers w) = none)
      (others : ∀ v, v ≠ w → jobOf (q.workers v) = jobOf (p.workers v))
      (reports : q.finished = report :: p.finished)

section Pool

variable {p q : Hashpool.State (K.tagged T)}

theorem handled_keeps {w : Fin hashThdCount} (pc : WorkerPc (K.tagged T))
    (workers : q.workers = Function.update p.workers w pc) (jobs : q.jobs = p.jobs)
    (same : jobOf pc = jobOf (p.workers w)) (silent : reportOf (p.workers w) = none)
    (reports : q.finished = p.finished) : Handled p (.worker w) q := by
  refine .still jobs ?_ ?_ reports
  · intro v
    by_cases own : v = w
    · subst own
      rw [workers, Function.update_self, same]
    · rw [workers, Function.update_of_ne own]
  · intro v other
    cases other
    exact silent

theorem worker_handled {w : Fin hashThdCount} (moved : WorkerMoved p w q) :
    Handled p (.worker w) q := by
  have others : ∀ (pc : WorkerPc (K.tagged T)) (v : Fin hashThdCount), v ≠ w →
      jobOf (Function.update p.workers w pc v) = jobOf (p.workers v) := by
    intro pc v other
    rw [Function.update_of_ne other]
  cases moved with
  | popped job rest here front =>
      refine .popped w job rest rfl front rfl (by rw [here]; rfl) ?_ (others _) (by rw [here]; rfl)
        rfl
      simp only [State.setWorker, Function.update_self]
      rfl
  | found job i here ready | passed job k here | missed job k here | refused job i here
  | confirmed job i here ready | hashed job i here =>
      exact handled_keeps _ rfl rfl (by rw [here]; rfl) (by rw [here]; rfl) rfl
  | sharedLocked job i mtx here free still readers =>
      exact handled_keeps _ rfl rfl (by rw [here]; rfl) (by rw [here]; rfl) rfl
  | released i here => exact handled_keeps _ rfl rfl (by rw [here]; rfl) (by rw [here]; rfl) rfl
  | failed job used here | finished job i used here =>
      refine .finished w ⟨job, used.isNone, used⟩ rfl rfl (by rw [here]; rfl) (by rw [here]; rfl) ?_
        (others _) rfl
      simp only [State.setWorker, Function.update_self]
      rfl

theorem next_handled {a : Hashpool.Action (K.tagged T)} (inner : ofPool a = true)
    (stepped : Hashpool.next p a = some q) : Handled p a q := by
  have outside : (∀ w, a ≠ .worker w) → q.jobs = p.jobs → q.workers = p.workers →
      q.finished = p.finished → Handled p a q := by
    intro other jobs workers reports
    exact .still jobs (fun w => by rw [workers]) (fun w own => absurd own (other w)) reports
  cases next_moved stepped with
  | nodeQuiet _ pc dsCtr quiet =>
      cases a with
      | worker w => exact worker_handled (workerStep_moved stepped)
      | pushJob job => cases inner
      | request | node | dataset => exact outside (by simp) rfl rfl rfl
  | retracted | assigned | loaded | spawned | locked | worked | stored | unlocked =>
      exact outside (by simp) rfl rfl rfl
  | pushed job => cases inner
  | worker w _ moved => exact worker_handled moved

end Pool

section Ownership

variable [DecidableEq T] {s : ShareChecks K T}

theorem afterPool_silent {a : Hashpool.Action (K.tagged T)} {q : Hashpool.State (K.tagged T)}
    (silent : ∀ w, a = .worker w → reportOf (s.pool.workers w) = none) :
    s.afterPool a q = { s with pool := q } := by
  cases a with
  | worker w => simp only [afterPool, silent w rfl]
  | request | node | dataset | pushJob => rfl

theorem afterPool_delivered {w : Fin hashThdCount} {q : Hashpool.State (K.tagged T)}
    {report : Finished (K.tagged T)} (ready : reportOf (s.pool.workers w) = some report)
    (waits : s.caller report.job.1 = .waiting report.job.2) :
    s.afterPool (.worker w) q =
      { s with
        pool := q
        caller := Function.update s.caller report.job.1 (.answered report.job.2 report) } := by
  simp only [afterPool, ready, deliver, waits]

theorem Owned.checked (owned : Owned s) {t : T} {job : K.Job} (here : s.caller t = .outside) :
    Owned { s with
      pool := { s.pool with jobs := s.pool.jobs ++ [(t, job)] }
      caller := Function.update s.caller t (.waiting job) } := by
  have other : ∀ u work, s.caller u = .waiting work → u ≠ t := by
    rintro u work waits rfl
    rw [here] at waits
    cases waits
  have absent : t ∉ s.pool.jobs.map Prod.fst := by
    intro among
    obtain ⟨⟨u, work⟩, queued, same⟩ := List.mem_map.mp among
    exact other u work (owned.queued u work queued) same
  refine ⟨?_, ?_, ?_, owned.apart, ?_, ?_, owned.clean⟩
  · intro u work among
    simp only
    rcases List.mem_append.mp among with early | last
    · have waits := owned.queued u work early
      rw [Function.update_of_ne (other u work waits), waits]
    · cases List.mem_singleton.mp last
      rw [Function.update_self]
  · intro w u work held
    have waits := owned.held w u work held
    simp only
    rw [Function.update_of_ne (other u work waits), waits]
  · simp only [List.map_append, List.map_singleton]
    rw [List.nodup_append]
    refine ⟨owned.once, List.nodup_singleton _, ?_⟩
    rintro u among v last rfl
    rw [List.mem_singleton.mp last] at among
    exact absent among
  · intro w u work held among
    simp only [List.map_append, List.map_singleton, List.mem_append, List.mem_singleton] at among
    rcases among with early | rfl
    · exact owned.either w u work held early
    · exact other u work (owned.held w u work held) rfl
  · intro u work waits
    simp only at waits ⊢
    by_cases own : u = t
    · subst own
      rw [Function.update_self] at waits
      cases waits
      exact .inl (List.mem_append_right _ (List.mem_singleton_self _))
    · rw [Function.update_of_ne own] at waits
      rcases owned.kept u work waits with queued | held
      · exact .inl (List.mem_append_left _ queued)
      · exact .inr held

theorem Owned.woken (owned : Owned s) {t : T} {job : K.Job} {report : Finished (K.tagged T)}
    (here : s.caller t = .answered job report)
    (returned : List (T × K.Job × Finished (K.tagged T))) :
    Owned { s with caller := Function.update s.caller t .outside, returned := returned } := by
  have other : ∀ u work, s.caller u = .waiting work → u ≠ t := by
    rintro u work waits rfl
    rw [here] at waits
    cases waits
  refine ⟨?_, ?_, owned.once, owned.apart, owned.either, ?_, owned.clean⟩
  · intro u work among
    have waits := owned.queued u work among
    simp only
    rw [Function.update_of_ne (other u work waits), waits]
  · intro w u work held
    have waits := owned.held w u work held
    simp only
    rw [Function.update_of_ne (other u work waits), waits]
  · intro u work waits
    simp only at waits
    by_cases own : u = t
    · subst own
      rw [Function.update_self] at waits
      cases waits
    · rw [Function.update_of_ne own] at waits
      exact owned.kept u work waits

omit [DecidableEq T] in
theorem Owned.still (owned : Owned s) {q : Hashpool.State (K.tagged T)}
    (jobs : q.jobs = s.pool.jobs)
    (held : ∀ w, jobOf (q.workers w) = jobOf (s.pool.workers w)) : Owned { s with pool := q } := by
  refine ⟨?_, ?_, ?_, ?_, ?_, ?_, owned.clean⟩
  all_goals simp only [jobs, held]
  · exact owned.queued
  · exact owned.held
  · exact owned.once
  · exact owned.apart
  · exact owned.either
  · exact owned.kept

omit [DecidableEq T] in
theorem Owned.popped (owned : Owned s) {w : Fin hashThdCount} {job : T × K.Job}
    {q : Hashpool.State (K.tagged T)} (front : s.pool.jobs = job :: q.jobs)
    (free : jobOf (s.pool.workers w) = none) (held : jobOf (q.workers w) = some job)
    (others : ∀ v, v ≠ w → jobOf (q.workers v) = jobOf (s.pool.workers v)) :
    Owned { s with pool := q } := by
  have once := owned.once
  rw [front, List.map_cons, List.nodup_cons] at once
  have first : job ∈ s.pool.jobs := by
    rw [front]
    exact List.mem_cons_self
  have before : ∀ v t work, jobOf (q.workers v) = some (t, work) →
      v = w ∧ (t, work) = job ∨ v ≠ w ∧ jobOf (s.pool.workers v) = some (t, work) := by
    intro v t work has
    by_cases mine : v = w
    · subst mine
      rw [held] at has
      exact .inl ⟨rfl, (Option.some.inj has).symm⟩
    · rw [others v mine] at has
      exact .inr ⟨mine, has⟩
  refine ⟨?_, ?_, once.2, ?_, ?_, ?_, owned.clean⟩
  · intro t work among
    exact owned.queued t work (by rw [front]; exact List.mem_cons_of_mem _ among)
  · intro v t work has
    rcases before v t work has with ⟨_, rfl⟩ | ⟨_, had⟩
    · exact owned.queued t work first
    · exact owned.held v t work had
  · intro v u t work other has had
    rcases before v t work has with ⟨rfl, rfl⟩ | ⟨_, mine⟩
    · rcases before u t other had with ⟨rfl, _⟩ | ⟨_, theirs⟩
      · rfl
      · exact absurd (List.mem_map_of_mem first) (owned.either u t other theirs)
    · rcases before u t other had with ⟨_, rfl⟩ | ⟨_, theirs⟩
      · exact absurd (List.mem_map_of_mem first) (owned.either v t work mine)
      · exact owned.apart v u t work other mine theirs
  · intro v t work has among
    rcases before v t work has with ⟨_, rfl⟩ | ⟨_, had⟩
    · exact once.1 among
    · refine owned.either v t work had ?_
      rw [front, List.map_cons]
      exact List.mem_cons_of_mem _ among
  · intro t work waits
    rcases owned.kept t work waits with queued | ⟨v, had⟩
    · rw [front] at queued
      rcases List.mem_cons.mp queued with rfl | later
      · exact .inr ⟨w, held⟩
      · exact .inl later
    · right
      have other : v ≠ w := by
        rintro rfl
        rw [free] at had
        cases had
      exact ⟨v, (others v other).trans had⟩

theorem Owned.finished (owned : Owned s) {w : Fin hashThdCount} {report : Finished (K.tagged T)}
    {q : Hashpool.State (K.tagged T)} (jobs : q.jobs = s.pool.jobs)
    (held : jobOf (s.pool.workers w) = some report.job) (free : jobOf (q.workers w) = none)
    (others : ∀ v, v ≠ w → jobOf (q.workers v) = jobOf (s.pool.workers v)) :
    Owned { s with
      pool := q
      caller := Function.update s.caller report.job.1 (.answered report.job.2 report) } := by
  have before : ∀ v t work, jobOf (q.workers v) = some (t, work) →
      t ≠ report.job.1 ∧ jobOf (s.pool.workers v) = some (t, work) := by
    intro v t work has
    have other : v ≠ w := by
      rintro rfl
      rw [free] at has
      cases has
    rw [others v other] at has
    refine ⟨?_, has⟩
    rintro rfl
    exact other (owned.apart v w _ work _ has held)
  have queuedOther : ∀ t work, (t, work) ∈ s.pool.jobs → t ≠ report.job.1 := by
    rintro t work among rfl
    exact owned.either w report.job.1 report.job.2 held (List.mem_map.mpr ⟨_, among, rfl⟩)
  refine ⟨?_, ?_, ?_, ?_, ?_, ?_, owned.clean⟩
  · intro t work among
    simp only [jobs] at among ⊢
    rw [Function.update_of_ne (queuedOther t work among)]
    exact owned.queued t work among
  · intro v t work has
    obtain ⟨other, had⟩ := before v t work has
    simp only
    rw [Function.update_of_ne other]
    exact owned.held v t work had
  · simp only [jobs]
    exact owned.once
  · intro v u t work other has had
    exact owned.apart v u t work other (before v t work has).2 (before u t other had).2
  · intro v t work has among
    simp only [jobs] at among
    exact owned.either v t work (before v t work has).2 among
  · intro t work stays
    simp only at stays
    by_cases mine : t = report.job.1
    · subst mine
      rw [Function.update_self] at stays
      cases stays
    · rw [Function.update_of_ne mine] at stays
      rcases owned.kept t work stays with queued | ⟨v, had⟩
      · exact .inl (by simpa only [jobs] using queued)
      · right
        have other : v ≠ w := by
          rintro rfl
          rw [held] at had
          exact mine (congrArg Prod.fst (Option.some.inj had)).symm
        exact ⟨v, (others v other).trans had⟩

theorem Owned.pooled (owned : Owned s) {a : Hashpool.Action (K.tagged T)}
    {q : Hashpool.State (K.tagged T)} (handled : Handled s.pool a q) : Owned (s.afterPool a q) := by
  cases handled with
  | still jobs held silent reports =>
      rw [afterPool_silent silent]
      exact owned.still jobs held
  | popped w job rest own front jobs free held others silent reports =>
      rw [afterPool_silent (fun v same => by
        rw [own] at same
        cases same
        exact silent)]
      exact owned.popped (by rw [front, jobs]) free held others
  | finished w report own jobs ready held free others reports =>
      cases own
      rw [afterPool_delivered ready (owned.held w report.job.1 report.job.2 held)]
      exact owned.finished jobs held free others

inductive Moved (s : ShareChecks K T) : ShareAction K T → ShareChecks K T → Prop
  | checked (t : T) (job : K.Job) (here : s.caller t = .outside) :
      Moved s (.check t job)
        { s with
          pool := { s.pool with jobs := s.pool.jobs ++ [(t, job)] }
          caller := Function.update s.caller t (.waiting job) }
  | woken (t : T) (job : K.Job) (report : Finished (K.tagged T))
      (here : s.caller t = .answered job report) :
      Moved s (.wake t)
        { s with
          caller := Function.update s.caller t .outside
          returned := s.returned ++ [(t, job, report)] }
  | pooled (a : Hashpool.Action (K.tagged T)) (q : Hashpool.State (K.tagged T))
      (inner : ofPool a = true) (stepped : Hashpool.next s.pool a = some q) :
      Moved s (.pool a) (s.afterPool a q)

theorem next_moved {u : ShareChecks K T} {a : ShareAction K T} (stepped : next s a = some u) :
    Moved s a u := by
  cases a with
  | check t job =>
      simp only [next] at stepped
      split at stepped
      · rename_i here
        cases stepped
        exact .checked t job here
      · cases stepped
  | wake t =>
      simp only [next] at stepped
      split at stepped
      · rename_i job report here
        cases stepped
        exact .woken t job report here
      · cases stepped
  | pool a =>
      simp only [next] at stepped
      split at stepped
      · rename_i inner
        obtain ⟨q, ran, rfl⟩ := Option.map_eq_some_iff.mp stepped
        exact .pooled a q inner ran
      · cases stepped

theorem moved_owned {u : ShareChecks K T} {a : ShareAction K T} (owned : Owned s)
    (moved : Moved s a u) : Owned u := by
  cases moved with
  | checked t job here => exact owned.checked here
  | woken t job report here => exact owned.woken here _
  | pooled a q inner stepped => exact owned.pooled (next_handled inner stepped)

theorem start_owned (started : (system K T).start s) : Owned s := by
  obtain ⟨pool, callers, _, clean⟩ := started
  have idle : ∀ w, jobOf (s.pool.workers w) = none := by
    intro w
    rw [pool.workers w]
    rfl
  refine ⟨?_, ?_, ?_, ?_, ?_, ?_, clean⟩
  · intro t job among
    rw [pool.jobs] at among
    cases among
  · intro w t job held
    rw [idle w] at held
    cases held
  · rw [pool.jobs]
    exact List.nodup_nil
  · intro w v t job other held
    rw [idle w] at held
    cases held
  · intro w t job held
    rw [idle w] at held
    cases held
  · intro t job waits
    rw [callers t] at waits
    cases waits

/-- The pool reads and writes the jobs of threads that wait for them, each of them once,
and no job is forgotten. -/
theorem reachable_owned (reached : (system K T).Reachable s) : Owned s :=
  reached.invariant Owned (fun _ started => start_owned started)
    (fun _ _ _ _ owned stepped => moved_owned owned (next_moved stepped))

end Ownership

section Results

variable [DecidableEq T] {s : ShareChecks K T}

structure Answered (s : ShareChecks K T) : Prop where
  answered : ∀ t job report, s.caller t = .answered job report →
    report.job = (t, job) ∧ report ∈ s.pool.finished
  returned : ∀ t job report, (t, job, report) ∈ s.returned →
    report.job = (t, job) ∧ report ∈ s.pool.finished

omit [DecidableEq T] in
theorem handled_finished {p q : Hashpool.State (K.tagged T)} {a : Hashpool.Action (K.tagged T)}
    (handled : Handled p a q) : ∀ report ∈ p.finished, report ∈ q.finished := by
  intro report among
  cases handled with
  | still _ _ _ reports => rwa [reports]
  | popped _ _ _ _ _ _ _ _ _ _ reports => rwa [reports]
  | finished _ _ _ _ _ _ _ _ reports =>
      rw [reports]
      exact List.mem_cons_of_mem _ among

theorem Owned.afterPool_caller (owned : Owned s) {a : Hashpool.Action (K.tagged T)}
    {q : Hashpool.State (K.tagged T)} (handled : Handled s.pool a q) :
    ∃ caller, s.afterPool a q = { s with pool := q, caller := caller } ∧
      ∀ t, caller t = s.caller t ∨ ∃ report ∈ q.finished, report.job.1 = t ∧
        s.caller t = .waiting report.job.2 ∧ caller t = .answered report.job.2 report := by
  cases handled with
  | still jobs held silent reports => exact ⟨s.caller, afterPool_silent silent, fun _ => .inl rfl⟩
  | popped w job rest own front jobs free held others silent reports =>
      refine ⟨s.caller, afterPool_silent (fun v same => ?_), fun _ => .inl rfl⟩
      rw [own] at same
      cases same
      exact silent
  | finished w report own jobs ready held free others reports =>
      cases own
      have waits := owned.held w report.job.1 report.job.2 held
      refine ⟨_, afterPool_delivered ready waits, ?_⟩
      intro t
      by_cases mine : t = report.job.1
      · subst mine
        refine .inr ⟨report, ?_, rfl, waits, Function.update_self ..⟩
        rw [reports]
        exact List.mem_cons_self
      · exact .inl (Function.update_of_ne mine ..)

theorem moved_answered {u : ShareChecks K T} {a : ShareAction K T} (owned : Owned s)
    (before : Answered s) (moved : Moved s a u) : Answered u := by
  cases moved with
  | checked t job here =>
      refine ⟨?_, before.returned⟩
      intro v work report there
      simp only at there
      by_cases own : v = t
      · subst own
        rw [Function.update_self] at there
        cases there
      · rw [Function.update_of_ne own] at there
        exact before.answered v work report there
  | woken t job report here =>
      constructor
      · intro v work other there
        simp only at there
        by_cases own : v = t
        · subst own
          rw [Function.update_self] at there
          cases there
        · rw [Function.update_of_ne own] at there
          exact before.answered v work other there
      · intro v work other among
        rcases List.mem_append.mp among with early | last
        · exact before.returned v work other early
        · cases List.mem_singleton.mp last
          exact before.answered t job report here
  | pooled a q inner stepped =>
      have handled := next_handled inner stepped
      have later := handled_finished handled
      obtain ⟨caller, same, told⟩ := owned.afterPool_caller handled
      rw [same]
      constructor
      · intro v work report there
        simp only at there
        rcases told v with unchanged | ⟨last, among, rfl, _, answered⟩
        · rw [unchanged] at there
          exact (before.answered v work report there).imp_right (later report)
        · rw [answered] at there
          cases there
          exact ⟨rfl, among⟩
      · intro v work report among
        exact (before.returned v work report among).imp_right (later report)

theorem reachable_answered (reached : (system K T).Reachable s) : Answered s := by
  refine reached.invariant Answered ?_ ?_
  · rintro s ⟨_, callers, none, _⟩
    constructor
    · intro t job report there
      rw [callers t] at there
      cases there
    · intro t job report among
      rw [none] at among
      cases among
  · intro s a t earlier before stepped
    exact moved_answered (reachable_owned earlier) before (next_moved stepped)

theorem reachable_pool
    {allowed : Hashpool.State (K.tagged T) → Hashpool.Action (K.tagged T) → Prop}
    (push : ∀ p job, allowed p (.pushJob job))
    (reached : (system K T).ReachableUnder (fun s a => ∀ b, a = .pool b → allowed s.pool b) s) :
    (Hashpool.system (K.tagged T)).ReachableUnder allowed s.pool := by
  apply reached.invariant
    (fun s => (Hashpool.system (K.tagged T)).ReachableUnder allowed s.pool)
  · rintro s ⟨started, _⟩
    exact .start started
  · intro s a t _ before fine stepped
    cases next_moved stepped with
    | checked t job here => exact .step before (push s.pool (t, job)) rfl
    | woken t job report here => exact before
    | pooled a q inner ran =>
        rw [afterPool_pool]
        exact .step before (fine a rfl) ran

theorem pool_reachable (reached : (system K T).Reachable s) :
    (Hashpool.system (K.tagged T)).Reachable s.pool :=
  reachable_pool (fun _ _ => trivial) (reached.mono (fun _ _ _ _ _ => trivial))

def Allowed (D : Discipline K) (s : ShareChecks K T) (a : ShareAction K T) : Prop :=
  ∀ b, a = .pool b → (D.tagged T).Allowed s.pool b

/-- A thread that is told of no error has had its own job hashed with what was built
for it. -/
theorem returned_built {D : Discipline K} (reached : (system K T).ReachableUnder (Allowed D) s)
    {t : T} {job : K.Job} {report : Finished (K.tagged T)} (among : (t, job, report) ∈ s.returned)
    (clean : report.error = false) :
    ∃ data, report.used = some data ∧ D.built data (K.jobId job) := by
  obtain ⟨own, finished⟩ := (reachable_answered reached.reachable).returned t job report among
  have pool : (Hashpool.system (K.tagged T)).ReachableUnder (D.tagged T).Allowed s.pool := by
    apply reachable_pool ?_ reached
    rintro p job request i impossible
    cases impossible
  have built := finished_built s.pool pool report finished clean
  rw [own] at built
  exact built

/-- Who checks a share can rely on its job: its memory is used while it waits and never
after, and the result that it gets is the one of its own job. -/
theorem checks_safe (s : ShareChecks K T) (reached : (system K T).Reachable s) :
    Owned s ∧ Answered s :=
  ⟨reachable_owned reached, reachable_answered reached⟩

end Results

section Runs

variable (K T) in
def fresh (data : K.Data) : ShareChecks K T where
  pool :=
    { ds := fun _ => ⟨data, invalidId, invalidId, .free⟩
      dsCtr := 0
      node := .idle
      threads := []
      jobs := []
      workers := fun _ => .pop
      finished := [] }
  caller _ := .outside
  returned := []
  spoiled := false

theorem fresh_start [DecidableEq T] (data : K.Data) (blank : K.blank data) :
    (system K T).start (fresh K T data) :=
  ⟨⟨fun _ => ⟨blank, rfl, rfl, rfl⟩, rfl, rfl, rfl, rfl, fun _ => rfl, rfl⟩, fun _ => rfl, rfl, rfl⟩

/-- A request, the eight steps of the node thread and the steps of the dataset thread. -/
def load (request : K.Request) (thread steps : Nat) : List (ShareAction K T) :=
  .pool (.request request) :: List.replicate 8 (.pool .node) ++
    List.replicate steps (.pool (.dataset thread))

def work (w : Fin hashThdCount) : List (ShareAction K T) := List.replicate 7 (.pool (.worker w))

def settled (s : ShareChecks K T) : Bool :=
  s.returned.length == 2 && s.returned.all (fun result => !result.2.2.error)

def seedsApart (s : ShareChecks K T) : ShareAction K T → Bool
  | .pool .node =>
      match s.pool.node with
      | .assignSeed _ i => s.pool.threads.all (fun thd => thd.idx != i)
      | _ => true
  | _ => true

theorem seedsApart_allowed (D : Discipline K) (s : ShareChecks K T) (a : ShareAction K T)
    (apart : seedsApart s a = true) : Allowed D s a := by
  rintro b rfl request i rfl here thd member same
  simp only [seedsApart, here] at apart
  have differs := List.all_eq_true.mp apart thd member
  simp [same] at differs

end Runs

section Pools

variable (T : Type) [DecidableEq T] {getEpochNumber : UInt64 → Int32} {heights : UInt64 → Prop}

/-- A share that is not answered with an error was hashed with the cache of the seed that
the client was told, and with a live context for the epoch of its block. -/
theorem shares_hashed_right (nonneg : ∀ height, heights height → 0 ≤ getEpochNumber height) :
    (∀ s, (system RxHashpool.kind T).ReachableUnder (Allowed RxHashpool.discipline) s →
      ∀ t job report, (t, job, report) ∈ s.returned → report.error = false →
        ∃ data seed, report.used = some data ∧ data.ch = some seed ∧
          seed.getId = job.datasetId) ∧
    ∀ s, (system (PpHashpool.kind getEpochNumber heights) T).Reachable s →
      ∀ t job report, (t, job, report) ∈ s.returned → report.error = false →
        ∃ data, report.used = some data ∧
          PpHashpool.LiveContext data (getEpochNumber job.1.blockNumber) := by
  constructor
  · intro s reached t job report among clean
    obtain ⟨data, used, seed, cache, id⟩ := returned_built reached among clean
    exact ⟨data, seed, used, cache, id⟩
  · intro s reached t job report among clean
    have allowed : (system (PpHashpool.kind getEpochNumber heights) T).ReachableUnder
        (Allowed (PpHashpool.discipline nonneg)) s := by
      refine reached.mono ?_
      intro s a _ b _ request i _ _ thd _ _ phase _
      trivial
    obtain ⟨data, used, built⟩ := returned_built allowed among clean
    refine ⟨data, used, ?_⟩
    simpa only [PpHashpool.discipline, PpHashpool.toEpoch_epochId] using built

end Pools

section Witnesses

def bothChecked (t u : T) (job job' : K.Job) (v w : Fin hashThdCount) :
    List (ShareAction K T) :=
  [.check t job, .check u job'] ++ work w ++ work v ++ [.wake u, .wake t]

abbrev ppKind : PoolKind := PpHashpool.kind PpHashpool.epochOf30000 (· = 29999)

def ppJob (nonce : UInt64) : ppKind.Job := ⟨⟨[], nonce, 29999⟩, rfl⟩

theorem rx_reached :
    ∃ s, (system RxHashpool.kind (Fin 2)).ReachableUnder (Allowed RxHashpool.discipline) s ∧
      settled s = true :=
  System.exists_reachableUnder seedsApart (seedsApart_allowed RxHashpool.discipline)
    (fresh_start (⟨V32.setAllZero, none⟩ : RxDataset) rfl)
    (load (RxHashpool.uniformSeed 1) 0 5 ++
      bothChecked 0 1 (RxHashpool.jobFor (RxHashpool.uniformSeed 1))
        (RxHashpool.jobFor (RxHashpool.uniformSeed 1)) 0 1)
    settled (by decide +kernel)

theorem pp_reached : ∃ s, (system ppKind (Fin 2)).Reachable s ∧ settled s = true :=
  System.exists_reachable (fresh_start (⟨none, []⟩ : PpDataset) rfl)
    (load (29999 : UInt64) 0 6 ++ bothChecked 0 1 (ppJob 0) (ppJob 1) 0 1)
    settled (by decide +kernel)

/-- Both hold at the end of a run in which two threads are told of their shares. -/
theorem checks_safe_after_two :
    ∃ s : ShareChecks RxHashpool.kind (Fin 2), settled s = true ∧ Owned s ∧ Answered s := by
  obtain ⟨s, reached, told⟩ := rx_reached
  exact ⟨s, told, checks_safe s reached.reachable⟩

theorem shares_hashed_right_after_two :
    (∃ s : ShareChecks RxHashpool.kind (Fin 2), settled s = true ∧
      ∀ t job report, (t, job, report) ∈ s.returned → report.error = false →
        ∃ data seed, report.used = some data ∧ data.ch = some seed ∧
          seed.getId = job.datasetId) ∧
    ∃ s : ShareChecks ppKind (Fin 2), settled s = true ∧
      ∀ t job report, (t, job, report) ∈ s.returned → report.error = false →
        ∃ data, report.used = some data ∧
          PpHashpool.LiveContext data (PpHashpool.epochOf30000 job.1.blockNumber) := by
  have nonneg : ∀ height : UInt64, height = 29999 → 0 ≤ PpHashpool.epochOf30000 height := by
    rintro _ rfl
    decide
  have right := shares_hashed_right (Fin 2) nonneg
  obtain ⟨s, reached, told⟩ := rx_reached
  obtain ⟨u, ppReached, ppTold⟩ := pp_reached
  exact ⟨⟨s, told, right.1 s reached⟩, u, ppTold, right.2 u ppReached⟩

end Witnesses

end ShareChecks

end EpicPoold
