import EpicPoold.ClientReads
import EpicPoold.PoolClient
import EpicPoold.Submission

/-! What a client still does after it has begun to abort. -/

namespace EpicPoold

open Foundations

namespace SocketRun

open Client

variable {maxCallsPerMin : Nat} {parse : List UInt8 → Option Value} {s t u : SocketRun}

/-- The bytes behind the line that ends at `i`. -/
def behind (s : SocketRun) (lnstart i : Nat) : List UInt8 :=
  s.client.recvBuf.buf.read (lnstart + (i + 1)) (s.client.recvBuf.len - (i + 1))

/-- The reply to a line is written, unless the line is not accepted or is the last one in
the buffer. -/
def AnsweredOrLast (parse : List UInt8 → Option Value) (s : SocketRun) : SocketAction → Prop
  | .line env _ => env.writeOk = true ∨ ∀ lnstart i, s.pc = .scan lnstart →
      s.newline lnstart = some i →
      accepts parse (s.client.recvBuf.buf.read lnstart (i + 1)) = false ∨
        0x0a ∉ s.behind lnstart i
  | _ => True

theorem answeredOrLast_line {lnstart i : Nat} (here : s.pc = .scan lnstart)
    (found : s.newline lnstart = some i) (env : RequestEnv) (left : List UInt8) :
    AnsweredOrLast parse s (.line env left) ↔ env.writeOk = true ∨
      accepts parse (s.client.recvBuf.buf.read lnstart (i + 1)) = false ∨
        0x0a ∉ s.behind lnstart i := by
  apply or_congr_right
  constructor
  · intro any
    exact any lnstart i here found
  · intro this lnstart' i' here' found'
    rw [here] at here'
    cases here'
    rw [found] at found'
    cases found'
    exact this

/-- Nothing has been done since, but for moves within the buffer. -/
structure Rests (s t : SocketRun) : Prop where
  handed : t.handed = s.handed
  trace : t.trace = s.trace
  client : { t.client with recvBuf := s.client.recvBuf } = s.client

theorem rests_refl (s : SocketRun) : Rests s s := ⟨rfl, rfl, rfl⟩

def Idles (s : SocketRun) : Prop :=
  s.ended = none → s.client.aborting = true → ∀ lnstart, s.pc = .scan lnstart →
    s.newline lnstart = none

theorem processLine_aborting {env : RequestEnv} {c after : Client} {line : List UInt8}
    {fine : Bool} {effects : List Effect}
    (ran : processLine maxCallsPerMin parse env c line = .ok (fine, after, effects)) :
    after.aborting = if fine then c.aborting || !env.writeOk else c.aborting := by
  have same := congrArg Io.aborting (processLine_io ran).2
  cases fine with
  | true => exact same
  | false => exact same

theorem newline_behind {lnstart i : Nat} {c : Client} {left : List UInt8}
    (same : c.recvBuf = s.client.recvBuf) (own : left.length = i + 1) (t : SocketRun)
    (client : t.client =
      { c with recvBuf := ⟨c.recvBuf.len - (i + 1), c.recvBuf.buf.write lnstart left⟩ }) :
    t.newline (lnstart + (i + 1)) = (s.behind lnstart i).findIdx? (· = 0x0a) := by
  rw [newline, client, behind, ← same]
  simp only
  rw [Buffer.read_past_write _ _ _ _ _ (by omega)]

theorem moved_idles {a : SocketAction} (before : Idles s) (running : s.ended = none)
    (fine : AnsweredOrLast parse s a) (moved : Moved maxCallsPerMin parse s a t) : Idles t := by
  intro still aborting
  cases moved with
  | accepted env left lnstart i c effects here found own ran =>
      intro later there
      cases there
      have wasAlive : s.client.aborting = false := by
        apply Bool.eq_false_iff.mpr
        intro dead
        have none := before running dead lnstart here
        rw [found] at none
        cases none
      have lastOne : 0x0a ∉ s.behind lnstart i := by
        have silent : (s.client.aborting || !env.writeOk) = true := by
          have changed := processLine_aborting ran
          exact changed.symm.trans aborting
        rw [wasAlive] at silent
        rcases (answeredOrLast_line here found env left).mp fine with written | refused | last
        · rw [written] at silent
          cases silent
        · rw [← (processLine_io ran).1] at refused
          cases refused
        · exact last
      rw [newline_behind (processLine_recvBuf ran) own _ rfl]
      apply List.findIdx?_eq_none_iff.mpr
      intro x member
      apply decide_eq_false
      intro newline
      rw [newline] at member
      exact lastOne member
  | received data here alive got room =>
      rw [alive] at aborting
      cases aborting
  | newBlock env keep c effects idle ran =>
      intro lnstart there
      rw [idle] at there
      cases there
  | closed result here alive nothing => cases still
  | filled data here alive got full => cases still
  | rejected env left lnstart i c effects here found own ran => cases still
  | called _ | deaf _ _ _ | drained _ _ | moved _ _ _ =>
      intro lnstart there
      cases there

theorem reachable_idles (reached : (system maxCallsPerMin parse).ReachableUnder
    (AnsweredOrLast parse) s) : Idles s := by
  refine reached.invariant Idles ?_ ?_
  · rintro s ⟨fd, extraNonce, stale, rfl⟩ _ _ lnstart there
    cases there
  · intro s a t _ before fine stepped
    obtain ⟨running, moved⟩ := next_moved stepped
    exact moved_idles before running fine moved

theorem moved_rests {a : SocketAction} (idles : Idles s) (running : s.ended = none)
    (aborting : s.client.aborting = true) (moved : Moved maxCallsPerMin parse s a t) :
    Rests s t := by
  cases moved with
  | called idle => exact ⟨rfl, rfl, rfl⟩
  | deaf result here _ => exact ⟨rfl, rfl, rfl⟩
  | newBlock env keep c effects idle ran =>
      rw [onNewBlock_aborting env s.client aborting] at ran
      cases ran
      exact ⟨rfl, List.append_nil _, rfl⟩
  | moved lnstart here none =>
      refine ⟨rfl, rfl, ?_⟩
      simp only [moveLeftover]
      split
      · rfl
      · rfl
  | rejected env left lnstart i c effects here found own ran
  | accepted env left lnstart i c effects here found own ran =>
      have none := idles running aborting lnstart here
      rw [found] at none
      cases none
  | drained here alive | closed _ here alive nothing | filled _ here alive got full
  | received _ here alive got room =>
      rw [aborting] at alive
      cases alive

theorem rests_aborting (rests : Rests s t) (aborting : s.client.aborting = true) :
    t.client.aborting = true :=
  (congrArg Client.aborting rests.client).trans aborting

theorem rests_trans (first : Rests s t) (second : Rests t u) : Rests s u where
  handed := second.handed.trans first.handed
  trace := second.trace.trans first.trace
  client := by
    have kept := congrArg (fun c : Client => { c with recvBuf := s.client.recvBuf }) second.client
    exact kept.trans first.client

theorem leads_rests (reached : (system maxCallsPerMin parse).ReachableUnder
    (AnsweredOrLast parse) s) (aborting : s.client.aborting = true)
    (leads : (system maxCallsPerMin parse).LeadsUnder (AnsweredOrLast parse) s t) : Rests s t := by
  have both := leads.invariant (fun t => Idles t ∧ Rests s t)
    ⟨reachable_idles reached, rests_refl s⟩
  refine (both ?_).2
  intro t a u before fine stepped
  obtain ⟨running, moved⟩ := next_moved stepped
  have rests := before.2
  exact ⟨moved_idles before.1 running fine moved,
    rests_trans rests (moved_rests before.1 running (rests_aborting rests aborting) moved)⟩

theorem exists_line {lnstart i : Nat} (running : s.ended = none) (here : s.pc = .scan lnstart)
    (found : s.newline lnstart = some i) (env : RequestEnv) :
    ∃ a t, next maxCallsPerMin parse s a = some t ∧ ¬ Rests s t := by
  obtain ⟨⟨fine, c, effects⟩, ran⟩ := processLine_total maxCallsPerMin parse env s.client
    (s.client.recvBuf.buf.read lnstart (i + 1))
  obtain ⟨t, stepped, _⟩ := next_line running here found ran
  refine ⟨_, t, stepped, ?_⟩
  obtain ⟨_, moved⟩ := next_moved stepped
  cases moved with
  | rejected _ _ _ _ _ _ _ _ _ _ | accepted _ _ _ _ _ _ _ _ _ _ =>
      intro rests
      have length := congrArg List.length rests.handed
      simp at length

theorem works_on {a : SocketAction} (unanswered : ¬ AnsweredOrLast parse s a)
    (stepped : next maxCallsPerMin parse s a = some t) :
    t.client.aborting = true ∧ ∃ b u, next maxCallsPerMin parse t b = some u ∧ ¬ Rests t u := by
  obtain ⟨running, moved⟩ := next_moved stepped
  cases moved with
  | called _ | newBlock _ _ _ _ _ _ | deaf _ _ _ | drained _ _ | closed _ _ _ _ | filled _ _ _ _ _
  | received _ _ _ _ _ | moved _ _ _ => exact absurd trivial unanswered
  | rejected env left lnstart i c effects here found own ran =>
      have refused := (processLine_io ran).1.symm
      exact absurd ((answeredOrLast_line here found env left).mpr (.inr (.inl refused))) unanswered
  | accepted env left lnstart i c effects here found own ran =>
      rw [answeredOrLast_line here found env left] at unanswered
      obtain ⟨silent, _, more⟩ : env.writeOk = false ∧ _ ∧ 0x0a ∈ s.behind lnstart i := by
        simpa only [not_or, Bool.not_eq_true, not_not] using unanswered
      refine ⟨?_, ?_⟩
      · change c.aborting = true
        rw [processLine_aborting ran, silent]
        simp
      · cases found' : (s.behind lnstart i).findIdx? (· = 0x0a) with
        | none => exact absurd more (notMem_of_findIdx found')
        | some j =>
            exact exists_line running rfl
              ((newline_behind (processLine_recvBuf ran) own _ rfl).trans found') env

/-- A dead session does no more work in the runs that answer every line they accept, but
for the last of a read, and goes on working wherever one is not answered. -/
theorem dead_session_rests :
    (∀ s t, (system maxCallsPerMin parse).ReachableUnder (AnsweredOrLast parse) s →
      s.client.aborting = true →
      (system maxCallsPerMin parse).LeadsUnder (AnsweredOrLast parse) s t → Rests s t) ∧
    ∀ s a t, next maxCallsPerMin parse s a = some t → ¬ AnsweredOrLast parse s a →
      t.client.aborting = true ∧ ∃ b u, next maxCallsPerMin parse t b = some u ∧ ¬ Rests t u :=
  ⟨fun _ _ reached aborting leads => leads_rests reached aborting leads,
    fun _ _ _ stepped unanswered => works_on unanswered stepped⟩

def emptyLine : List UInt8 := lineOf (.object [])

def firstUnanswered : List SocketAction :=
  [.call, .recv (.bytes (emptyLine ++ loginLine 1)),
    .line { Session.plainEnv .zero with writeOk := false } emptyLine]

def login : SocketAction := .line (Session.plainEnv .zero) (loginLine 1)

/-- The aborting client logs in. -/
theorem dead_session_logs_in :
    ∃ s t, (system 60 parseJson).Reachable s ∧ s.client.aborting = true ∧
      s.client.loggedIn = false ∧ next 60 parseJson s login = some t ∧ t.client.loggedIn = true ∧
      t.handed ≠ s.handed ∧ t.trace ≠ s.trace := by
  obtain ⟨s, reached, left⟩ := System.exists_reachable (S := system 60 parseJson)
    (s := .new (construct 7 0 .zero)) ⟨7, 0, .zero, rfl⟩ firstUnanswered
    (fun s => s.client.aborting && !s.client.loggedIn && (next 60 parseJson s login).any
      (fun t => t.client.loggedIn && decide (s.handed.length < t.handed.length) &&
        decide (s.trace.length < t.trace.length)))
    (by decide +kernel)
  simp only [Bool.and_eq_true, Bool.not_eq_true', decide_eq_true_eq, Option.any_eq_true] at left
  obtain ⟨⟨aborting, stranger⟩, t, stepped, ⟨member, longer⟩, more⟩ := left
  refine ⟨s, t, reached, aborting, stranger, stepped, member, ?_, ?_⟩
  · intro same
    rw [same] at longer
    exact Nat.lt_irrefl _ longer
  · intro same
    rw [same] at more
    exact Nat.lt_irrefl _ more

end SocketRun

end EpicPoold
