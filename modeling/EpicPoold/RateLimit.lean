import EpicPoold.Answers
import EpicPoold.Foundations.Windows
import EpicPoold.MinerRequests

/-! The flood counter of a client: how many requests reach a method between two resets of
flood_timestamp, and within any minute. -/

namespace EpicPoold

open Foundations

structure Flood where
  timestamp : Int
  count : UInt32
  deriving DecidableEq

namespace Client

def flood (c : Client) : Flood := ⟨c.floodTimestamp, c.floodCount⟩

@[simp] theorem flood_netSend (env : RequestEnv) (c : Client) (reply : Reply) :
    (netSend env c reply).1.flood = c.flood := by
  rw [netSend]
  split
  · rfl
  · rfl

theorem flood_checkShare (env : RequestEnv) (c : Client) (callId : Int64) (nonce : UInt32) :
    (checkShare env c callId nonce).1.flood = c.flood := by
  have hashed : (checkClientWork env c nonce).1.flood = c.flood := by
    unfold checkClientWork
    cases c.curJob.type <;> rfl
  rw [checkShare_eq]
  simp only [flood_netSend, hashed]

theorem flood_giveFirstJob (env : RequestEnv) (c : Client) (callId : Int64) :
    (giveFirstJob env c callId).1.flood = c.flood := by
  unfold giveFirstJob
  exact flood_netSend env _ _

theorem flood_onNewBlock (env : RequestEnv) (c : Client) :
    (onNewBlock env c).2.1.flood = c.flood := by
  unfold onNewBlock
  split
  · rfl
  · cases miner : c.loggedIn with
    | false =>
        simp only [getNewJob, miner, Bool.not_false, if_true]
        rfl
    | true =>
        simp only [getNewJob, prepareJob, miner, Bool.not_true, Bool.false_eq_true, if_false,
          flood_netSend]
        rfl

theorem flood_dispatch {env : RequestEnv} {c : Client} {callId : Int64} {args : Value}
    {method : Method} {out : Client × List Effect}
    (ran : dispatch env c callId args method = .ok out) : out.1.flood = c.flood := by
  cases method with
  | submit =>
      rw [dispatch, processMethodSubmit, bind_eq_ok] at ran
      obtain ⟨outcome, _, ran⟩ := ran
      cases outcome with
      | error message =>
          cases ran
          exact flood_netSend env c _
      | ok nonce =>
          cases ran
          exact flood_checkShare env c callId nonce
  | login =>
      rcases processMethodLogin_eq_ok ran with ⟨_, rfl⟩ | ⟨_, rfl⟩
      · exact flood_netSend env c _
      · exact flood_giveFirstJob env c callId
  | keepalive =>
      cases ran
      exact flood_netSend env c _

end Client

def Reply.treatment : Reply → Client.Treatment
  | .error _ message =>
      if message = "Malformed request" then .malformed
      else if message = "Slow down" then .refused
      else if message = "Unknown method" then .unknown
      else .dispatched
  | _ => .dispatched

/-- A request that passed the test of its members: when it was counted, in which window,
and what became of it. Window 0 is that of a new client, each reset opens the next. -/
structure Counted where
  time : Int
  window : Nat
  treatment : Client.Treatment
  deriving DecidableEq

def Counted.dispatched (e : Counted) : Bool := e.treatment = .dispatched

structure RateRun where
  client : Client
  window : Nat
  log : List Counted

inductive RateAction where
  | line (env : RequestEnv) (buf : List UInt8)
  | newBlock (env : RequestEnv)

namespace RateRun

open Client

def treatments (effects : List Effect) : List Treatment :=
  ((replies effects).map Reply.treatment).filter (· ≠ .malformed)

/-- A line has been handled; flood_timestamp changes exactly when it is reset. -/
def handled (s : RateRun) (time : Int) (after : Client) (effects : List Effect) : RateRun :=
  let window :=
    if after.floodTimestamp = s.client.floodTimestamp then s.window else s.window + 1
  ⟨after, window, s.log ++ (treatments effects).map (Counted.mk time window)⟩

section System

variable (maxCallsPerMin : Nat) (parse : List UInt8 → Option Value)

def next (s : RateRun) : RateAction → Option RateRun
  | .line env buf =>
      match processLine maxCallsPerMin parse env s.client buf with
      | .error _ => none
      | .ok (accepted, after, effects) =>
          some (s.handled env.time (if accepted then after else after.hardAbort) effects)
  | .newBlock env => some { s with client := (onNewBlock env s.client).2.1 }

def system : System RateRun RateAction where
  start s := ∃ fd extraNonce stale, s = ⟨construct fd extraNonce stale, 0, []⟩
  next := next maxCallsPerMin parse

end System

def Clock (s : RateRun) : RateAction → Prop
  | .line env _ => ∀ e ∈ s.log, e.time ≤ env.time
  | .newBlock _ => True

def inWindow (log : List Counted) (w : Nat) : Nat := log.countP (fun e => decide (e.window = w))

/-- No window has so many requests that the counter wraps around. -/
def Few (log : List Counted) : Prop := ∀ w, inWindow log w < 2 ^ 32

section Steps

variable {maxCallsPerMin : Nat} {parse : List UInt8 → Option Value} {s t : RateRun}

abbrev Resets (s : RateRun) (time : Int) : Prop := 60 < time - s.client.floodTimestamp

theorem flood_reset {time : Int} (late : s.Resets time) :
    (countCall time s.client).flood = ⟨time, 1⟩ := by
  rw [countCall, if_pos late]
  rfl

theorem flood_counted {time : Int} (early : ¬ s.Resets time) :
    (countCall time s.client).flood = ⟨s.client.floodTimestamp, s.client.floodCount + 1⟩ := by
  rw [countCall, if_neg early]
  rfl

inductive Moved (maxCallsPerMin : Nat) (s : RateRun) : RateAction → RateRun → Prop
  | still (a : RateAction) (c : Client) (same : c.flood = s.client.flood) :
      Moved maxCallsPerMin s a { s with client := c }
  | reset (env : RequestEnv) (buf : List UInt8) (c : Client) (treatment : Treatment)
      (late : s.Resets env.time) (flood : c.flood = ⟨env.time, 1⟩)
      (limit : treatment = .refused ↔ maxCallsPerMin < 1) :
      Moved maxCallsPerMin s (.line env buf)
        ⟨c, s.window + 1, s.log ++ [⟨env.time, s.window + 1, treatment⟩]⟩
  | counted (env : RequestEnv) (buf : List UInt8) (c : Client) (treatment : Treatment)
      (early : ¬ s.Resets env.time)
      (flood : c.flood = ⟨s.client.floodTimestamp, s.client.floodCount + 1⟩)
      (limit : treatment = .refused ↔ maxCallsPerMin < (s.client.floodCount + 1).toNat) :
      Moved maxCallsPerMin s (.line env buf)
        ⟨c, s.window, s.log ++ [⟨env.time, s.window, treatment⟩]⟩

theorem treatment_fromMethod {callId : Int64} {reply : Reply} (own : reply.FromMethod callId) :
    reply.treatment = .dispatched := by
  cases own with
  | error message known =>
      have apart : ∀ known ∈ methodErrors, known ∉ lineErrors := by decide
      have other := apart message known
      simp only [lineErrors, List.mem_cons, List.not_mem_nil, or_false, not_or] at other
      simp only [Reply.treatment, other, if_false]
  | login | status => rfl

theorem treatments_of_treated {env : RequestEnv} {c : Client} {doc : Value}
    {out : Client × List Effect} {treatment : Treatment}
    (treated : Treated maxCallsPerMin env c doc treatment out) :
    treatments out.2 = if treatment = .malformed then [] else [treatment] := by
  cases treated with
  | malformed | refused | unknown => rfl
  | dispatched good within args method out ran =>
      obtain ⟨reply, own, once⟩ := dispatch_replies ran
      rw [treatments, once, List.map_singleton, treatment_fromMethod own]
      rfl

theorem flood_treated {env : RequestEnv} {c : Client} {doc : Value} {out : Client × List Effect}
    {treatment : Treatment} (treated : Treated maxCallsPerMin env c doc treatment out) :
    (treatment = .malformed ∧ out.1.flood = c.flood) ∨
      (treatment ≠ .malformed ∧ out.1.flood = (countCall env.time c).flood ∧
        (treatment = .refused ↔ maxCallsPerMin < (countCall env.time c).floodCount.toNat)) := by
  cases treated with
  | malformed bad => exact .inl ⟨rfl, flood_netSend _ _ _⟩
  | refused good more => exact .inr ⟨by decide, flood_netSend _ _ _, iff_of_true rfl more⟩
  | unknown good within =>
      exact .inr ⟨by decide, flood_netSend _ _ _, iff_of_false (by decide) (by omega)⟩
  | dispatched good within args method out ran =>
      exact .inr ⟨by decide, flood_dispatch ran, iff_of_false (by decide) (by omega)⟩

theorem next_moved {a : RateAction} (stepped : next maxCallsPerMin parse s a = some t) :
    Moved maxCallsPerMin s a t := by
  cases a with
  | newBlock env =>
      cases stepped
      exact .still _ _ (flood_onNewBlock env s.client)
  | line env buf =>
      rw [next] at stepped
      cases request : requestOf parse buf with
      | none =>
          rw [processLine_of_none request] at stepped
          cases stepped
          have moved : Moved maxCallsPerMin s (.line env buf) _ :=
            .still _ s.client.hardAbort rfl
          simpa [handled, treatments, hardAbort] using moved
      | some doc =>
          obtain ⟨treatment, out, treated, ran⟩ :=
            @processLine_of_some maxCallsPerMin parse env s.client buf doc request
          rw [ran] at stepped
          cases stepped
          have reply := treatments_of_treated treated
          simp only [handled, reply, if_true]
          rcases flood_treated treated with ⟨rfl, same⟩ | ⟨real, flood, limit⟩
          · have stamp : out.1.floodTimestamp = s.client.floodTimestamp :=
              congrArg Flood.timestamp same
            rw [if_pos stamp]
            have moved : Moved maxCallsPerMin s (.line env buf) _ := .still _ out.1 same
            simpa using moved
          · rw [if_neg real]
            by_cases late : s.Resets env.time
            · rw [flood_reset late] at flood
              have past : 60 < env.time - s.client.floodTimestamp := late
              have stamp : out.1.floodTimestamp = env.time := congrArg Flood.timestamp flood
              have count := congrArg Flood.count (flood_reset late)
              change (countCall env.time s.client).floodCount = 1 at count
              rw [count] at limit
              rw [if_neg (by omega)]
              exact .reset env buf out.1 treatment late flood limit
            · rw [flood_counted late] at flood
              have count := congrArg Flood.count (flood_counted late)
              change (countCall env.time s.client).floodCount = _ at count
              rw [count] at limit
              have stamp : out.1.floodTimestamp = s.client.floodTimestamp :=
                congrArg Flood.timestamp flood
              rw [if_pos stamp]
              exact .counted env buf out.1 treatment late flood limit

end Steps

section Bounds

variable {maxCallsPerMin : Nat} {parse : List UInt8 → Option Value} {s t : RateRun}
  {a : RateAction}

structure Kept (maxCallsPerMin : Nat) (s : RateRun) : Prop where
  count : s.client.floodCount.toNat = inWindow s.log s.window
  limited : Limited Counted.window Counted.dispatched maxCallsPerMin s.log

structure Spaced (s : RateRun) : Prop where
  windows : ∀ e ∈ s.log, e.window ≤ s.window
  earlier : ∀ e ∈ s.log, e.window < s.window → e.time ≤ s.client.floodTimestamp
  older : ∀ e ∈ s.log, e.window + 2 ≤ s.window → e.time + 60 < s.client.floodTimestamp
  began : 0 < s.window → ∃ e ∈ s.log, e.time = s.client.floodTimestamp
  apart : Apart Counted.time Counted.window 60 s.log

theorem inWindow_append (log : List Counted) (e : Counted) (w : Nat) :
    inWindow (log ++ [e]) w = inWindow log w + if e.window = w then 1 else 0 := by
  simp [inWindow, List.countP_append]

theorem few_of_append {log : List Counted} {e : Counted} (few : Few (log ++ [e])) : Few log := by
  intro w
  have more := few w
  rw [inWindow_append] at more
  omega

theorem inWindow_next (windows : ∀ e ∈ s.log, e.window ≤ s.window) :
    inWindow s.log (s.window + 1) = 0 := by
  apply List.countP_eq_zero.mpr
  intro e member
  have below := windows e member
  simp only [decide_eq_true_eq]
  omega

theorem limited_append {log : List Counted} {e : Counted}
    (limited : Limited Counted.window Counted.dispatched maxCallsPerMin log)
    (room : e.dispatched = true → inWindow log e.window + 1 ≤ maxCallsPerMin) :
    Limited Counted.window Counted.dispatched maxCallsPerMin (log ++ [e]) := by
  intro w
  have old := limited w
  rw [List.countP_append, List.countP_singleton]
  split
  · rename_i new
    simp only [Bool.and_eq_true, decide_eq_true_eq] at new
    obtain ⟨through, rfl⟩ := new
    have fewer : log.countP (fun f => f.dispatched && decide (f.window = e.window)) ≤
        inWindow log e.window := by
      apply List.countP_mono_left
      intro f _ both
      exact (Bool.and_eq_true _ _ ▸ both).2
    have free := room through
    omega
  · omega

theorem room_of_limit {treatment : Treatment} {n count : Nat}
    (limit : treatment = .refused ↔ maxCallsPerMin < count) (same : n + 1 = count)
    (through : treatment = .dispatched) : n + 1 ≤ maxCallsPerMin := by
  rw [through] at limit
  have within := mt limit.mpr (by decide)
  omega

theorem moved_kept (before : Kept maxCallsPerMin s) (windows : ∀ e ∈ s.log, e.window ≤ s.window)
    (few : Few t.log) (moved : Moved maxCallsPerMin s a t) : Kept maxCallsPerMin t := by
  cases moved with
  | still a c same =>
      have count : c.floodCount = s.client.floodCount := congrArg Flood.count same
      exact ⟨by simpa [count] using before.count, before.limited⟩
  | reset env buf c treatment late flood limit =>
      have none := inWindow_next windows
      have count : c.floodCount = 1 := congrArg Flood.count flood
      constructor
      · simp only [inWindow_append, none, count, if_true]
        rfl
      · apply limited_append before.limited
        intro through
        exact room_of_limit limit (by simp only [none]) (of_decide_eq_true through)
  | counted env buf c treatment early flood limit =>
      have count : c.floodCount = s.client.floodCount + 1 := congrArg Flood.count flood
      have small := few s.window
      simp only [inWindow_append, if_true, ← before.count] at small
      have next : (s.client.floodCount + 1).toNat = s.client.floodCount.toNat + 1 := by
        rw [UInt32.toNat_add]
        exact Nat.mod_eq_of_lt small
      constructor
      · simp only [inWindow_append, if_true, count, next, before.count]
      · apply limited_append before.limited
        intro through
        apply room_of_limit limit _ (of_decide_eq_true through)
        rw [next, before.count]

theorem moved_spaced (before : Spaced s) (clock : Clock s a) (moved : Moved maxCallsPerMin s a t) :
    Spaced t := by
  cases moved with
  | still a c same =>
      have stamp : c.floodTimestamp = s.client.floodTimestamp := congrArg Flood.timestamp same
      constructor
      · exact before.windows
      · simpa only [stamp] using before.earlier
      · simpa only [stamp] using before.older
      · simpa only [stamp] using before.began
      · exact before.apart
  | reset env buf c treatment late flood limit =>
      have stamp : c.floodTimestamp = env.time := congrArg Flood.timestamp flood
      have gap : ∀ e ∈ s.log, e.window + 2 ≤ s.window + 1 → e.time + 60 < env.time := by
        intro e member far
        have first := before.earlier e member (by omega)
        have past : 60 < env.time - s.client.floodTimestamp := late
        omega
      constructor
      · intro e member
        rcases List.mem_append.mp member with old | new
        · exact Nat.le_succ_of_le (before.windows e old)
        · rw [List.mem_singleton.mp new]
      · intro e member below
        simp only [stamp]
        rcases List.mem_append.mp member with old | new
        · exact clock e old
        · rw [List.mem_singleton.mp new]
      · intro e member far
        simp only [stamp]
        rcases List.mem_append.mp member with old | new
        · exact gap e old far
        · rw [List.mem_singleton.mp new] at far
          simp only at far
          omega
      · intro _
        exact ⟨_, List.mem_append_right _ (List.mem_singleton_self _), stamp.symm⟩
      · intro e member later after far
        rcases List.mem_append.mp after with old | new
        · rcases List.mem_append.mp member with first | last
          · exact before.apart e first later old far
          · have below := before.windows later old
            rw [List.mem_singleton.mp last] at far
            simp only at far
            omega
        · rw [List.mem_singleton.mp new] at far ⊢
          rcases List.mem_append.mp member with first | last
          · exact gap e first far
          · rw [List.mem_singleton.mp last] at far
            simp only at far
            omega
  | counted env buf c treatment early flood limit =>
      have stamp : c.floodTimestamp = s.client.floodTimestamp := congrArg Flood.timestamp flood
      have inLog {e : Counted} {time : Int} {treatment : Treatment}
          (member : e ∈ s.log ++ [⟨time, s.window, treatment⟩]) (not : e.window ≠ s.window) :
          e ∈ s.log := by
        rcases List.mem_append.mp member with old | new
        · exact old
        · rw [List.mem_singleton.mp new] at not
          exact absurd rfl not
      constructor
      · intro e member
        rcases List.mem_append.mp member with old | new
        · exact before.windows e old
        · rw [List.mem_singleton.mp new]
      · intro e member below
        simp only [stamp]
        exact before.earlier e (inLog member (by simp only at below; omega)) below
      · intro e member far
        simp only [stamp]
        exact before.older e (inLog member (by simp only at far; omega)) far
      · intro some
        obtain ⟨e, member, same⟩ := before.began some
        exact ⟨e, List.mem_append_left _ member, by simp only [stamp, same]⟩
      · intro e member later after far
        rcases List.mem_append.mp after with old | new
        · have below := before.windows later old
          exact before.apart e (inLog member (by omega)) later old far
        · rw [List.mem_singleton.mp new] at far ⊢
          have first := inLog member (by simp only at far; omega)
          obtain ⟨opening, present, same⟩ := before.began (by simp only at far; omega)
          have order := clock opening present
          have gap := before.older e first far
          simp only
          omega

theorem reachable_kept (reached : (system maxCallsPerMin parse).ReachableUnder Clock s) :
    Spaced s ∧ (Few s.log → Kept maxCallsPerMin s) := by
  apply reached.invariant (fun s => Spaced s ∧ (Few s.log → Kept maxCallsPerMin s))
  · rintro s ⟨fd, extraNonce, stale, rfl⟩
    refine ⟨⟨?_, ?_, ?_, ?_, ?_⟩, fun _ => ⟨rfl, fun _ => Nat.zero_le _⟩⟩
    · simp
    · simp
    · simp
    · intro none
      exact absurd none (Nat.lt_irrefl 0)
    · intro e member
      cases member
  · intro s a t _ before clock stepped
    have moved := next_moved stepped
    refine ⟨moved_spaced before.1 clock moved, ?_⟩
    intro few
    have fewer : Few s.log := by
      cases moved with
      | still => exact few
      | reset | counted => exact few_of_append few
    exact moved_kept (before.2 fewer) before.1.windows few moved

/-- A request past the window opens the next and is not refused. -/
theorem next_late (positive : 0 < maxCallsPerMin) {env : RequestEnv} {buf : List UInt8}
    {doc : Value}
    (request : requestOf parse buf = some doc) (good : IsRequest doc) (late : s.Resets env.time) :
    ∃ t treatment, next maxCallsPerMin parse s (.line env buf) = some t ∧
      t.log = s.log ++ [⟨env.time, s.window + 1, treatment⟩] ∧
      (treatment = .dispatched ∨ treatment = .unknown) := by
  obtain ⟨treatment, out, treated, ran⟩ :=
    @processLine_of_some maxCallsPerMin parse env s.client buf doc request
  have stepped : next maxCallsPerMin parse s (.line env buf) =
      some (s.handled env.time out.1 out.2) := by
    rw [next, ran]
    rfl
  have reply := treatments_of_treated treated
  rcases flood_treated treated with ⟨rfl, _⟩ | ⟨real, flood, limit⟩
  · cases treated with
    | malformed bad => exact absurd good bad
  · have stamp : out.1.floodTimestamp = env.time :=
      (congrArg Flood.timestamp flood).trans (congrArg Flood.timestamp (flood_reset late))
    have past : 60 < env.time - s.client.floodTimestamp := late
    refine ⟨_, treatment, stepped, ?_, ?_⟩
    · rw [handled, reply, if_neg real, if_neg (by omega)]
      rfl
    · have count : (countCall env.time s.client).floodCount = 1 :=
        congrArg Flood.count (flood_reset late)
      have within : treatment ≠ .refused := by
        intro refused
        have more := limit.mp refused
        rw [count] at more
        exact absurd positive (Nat.not_lt_of_ge (Nat.le_of_lt_succ more))
      cases treatment with
      | malformed => exact absurd rfl real
      | refused => exact absurd rfl within
      | unknown => exact .inr rfl
      | dispatched => exact .inl rfl

/-- Between two resets at most `maxCallsPerMin` requests reach a method, within any 61
seconds at most twice as many; a request more than a minute after the last reset is not
refused. -/
theorem rate_limit (reached : (system maxCallsPerMin parse).ReachableUnder Clock s)
    (few : Few s.log) :
    (∀ w, s.log.countP (fun e => e.dispatched && decide (e.window = w)) ≤ maxCallsPerMin) ∧
    (∀ t, s.log.countP (fun e => e.dispatched && decide (t ≤ e.time ∧ e.time ≤ t + 60)) ≤
      2 * maxCallsPerMin) ∧
    (0 < maxCallsPerMin → ∀ env buf doc, requestOf parse buf = some doc → IsRequest doc →
      60 < env.time - s.client.floodTimestamp →
      ∃ t treatment, next maxCallsPerMin parse s (.line env buf) = some t ∧
        t.log = s.log ++ [⟨env.time, s.window + 1, treatment⟩] ∧
        (treatment = .dispatched ∨ treatment = .unknown)) := by
  obtain ⟨spaced, kept⟩ := reachable_kept reached
  refine ⟨(kept few).limited, ?_, ?_⟩
  · intro t
    exact countP_during_le (kept few).limited spaced.apart t
  · intro positive env buf doc request good late
    exact next_late positive request good late

def keepaliveDoc : JsonText.Doc := requestDoc 3 "keepalived" []

def idleEnv (time : Int) : RequestEnv := ⟨time, .zero, fun _ => ⟨.setAllOnes, true⟩,
  fun _ => ⟨.setAllOnes, true⟩, true⟩

def keepalive (time : Int) : RateAction := .line (idleEnv time) (lineOf keepaliveDoc)

def onClock (s : RateRun) : RateAction → Bool
  | .line env _ => s.log.all (fun e => e.time ≤ env.time)
  | .newBlock _ => true

theorem clock_of_onClock (s : RateRun) (a : RateAction) (forward : onClock s a = true) :
    Clock s a := by
  cases a with
  | line env buf =>
      intro e member
      exact of_decide_eq_true (List.all_eq_true.mp forward e member)
  | newBlock env => trivial

/-- With a limit of one, the second request in ten seconds is refused, and one that comes more
than a minute after the first is not. -/
theorem rate_limit_keepalive :
    ∃ (s t : RateRun) (treatment : Treatment),
      s.log = [⟨100, 1, .dispatched⟩, ⟨110, 1, .refused⟩] ∧
      s.log.countP (fun e => e.dispatched && decide (e.window = 1)) ≤ 1 ∧
      s.log.countP (fun e => e.dispatched && decide (50 ≤ e.time ∧ e.time ≤ 110)) ≤ 2 ∧
      next 1 parseJson s (keepalive 161) = some t ∧ t.log = s.log ++ [⟨161, 2, treatment⟩] ∧
      (treatment = .dispatched ∨ treatment = .unknown) := by
  obtain ⟨s, reached, checks⟩ := System.exists_reachableUnder (S := system 1 parseJson) onClock
    clock_of_onClock ⟨5, 0, .zero, rfl⟩ [keepalive 100, keepalive 110]
    (fun s => decide (s.log = [⟨100, 1, .dispatched⟩, ⟨110, 1, .refused⟩]) && s.window == 1 &&
      s.client.floodTimestamp == 100) (by decide +kernel)
  simp only [Bool.and_eq_true, decide_eq_true_eq, beq_iff_eq] at checks
  obtain ⟨⟨log, window⟩, stamp⟩ := checks
  have few : Few s.log := by
    intro w
    rw [log]
    exact Nat.lt_of_le_of_lt List.countP_le_length (by decide)
  obtain ⟨once, twice, late⟩ := rate_limit reached few
  have printable : JsonText.Printable keepaliveDoc := printable_requestDoc 3 rfl .nil
  obtain ⟨t, treatment, stepped, more, treated⟩ := late (by decide) (idleEnv 161) _ _
    (requestOf_lineOf printable rfl) ⟨_, _, rfl, rfl, rfl⟩ (by rw [stamp]; decide)
  rw [window] at more
  exact ⟨s, t, treatment, log, once 1, twice 50, stepped, more, treated⟩

end Bounds

end RateRun

end EpicPoold
