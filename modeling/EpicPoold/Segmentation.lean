import EpicPoold.ClientReads
import EpicPoold.NodeReceive
import EpicPoold.Submission

/-! Streams as they reach a client and recv_main, cut into reads in any way: what both make
of them does not depend on the cut, unless a read fills the buffer. -/

namespace EpicPoold

open Foundations Foundations.JsonText

variable {maxCallsPerMin : Nat} {getEpochNumber : UInt64 → Int32}
  {parse : List UInt8 → Option Value} {timeouts : NodeTimeouts}

/-- What a framer should have done with a stream, while it reads and between reads. -/
structure Splits {size : Nat} (buf : Buffer size) (start len : Nat) (stream : List UInt8)
    (handed : List (List UInt8)) (reading : Prop) : Prop where
  cut : Cut 0x0a stream handed (buf.read start len)
  between : reading → Exact 0x0a buf len stream handed

theorem splits_of_framed {size : Nat} {buf : Buffer size} {start len : Nat} {stream : List UInt8}
    {handed : List (List UInt8)} {reading : Prop}
    (framed : Framed 0x0a buf start len stream handed reading) (front : reading → start = 0) :
    Splits buf start len stream handed reading where
  cut := framed.holding.cut
  between := fun here => framed.exact here (front here)

/-- Both framers split their streams exactly, in every run. -/
theorem framers_exact {s : SocketRun} {t : ReceiveRun}
    (client : (SocketRun.system maxCallsPerMin parse).Reachable s) (kept : s.ended = none)
    (node : (ReceiveRun.system getEpochNumber parse timeouts).Reachable t)
    (runs : t.ended = none) :
    Splits s.client.recvBuf.buf (SocketRun.start s.pc) s.client.recvBuf.len s.received s.handed
        (s.pc = .idle ∨ s.pc = .recv) ∧
      Splits t.buf (ReceiveRun.start t.pc) t.datalen t.received t.handed (t.pc = .recv) := by
  constructor
  · apply splits_of_framed ((SocketRun.reachable_framed client).1 kept)
    intro reading
    rcases reading with idle | recv
    · rw [idle]
      rfl
    · rw [recv]
      rfl
  · apply splits_of_framed (ReceiveRun.reachable_framed node runs)
    intro recv
    rw [recv]
    rfl

section HalfLines

def clientRuns : System SocketRun SocketAction := SocketRun.system 60 parseJson

def freshClient : SocketRun := .new (Client.construct 7 0 .zero)

def nodeRuns : System ReceiveRun ReceiveAction :=
  ReceiveRun.system (fun _ => 0) parseJson ⟨60, 300⟩

def freshLoop : ReceiveRun := .new Node.plainNode 0 (.filled _ 0)

def minerBytes : List UInt8 := Client.loginLine 1 ++ (Client.submitLine 2 1 0 .setAllZero).take 3

def jobLine : List UInt8 := lineOf (NodeRun.plainDoc "randomx" 8)

def nodeBytes : List UInt8 := jobLine ++ jobLine.take 2

def erased (line : List UInt8) : List UInt8 := List.replicate line.length 0

theorem framers_exact_half :
    ∃ (s : SocketRun) (t : ReceiveRun),
      (s.handed = [Client.loginLine 1] ∧ s.client.recvBuf.len = 3 ∧
        t.handed = [jobLine] ∧ t.datalen = 2) ∧
      Splits s.client.recvBuf.buf (SocketRun.start s.pc) s.client.recvBuf.len s.received s.handed
        (s.pc = .idle ∨ s.pc = .recv) ∧
      Splits t.buf (ReceiveRun.start t.pc) t.datalen t.received t.handed (t.pc = .recv) := by
  obtain ⟨s, client, left⟩ := System.exists_reachable (S := clientRuns) (s := freshClient)
    ⟨7, 0, .zero, rfl⟩
    [.call, .recv (.bytes minerBytes),
      .line (Session.plainEnv .zero) (erased (Client.loginLine 1)), .leftover]
    (fun s => s.ended == none && s.handed == [Client.loginLine 1] && s.client.recvBuf.len == 3)
    (by decide +kernel)
  obtain ⟨t, node, left'⟩ := System.exists_reachable (S := nodeRuns) (s := freshLoop)
    ⟨⟨Node.plainNode, false, []⟩, ⟨Node.plainNode, true, []⟩, 0, _, .start rfl, rfl, rfl⟩
    [.recv nodeBytes, .message ⟨0, 0⟩ (erased jobLine), .leftover]
    (fun t => t.ended == none && t.handed == [jobLine] && t.datalen == 2)
    (by decide +kernel)
  simp only [Bool.and_eq_true, beq_iff_eq] at left left'
  exact ⟨s, t, ⟨left.1.2, left.2, left'.1.2, left'.2⟩,
    framers_exact client left.1.1 node left'.1.1⟩

end HalfLines

namespace SocketRun

open Client

def roomy (s : SocketRun) : SocketAction → Bool
  | .recv (.bytes data) => s.client.aborting || data.length < s.space
  | _ => true

def ReadOut (stream : List UInt8) (s : SocketRun) : Prop :=
  (s.ended = some .closed ∧ s.received = stream) ∨
    ((s.ended = some .rejected ∨ s.ended = some .overflow) ∧ s.received <+: stream)

variable {s t : SocketRun}

/-- The buffer overflows when a read fills it, and not otherwise. -/
theorem overflow_iff {a : SocketAction} (reached : (system maxCallsPerMin parse).Reachable s)
    (stepped : next maxCallsPerMin parse s a = some t) :
    t.ended = some .overflow ↔ roomy s a = false := by
  obtain ⟨running, moved⟩ := next_moved stepped
  have room : start s.pc + s.client.recvBuf.len < sockBufSize :=
    ((reachable_framed reached).1 running).holding.room
  have space : s.space = sockBufSize - s.client.recvBuf.len := rfl
  cases moved with
  | deaf result here aborting =>
      refine iff_of_false (by simp [running]) ?_
      cases result with
      | bytes data => simp [roomy, aborting]
      | failed wouldBlock => simp [roomy]
  | closed result here alive nothing =>
      refine iff_of_false (by simp) ?_
      cases result with
      | bytes data =>
          have size := congrArg List.length (show data.take s.space = [] from nothing)
          rw [List.length_take, List.length_nil] at size
          simp only [roomy, alive, Bool.false_or, decide_eq_false_iff_not, not_not]
          omega
      | failed wouldBlock => simp [roomy]
  | filled data here alive got full =>
      refine iff_of_true rfl ?_
      simp only [roomy, alive, Bool.false_or, decide_eq_false_iff_not]
      omega
  | received data here alive got fits =>
      refine iff_of_false (by simp [running]) ?_
      simp only [roomy, alive, Bool.false_or, decide_eq_false_iff_not, not_not]
      omega
  | newBlock env keep c effects idle ran =>
      refine iff_of_false ?_ (by simp [roomy])
      cases keep <;> simp
  | called _ | drained _ _ | accepted _ _ _ _ _ _ _ _ _ _ | moved _ _ _ =>
      exact iff_of_false (by simp [running]) (by simp [roomy])
  | rejected _ _ _ _ _ _ _ _ _ _ => exact iff_of_false (by simp) (by simp [roomy])

theorem no_overflow (reached : (system maxCallsPerMin parse).ReachableUnder
    (fun s a => roomy s a = true) s) : s.ended ≠ some .overflow := by
  refine reached.invariant (fun s => s.ended ≠ some .overflow) ?_ ?_
  · rintro s ⟨fd, extraNonce, stale, rfl⟩
    simp [new]
  · intro s a t earlier _ fits stepped overflow
    have full := (overflow_iff earlier.reachable stepped).mp overflow
    rw [fits] at full
    cases full

/-- What has become of a stream that was read out is a function of the stream. -/
theorem readOut_outcome {stream : List UInt8} (reached : (system maxCallsPerMin parse).Reachable s)
    (fits : s.ended ≠ some .overflow) (read : s.ReadOut stream) :
    upToRefused (fun _ => accepts parse) 0 (pieces 0x0a stream) =
        (s.handed, decide (s.ended = some .rejected)) ∧
      (s.ended = some .closed ∨ s.ended = some .rejected) := by
  have lines := (reachable_framed reached).2
  rcases read with ⟨closed, rfl⟩ | ⟨dropped, initial⟩
  · have fine : s.ended ≠ some .rejected := by simp [closed]
    rw [lines.upToRefused_ended fine closed, decide_eq_false fine]
    exact ⟨rfl, .inl closed⟩
  · have rejected : s.ended = some .rejected := dropped.resolve_right fits
    rw [lines.upToRefused_refused rejected (pieces_initial initial), decide_eq_true rejected]
    exact ⟨rfl, .inr rejected⟩

end SocketRun

namespace ReceiveRun

def roomy (s : ReceiveRun) : ReceiveAction → Bool
  | .recv data => data.length < s.space
  | _ => true

def ReadOut (stream : List UInt8) (s : ReceiveRun) : Prop :=
  (s.ended = some .closed ∧ s.received = stream) ∨
    ((dropped s.ended ∨ s.ended = some .overflow) ∧ s.received <+: stream)

variable {s t : ReceiveRun} {blockDiffBytes : Nat → UInt64}

theorem overflow_iff {a : ReceiveAction}
    (reached : (system getEpochNumber parse timeouts).Reachable s)
    (stepped : next getEpochNumber parse timeouts s a = some t) :
    t.ended = some .overflow ↔ roomy s a = false := by
  obtain ⟨running, moved⟩ := next_moved stepped
  have room : start s.pc + s.datalen < dataBufferLen :=
    (reachable_framed reached running).holding.room
  have space : s.space = dataBufferLen - s.datalen := rfl
  cases moved with
  | closed a here nothing =>
      refine iff_of_false (by simp) ?_
      rcases nothing with rfl | ⟨data, rfl, nothing⟩
      · simp [roomy]
      · have size := congrArg List.length nothing
        rw [List.length_take, List.length_nil] at size
        simp only [roomy, decide_eq_false_iff_not, not_not]
        omega
  | filled data here full buf datalen =>
      refine iff_of_true rfl ?_
      simp only [roomy, decide_eq_false_iff_not]
      omega
  | received data here got fits =>
      refine iff_of_false (by simp [running]) ?_
      simp only [roomy, decide_eq_false_iff_not, not_not]
      omega
  | dropped env left msgstart i why here found own said =>
      refine iff_of_false ?_ (by simp [roomy])
      rcases said with ⟨_, rfl⟩ | ⟨_, rfl⟩
      · simp
      · simp
  | fatal _ _ _ _ => exact iff_of_false (by simp) (by simp [roomy])
  | requested _ _ _ _ _ | waiting _ _ _ _ _ | moved _ _ _ | rxReady _ _ | ppReady _ _ =>
      exact iff_of_false (by simp [running]) (by simp [roomy])
  | consumed _ _ _ _ _ _ _ _ =>
      exact iff_of_false (by simp [running, handedOver]) (by simp [roomy])

theorem no_overflow (reached : (system getEpochNumber parse timeouts).ReachableUnder
    (fun s a => roomy s a = true) s) : s.ended ≠ some .overflow := by
  refine reached.invariant (fun s => s.ended ≠ some .overflow) ?_ ?_
  · rintro s ⟨r, q, timestampMs, buf, _, _, rfl⟩
    simp [new]
  · intro s a t earlier _ fits stepped overflow
    have full := (overflow_iff earlier.reachable stepped).mp overflow
    rw [fits] at full
    cases full

theorem readOut_outcome {stream : List UInt8}
    (reached : (system getEpochNumber parse timeouts).ReachableUnder (SameStack blockDiffBytes) s)
    (fits : s.ended ≠ some .overflow) (read : s.ReadOut stream) :
    ∃ bad, upToRefused (accepts parse blockDiffBytes) 0 (pieces 0x0a stream) = (s.handed, bad) ∧
      ((bad = false ∧ s.ended = some .closed) ∨
        bad = true ∧ ∃ before line, s.handed = before ++ [line] ∧
          endsWith (verdict parse (blockDiffBytes before.length) line) = s.ended) := by
  obtain ⟨lines, last⟩ := reachable_lines reached
  rcases read with ⟨closed, rfl⟩ | ⟨gone, initial⟩
  · exact ⟨false, lines.upToRefused_ended (by simp [closed, dropped]) closed,
      .inl ⟨rfl, closed⟩⟩
  · have bad := gone.resolve_right fits
    exact ⟨true, lines.upToRefused_refused bad (pieces_initial initial), .inr ⟨rfl, last bad⟩⟩

end ReceiveRun

/-- Where no read fills the buffer nothing overflows, it does where one does, and runs over
one stream that differ in how it is cut come to the same. -/
structure CutFree {σ α β : Type} (S : System σ α) (roomy : σ → α → Bool) (alike : σ → α → Prop)
    (overflowed : σ → Prop) (readOut : List UInt8 → σ → Prop) (outcome : σ → β) : Prop where
  fits : ∀ s, S.ReachableUnder (fun s a => roomy s a = true) s → ¬ overflowed s
  only : ∀ s a t, S.Reachable s → S.next s a = some t → (overflowed t ↔ roomy s a = false)
  same : ∀ stream s t, S.ReachableUnder (fun s a => roomy s a = true ∧ alike s a) s →
    S.ReachableUnder (fun s a => roomy s a = true ∧ alike s a) t → readOut stream s →
    readOut stream t → outcome s = outcome t

theorem client_cutFree : CutFree (SocketRun.system maxCallsPerMin parse) SocketRun.roomy
    (fun _ _ => True) (fun s => s.ended = some .overflow) SocketRun.ReadOut
    (fun s => (s.handed, s.ended)) where
  fits := fun s reached => SocketRun.no_overflow reached
  only := fun s a t reached stepped => SocketRun.overflow_iff reached stepped
  same := by
    intro stream s t reached reached' read read'
    have fits := SocketRun.no_overflow (reached.mono (fun _ _ both => both.1))
    have fits' := SocketRun.no_overflow (reached'.mono (fun _ _ both => both.1))
    obtain ⟨outcome, ended⟩ := SocketRun.readOut_outcome reached.reachable fits read
    obtain ⟨outcome', ended'⟩ := SocketRun.readOut_outcome reached'.reachable fits' read'
    rw [outcome] at outcome'
    obtain ⟨handed, rejected⟩ := Prod.mk.inj outcome'
    rw [decide_eq_decide] at rejected
    refine Prod.ext handed ?_
    rcases ended with closed | bad
    · have fine : t.ended ≠ some .rejected := fun bad => by simp [closed, bad] at rejected
      exact closed.trans (ended'.resolve_right fine).symm
    · exact bad.trans (rejected.mp bad).symm

theorem node_cutFree (blockDiffBytes : Nat → UInt64) :
    CutFree (ReceiveRun.system getEpochNumber parse timeouts) ReceiveRun.roomy
      (ReceiveRun.SameStack blockDiffBytes) (fun s => s.ended = some .overflow)
      ReceiveRun.ReadOut (fun s => (s.handed, s.ended)) where
  fits := fun s reached => ReceiveRun.no_overflow reached
  only := fun s a t reached stepped => ReceiveRun.overflow_iff reached stepped
  same := by
    intro stream s t reached reached' read read'
    have fits := ReceiveRun.no_overflow (reached.mono (fun _ _ both => both.1))
    have fits' := ReceiveRun.no_overflow (reached'.mono (fun _ _ both => both.1))
    obtain ⟨bad, outcome, ended⟩ :=
      ReceiveRun.readOut_outcome (reached.mono (fun _ _ both => both.2)) fits read
    obtain ⟨bad', outcome', ended'⟩ :=
      ReceiveRun.readOut_outcome (reached'.mono (fun _ _ both => both.2)) fits' read'
    rw [outcome] at outcome'
    obtain ⟨handed, rfl⟩ := Prod.mk.inj outcome'
    refine Prod.ext handed ?_
    rcases ended with ⟨rfl, closed⟩ | ⟨rfl, before, line, split, last⟩
    · rcases ended' with ⟨_, closed'⟩ | ⟨impossible, _⟩
      · exact closed.trans closed'.symm
      · cases impossible
    · rcases ended' with ⟨impossible, _⟩ | ⟨_, before', line', split', last'⟩
      · cases impossible
      · rw [split, split'] at handed
        obtain ⟨rfl, single⟩ := List.append_inj' handed rfl
        cases single
        exact last.symm.trans last'

theorem segmentation_irrelevant (blockDiffBytes : Nat → UInt64) :
    CutFree (SocketRun.system maxCallsPerMin parse) SocketRun.roomy (fun _ _ => True)
        (fun s => s.ended = some .overflow) SocketRun.ReadOut (fun s => (s.handed, s.ended)) ∧
      CutFree (ReceiveRun.system getEpochNumber parse timeouts) ReceiveRun.roomy
        (ReceiveRun.SameStack blockDiffBytes) (fun s => s.ended = some .overflow)
        ReceiveRun.ReadOut (fun s => (s.handed, s.ended)) :=
  ⟨client_cutFree, node_cutFree blockDiffBytes⟩

section Cuts

def longLogin : Doc :=
  Client.requestDoc 1 "login" [(ascii "pass", .string (List.replicate 977 0x30))]

theorem printable_longLogin : Printable longLogin := by
  refine Client.printable_requestDoc 1 rfl (.cons (plain_of_allPlain rfl) (.string ?_) .nil)
  intro b among
  rw [List.eq_of_mem_replicate among]
  decide

def quarter : List UInt8 := lineOf longLogin

theorem quarter_length : quarter.length = 1024 := by decide +kernel

def quarters (k : Nat) : List UInt8 := (List.replicate k quarter).flatten

theorem quarters_pieces (k : Nat) :
    pieces 0x0a (quarters k) = List.replicate k quarter ∧ remainder 0x0a (quarters k) = [] := by
  refine frame_of_whole_cut ⟨List.append_nil _, ?_⟩ List.not_mem_nil
  intro piece member
  rw [List.eq_of_mem_replicate member]
  refine ⟨longLogin.print, rfl, ?_⟩
  intro newline
  exact absurd (printable_longLogin.visible _ newline) (by decide)

def together : List SocketAction := [.call, .recv (.bytes (quarters 4))]

def twoByTwo : List SocketAction :=
  let line := .line (Session.plainEnv .zero) quarter
  [.call, .recv (.bytes (quarters 2)), line, line, .leftover, .recv (.bytes (quarters 2)), line,
    line, .leftover, .recv (.bytes [])]

theorem short_lines_overflow :
    (∀ line ∈ pieces 0x0a (quarters 4), line.length < sockBufSize) ∧
      remainder 0x0a (quarters 4) = [] ∧
      ∃ s t, clientRuns.Reachable s ∧ clientRuns.Reachable t ∧
        s.ReadOut (quarters 4) ∧ t.ReadOut (quarters 4) ∧
        s.ended = some .overflow ∧ s.handed = [] ∧
        t.ended = some .closed ∧ t.handed.length = 4 := by
  obtain ⟨lines, rest⟩ := quarters_pieces 4
  obtain ⟨s, reached, left⟩ := System.exists_reachable (S := clientRuns) (s := freshClient)
    ⟨7, 0, .zero, rfl⟩ together
    (fun s => s.received == quarters 4 && s.ended == some .overflow && s.handed == [])
    (by decide +kernel)
  obtain ⟨t, reached', left'⟩ := System.exists_reachable (S := clientRuns) (s := freshClient)
    ⟨7, 0, .zero, rfl⟩ twoByTwo
    (fun s => s.received == quarters 4 && s.ended == some .closed && s.handed.length == 4)
    (by decide +kernel)
  simp only [Bool.and_eq_true, beq_iff_eq] at left left'
  refine ⟨?_, rest, s, t, reached, reached', .inr ⟨.inr left.1.2, ?_⟩, .inl ⟨left'.1.2, left'.1.1⟩,
    left.1.2, left.2, left'.1.2, left'.2⟩
  · intro line member
    rw [lines] at member
    rw [List.eq_of_mem_replicate member, quarter_length]
    decide
  · rw [left.1.1]

end Cuts

end EpicPoold
