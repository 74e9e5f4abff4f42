import Mathlib.Tactic

/-! Transition systems whose step is a partial function of the state and an action,
so that a run on given actions can be computed. -/

namespace Foundations

structure System (σ α : Type*) where
  start : σ → Prop
  next : σ → α → Option σ

namespace System

variable {σ α : Type*} (S : System σ α)

/-- States met by runs whose every step is allowed in the state before it. -/
inductive ReachableUnder (allowed : σ → α → Prop) : σ → Prop
  | start {s : σ} : S.start s → ReachableUnder allowed s
  | step {s t : σ} {a : α} : ReachableUnder allowed s → allowed s a → S.next s a = some t →
      ReachableUnder allowed t

def Reachable (s : σ) : Prop := S.ReachableUnder (fun _ _ => True) s

/-- The state after the given actions, if each is possible and passes the check in the
state before it. -/
def runWhile (check : σ → α → Bool) (s : σ) : List α → Option σ
  | [] => some s
  | a :: rest =>
      if check s a then (S.next s a).bind (fun t => runWhile check t rest) else none

def Leads (s t : σ) : Prop := Relation.ReflTransGen (fun s t => ∃ a, S.next s a = some t) s t

/-- A run from the first state, each step allowed in the state before it, ends in the
second. -/
def LeadsUnder (allowed : σ → α → Prop) (s t : σ) : Prop :=
  Relation.ReflTransGen (fun s t => ∃ a, allowed s a ∧ S.next s a = some t) s t

variable {S}

theorem ReachableUnder.mono {weak strong : σ → α → Prop}
    (implies : ∀ s a, strong s a → weak s a) {s : σ} (reached : S.ReachableUnder strong s) :
    S.ReachableUnder weak s := by
  induction reached with
  | start initial => exact .start initial
  | step _ fine next ih => exact .step ih (implies _ _ fine) next

theorem ReachableUnder.reachable {allowed : σ → α → Prop} {s : σ}
    (reached : S.ReachableUnder allowed s) : S.Reachable s :=
  reached.mono (fun _ _ _ => trivial)

/-- The induction behind every safety result: an invariant holds at the start and
every allowed step from a reachable state keeps it. -/
theorem ReachableUnder.invariant {allowed : σ → α → Prop} (holds : σ → Prop)
    (initial : ∀ s, S.start s → holds s)
    (keep : ∀ s a t, S.ReachableUnder allowed s → holds s → allowed s a → S.next s a = some t →
      holds t)
    {s : σ} (reached : S.ReachableUnder allowed s) : holds s := by
  induction reached with
  | start first => exact initial _ first
  | step earlier fine next ih => exact keep _ _ _ earlier ih fine next

theorem Reachable.invariant (holds : σ → Prop) (initial : ∀ s, S.start s → holds s)
    (keep : ∀ s a t, S.Reachable s → holds s → S.next s a = some t → holds t)
    {s : σ} (reached : S.Reachable s) : holds s :=
  ReachableUnder.invariant holds initial
    (fun s a t earlier before _ next => keep s a t earlier before next) reached

theorem Reachable.leads {s t : σ} (reached : S.Reachable s) (leads : S.Leads s t) :
    S.Reachable t := by
  induction leads with
  | refl => exact reached
  | tail _ stepped ih =>
      obtain ⟨a, next⟩ := stepped
      exact .step ih trivial next

theorem Leads.relates {s t : σ} (leads : S.Leads s t) (relates : σ → σ → Prop)
    (refl : ∀ s, relates s s) (trans : ∀ s t u, relates s t → relates t u → relates s u)
    (step : ∀ s a t, S.next s a = some t → relates s t) : relates s t := by
  induction leads with
  | refl => exact refl s
  | tail _ stepped ih =>
      obtain ⟨a, next⟩ := stepped
      exact trans _ _ _ ih (step _ a _ next)

/-- What holds at the start of a run and is kept by its steps holds at its end. -/
theorem LeadsUnder.invariant {allowed : σ → α → Prop} {s t : σ} (leads : S.LeadsUnder allowed s t)
    (holds : σ → Prop) (first : holds s)
    (keep : ∀ s a t, holds s → allowed s a → S.next s a = some t → holds t) : holds t := by
  induction leads with
  | refl => exact first
  | tail _ stepped ih =>
      obtain ⟨a, fine, next⟩ := stepped
      exact keep _ a _ ih fine next

theorem LeadsUnder.mono {weak strong : σ → α → Prop} (implies : ∀ s a, strong s a → weak s a)
    {s t : σ} (leads : S.LeadsUnder strong s t) : S.LeadsUnder weak s t := by
  induction leads with
  | refl => exact .refl
  | tail _ stepped ih =>
      obtain ⟨a, fine, next⟩ := stepped
      exact ih.tail ⟨a, implies _ a fine, next⟩

theorem LeadsUnder.strengthen {allowed strong : σ → α → Prop} {s t : σ}
    (leads : S.LeadsUnder allowed s t) (holds : σ → Prop) (first : holds s)
    (keep : ∀ s a t, holds s → allowed s a → S.next s a = some t → holds t)
    (implies : ∀ s a, holds s → allowed s a → strong s a) :
    S.LeadsUnder strong s t ∧ holds t := by
  induction leads with
  | refl => exact ⟨.refl, first⟩
  | tail _ stepped ih =>
      obtain ⟨a, fine, next⟩ := stepped
      obtain ⟨ran, known⟩ := ih
      exact ⟨ran.tail ⟨a, implies _ a known fine, next⟩, keep _ a _ known fine next⟩

theorem LeadsUnder.project {τ β : Type*} {R : System τ β} {allowed : σ → α → Prop}
    {kept : τ → β → Prop} (view : σ → τ)
    (step : ∀ s a t, allowed s a → S.next s a = some t →
      view t = view s ∨ ∃ b, kept (view s) b ∧ R.next (view s) b = some (view t))
    {s t : σ} (leads : S.LeadsUnder allowed s t) : R.LeadsUnder kept (view s) (view t) := by
  induction leads with
  | refl => exact .refl
  | tail _ stepped ih =>
      obtain ⟨a, fine, next⟩ := stepped
      rcases step _ a _ fine next with same | taken
      · rwa [same]
      · exact ih.tail taken

theorem ReachableUnder.project {τ β : Type*} {R : System τ β} {allowed : σ → α → Prop}
    {kept : τ → β → Prop} (view : σ → τ) (start : ∀ s, S.start s → R.start (view s))
    (step : ∀ s a t, allowed s a → S.next s a = some t →
      view t = view s ∨ ∃ b, kept (view s) b ∧ R.next (view s) b = some (view t))
    {s : σ} (reached : S.ReachableUnder allowed s) : R.ReachableUnder kept (view s) := by
  induction reached with
  | start first => exact .start (start _ first)
  | step _ fine next ih =>
      rcases step _ _ _ fine next with same | ⟨b, mine, taken⟩
      · rwa [same]
      · exact .step ih mine taken

theorem ReachableUnder.of_runWhile {allowed : σ → α → Prop} {check : σ → α → Bool}
    (sound : ∀ s a, check s a = true → allowed s a) {s t : σ} (actions : List α)
    (reached : S.ReachableUnder allowed s) (ran : S.runWhile check s actions = some t) :
    S.ReachableUnder allowed t := by
  induction actions generalizing s with
  | nil =>
      cases ran
      exact reached
  | cons a rest ih =>
      simp only [runWhile] at ran
      split at ran
      · rename_i passed
        obtain ⟨middle, next, tail⟩ := Option.bind_eq_some_iff.mp ran
        exact ih (.step reached (sound s a passed) next) tail
      · cases ran

/-- A computed run shows that some reachable state has a decidable property. -/
theorem exists_reachableUnder {allowed : σ → α → Prop} (check : σ → α → Bool)
    (sound : ∀ s a, check s a = true → allowed s a) {s : σ} (first : S.start s)
    (actions : List α) (holds : σ → Bool)
    (ran : (S.runWhile check s actions).any holds = true) :
    ∃ t, S.ReachableUnder allowed t ∧ holds t = true := by
  obtain ⟨t, run, found⟩ := (Option.any_eq_true _ _).mp ran
  exact ⟨t, .of_runWhile sound actions (.start first) run, found⟩

theorem exists_reachable {s : σ} (first : S.start s) (actions : List α) (holds : σ → Bool)
    (ran : (S.runWhile (fun _ _ => true) s actions).any holds = true) :
    ∃ t, S.Reachable t ∧ holds t = true :=
  exists_reachableUnder (fun _ _ => true) (fun _ _ _ => trivial) first actions holds ran

end System

end Foundations
