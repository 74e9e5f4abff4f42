import EpicPoold.Foundations.Transition

/-! Runs that end because a measure falls with every step. -/

namespace Foundations

theorem sum_map_modify {α : Type*} (weight : α → Nat) (f : α → α) (items : List α) (k : Nat)
    (item : α) (present : items[k]? = some item) :
    ((items.modify k f).map weight).sum + weight item =
      (items.map weight).sum + weight (f item) := by
  induction items generalizing k with
  | nil => cases present
  | cons first rest ih =>
      cases k with
      | zero =>
          cases present
          simp only [List.modify_zero_cons, List.map_cons, List.sum_cons]
          omega
      | succ k =>
          have later := ih k present
          simp only [List.modify_succ_cons, List.map_cons, List.sum_cons]
          omega

namespace System

variable {σ α : Type*} (S : System σ α)

/-- A run from the first state of so many steps, each allowed in the state before it. -/
inductive RunUnder (allowed : σ → α → Prop) (s : σ) : Nat → σ → Prop
  | none : RunUnder allowed s 0 s
  | step {n : Nat} {t u : σ} {a : α} : RunUnder allowed s n t → allowed t a →
      S.next t a = some u → RunUnder allowed s (n + 1) u

/-- A run from the first state with so many steps that count, among others that do not. -/
inductive RunCounting (allowed : σ → α → Prop) (counts : α → Prop) (s : σ) : Nat → σ → Prop
  | none : RunCounting allowed counts s 0 s
  | counted {n : Nat} {t u : σ} {a : α} : RunCounting allowed counts s n t → allowed t a →
      counts a → S.next t a = some u → RunCounting allowed counts s (n + 1) u
  | other {n : Nat} {t u : σ} {a : α} : RunCounting allowed counts s n t → allowed t a →
      ¬ counts a → S.next t a = some u → RunCounting allowed counts s n u

def Stuck (allowed : σ → α → Prop) (s : σ) : Prop := ∀ a, allowed s a → S.next s a = .none

variable {S} {allowed : σ → α → Prop}

/-- What holds at the start of a run and is kept by its steps holds at its end. -/
theorem RunUnder.invariant {n : Nat} {s t : σ} (run : S.RunUnder allowed s n t) (holds : σ → Prop)
    (first : holds s)
    (keep : ∀ s a t, holds s → allowed s a → S.next s a = some t → holds t) : holds t := by
  induction run with
  | none => exact first
  | step _ fine stepped ih => exact keep _ _ _ ih fine stepped

theorem RunUnder.reachable {n : Nat} {s t : σ} (run : S.RunUnder allowed s n t)
    (reached : S.Reachable s) : S.Reachable t :=
  run.invariant S.Reachable reached (fun _ _ _ before _ stepped => .step before trivial stepped)

theorem RunCounting.reachable {counts : α → Prop} {n : Nat} {s t : σ}
    (run : S.RunCounting allowed counts s n t) (reached : S.Reachable s) : S.Reachable t := by
  induction run with
  | none => exact reached
  | counted _ _ _ stepped ih => exact .step ih trivial stepped
  | other _ _ _ stepped ih => exact .step ih trivial stepped

/-- A run has at most as many steps that count as the measure was high, if the others do
not raise it. -/
theorem RunCounting.bounded {counts : α → Prop} (measure : σ → Nat)
    (falls : ∀ s a t, allowed s a → counts a → S.next s a = some t → measure t < measure s)
    (keeps : ∀ s a t, allowed s a → ¬ counts a → S.next s a = some t → measure t ≤ measure s)
    {n : Nat} {s t : σ} (run : S.RunCounting allowed counts s n t) :
    n + measure t ≤ measure s := by
  induction run with
  | none => omega
  | counted _ fine counting stepped ih =>
      have lower := falls _ _ _ fine counting stepped
      omega
  | other _ fine idle stepped ih =>
      have level := keeps _ _ _ fine idle stepped
      omega

section Measure

variable (measure : σ → Nat)
  (falls : ∀ s a t, allowed s a → S.next s a = some t → measure t < measure s)

include falls

/-- A run has at most as many steps as the measure was high. -/
theorem RunUnder.bounded {n : Nat} {s t : σ} (run : S.RunUnder allowed s n t) :
    n + measure t ≤ measure s := by
  induction run with
  | none => omega
  | step _ fine stepped ih =>
      have lower := falls _ _ _ fine stepped
      omega

theorem exists_stuck (s : σ) : ∃ n t, S.RunUnder allowed s n t ∧ S.Stuck allowed t := by
  have extended : ∀ bound n t, measure t = bound → S.RunUnder allowed s n t →
      ∃ m u, S.RunUnder allowed s m u ∧ S.Stuck allowed u := by
    intro bound
    induction bound using Nat.strongRecOn with
    | _ bound ih =>
        intro n t same run
        by_cases stuck : S.Stuck allowed t
        · exact ⟨n, t, run, stuck⟩
        · simp only [Stuck, not_forall] at stuck
          obtain ⟨a, fine, possible⟩ := stuck
          obtain ⟨u, stepped⟩ := Option.ne_none_iff_exists'.mp possible
          exact ih (measure u) (same ▸ falls t a u fine stepped) (n + 1) u rfl
            (.step run fine stepped)
  exact extended (measure s) 0 s rfl .none

end Measure

/-- An endless run that may stand still between its steps. -/
structure Run (S : System σ α) (s : σ) where
  state : Nat → σ
  action : Nat → Option α
  start : state 0 = s
  step : ∀ i, (action i = none ∧ state (i + 1) = state i) ∨
    ∃ a, action i = some a ∧ S.next (state i) a = some (state (i + 1))

namespace Run

variable {s : σ} (run : S.Run s)

theorem reachable (reached : S.Reachable s) (i : Nat) : S.Reachable (run.state i) := by
  induction i with
  | zero =>
      rw [run.start]
      exact reached
  | succ i ih =>
      rcases run.step i with ⟨_, same⟩ | ⟨a, _, stepped⟩
      · rwa [same]
      · exact .step ih trivial stepped

/-- What has held and holds no more was ended by a step. -/
theorem exists_ending (holds : σ → Prop) {i k : Nat} (later : i ≤ k) (first : holds (run.state i))
    (last : ¬ holds (run.state k)) :
    ∃ j a, i ≤ j ∧ run.action j = some a ∧ S.next (run.state j) a = some (run.state (j + 1)) ∧
      holds (run.state j) ∧ ¬ holds (run.state (j + 1)) := by
  induction later with
  | refl => exact absurd first last
  | step after ih =>
      rename_i k
      by_cases still : holds (run.state k)
      · rcases run.step k with ⟨_, same⟩ | ⟨a, acts, stepped⟩
        · rw [Nat.succ_eq_add_one, same] at last
          exact absurd still last
        · exact ⟨k, a, after, acts, stepped, still, last⟩
      · exact ih still

end Run

/-- Where some step that is due can always be taken, and lowers the measure, a run takes
them until none is due and then stands still. -/
theorem exists_resting (S : System σ α) (due : σ → Prop) (measure : σ → Nat)
    (goes : ∀ s, due s → ∃ a t, S.next s a = some t ∧ measure t < measure s) (s : σ) :
    ∃ (run : S.Run s) (n : Nat), ∀ m, n ≤ m → ¬ due (run.state m) := by
  have decided : ∀ s, ∃ (a : Option α) (t : σ), (¬ due s ∧ a = none ∧ t = s) ∨
      (due s ∧ measure t < measure s ∧ ∃ b, a = some b ∧ S.next s b = some t) := by
    intro s
    by_cases here : due s
    · obtain ⟨a, t, stepped, lower⟩ := goes s here
      exact ⟨some a, t, .inr ⟨here, lower, a, rfl, stepped⟩⟩
    · exact ⟨none, s, .inl ⟨here, rfl, rfl⟩⟩
  choose act go spec using decided
  let run : S.Run s :=
    { state := fun i => go^[i] s
      action := fun i => act (go^[i] s)
      start := rfl
      step := by
        intro i
        rw [Function.iterate_succ_apply']
        rcases spec (go^[i] s) with ⟨_, idle, same⟩ | ⟨_, _, a, acts, stepped⟩
        · exact .inl ⟨idle, same⟩
        · exact .inr ⟨a, acts, stepped⟩ }
  have ends : ∀ bound t, measure t = bound → ∃ n, ¬ due (go^[n] t) := by
    intro bound
    induction bound using Nat.strongRecOn with
    | _ bound ih =>
        intro t same
        rcases spec t with ⟨rest, _⟩ | ⟨_, lower, _⟩
        · exact ⟨0, rest⟩
        · obtain ⟨n, rest⟩ := ih (measure (go t)) (same ▸ lower) (go t) rfl
          exact ⟨n + 1, rest⟩
  obtain ⟨n, rest⟩ := ends (measure s) s rfl
  refine ⟨run, n, ?_⟩
  intro m later
  have still : go^[m] s = go^[n] s := by
    induction later with
    | refl => rfl
    | step _ ih =>
        rename_i k _
        rw [Nat.succ_eq_add_one, Function.iterate_succ_apply', ih]
        rcases spec (go^[n] s) with ⟨_, _, same⟩ | ⟨here, _⟩
        · exact same
        · exact absurd here rest
  change ¬ due (go^[m] s)
  rwa [still]

end System

end Foundations
