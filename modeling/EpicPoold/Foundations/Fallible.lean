import Mathlib.Tactic

/-! Inversion of computations that succeeded: what a bind, a lift or an update did,
for plain exceptions and for exceptions over a state that survives them. -/

namespace Foundations

section Exceptions

variable {ε α β : Type}

theorem bind_eq_ok (x : Except ε α) (f : α → Except ε β) (b : β) :
    (x >>= f) = .ok b ↔ ∃ a, x = .ok a ∧ f a = .ok b := by
  cases x with
  | error e => simp [bind, Except.bind]
  | ok a => simp [bind, Except.bind]

theorem pure_eq_ok (a b : α) : (pure a : Except ε α) = .ok b ↔ a = b := by
  simp [pure, Except.pure]

theorem mapM_eq_ok (f : α → Except ε β) (xs : List α) (ys : List β) :
    xs.mapM f = .ok ys ↔ List.Forall₂ (fun x y => f x = .ok y) xs ys := by
  induction xs generalizing ys with
  | nil =>
      rw [List.mapM_nil, pure_eq_ok, List.forall₂_nil_left_iff]
      exact eq_comm
  | cons x rest ih =>
      simp only [List.mapM_cons, bind_eq_ok, pure_eq_ok, ih, List.forall₂_cons_left_iff]
      constructor
      · rintro ⟨y, first, others, tail, same⟩
        exact ⟨y, others, first, tail, same.symm⟩
      · rintro ⟨y, others, first, tail, same⟩
        exact ⟨y, first, others, tail, same.symm⟩

end Exceptions

section States

variable {ε σ α β : Type}

/-- From state `s` the computation ends normally with `a` in state `t`. -/
def Runs (x : ExceptT ε (StateM σ) α) (s : σ) (a : α) (t : σ) : Prop :=
  Id.run (x.run.run s) = (.ok a, t)

theorem runs_pure (a b : α) (s t : σ) :
    Runs (pure a : ExceptT ε (StateM σ) α) s b t ↔ a = b ∧ s = t := by
  change (Except.ok a, s) = (Except.ok b, t) ↔ _
  rw [Prod.mk.injEq, Except.ok.injEq]

theorem run_bind (x : ExceptT ε (StateM σ) α) (f : α → ExceptT ε (StateM σ) β) (s : σ) :
    Id.run ((x >>= f).run.run s) =
      match Id.run (x.run.run s) with
      | (.ok a, t) => Id.run ((f a).run.run t)
      | (.error e, t) => (.error e, t) := by
  change Id.run (ExceptT.bindCont f (x s).1 (x s).2) = _
  change _ = match x s with
    | (.ok a, t) => Id.run ((f a).run.run t)
    | (.error e, t) => (.error e, t)
  rcases x s with ⟨result, t⟩
  cases result with
  | error e => rfl
  | ok a => rfl

theorem runs_bind (x : ExceptT ε (StateM σ) α) (f : α → ExceptT ε (StateM σ) β)
    (s u : σ) (b : β) : Runs (x >>= f) s b u ↔ ∃ a t, Runs x s a t ∧ Runs (f a) t b u := by
  unfold Runs
  rw [run_bind]
  rcases Id.run (x.run.run s) with ⟨result, t⟩
  cases result with
  | error e => simp
  | ok a => simp

theorem runs_lift (x : Except ε α) (s t : σ) (a : α) :
    Runs (liftM x : ExceptT ε (StateM σ) α) s a t ↔ x = .ok a ∧ s = t := by
  cases x with
  | error e =>
      constructor
      · intro ran
        cases ran
      · intro ran
        cases ran.1
  | ok b =>
      constructor
      · intro ran
        cases ran
        exact ⟨rfl, rfl⟩
      · rintro ⟨equal, rfl⟩
        cases equal
        rfl

theorem runs_modify (f : σ → σ) (s t : σ) (a : Unit) :
    Runs (modify f : ExceptT ε (StateM σ) Unit) s a t ↔ f s = t := by
  constructor
  · intro ran
    cases ran
    rfl
  · rintro rfl
    rfl

theorem runs_get (s t u : σ) : Runs (get : ExceptT ε (StateM σ) σ) s t u ↔ s = t ∧ s = u := by
  constructor
  · intro ran
    cases ran
    exact ⟨rfl, rfl⟩
  · rintro ⟨rfl, rfl⟩
    rfl

theorem runs_set (s t u : σ) (a : PUnit) :
    Runs (set t : ExceptT ε (StateM σ) PUnit) s a u ↔ t = u := by
  constructor
  · intro ran
    cases ran
    rfl
  · rintro rfl
    rfl

theorem not_runs_throw (e : ε) (s t : σ) (a : α) :
    ¬ Runs (throw e : ExceptT ε (StateM σ) α) s a t := by
  intro ran
  cases ran

/-- From state `s` the computation ends with the exception `e` in state `t`. -/
def Fails (x : ExceptT ε (StateM σ) α) (s : σ) (e : ε) (t : σ) : Prop :=
  Id.run (x.run.run s) = (.error e, t)

theorem fails_bind (x : ExceptT ε (StateM σ) α) (f : α → ExceptT ε (StateM σ) β)
    (s u : σ) (e : ε) :
    Fails (x >>= f) s e u ↔ Fails x s e u ∨ ∃ a t, Runs x s a t ∧ Fails (f a) t e u := by
  unfold Fails Runs
  rw [run_bind]
  rcases Id.run (x.run.run s) with ⟨result, t⟩
  cases result with
  | error e => simp
  | ok a => simp

theorem fails_lift (x : Except ε α) (s t : σ) (e : ε) :
    Fails (liftM x : ExceptT ε (StateM σ) α) s e t ↔ x = .error e ∧ s = t := by
  cases x with
  | ok a =>
      constructor
      · intro failed
        cases failed
      · intro failed
        cases failed.1
  | error e' =>
      constructor
      · intro failed
        cases failed
        exact ⟨rfl, rfl⟩
      · rintro ⟨equal, rfl⟩
        cases equal
        rfl

theorem runs_or_fails (x : ExceptT ε (StateM σ) α) (s : σ) :
    (∃ a t, Runs x s a t) ∨ ∃ e t, Fails x s e t := by
  rcases ended : Id.run (x.run.run s) with ⟨result, t⟩
  cases result with
  | ok a => exact .inl ⟨a, t, ended⟩
  | error e => exact .inr ⟨e, t, ended⟩

theorem not_fails_pure (a : α) (s t : σ) (e : ε) :
    ¬ Fails (pure a : ExceptT ε (StateM σ) α) s e t := by
  intro failed
  cases failed

/-! A computation that begins with a lift, an update or a reading. -/

section Sequences

variable (x : Except ε α) (f : α → ExceptT ε (StateM σ) β) (s u : σ) (b : β) (e : ε)

theorem runs_lift_bind :
    Runs ((liftM x : ExceptT ε (StateM σ) α) >>= f) s b u ↔ ∃ a, x = .ok a ∧ Runs (f a) s b u := by
  simp only [runs_bind, runs_lift]
  constructor
  · rintro ⟨a, _, ⟨ok, rfl⟩, ran⟩
    exact ⟨a, ok, ran⟩
  · rintro ⟨a, ok, ran⟩
    exact ⟨a, s, ⟨ok, rfl⟩, ran⟩

theorem fails_lift_bind :
    Fails ((liftM x : ExceptT ε (StateM σ) α) >>= f) s e u ↔
      (x = .error e ∧ s = u) ∨ ∃ a, x = .ok a ∧ Fails (f a) s e u := by
  simp only [fails_bind, fails_lift, runs_lift]
  constructor
  · rintro (early | ⟨a, _, ⟨ok, rfl⟩, late⟩)
    · exact .inl early
    · exact .inr ⟨a, ok, late⟩
  · rintro (early | ⟨a, ok, late⟩)
    · exact .inl early
    · exact .inr ⟨a, s, ⟨ok, rfl⟩, late⟩

variable (g : σ → σ) (k : Unit → ExceptT ε (StateM σ) β) (h : σ → ExceptT ε (StateM σ) β)

theorem runs_modify_bind : Runs (modify g >>= k) s b u ↔ Runs (k ()) (g s) b u := Iff.rfl

theorem fails_modify_bind : Fails (modify g >>= k) s e u ↔ Fails (k ()) (g s) e u := Iff.rfl

theorem runs_get_bind : Runs (get >>= h) s b u ↔ Runs (h s) s b u := Iff.rfl

theorem fails_get_bind : Fails (get >>= h) s e u ↔ Fails (h s) s e u := Iff.rfl

end Sequences

theorem lift_bind (x : Except ε α) (f : α → Except ε β) :
    (liftM (x >>= f) : ExceptT ε (StateM σ) β) = liftM x >>= fun a => liftM (f a) := by
  cases x with
  | error e => rfl
  | ok a => rfl

theorem lift_bind_assoc {γ : Type} (x : Except ε α) (f : α → Except ε β)
    (g : β → ExceptT ε (StateM σ) γ) :
    (liftM (x >>= f) : ExceptT ε (StateM σ) β) >>= g =
      (liftM x : ExceptT ε (StateM σ) α) >>= fun a => liftM (f a) >>= g := by
  rw [lift_bind, bind_assoc]

theorem lift_ok_bind {x : Except ε α} {a : α} (ok : x = .ok a) (g : α → ExceptT ε (StateM σ) β) :
    (liftM x : ExceptT ε (StateM σ) α) >>= g = g a := by
  rw [ok]
  rfl

theorem lift_pure_bind (a : α) (g : α → ExceptT ε (StateM σ) β) :
    (liftM (pure a : Except ε α) : ExceptT ε (StateM σ) α) >>= g = g a := rfl

end States

section Endings

variable {ε σ α β γ : Type}

def final (x : ExceptT ε (StateM σ) α) (s : σ) : σ := (Id.run (x.run.run s)).2

theorem final_bind_ok {x : ExceptT ε (StateM σ) α} {s t : σ} {a : α} (ran : Runs x s a t)
    (f : α → ExceptT ε (StateM σ) β) : final (x >>= f) s = final (f a) t := by
  have ended : Id.run (x.run.run s) = (.ok a, t) := ran
  rw [final, run_bind, ended, final]

theorem final_bind_error {x : ExceptT ε (StateM σ) α} {s t : σ} {e : ε} (failed : Fails x s e t)
    (f : α → ExceptT ε (StateM σ) β) : final (x >>= f) s = t := by
  have ended : Id.run (x.run.run s) = (.error e, t) := failed
  rw [final, run_bind, ended]

theorem final_lift_ok {x : Except ε α} {a : α} (ok : x = .ok a)
    (f : α → ExceptT ε (StateM σ) β) (s : σ) :
    final ((liftM x : ExceptT ε (StateM σ) α) >>= f) s = final (f a) s :=
  final_bind_ok ((runs_lift x s s a).mpr ⟨ok, rfl⟩) f

theorem final_lift_error {x : Except ε α} {e : ε} (error : x = .error e)
    (f : α → ExceptT ε (StateM σ) β) (s : σ) :
    final ((liftM x : ExceptT ε (StateM σ) α) >>= f) s = s :=
  final_bind_error ((fails_lift x s s e).mpr ⟨error, rfl⟩) f

variable {view : σ → γ}

variable (view) in
/-- However it ends, the computation does not change this view of the state. -/
def Leaves (x : ExceptT ε (StateM σ) α) : Prop := ∀ s, view (final x s) = view s

theorem leaves_pure (a : α) : Leaves view (pure a : ExceptT ε (StateM σ) α) := fun _ => rfl

theorem leaves_throw (e : ε) : Leaves view (throw e : ExceptT ε (StateM σ) α) := fun _ => rfl

theorem leaves_lift (x : Except ε α) : Leaves view (liftM x : ExceptT ε (StateM σ) α) := by
  intro s
  cases x with
  | ok a => rfl
  | error e => rfl

theorem leaves_get : Leaves view (get : ExceptT ε (StateM σ) σ) := fun _ => rfl

theorem leaves_modify {g : σ → σ} (same : ∀ s, view (g s) = view s) :
    Leaves view (modify g : ExceptT ε (StateM σ) Unit) := same

theorem Leaves.bind {x : ExceptT ε (StateM σ) α} {f : α → ExceptT ε (StateM σ) β}
    (first : Leaves view x) (rest : ∀ a, Leaves view (f a)) : Leaves view (x >>= f) := by
  intro s
  have before := first s
  rcases runs_or_fails x s with ⟨a, t, ran⟩ | ⟨e, t, failed⟩
  · have ended : final x s = t := congrArg Prod.snd ran
    rw [final_bind_ok ran, rest a t, ← ended, before]
  · have ended : final x s = t := congrArg Prod.snd failed
    rw [final_bind_error failed, ← ended, before]

end Endings

end Foundations
