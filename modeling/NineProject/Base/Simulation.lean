import NineProject.Base.Effect
import NineProject.Base.Runs

/-! # Detailed machines and plain ones

A detailed state is seen as a plain one. A program on the detailed states follows a
plain program if, where it returns, the plain one does too, with the same result and the
view of the state that is left; what the view does not show may happen on the way. A
machine follows a plain machine if each of its steps is shown as one step of the plain
one or not at all, and then every run is shown as a run.
-/

namespace Effect

variable {ε σ τ α β : Type} {view : σ → τ}

/-- Where `m` returns, the plain program does, with the same result and what is seen of
    the state that is left. -/
def Follows (view : σ → τ) (m : EStateM ε σ α) (p : StateT τ Option α) (s : σ) : Prop :=
  IfReturns m s fun a t => p.run (view s) = some (a, view t)

theorem ifReturns_of_eq {m : EStateM ε σ α} {s t : σ} {a : α} (ran : m s = .ok a t) {Q : α → σ → Prop} :
    IfReturns m s Q ↔ Q a t := by
  simp [IfReturns, ran]

namespace Follows

theorem bind {m : EStateM ε σ β} {f : β → EStateM ε σ α} {p : StateT τ Option β}
    {g : β → StateT τ Option α} {s : σ}
    (first : Follows view m p s) (rest : ∀ b t, m s = .ok b t → Follows view (f b) (g b) t) :
    Follows view (m >>= f) (p >>= g) s := by
  refine ifReturns_bind.mpr fun b t ran a u ran' => ?_
  rw [StateT.run_bind, first b t ran]
  exact rest b t ran a u ran'

/-- What is not seen is no step of the plain program. -/
theorem silent {m : EStateM ε σ β} {f : β → EStateM ε σ α} {p : StateT τ Option α} {s : σ}
    (quiet : IfReturns m s fun b t => view t = view s ∧ Follows view (f b) p t) : Follows view (m >>= f) p s := by
  refine ifReturns_bind.mpr fun b t ran a u ran' => ?_
  obtain ⟨same, follows⟩ := quiet b t ran
  rw [← same]
  exact follows a u ran'

theorem pure (a : α) (s : σ) : Follows (ε := ε) view (Pure.pure a) (Pure.pure a) s :=
  ifReturns_pure.mpr rfl

theorem modify {f : σ → σ} {g : τ → τ} {s : σ} (same : view (f s) = g (view s)) :
    Follows (ε := ε) view (modify f) (modify g) s :=
  ifReturns_modify.mpr (by rw [same]; rfl)

/-- A program that reads its state. -/
theorem read {f : σ → EStateM ε σ α} {g : τ → StateT τ Option α} {s : σ}
    (rest : Follows view (f s) (g (view s)) s) :
    Follows view (get >>= f) (get >>= g) s :=
  ifReturns_bind.mpr (ifReturns_get.mpr rest)

/-- What is done at the end and not seen. -/
theorem after {m f : EStateM ε σ Unit} {p : StateT τ Option Unit} {s : σ} (first : Follows view m p s)
    (quiet : ∀ t, m s = .ok () t → IfReturns f t fun _ u => view u = view t) : Follows view (m >>= fun _ => f) p s := by
  refine ifReturns_bind.mpr fun _ t ran a u ran' => ?_
  rw [quiet t ran a u ran']
  exact first () t ran

theorem congr {m n : EStateM ε σ α} {p : StateT τ Option α} {s : σ} (follows : Follows view n p s) (same : m s = n s) :
    Follows view m p s := fun a t ran => follows a t (same.symm.trans ran)

end Follows
end Effect

namespace Runs

variable {σ τ α β : Type}

/-- What a run shows: of each event at most one, in the state it happens in. -/
def shown (next : σ → α → Option σ) (label : σ → α → Option β) : σ → List α → List β
  | _, [] => []
  | s, a :: rest => (label s a).toList ++ (next s a).elim [] fun t => shown next label t rest

/-- Where each step is shown as a step of the plain machine, or as none, a run is shown as
    a run. -/
theorem simulated {next : σ → α → Option σ} {turn : τ → β → Option τ} {label : σ → α → Option β}
    {view : σ → τ}
    {C : σ → α → Prop} {I : σ → Prop}
    (step : ∀ s a t, I s → C s a → next s a = some t →
      I t ∧ after turn (view s) (label s a).toList = some (view t))
    {s t : σ} {as : List α} (start : I s) (each : Each next C s as) (run : after next s as = some t) :
    I t ∧ after turn (view s) (shown next label s as) = some (view t) := by
  induction as generalizing s with
  | nil =>
      cases run
      exact ⟨start, rfl⟩
  | cons a rest ih =>
      rw [after_cons] at run
      obtain ⟨u, taken, run⟩ := Option.bind_eq_some_iff.mp run
      obtain ⟨kept, here⟩ := step s a u start each.1 taken
      obtain ⟨last, later⟩ := ih kept (each.2 u taken) run
      refine ⟨last, ?_⟩
      rw [shown, after_append, here, taken]
      exact later

end Runs
