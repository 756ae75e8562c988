import Mathlib

/-! # Runs of a machine

`next s a` is the state after event `a`, or `none` where `a` cannot happen in
`s`. A run is a list of events; a condition on events is imposed on each event
in the state it happens in, so that an invariant only has to survive the events
that meet it.
-/

namespace Runs

variable {σ α : Type}

/-- The state after a run, `none` if one of its events cannot happen. -/
def after (next : σ → α → Option σ) : σ → List α → Option σ
  | s, [] => some s
  | s, a :: rest => (next s a).bind fun t => after next t rest

@[simp] theorem after_nil (next : σ → α → Option σ) (s : σ) : after next s [] = some s := rfl

theorem after_cons (next : σ → α → Option σ) (s : σ) (a : α) (rest : List α) :
    after next s (a :: rest) = (next s a).bind fun t => after next t rest := rfl

theorem after_append (next : σ → α → Option σ) (s : σ) (as bs : List α) :
    after next s (as ++ bs) = (after next s as).bind fun t => after next t bs := by
  induction as generalizing s with
  | nil => rfl
  | cons a rest ih =>
      simp only [List.cons_append, after_cons]
      cases next s a with
      | none => rfl
      | some t => exact ih t

/-- The last event of a run happens in the state the others lead to. -/
theorem after_concat {next : σ → α → Option σ} {s t : σ} {as : List α} {a : α} :
    after next s (as ++ [a]) = some t ↔ ∃ u, after next s as = some u ∧ next u a = some t := by
  simp only [after_append, Option.bind_eq_some_iff, after_cons, after_nil]
  simp

/-- Each event of the run meets `C` in the state it happens in. -/
def Each (next : σ → α → Option σ) (C : σ → α → Prop) : σ → List α → Prop
  | _, [] => True
  | s, a :: rest => C s a ∧ ∀ t, next s a = some t → Each next C t rest

instance decidableEach (next : σ → α → Option σ) (C : σ → α → Prop) [∀ s a, Decidable (C s a)] :
    ∀ s as, Decidable (Each next C s as)
  | _, [] => .isTrue trivial
  | s, a :: rest =>
      have : ∀ t, Decidable (Each next C t rest) := fun t => decidableEach next C t rest
      inferInstanceAs (Decidable (C s a ∧ ∀ t ∈ next s a, Each next C t rest))

theorem Each.mono {next : σ → α → Option σ} {C D : σ → α → Prop} (weaker : ∀ s a, C s a → D s a)
    {s : σ} {as : List α} (each : Each next C s as) : Each next D s as := by
  induction as generalizing s with
  | nil => trivial
  | cons a rest ih => exact ⟨weaker s a each.1, fun t ht => ih (each.2 t ht)⟩

theorem Each.trivial (next : σ → α → Option σ) (s : σ) (as : List α) :
    Each next (fun _ _ => True) s as := by
  induction as generalizing s with
  | nil => exact True.intro
  | cons a rest ih => exact ⟨True.intro, fun t _ => ih t⟩

theorem Each.and {next : σ → α → Option σ} {C D : σ → α → Prop} {s : σ} {as : List α} (one : Each next C s as)
    (two : Each next D s as) : Each next (fun s a => C s a ∧ D s a) s as := by
  induction as generalizing s with
  | nil => trivial
  | cons a rest ih => exact ⟨⟨one.1, two.1⟩, fun t ht => ih (one.2 t ht) (two.2 t ht)⟩

theorem Each.append {next : σ → α → Option σ} {C : σ → α → Prop} {s : σ} {as bs : List α} (each : Each next C s as)
    (rest : ∀ t, after next s as = some t → Each next C t bs) : Each next C s (as ++ bs) := by
  induction as generalizing s with
  | nil => exact rest s rfl
  | cons a tail ih =>
      refine ⟨each.1, fun t step => ih (each.2 t step) fun u run => rest u ?_⟩
      rw [after_cons, step]
      exact run

theorem Each.split {next : σ → α → Option σ} {C : σ → α → Prop} {s : σ} {as bs : List α}
    (each : Each next C s (as ++ bs)) :
    Each next C s as ∧ ∀ t, after next s as = some t → Each next C t bs := by
  induction as generalizing s with
  | nil => exact ⟨True.intro, fun t run => Option.some.inj run ▸ each⟩
  | cons a tail ih =>
      refine ⟨⟨each.1, fun t step => (ih (each.2 t step)).1⟩, fun u run => ?_⟩
      rw [after_cons] at run
      obtain ⟨t, step, run⟩ := Option.bind_eq_some_iff.mp run
      exact (ih (each.2 t step)).2 u run

/-- What is allowed of every event is met by each of them. -/
theorem Each.allowed {next : σ → α → Option σ} {A : α → Prop} {C : σ → α → Prop} {s : σ}
    {as : List α} (each : Each next C s as) (allowed : ∀ a ∈ as, A a) :
    Each next (fun s a => A a ∧ C s a) s as := by
  induction as generalizing s with
  | nil => trivial
  | cons a rest ih =>
      exact ⟨⟨allowed a (by simp), each.1⟩, fun t ht =>
        ih (each.2 t ht) fun b hb => allowed b (List.mem_cons_of_mem a hb)⟩

/-- An invariant that survives every event meeting the condition holds after
    every run of such events. -/
theorem invariant {next : σ → α → Option σ} {C : σ → α → Prop} {I : σ → Prop}
    (preserved : ∀ s a t, I s → C s a → next s a = some t → I t)
    {s t : σ} {as : List α} (start : I s) (each : Each next C s as)
    (run : after next s as = some t) : I t := by
  induction as generalizing s with
  | nil =>
      cases run
      exact start
  | cons a rest ih =>
      rw [after_cons] at run
      obtain ⟨u, step, tail⟩ := Option.bind_eq_some_iff.mp run
      exact ih (preserved s a u start each.1 step) (each.2 u step) tail

/-- Two conditions that agree wherever the invariant holds are met by the same runs,
    if the events that meet them keep the invariant. -/
theorem each_congr {next : σ → α → Option σ} {A : α → Prop} {C D : σ → α → Prop} {I : σ → Prop}
    (same : ∀ s a, I s → A a → (C s a ↔ D s a))
    (preserved : ∀ s a t, I s → A a → C s a → next s a = some t → I t)
    {s : σ} {as : List α} (start : I s) (allowed : ∀ a ∈ as, A a) :
    Each next C s as ↔ Each next D s as := by
  induction as generalizing s with
  | nil => exact Iff.rfl
  | cons a rest ih =>
      have here := allowed a (by simp)
      have later := fun b hb => allowed b (List.mem_cons_of_mem a hb)
      simp only [Each]
      rw [same s a start here]
      constructor
      · rintro ⟨meets, tail⟩
        have known := (same s a start here).mpr meets
        exact ⟨meets, fun t ht => (ih (preserved s a t start here known ht) later).mp (tail t ht)⟩
      · rintro ⟨meets, tail⟩
        have known := (same s a start here).mpr meets
        exact ⟨meets, fun t ht => (ih (preserved s a t start here known ht) later).mpr (tail t ht)⟩

/-- Where every event leaves less to do, counted events by one at least, no run has more
    counted events than there was to do. -/
theorem counted {next : σ → α → Option σ} {C : σ → α → Prop} {I : Nat → σ → Prop} {p : α → Bool}
    (preserved : ∀ n s a t, I n s → C s a → next s a = some t → ∃ m, I m t ∧ m + (if p a then 1 else 0) ≤ n)
    {n : Nat} {s t : σ} {as : List α} (start : I n s) (each : Each next C s as) (run : after next s as = some t) :
    ∃ m, I m t ∧ m + as.countP p ≤ n := by
  induction as generalizing n s with
  | nil =>
      cases run
      exact ⟨n, start, le_refl n⟩
  | cons a rest ih =>
      rw [after_cons] at run
      obtain ⟨u, step, tail⟩ := Option.bind_eq_some_iff.mp run
      obtain ⟨k, next_, below⟩ := preserved n s a u start each.1 step
      obtain ⟨m, last, bound⟩ := ih next_ (each.2 u step) tail
      refine ⟨m, last, ?_⟩
      rw [List.countP_cons]
      omega

/-! ## Records -/

/-- Every entry of a record is right in view of those before it. -/
def InOrder (P : List α → α → Prop) (log : List α) : Prop :=
  ∀ before e after, log = before ++ e :: after → P before e

theorem InOrder.nil {P : List α → α → Prop} : InOrder P [] := fun before e after split => by
  simp at split

theorem InOrder.mono {P Q : List α → α → Prop} {log : List α} (inOrder : InOrder P log)
    (weaker : ∀ before e, P before e → Q before e) : InOrder Q log :=
  fun before e after split => weaker before e (inOrder before e after split)

theorem InOrder.append {P : List α → α → Prop} {log es : List α} (inOrder : InOrder P log)
    (rest : ∀ before e after, es = before ++ e :: after → P (log ++ before) e) :
    InOrder P (log ++ es) := by
  intro before e after split
  rcases List.append_eq_append_iff.mp split with ⟨part, rfl, tail⟩ | ⟨part, rfl, tail⟩
  · exact rest part e after tail
  · cases part with
    | nil => simpa using rest [] e after tail.symm
    | cons first part =>
        cases tail
        exact inOrder before e part rfl

end Runs
