import Mathlib

/-! # Programs that change a state and may stop

`EStateM ε σ` keeps the state a program had reached when it stopped, so a
property of what was done before the stop is still a property of a state. Four
judgements are used. `Holds` is a triple with one postcondition for a normal end
and one for a stop. `Within R` says that whatever a program does, from any state,
relates that state to the one it leaves by `R`; for a preorder it composes along
`do` blocks without naming intermediate assertions. `Returns` says of one state that
the program does end normally there, `IfReturns` what holds if it does; both are taken
apart by equivalences.
-/

namespace Effect

variable {ε σ α β : Type}

theorem bind_apply (m : EStateM ε σ α) (f : α → EStateM ε σ β) (s : σ) :
    (m >>= f) s = match m s with
      | .ok a t => f a t
      | .error e t => .error e t := rfl

@[simp] theorem pure_apply (a : α) (s : σ) : (pure a : EStateM ε σ α) s = .ok a s := rfl
@[simp] theorem get_apply (s : σ) : (get : EStateM ε σ σ) s = .ok s s := rfl
@[simp] theorem modify_apply (f : σ → σ) (s : σ) :
    (modify f : EStateM ε σ PUnit) s = .ok ⟨⟩ (f s) := rfl
@[simp] theorem throw_apply (e : ε) (s : σ) : (throw e : EStateM ε σ α) s = .error e s := rfl

/-! ## Triples -/

def Holds (P : σ → Prop) (m : EStateM ε σ α) (Q : α → σ → Prop) (E : ε → σ → Prop) : Prop :=
  ∀ s, P s → match m s with
    | .ok a t => Q a t
    | .error e t => E e t

namespace Holds

variable {P P' : σ → Prop} {Q Q' : α → σ → Prop} {E E' : ε → σ → Prop}

theorem conseq {m : EStateM ε σ α} (h : Holds P m Q E) (pre : ∀ s, P' s → P s)
    (post : ∀ a s, Q a s → Q' a s) (stop : ∀ e s, E e s → E' e s) : Holds P' m Q' E' := by
  intro s hs
  have run := h s (pre s hs)
  cases result : m s with
  | ok a t => simp only [result] at run ⊢; exact post a t run
  | error e t => simp only [result] at run ⊢; exact stop e t run

theorem bind {m : EStateM ε σ α} {f : α → EStateM ε σ β} {R : β → σ → Prop}
    (first : Holds P m Q E) (rest : ∀ a, Holds (Q a) (f a) R E) : Holds P (m >>= f) R E := by
  intro s hs
  have run := first s hs
  rw [bind_apply]
  cases result : m s with
  | ok a t => simp only [result] at run ⊢; exact rest a t run
  | error e t => simpa only [result] using run

theorem pure {a : α} (h : ∀ s, P s → Q a s) : Holds P (Pure.pure a : EStateM ε σ α) Q E := h

theorem throw {e : ε} (h : ∀ s, P s → E e s) :
    Holds P (MonadExcept.throw e : EStateM ε σ α) Q E := h

theorem get {R : σ → σ → Prop} (h : ∀ s, P s → R s s) :
    Holds P (MonadState.get : EStateM ε σ σ) R E := h

theorem modify {f : σ → σ} {R : PUnit → σ → Prop} (h : ∀ s, P s → R ⟨⟩ (f s)) :
    Holds P (modify f : EStateM ε σ PUnit) R E := h

theorem ite {c : Prop} [Decidable c] {m n : EStateM ε σ α} (yes : c → Holds P m Q E)
    (no : ¬ c → Holds P n Q E) : Holds P (if c then m else n) Q E := by
  split
  · exact yes ‹_›
  · exact no ‹_›

/-- What holds of a fixed value may be assumed of it. -/
theorem assume {p : Prop} {m : EStateM ε σ α} (h : p → Holds P m Q E) :
    Holds (fun s => p ∧ P s) m Q E := fun s hs => h hs.1 s hs.2

end Holds

/-! ## Transitions -/

def Within (R : σ → σ → Prop) (T : ε → Prop) (m : EStateM ε σ α) : Prop :=
  ∀ s, match m s with
    | .ok _ t => R s t
    | .error e t => R s t ∧ T e

namespace Within

variable {R : σ → σ → Prop} {T : ε → Prop}

theorem pure [Std.Refl R] (a : α) : Within R T (Pure.pure a : EStateM ε σ α) :=
  fun s => Std.Refl.refl s

theorem throw [Std.Refl R] {e : ε} (h : T e) : Within R T (MonadExcept.throw e : EStateM ε σ α) :=
  fun s => ⟨Std.Refl.refl s, h⟩

theorem get [Std.Refl R] : Within R T (MonadState.get : EStateM ε σ σ) := fun s => Std.Refl.refl s

theorem modify {f : σ → σ} (h : ∀ s, R s (f s)) : Within R T (modify f : EStateM ε σ PUnit) := h

theorem bind [IsTrans σ R] {m : EStateM ε σ α} {f : α → EStateM ε σ β}
    (first : Within R T m) (rest : ∀ a, Within R T (f a)) : Within R T (m >>= f) := by
  intro s
  have step := first s
  rw [bind_apply]
  cases result : m s with
  | ok a t =>
      have more := rest a t
      rw [result] at step
      cases after : f a t with
      | ok b u =>
          rw [after] at more
          simpa only [after] using IsTrans.trans _ _ _ step more
      | error e u =>
          rw [after] at more
          simpa only [after] using ⟨IsTrans.trans _ _ _ step more.1, more.2⟩
  | error e t =>
      rw [result] at step
      exact step

theorem ite {c : Prop} [Decidable c] {m n : EStateM ε σ α} (yes : Within R T m)
    (no : Within R T n) : Within R T (if c then m else n) := by
  split
  · exact yes
  · exact no

/-- A relation that keeps `P` makes `P` an invariant of the program. -/
theorem holds {P : σ → Prop} {E : ε → σ → Prop} {m : EStateM ε σ α} (h : Within R T m)
    (keeps : ∀ s t, P s → R s t → P t) (stops : ∀ e s, T e → P s → E e s) :
    Holds P m (fun _ => P) E := by
  intro s hs
  have step := h s
  cases result : m s with
  | ok a t =>
      rw [result] at step
      exact keeps s t hs step
  | error e t =>
      rw [result] at step
      exact stops e t step.2 (keeps s t hs step.1)

end Within

/-! ## Normal ends -/

/-- From `s` the program ends normally, with a result and a state in `Q`. -/
def Returns (m : EStateM ε σ α) (s : σ) (Q : α → σ → Prop) : Prop := ∃ a t, m s = .ok a t ∧ Q a t

section
variable {Q : α → σ → Prop}

theorem returns_of_eq {m : EStateM ε σ α} {s t : σ} {a : α} (ran : m s = .ok a t) :
    Returns m s Q ↔ Q a t := by
  simp [Returns, ran]

theorem not_returns_of_eq {m : EStateM ε σ α} {s t : σ} {e : ε} (ran : m s = .error e t) :
    ¬ Returns m s Q := by
  simp [Returns, ran]

theorem Returns.mono {Q' : α → σ → Prop} {m : EStateM ε σ α} {s : σ} (h : Returns m s Q)
    (post : ∀ a t, Q a t → Q' a t) : Returns m s Q' := by
  obtain ⟨a, t, ran, q⟩ := h
  exact ⟨a, t, ran, post a t q⟩

@[simp] theorem returns_bind {m : EStateM ε σ β} {f : β → EStateM ε σ α} {s : σ} :
    Returns (m >>= f) s Q ↔ Returns m s fun b t => Returns (f b) t Q := by
  simp only [Returns, bind_apply]
  cases ran : m s with
  | ok b t => simp
  | error e t => simp

@[simp] theorem returns_map {m : EStateM ε σ β} {f : β → α} {s : σ} :
    Returns (f <$> m) s Q ↔ Returns m s fun b t => Q (f b) t := by
  rw [map_eq_pure_bind, returns_bind]
  simp only [Returns, Pure.pure, EStateM.pure, EStateM.Result.ok.injEq, exists_and_left,
    exists_eq_left', and_assoc]

@[simp] theorem returns_pure {a : α} {s : σ} : Returns (pure a : EStateM ε σ α) s Q ↔ Q a s :=
  returns_of_eq rfl

@[simp] theorem returns_get {R : σ → σ → Prop} {s : σ} :
    Returns (get : EStateM ε σ σ) s R ↔ R s s := returns_of_eq rfl

@[simp] theorem returns_modify {f : σ → σ} {R : PUnit → σ → Prop} {s : σ} :
    Returns (modify f : EStateM ε σ PUnit) s R ↔ R ⟨⟩ (f s) := returns_of_eq rfl

@[simp] theorem returns_throw {e : ε} {s : σ} : ¬ Returns (throw e : EStateM ε σ α) s Q :=
  not_returns_of_eq rfl

theorem returns_ite {c : Prop} [Decidable c] {m n : EStateM ε σ α} {s : σ} :
    Returns (if c then m else n) s Q ↔ if c then Returns m s Q else Returns n s Q := by
  split <;> rfl

/-- A triple that holds in `s` is met by the state a normal end leaves. -/
theorem Returns.holds {m : EStateM ε σ α} {s : σ} {P : σ → Prop} {R : α → σ → Prop}
    {E : ε → σ → Prop} (h : Returns m s Q) (triple : Holds P m R E) (start : P s) :
    Returns m s fun a t => Q a t ∧ R a t := by
  obtain ⟨a, t, ran, q⟩ := h
  have met := triple s start
  rw [ran] at met
  exact ⟨a, t, ran, q, met⟩

theorem Returns.within {R : σ → σ → Prop} {T : ε → Prop} {m : EStateM ε σ α} {s : σ}
    (h : Returns m s Q) (step : Within R T m) : Returns m s fun a t => Q a t ∧ R s t := by
  obtain ⟨a, t, ran, q⟩ := h
  have made := step s
  rw [ran] at made
  exact ⟨a, t, ran, q, made⟩

end

/-- Where the program ends normally from `s`, its result and its state are in `Q`. -/
def IfReturns (m : EStateM ε σ α) (s : σ) (Q : α → σ → Prop) : Prop := ∀ a t, m s = .ok a t → Q a t

section
variable {Q : α → σ → Prop}

instance [∀ a t, Decidable (Q a t)] (m : EStateM ε σ α) (s : σ) : Decidable (IfReturns m s Q) :=
  match ran : m s with
  | .ok a t => decidable_of_iff (Q a t) (by simp [IfReturns, ran])
  | .error _ _ => .isTrue (by simp [IfReturns, ran])

@[simp] theorem ifReturns_bind {m : EStateM ε σ β} {f : β → EStateM ε σ α} {s : σ} :
    IfReturns (m >>= f) s Q ↔ IfReturns m s fun b t => IfReturns (f b) t Q := by
  simp only [IfReturns, bind_apply]
  cases ran : m s with
  | ok b t => simp
  | error e t => simp

@[simp] theorem ifReturns_pure {a : α} {s : σ} : IfReturns (pure a : EStateM ε σ α) s Q ↔ Q a s := by
  simp [IfReturns]

@[simp] theorem ifReturns_get {R : σ → σ → Prop} {s : σ} :
    IfReturns (get : EStateM ε σ σ) s R ↔ R s s := by
  simp [IfReturns]

@[simp] theorem ifReturns_modify {f : σ → σ} {R : PUnit → σ → Prop} {s : σ} :
    IfReturns (modify f : EStateM ε σ PUnit) s R ↔ R ⟨⟩ (f s) :=
  ⟨fun h => h ⟨⟩ _ rfl, fun h a t ran => by cases ran; exact h⟩

@[simp] theorem ifReturns_throw {e : ε} {s : σ} : IfReturns (throw e : EStateM ε σ α) s Q := by
  simp [IfReturns]

theorem ifReturns_congr {Q' : α → σ → Prop} {m : EStateM ε σ α} {s : σ}
    (same : ∀ a t, m s = .ok a t → (Q a t ↔ Q' a t)) : IfReturns m s Q ↔ IfReturns m s Q' :=
  forall_congr' fun a => forall_congr' fun t => imp_congr_right (same a t)

/-- A normal end is related to where it started. -/
theorem Within.returned {R : σ → σ → Prop} {T : ε → Prop} {m : EStateM ε σ α} {s t : σ} {a : α}
    (step : Within R T m) (ran : m s = .ok a t) : R s t := by
  have made := step s
  rwa [ran] at made

end

end Effect
