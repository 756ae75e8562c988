import NineProject.Session.Queue

/-! # Header reads that fail

`read_header_handle` tells `error_handle` of the error and goes on. `decode_hader`
has no return statement for an error; where what is left behind counts as true, the
front of the empty queue is asked for next. `error_handle` itself acts on two errors
only: after any other the session is neither closed nor logged out.
-/

namespace NineProject

open Bytes M Effect Sql

variable {σ : Type}

/-- `decode_hader` reaches a return statement: what it gives does not depend on what is
    left behind. -/
def ReachesReturn (err : ErrorCode) (w : World σ) : Prop :=
  ∀ ret ret', decodeHader err ret w = decodeHader err ret' w

theorem error_reaches_no_return (f : Failure) (w : World σ) : ¬ ReachesReturn (some f) w := by
  intro returns
  have same := returns true false
  simp [decodeHader] at same

/-- No handler was run, the front of the empty queue was not asked for, and the session
    is closed and logged out. -/
structure ClosedQuietly (w t : World σ) : Prop where
  undispatched : t.log = w.log
  fronted : t.stopped ≠ some .emptyQueue
  closed : t.self.socket.opened = false
  out : t.self.initialized = false

instance (w t : World σ) : Decidable (ClosedQuietly w t) :=
  decidable_of_iff (_ ∧ _ ∧ _ ∧ _) ⟨fun ⟨a, b, c, d⟩ => ⟨a, b, c, d⟩, fun ⟨a, b, c, d⟩ => ⟨a, b, c, d⟩⟩

/-- An error that `error_handle` acts on. -/
def Aborts (f : Failure) : Prop := f = .eof ∨ f = .connectionReset

instance (f : Failure) : Decidable (Aborts f) := inferInstanceAs (Decidable (_ ∨ _))

/-- A session that is closed and logged out. -/
def Session.Ended (s : Session) : Prop := s.socket.opened = false ∧ s.initialized = false

def Session.aborted (s : Session) : Session :=
  { s with socket := { s.socket with opened := false }, initialized := false }

/-- What `error_handle` leaves. -/
def World.handled (w : World σ) (f : Failure) : World σ :=
  if Aborts f then { w with self := w.self.aborted } else w

theorem errorHandle_eq (f : Failure) (w : World σ) :
    errorHandle (some f) w = .ok () (w.handled f) := by
  by_cases aborts : f = .eof ∨ f = .connectionReset
  · simp [errorHandle, World.handled, Aborts, aborts, M.setSelf, Session.aborted]
  · simp [errorHandle, World.handled, Aborts, aborts]

theorem handled_twice (w : World σ) (f : Failure) : (w.handled f).handled f = w.handled f := by
  unfold World.handled
  split
  · rfl
  · rfl

/-- The header's task goes one of two ways, by what `decode_hader` leaves behind. -/
theorem readHeaderHandle_failed (lib : External σ) {w : World σ} (empty : w.self.pc.hQue = [])
    (f : Failure) (ret : Bool) : readHeaderHandle lib (some f) ret w =
      if ret then .error .emptyQueue (w.handled f) else .ok () (w.handled f) := by
  have still : (w.handled f).self.pc.hQue = [] := by
    unfold World.handled
    split
    · exact empty
    · exact empty
  simp only [readHeaderHandle, M.when, Option.isSome_some, if_true, bind_apply, errorHandle_eq]
  cases ret with
  | true => simp [decodeHader, readHandle, M.front, bind_apply, still]
  | false => simp [decodeHader, sessionTask, errorHandle_eq, handled_twice]

theorem handled_ended_iff (w : World σ) (f : Failure) :
    (w.handled f).self.Ended ↔ Aborts f ∨ w.self.Ended := by
  unfold World.handled
  split
  · next aborts => simp [aborts, Session.Ended, Session.aborted]
  · next goes => simp [goes]

@[simp] theorem handled_log (w : World σ) (f : Failure) : (w.handled f).log = w.log := by
  unfold World.handled
  split
  · rfl
  · rfl

@[simp] theorem handled_stopped (w : World σ) (f : Failure) : (w.handled f).stopped = w.stopped := by
  unfold World.handled
  split
  · rfl
  · rfl

/-- The world a failed header read leaves. -/
theorem failedHeader_next {lib : External σ} {w t : World σ} {c : Completion} {f : Failure} {ticket : Nat}
    (reachable : w.Reachable lib) (found : w.pending[c.index]? = some ⟨.readHeader, ticket⟩)
    (failed : c.err = some f) (step : next lib w (.complete c) = some t) :
    ∃ v : World σ, (v.self.Ended ↔ w.self.Ended) ∧ v.log = w.log ∧ v.stopped = none ∧
      t = if c.ret then { v.handled f with stopped := some .emptyQueue } else v.handled f := by
  obtain ⟨running, op, got, socket, there, moved, rfl⟩ := next_eq_some step
  obtain rfl : op = ⟨.readHeader, ticket⟩ := Option.some.inj (there.symm.trans found)
  have still : socket.opened = w.self.socket.opened := by
    simp only [transfer, failed] at moved
    split at moved
    · cases moved
      rfl
    · cases moved
  let u := w.completing c.index ⟨.readHeader, ticket⟩ socket
  let v : World σ := { u with self := u.self.receiveHeader got }
  refine ⟨v, ?_, rfl, running, ?_⟩
  · simp [Session.Ended, v, u, World.completing, Session.receiveHeader, still]
  · have ran : complete lib ⟨.readHeader, ticket⟩ c.err got c.ret u =
        if c.ret then .error .emptyQueue (v.handled f) else .ok () (v.handled f) := by
      rw [failed]
      exact readHeaderHandle_failed lib (w := v) (reachable.empty found) f c.ret
    unfold World.exec
    rw [ran]
    cases c.ret <;> rfl

/-- The end that a failed header read should come to. -/
structure EndsCleanly (err : ErrorCode) (w t : World σ) : Prop extends ClosedQuietly w t where
  returns : ∀ v : World σ, ReachesReturn err v

/-- No failed header read comes to a clean end, as none reaches a return statement. The
    rest of it happens exactly when what is left behind counts as false and the error is
    one that `error_handle` acts on, or the session was at its end before. -/
theorem failed_header_never_clean {lib : External σ} {w t : World σ} {c : Completion} {f : Failure}
    {ticket : Nat} (reachable : w.Reachable lib)
    (found : w.pending[c.index]? = some ⟨.readHeader, ticket⟩) (failed : c.err = some f)
    (step : next lib w (.complete c) = some t) :
    ¬ EndsCleanly c.err w t ∧
      (ClosedQuietly w t ↔ c.ret = false ∧ (Aborts f ∨ w.self.Ended)) := by
  obtain ⟨v, ended, log, running, rfl⟩ := failedHeader_next reachable found failed step
  constructor
  · rintro ⟨-, returns⟩
    exact error_reaches_no_return f w (failed ▸ returns w)
  · have out := (handled_ended_iff v f).trans (or_congr_right ended)
    cases c.ret with
    | true =>
        refine iff_of_false (fun quiet => quiet.fronted rfl) (by simp)
    | false =>
        rw [← out]
        constructor
        · exact fun quiet => ⟨rfl, quiet.closed, quiet.out⟩
        · exact fun ⟨_, closed, out⟩ => ⟨by simpa using log, by simp [running], closed, out⟩

/-- A client that was just accepted. -/
def justAccepted : World Memory := World.accepted memoryServer (client []) (annDb []) NMap.empty

theorem justAccepted_reachable : World.Reachable memoryServer justAccepted :=
  ⟨_, _, _, [], client_new _, rfl⟩

/-- The only operation outstanding fails. -/
def failsWith (f : Failure) (ret : Bool) : Completion := ⟨0, some f, 0, ret⟩

theorem failed_header_eof : ∃ t, next memoryServer justAccepted (.complete (failsWith .eof false)) = some t ∧
    ¬ EndsCleanly (some .eof) justAccepted t ∧
      (ClosedQuietly justAccepted t ↔ false = false ∧ (Aborts .eof ∨ justAccepted.self.Ended)) :=
  ⟨_, rfl, failed_header_never_clean justAccepted_reachable (c := failsWith .eof false) rfl rfl rfl⟩

/-- On another error, with true left behind, the empty queue is asked for its front. -/
theorem failed_header_stops :
    ¬ ∀ (w t : World Memory) (c : Completion) (f : Failure) (ticket : Nat),
      World.Reachable memoryServer w → w.pending[c.index]? = some ⟨.readHeader, ticket⟩ →
      c.err = some f → next memoryServer w (.complete c) = some t → EndsCleanly c.err w t := by
  intro clean
  obtain ⟨quiet, -⟩ := clean justAccepted _ (failsWith .other true) .other 0 justAccepted_reachable rfl
    rfl rfl
  exact quiet.fronted rfl

end NineProject
