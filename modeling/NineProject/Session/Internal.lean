import NineProject.Session.Server

/-! # A session's own work

Most of what a handler does touches nothing but its own session: the header queue, the
socket, its buffers, what is outstanding. Such work leaves the database, the notifier
map and whom the session speaks for as they are.
-/

namespace NineProject

open Bytes M Effect

variable {σ α : Type}

/-- An event of a session's own bookkeeping. -/
def Event.Private : Event → Prop
  | .push _ _ | .dispatch _ _ | .pop _ _ | .read _ _ _ | .source _ | .wrote _ => True
  | .exec _ _ | .login _ | .renew _ _ | .reply _ _ => False

/-- A step on what is the session's own. -/
structure Internal (w t : World σ) : Prop where
  db : t.db = w.db
  nmap : t.nmap = w.nmap
  userName : t.self.userName = w.self.userName
  checkManager : t.self.checkManager = w.self.checkManager
  nf : t.self.nf = w.self.nf
  notice : t.self.notice = w.self.notice
  initialized : t.self.initialized = true → w.self.initialized = true
  stopped : t.stopped = w.stopped
  log : ∃ es, t.log = w.log ++ es ∧ ∀ e ∈ es, e.Private

namespace Internal

theorem refl (w : World σ) : Internal w w :=
  ⟨rfl, rfl, rfl, rfl, rfl, rfl, id, rfl, [], by simp, by simp⟩

theorem trans {w t u : World σ} (first : Internal w t) (second : Internal t u) : Internal w u := by
  obtain ⟨es, log, own⟩ := first.log
  obtain ⟨fs, log', own'⟩ := second.log
  exact {
    db := second.db.trans first.db
    nmap := second.nmap.trans first.nmap
    userName := second.userName.trans first.userName
    checkManager := second.checkManager.trans first.checkManager
    nf := second.nf.trans first.nf
    notice := second.notice.trans first.notice
    initialized := fun on => first.initialized (second.initialized on)
    stopped := second.stopped.trans first.stopped
    log := ⟨es ++ fs, by rw [log', log, List.append_assoc], fun e member =>
      (List.mem_append.mp member).elim (own e) (own' e)⟩ }

instance : Std.Refl (Internal (σ := σ)) := ⟨refl⟩

instance : IsTrans (World σ) Internal := ⟨fun _ _ _ => trans⟩

theorem logged (w : World σ) {e : Event} (own : e.Private) : Internal w (w.logged e) :=
  { refl w with log := ⟨[e], rfl, by simpa using own⟩ }

theorem started (w : World σ) (handler : Handler) : Internal w (w.started handler) := { refl w with }

/-! ## The basic operations -/

/-- A program whose whole work is internal, however it ends. -/
abbrev Work (m : M σ α) : Prop := Within Internal (fun _ => True) m

theorem setSelf {f : Session → Session} (same : ∀ w : World σ, Internal w { w with self := f w.self }) :
    Work (M.setSelf f : M σ Unit) := Within.modify same

theorem emit {e : Event} (own : e.Private) : Work (M.emit e : M σ Unit) := Within.modify fun w => logged w own

theorem lift (r : Except Fault α) : Work (M.lift r : M σ α) := by
  cases r with
  | ok a => exact .pure a
  | error e => exact .throw trivial

theorem when {c : Prop} [Decidable c] {m : M σ Unit} (work : Work m) : Work (M.when c m) := .ite work (.pure _)

theorem front : Work (M.front : M σ Pchd) := by
  refine .bind .get fun w => ?_
  cases w.self.pc.hQue with
  | nil => exact .throw trivial
  | cons h rest => exact .pure h

theorem pop : Work (M.pop : M σ Unit) := by
  refine .bind .get fun w => ?_
  cases w.self.pc.hQue with
  | nil => exact .throw trivial
  | cons h rest =>
      exact .modify fun w => { refl w with log := ⟨[.pop w.popped w.ticket], rfl, by simp [Event.Private]⟩ }

theorem push (h : Pchd) : Work (M.push h : M σ Unit) :=
  .modify fun w => { refl w with log := ⟨[.push w.pushed h], rfl, by simp [Event.Private]⟩ }

theorem dispatch (h : Pchd) : Work (M.dispatch h : M σ Unit) :=
  .modify fun w => { refl w with log := ⟨[.dispatch w.popped h], rfl, by simp [Event.Private]⟩ }

theorem asyncRead {handler : Handler} {dest : Dest} {allocated : World σ → Nat} :
    Work (M.asyncRead handler dest allocated : M σ Unit) :=
  .modify fun w => (logged w (e := .read dest handler.asked (allocated w)) trivial).trans (started _ _)

theorem asyncWrite (bytes : List Byte) (source : Bool) : Work (M.asyncWrite bytes source : M σ Unit) :=
  .modify fun w => (logged w (e := .wrote bytes) trivial).trans (started _ _)

theorem touchSource (f : PBuffer → PBuffer) : Work (M.touchSource f : M σ Unit) :=
  .modify fun w => { refl w with log := ⟨[.source w.sourceBusy], rfl, by simp [Event.Private]⟩ }

theorem checkManagerAt (i : Int) : Work (M.checkManagerAt i : M σ Int) := by
  refine .bind .get fun w => ?_
  cases w.self.checkManager with
  | none => exact .throw trivial
  | some list => exact .ite (.pure _) (.throw trivial)

theorem consume (w : World σ) (n : Nat) : Internal w (w.consume n) := { refl w with }

theorem read (dest : Dest) (asked : Int) (allocated : Nat) :
    Work (M.read dest asked allocated : M σ (List Byte)) := by
  refine .bind (emit trivial) fun _ => .bind .get fun w => ?_
  refine .ite (.pure _) (.ite (.throw trivial) (.ite (.throw trivial)
    (.ite (.bind (.modify fun w => consume w _) fun _ => .pure _) ?_)))
  cases w.self.socket.fault with
  | some f => exact .throw trivial
  | none => exact .throw trivial

theorem write (bytes : List Byte) : Work (M.write bytes : M σ ErrorCode) := by
  refine .bind .get fun w => .ite (.pure _) (.ite (.pure _) ?_)
  refine .bind (setSelf fun w => { refl w with }) fun _ => ?_
  cases w.self.socket.writes.head?.join with
  | some f => exact .pure _
  | none => exact .bind (emit trivial) fun _ => .pure _

theorem writeOrThrow (bytes : List Byte) : Work (M.writeOrThrow bytes : M σ Unit) := by
  refine .bind (write bytes) fun outcome => ?_
  cases outcome with
  | some f => exact .throw trivial
  | none => exact .pure _

theorem errorHandle (err : ErrorCode) : Work (NineProject.errorHandle err : M σ Unit) :=
  .ite (setSelf fun w => { refl w with initialized := fun on => by cases on }) (.pure _)

theorem sendFriends (ell : ErrorCode) (users : List Str) :
    Work (NineProject.sendFriends ell users : M σ ErrorCode) := by
  induction users generalizing ell with
  | nil => exact .pure _
  | cons user rest ih =>
      exact .bind (.bind (write _) fun _ => write _) fun code => .bind (when (errorHandle code)) fun _ => ih code

theorem action : Work (NineProject.action : M σ Unit) := by
  refine .bind front fun h => ?_
  cases EAction.ofCode h.comd with
  | some a => exact asyncRead
  | none => exact .pure _

theorem decodeHader (err : ErrorCode) (ret : Bool) : Work (NineProject.decodeHader err ret : M σ Bool) := by
  refine .ite (.pure _) (.bind .get fun w => .ite (.pure _) ?_)
  cases w.self.pc.hQue with
  | cons pp rest => exact .ite (.pure _) (.pure _)
  | nil => exact .ite (.pure _) (.bind (push _) fun _ => .pure _)

theorem readSource (size : Int) : Work (NineProject.readSource size : M σ Str) :=
  .bind (touchSource _) fun _ => .bind .get fun _ => .bind (read _ _ _) fun _ =>
    .bind (touchSource _) fun _ => .bind .get fun _ => lift _

theorem readInvited (data : List Byte) (n : Nat) : Work (NineProject.readInvited data n : M σ (List Str)) := by
  induction n generalizing data with
  | zero => exact .pure _
  | succ n ih =>
      exact .bind (read _ _ _) fun us => .bind (read _ _ _) fun bytes =>
        .bind (when (.throw trivial)) fun _ => .bind (when (.throw trivial)) fun _ =>
          .bind (ih _) fun rest => .pure _

end Internal

/-- Nothing counts as written in the buffer that a name is read into for an invitation. -/
theorem target_empty {size : Int} {p : PBuffer} {bytes : List Byte} {target : Str}
    (made : PBuffer.ofSize size = .ok p) (text : (p.receive bytes).toString = .ok target) : target = [] := by
  unfold PBuffer.ofSize PBuffer.newChars at made
  split at made
  · cases made
  · cases made
    simpa [PBuffer.toString, PBuffer.receive] using text.symm

end NineProject
