import NineProject.Session.Machine

/-! # Rules for the handlers

Most of what a handler does leaves the header queue and the outstanding operations
alone and only adds to the record. `Extends A` is that kind of step, with events in
`A`, and every basic operation is one for the events it adds. What `Keeps` such
steps is carried by the rules below through a handler, up to the operation or the
`task_end` it finishes with.
-/

namespace NineProject

open Bytes M Effect Sql

variable {σ α : Type}

/-- A session no one has logged in on. -/
def Session.Stranger (s : Session) : Prop :=
  s.initialized = false ∧ s.userName = [] ∧ s.checkManager = none

/-- A login has got as far as its check list. -/
def ListFetched (log : List Event) : Prop := ∃ text, .exec .getCheckList text ∈ log

/-- A step that leaves the queue and the operations alone and records events in `A`. -/
structure Extends (A : Bool → Event → Prop) (w t : World σ) : Prop where
  pc : t.self.pc = w.self.pc
  hBuf : t.self.hBuf = w.self.hBuf
  pending : t.pending = w.pending
  pushed : t.pushed = w.pushed
  popped : t.popped = w.popped
  ticket : t.ticket = w.ticket
  stopped : t.stopped = w.stopped
  stranger : w.self.Stranger → t.self.Stranger ∨ ListFetched t.log
  log : ∃ es, t.log = w.log ++ es ∧ ∀ e ∈ es, A w.sourceBusy e

/-- Any stop but one for an empty queue. -/
def NotEmptyQueue (e : Stop) : Prop := e ≠ .emptyQueue

section
variable {A : Bool → Event → Prop}

instance : Std.Refl (Extends (σ := σ) A) :=
  ⟨fun _ => ⟨rfl, rfl, rfl, rfl, rfl, rfl, rfl, .inl, [], by simp, by simp⟩⟩

theorem ListFetched.more {before after : List Event} (fetched : ListFetched before)
    {es : List Event} (log : after = before ++ es) : ListFetched after := by
  obtain ⟨text, member⟩ := fetched
  exact ⟨text, log ▸ List.mem_append_left _ member⟩

theorem Extends.trans {w t u : World σ} (first : Extends A w t) (second : Extends A t u) :
    Extends A w u := by
  obtain ⟨es, log, events⟩ := first.log
  obtain ⟨fs, log', events'⟩ := second.log
  have busy : t.sourceBusy = w.sourceBusy := by simp only [World.sourceBusy, first.pending]
  refine ⟨second.pc.trans first.pc, second.hBuf.trans first.hBuf,
    second.pending.trans first.pending, second.pushed.trans first.pushed,
    second.popped.trans first.popped, second.ticket.trans first.ticket,
    second.stopped.trans first.stopped, fun stranger => ?_, es ++ fs,
    by rw [log', log, List.append_assoc], ?_⟩
  · exact (first.stranger stranger).elim second.stranger fun fetched => .inr (fetched.more log')
  intro e member
  rcases List.mem_append.mp member with here | there
  · exact events e here
  · exact busy ▸ events' e there

instance : IsTrans (World σ) (Extends A) := ⟨fun _ _ _ => Extends.trans⟩

theorem Extends.mono {B : Bool → Event → Prop} {w t : World σ} (step : Extends A w t)
    (weaker : ∀ b e, A b e → B b e) : Extends B w t := by
  obtain ⟨es, log, events⟩ := step.log
  exact ⟨step.pc, step.hBuf, step.pending, step.pushed, step.popped, step.ticket, step.stopped,
    step.stranger, es, log, fun e member => weaker _ e (events e member)⟩

/-- Work on the rest of the state, with nothing recorded. -/
theorem Extends.silent {w t : World σ} (pc : t.self.pc = w.self.pc) (hBuf : t.self.hBuf = w.self.hBuf)
    (pending : t.pending = w.pending) (pushed : t.pushed = w.pushed) (popped : t.popped = w.popped)
    (ticket : t.ticket = w.ticket) (stopped : t.stopped = w.stopped)
    (stranger : w.self.Stranger → t.self.Stranger) (log : t.log = w.log) : Extends A w t :=
  ⟨pc, hBuf, pending, pushed, popped, ticket, stopped, fun s => .inl (stranger s), [], by simp [log], by simp⟩

theorem Extends.logged (w : World σ) {e : Event} (h : A w.sourceBusy e) : Extends A w (w.logged e) :=
  ⟨rfl, rfl, rfl, rfl, rfl, rfl, rfl, .inl, [e], rfl, by simpa using h⟩

/-! ## Basic operations -/

abbrev Works (A : Bool → Event → Prop) (m : M σ α) : Prop := Within (Extends A) NotEmptyQueue m

theorem emit_works {e : Event} (h : ∀ b, A b e) : Works A (emit e : M σ Unit) :=
  Within.modify fun w => Extends.logged w (h _)

theorem setSelf_works {f : Session → Session} (pc : ∀ s, (f s).pc = s.pc)
    (hBuf : ∀ s, (f s).hBuf = s.hBuf) (stranger : ∀ s, s.Stranger → (f s).Stranger) :
    Works A (setSelf f : M σ Unit) :=
  Within.modify fun w =>
    Extends.silent (pc w.self) (hBuf w.self) rfl rfl rfl rfl rfl (stranger w.self) rfl

theorem lift_works (r : Except Fault α) : Works A (lift r : M σ α) := by
  cases r with
  | ok a => exact Within.pure a
  | error e => exact Within.throw (by simp [NotEmptyQueue])

theorem read_works {dest : Dest} {asked : Int} {allocated : Nat}
    (h : ∀ b, A b (.read dest asked allocated)) :
    Works A (read dest asked allocated : M σ (List Byte)) := by
  refine Within.bind (emit_works h) fun _ => Within.bind Within.get fun w => ?_
  refine Within.ite (Within.pure _) (Within.ite (Within.throw (by simp [NotEmptyQueue]))
    (Within.ite (Within.throw (by simp [NotEmptyQueue])) (Within.ite ?_ ?_)))
  · exact Within.bind (Within.modify fun w => Extends.silent rfl rfl rfl rfl rfl rfl rfl id rfl)
      fun _ => Within.pure _
  · cases w.self.socket.fault with
    | some f => exact Within.throw (by simp [NotEmptyQueue])
    | none => exact Within.throw (by simp [NotEmptyQueue])

theorem write_works (h : ∀ b bytes, A b (.wrote bytes)) (bytes : List Byte) :
    Works A (write bytes : M σ ErrorCode) := by
  refine Within.bind Within.get fun w => Within.ite (Within.pure _) (Within.ite (Within.pure _) ?_)
  refine Within.bind (setSelf_works (fun _ => rfl) (fun _ => rfl) fun _ => id) fun _ => ?_
  cases w.self.socket.writes.head?.join with
  | some f => exact Within.pure _
  | none => exact Within.bind (emit_works fun b => h b bytes) fun _ => Within.pure _

theorem writeOrThrow_works (h : ∀ b bytes, A b (.wrote bytes)) (bytes : List Byte) :
    Works A (writeOrThrow bytes : M σ Unit) := by
  refine Within.bind (write_works h bytes) fun outcome => ?_
  cases outcome with
  | some f => exact Within.throw (by simp [NotEmptyQueue])
  | none => exact Within.pure _

theorem touchSource_works (h : ∀ b, A b (.source b)) (f : PBuffer → PBuffer) :
    Works A (touchSource f : M σ Unit) :=
  Within.modify fun w =>
    ⟨rfl, rfl, rfl, rfl, rfl, rfl, rfl, .inl, [.source w.sourceBusy], rfl, by simpa using h _⟩

theorem Extends.ran {call : QrCall} (h : ∀ b text, A b (.exec call text)) (w : World σ)
    (r : Ran σ Fault α) : Extends A w (w.ran call r) := by
  refine ⟨rfl, rfl, rfl, rfl, rfl, rfl, rfl, .inl, _, rfl, ?_⟩
  intro e member
  obtain ⟨text, -, rfl⟩ := List.mem_map.mp member
  exact h _ text

theorem runQuery_works (lib : External σ) {call : QrCall} (h : ∀ b text, A b (.exec call text))
    (p : Query α) : Works A (runQuery lib call p) :=
  Within.bind Within.get fun _ => Within.bind (Within.modify fun u => Extends.ran h u _) fun _ =>
    lift_works _

theorem nmapNotify_works {task : Nat} (h : ∀ b user, A b (.renew user task)) (user : Str) :
    Works A (nmapNotify user task : M σ Unit) := by
  refine Within.modify fun w => ?_
  unfold World.notify
  split
  · exact ⟨rfl, rfl, rfl, rfl, rfl, rfl, rfl, .inl, [.renew user task], rfl, by simpa using h _ user⟩
  · exact Std.Refl.refl w

theorem nmapNotifyWithList_works {task : Nat} (h : ∀ b user, A b (.renew user task))
    (users : List Str) : Works A (nmapNotifyWithList users task : M σ Unit) := by
  induction users with
  | nil => exact Within.pure _
  | cons user rest ih => exact Within.bind (nmapNotify_works h user) fun _ => ih

theorem checkManagerAt_works (i : Int) : Works A (checkManagerAt i : M σ Int) := by
  refine Within.bind Within.get fun w => ?_
  cases w.self.checkManager with
  | none => exact Within.throw (by simp [NotEmptyQueue])
  | some a => exact Within.ite (Within.pure _) (Within.throw (by simp [NotEmptyQueue]))

theorem errorHandle_works (err : ErrorCode) : Works A (errorHandle err : M σ Unit) :=
  Within.ite (setSelf_works (fun _ => rfl) (fun _ => rfl) fun _ stranger => ⟨rfl, stranger.2⟩) (Within.pure _)

theorem when_works {c : Prop} [Decidable c] {m : M σ Unit} (h : Works A m) : Works A (when c m) :=
  Within.ite h (Within.pure _)

theorem sendFriends_works (h : ∀ b bytes, A b (.wrote bytes)) (ell : ErrorCode) (users : List Str) :
    Works A (sendFriends ell users : M σ ErrorCode) := by
  induction users generalizing ell with
  | nil => exact Within.pure _
  | cons user rest ih =>
      refine Within.bind (Within.bind (write_works h _) fun _ => write_works h _) fun code => ?_
      exact Within.bind (when_works (errorHandle_works code)) fun _ => ih code

theorem sessionInit_works (lib : External σ) (h : ∀ b text, A b (.exec .getCheckList text))
    (err : ErrorCode) (user : Str) : Works A (sessionInit lib err user) := by
  refine Within.bind (when_works (errorHandle_works err)) fun _ => ?_
  intro w
  let r := (Qr.getCheckList user).run lib.engine w.db
  have step : Extends A w (w.ran .getCheckList r) := Extends.ran h w r
  have fetched : ListFetched (w.ran .getCheckList r).log :=
    ⟨_, List.mem_append_right _ (List.mem_map_of_mem (by simp [r, Qr.getCheckList, query_run]; rfl))⟩
  have ran : (runQuery lib .getCheckList (Qr.getCheckList user)) w =
      lift r.result (w.ran .getCheckList r) := rfl
  rw [bind_apply, ran]
  cases r.result with
  | error e => exact ⟨step, by simp [NotEmptyQueue]⟩
  | ok list =>
      exact ⟨step.pc, step.hBuf, step.pending, step.pushed, step.popped, step.ticket, step.stopped,
        fun _ => .inr fetched, step.log⟩

theorem cursor_stranger {i : Nat} {lastCheck : Int} (s : Session) (stranger : s.Stranger) :
    Session.Stranger { s with checkManager := s.checkManager.map (·.setIfInBounds i lastCheck) } := by
  obtain ⟨out, name, none_⟩ := stranger
  exact ⟨out, name, by simp [none_]⟩

theorem readSource_works (read : ∀ b size allocated, A b (.read .source size allocated))
    (source : ∀ b, A b (.source b)) (size : Int) : Works A (readSource size : M σ Str) := by
  refine Within.bind (touchSource_works source _) fun _ => Within.bind Within.get fun w => ?_
  refine Within.bind (read_works fun b => read b _ _) fun bytes => ?_
  exact Within.bind (touchSource_works source _) fun _ => Within.bind Within.get fun w => lift_works _

theorem readInvited_works (read : ∀ b dest size allocated, A b (.read dest size allocated))
    (data : List Byte) (n : Nat) : Works A (readInvited data n : M σ (List Str)) := by
  induction n generalizing data with
  | zero => exact Within.pure _
  | succ n ih =>
      refine Within.bind (read_works fun b => read b _ _ _) fun us =>
        Within.bind (read_works fun b => read b _ _ _) fun bytes => ?_
      refine Within.bind (when_works (Within.throw ?_)) fun _ =>
        Within.bind (when_works (Within.throw ?_)) fun _ => Within.bind (ih _) fun rest => Within.pure _
      · simp [NotEmptyQueue]
      · simp [NotEmptyQueue]

theorem checkMailBox_works : Works A (checkMailBox : M σ Unit) := by
  refine Within.bind Within.get fun w => Within.ite ?_ (Within.pure _)
  have each : ∀ kind, Works A (checkMail kind : M σ Unit) := by
    intro kind
    refine Within.bind Within.get fun w => ?_
    cases w.self.nf.bind w.nmap.at_ with
    | none => exact Within.throw (by simp [NotEmptyQueue])
    | some flags =>
        refine Within.ite (Within.bind (setSelf_works (fun _ => rfl) (fun _ => rfl) fun _ => id) fun _ => ?_)
          (Within.pure _)
        exact Within.modify fun w => Extends.silent rfl rfl rfl rfl rfl rfl rfl id rfl
  exact Within.bind (each _) fun _ => Within.bind (each _) fun _ => Within.bind (each _) fun _ =>
    Within.pure _

end

/-- What a blocking read does with the socket it finds. -/
theorem read_eq (dest : Dest) (asked : Int) (allocated : Nat) (w : World σ) :
    (read dest asked allocated : M σ (List Byte)) w =
      (let u := w.logged (.read dest asked allocated)
       let n := sizeT asked
       if n = 0 then .ok [] u
       else if w.self.socket.opened = false then .error (.fault (.thrown (.systemError .other))) u
       else if allocated < min n w.self.socket.input.length then .error (.fault .overrun) u
       else if n ≤ w.self.socket.input.length then .ok (w.self.socket.input.take n) (u.consume n)
       else match w.self.socket.fault with
         | some f => .error (.fault (.thrown (.systemError f))) u
         | none => .error .blocked u) := by
  have logged : (read dest asked allocated : M σ (List Byte)) w =
      (if sizeT asked = 0 then pure []
       else if w.self.socket.opened = false then throw (.fault (.thrown (.systemError .other)))
       else if allocated < min (sizeT asked) w.self.socket.input.length then throw (.fault .overrun)
       else if sizeT asked ≤ w.self.socket.input.length then do
         modify fun w => w.consume (sizeT asked)
         pure (w.self.socket.input.take (sizeT asked))
       else match w.self.socket.fault with
         | some f => throw (.fault (.thrown (.systemError f)))
         | none => throw .blocked : M σ (List Byte)) (w.logged (.read dest asked allocated)) := rfl
  rw [logged]
  by_cases nothing : sizeT asked = 0
  · simp [nothing]
  · by_cases closed : w.self.socket.opened = false
    · simp [nothing, closed]
    · by_cases past : allocated < min (sizeT asked) w.self.socket.input.length
      · simp only [nothing, closed, past, if_true, if_false]
        rfl
      · simp only [nothing, closed, past, if_false]
        by_cases there : sizeT asked ≤ w.self.socket.input.length
        · simp [there, bind_apply]
        · cases fault : w.self.socket.fault <;> simp [there]

/-! ## Steps -/

/-- A program's triple as a fact about the world it leaves. -/
theorem exec_of_holds {P Q : World σ → Prop} {E : Stop → World σ → Prop} {m : M σ α} {w : World σ}
    (triple : Holds P m (fun _ => Q) E) (start : P w) {R : World σ → Prop}
    (ended : ∀ t, Q t → R t) (stopped : ∀ e t, E e t → R { t with stopped := some e }) :
    R (w.exec m) := by
  have run := triple w start
  unfold World.exec
  cases result : m w with
  | ok a t =>
      rw [result] at run
      exact ended t run
  | error e t =>
      rw [result] at run
      exact stopped e t run

theorem exec_congr {m n : M σ α} {u v : World σ} (same : m u = n v) :
    u.exec m = v.exec n := by
  unfold World.exec
  rw [same]

/-- What a step is: a completed operation, a check of the mail box, or other sessions. -/
theorem next_eq_some {lib : External σ} {w t : World σ} {act : Act σ}
    (step : next lib w act = some t) : w.stopped = none ∧
      match act with
      | .complete c => ∃ op got socket, w.pending[c.index]? = some op ∧
          transfer op c w.self.socket = some (got, socket) ∧
          t = (w.completing c.index op socket).exec (complete lib op c.err got c.ret)
      | .checkMailBox => t = w.exec checkMailBox
      | .others db nmap => t = { w with db := db, nmap := nmap } := by
  cases act with
  | complete c =>
      simp only [next] at step
      split at step
      · cases step
      · next running =>
          obtain ⟨op, found, rest⟩ := Option.bind_eq_some_iff.mp step
          obtain ⟨⟨got, socket⟩, moved, rfl⟩ := Option.map_eq_some_iff.mp rest
          exact ⟨by simpa using running, op, got, socket, found, moved, rfl⟩
  | checkMailBox =>
      simp only [next] at step
      split at step
      · cases step
      · next running => exact ⟨by simpa using running, (Option.some.inj step).symm⟩
  | others db nmap =>
      simp only [next] at step
      split at step
      · cases step
      · next running => exact ⟨by simpa using running, (Option.some.inj step).symm⟩

/-- A step keeps what handlers of completed operations and steps without a record do. -/
theorem step_kept {lib : External σ} {J : World σ → Prop} {w t : World σ} {act : Act σ} (start : J w)
    (happens : next lib w act = some t)
    (silent : ∀ {w t}, J w → Extends (fun _ _ => False) w t → J t)
    (marked : ∀ {w e}, J w → J { w with stopped := some e })
    (completed : ∀ c op got socket, act = .complete c → w.pending[c.index]? = some op →
      transfer op c w.self.socket = some (got, socket) →
      Holds (· = w.completing c.index op socket) (complete lib op c.err got c.ret) (fun _ => J)
        fun _ => J) : J t := by
  obtain ⟨-, what⟩ := next_eq_some happens
  cases act with
  | complete c =>
      obtain ⟨op, got, socket, found, moved, rfl⟩ := what
      exact exec_of_holds (completed c op got socket rfl found moved) rfl (fun _ => id) fun _ _ => marked
  | checkMailBox =>
      rw [show t = w.exec checkMailBox from what]
      have kept := checkMailBox_works.holds (fun _ _ => silent) (fun _ _ _ => id)
      exact exec_of_holds kept start (fun _ => id) fun _ _ => marked
  | others db nmap =>
      rw [show t = { w with db := db, nmap := nmap } from what]
      exact silent start (Extends.silent rfl rfl rfl rfl rfl rfl rfl id rfl)

/-! ## Handlers -/

/-- An event of the work between taking up a header and ending its task, other than a
    read or a reply: `source_` is touched as busy as it is. -/
def Event.Calm (busy : Bool) : Event → Prop
  | .source b => b = busy
  | .exec _ _ | .renew _ _ | .wrote _ | .login _ => True
  | .push _ _ | .dispatch _ _ | .pop _ _ | .read _ _ _ | .reply _ _ => False

/-- `P` survives steps that record events in `A`, and allows any stop but one. -/
structure Keeps (A : Bool → Event → Prop) (P : World σ → Prop) (E : Stop → World σ → Prop) :
    Prop where
  extended : ∀ {w t}, P w → Extends A w t → P t
  stop : ∀ {e w}, NotEmptyQueue e → P w → E e w

/-- What is known of the queue in front of a handler. -/
def Front (P : World σ → Prop) (h : Pchd) (w : World σ) : Prop :=
  P w ∧ w.self.pc.hQue.head? = some h

section
variable {A : Bool → Event → Prop} {P Q : World σ → Prop} {E : Stop → World σ → Prop}

theorem Keeps.works (keeps : Keeps A P E) {m : M σ α} (h : Works A m) :
    Holds P m (fun _ => P) E :=
  h.holds (fun _ _ => keeps.extended) fun _ _ => keeps.stop

theorem Keeps.front (keeps : Keeps A P E) (h : Pchd) : Keeps A (Front P h) E where
  extended := fun ⟨p, head⟩ step => ⟨keeps.extended p step, by rw [step.pc, head]⟩
  stop := fun other ⟨p, _⟩ => keeps.stop other p

theorem front_holds (empty : ∀ w, P w → w.self.pc.hQue = [] → E .emptyQueue w) :
    Holds P front (Front P) E := by
  intro w hw
  cases queue : w.self.pc.hQue with
  | nil =>
      have run : (front : M σ Pchd) w = .error .emptyQueue w := by
        simp [M.front, bind_apply, queue]
      rw [run]
      exact empty w hw queue
  | cons h rest =>
      have run : (front : M σ Pchd) w = .ok h w := by
        simp [M.front, bind_apply, queue]
      rw [run]
      exact ⟨hw, by simp [queue]⟩

/-- A computation on memory either goes on with its value or stops. -/
theorem lift_holds {β : Type} {r : Except Fault α} {f : α → M σ β} {S : β → World σ → Prop}
    (stop : ∀ e w, P w → E (.fault e) w) (value : ∀ a, r = .ok a → Holds P (f a) S E) :
    Holds P (lift r >>= f) S E := by
  cases r with
  | ok a => exact value a rfl
  | error e => exact stop e

theorem runQuery_holds (lib : External σ) {call : QrCall} {p : Query α} {S : α → World σ → Prop}
    (stop : ∀ e w, P w → E (.fault e) (w.ran call (p.run lib.engine w.db)))
    (value : ∀ a w, P w → (p.run lib.engine w.db).result = .ok a →
      S a (w.ran call (p.run lib.engine w.db))) : Holds P (runQuery lib call p) S E := by
  intro w hw
  have ran : runQuery lib call p w =
      lift (p.run lib.engine w.db).result (w.ran call (p.run lib.engine w.db)) := rfl
  rw [ran]
  cases result : (p.run lib.engine w.db).result with
  | ok a => exact value a w hw result
  | error e => exact stop e w hw

theorem checkManagerAt_holds (i : Nat) (inside : i < 10) (stop : ∀ w, P w → E (.fault .wildPointer) w) :
    Holds P (checkManagerAt i)
      (fun n w => P w ∧ ∃ list, w.self.checkManager = some list ∧ n = list.toArray.getD i 0) E := by
  intro w hw
  cases manager : w.self.checkManager with
  | none =>
      have ran : (checkManagerAt i : M σ Int) w = .error (.fault .wildPointer) w := by
        simp [M.checkManagerAt, bind_apply, manager]
      rw [ran]
      exact stop w hw
  | some list =>
      have ran : (checkManagerAt i : M σ Int) w = .ok (list.toArray.getD i 0) w := by
        simp only [M.checkManagerAt, bind_apply, get_apply, manager]
        rw [if_pos ⟨by omega, by omega⟩, Int.toNat_natCast]
        rfl
      rw [ran]
      exact ⟨hw, list, manager, rfl⟩

theorem checkManagerAt_same (i : Int) (stop : ∀ e w, P w → E e w) :
    Holds P (checkManagerAt i) (fun _ => P) E := by
  refine .bind (Q := fun _ => P) (fun _ => id) fun w => ?_
  cases w.self.checkManager with
  | none => exact .throw (stop _)
  | some list => exact .ite (fun _ => .pure fun _ => id) fun _ => .throw (stop _)

/-- Every calm event is allowed. -/
def Calms (A : Bool → Event → Prop) : Prop := ∀ b e, Event.Calm b e → A b e

variable (lib : External σ) {te : ErrorCode → M σ Unit} {err : ErrorCode}

/-! ### Commands

What a reply does is left to the user of the rule. -/

variable {R : World σ → Prop}

theorem rgetFriendList_holds (keeps : Keeps A P E) (calm : Calms A)
    (reply : ∀ rows, Holds P (emit (.reply .getFriendList rows)) (fun _ => P) E)
    (finish : ∀ err, Holds P (te err) (fun _ => Q) E) :
    Holds P (rgetFriendList lib te) (fun _ => Q) E := by
  have wrote : ∀ b bytes, A b (.wrote bytes) := fun b _ => calm b _ trivial
  refine .bind (keeps.works Within.get) fun w => ?_
  refine .bind (keeps.works (runQuery_works lib (fun b _ => calm b _ trivial) _)) fun got => ?_
  refine .bind (keeps.works (writeOrThrow_works wrote _)) fun _ => ?_
  exact .bind (reply _) fun _ => .bind (keeps.works (sendFriends_works wrote _ _)) finish

theorem rgetNewMessage_holds (keeps : Keeps A P E) (calm : Calms A)
    (reply : ∀ rows, Holds P (emit (.reply .getMsg rows)) (fun _ => P) E)
    (start : ∀ bytes, Holds P (asyncWrite bytes true) (fun _ => P) E)
    (finish : ∀ err, Holds P (te err) (fun _ => Q) E) :
    Holds P (rgetNewMessage lib te err) (fun _ => Q) E := by
  refine .bind (keeps.works (checkManagerAt_works _)) fun lastCheck => ?_
  refine .bind (keeps.works Within.get) fun w => ?_
  refine .bind (keeps.works (runQuery_works lib (fun b _ => calm b _ trivial) _)) fun f => ?_
  refine .bind (keeps.works (when_works (touchSource_works (fun b => calm b _ rfl) _))) fun _ => ?_
  refine .bind (keeps.works (writeOrThrow_works (fun b _ => calm b _ trivial) _)) fun _ => ?_
  refine .bind (reply _) fun _ => ?_
  refine .bind (keeps.works Within.get) fun w => .bind (start _) fun _ => ?_
  exact .bind (keeps.works (setSelf_works (fun _ => rfl) (fun _ => rfl) cursor_stranger)) fun _ => finish err

theorem responseReqGetNewIvt_holds (keeps : Keeps A P E) (calm : Calms A)
    (empty : ∀ w, P w → w.self.pc.hQue = [] → E .emptyQueue w)
    (reply : ∀ rows, Holds P (emit (.reply .getIvt rows)) (fun _ => R) E)
    (finish : ∀ bytes, Holds R (asyncWrite bytes false) (fun _ => Q) E) :
    Holds P (responseReqGetNewIvt lib err) (fun _ => Q) E := by
  refine .bind (front_holds empty) fun h => ?_
  have known := keeps.front h
  refine .bind (known.works (when_works (errorHandle_works err))) fun _ => ?_
  refine .bind (known.works (lift_works _)) fun pb => .bind (known.works (lift_works _)) fun pb => ?_
  refine .bind (known.works (checkManagerAt_works _)) fun _ => ?_
  refine .bind (known.works Within.get) fun w => ?_
  refine .bind (known.works (runQuery_works lib (fun b _ => calm b _ trivial) _)) fun f => ?_
  refine .bind (known.works (lift_works _)) fun pb => .bind ?_ fun _ => finish _
  exact (reply _).conseq (fun _ front => front.1) (fun _ _ => id) fun _ _ => id

theorem responseReqGetNewConc_holds (keeps : Keeps A P E) (calm : Calms A)
    (reply : ∀ rows, Holds P (emit (.reply .getConnection rows)) (fun _ => R) E)
    (finish : ∀ bytes, Holds R (asyncWrite bytes false) (fun _ => Q) E) :
    Holds P (responseReqGetNewConc lib err) (fun _ => Q) E := by
  refine .bind (keeps.works (when_works (errorHandle_works err))) fun _ => ?_
  refine .bind (keeps.works (lift_works _)) fun p => .bind (keeps.works (lift_works _)) fun p => ?_
  refine .bind (keeps.works (checkManagerAt_works _)) fun lastCheck => ?_
  refine .bind (keeps.works Within.get) fun w => ?_
  refine .bind (keeps.works (runQuery_works lib (fun b _ => calm b _ trivial) _)) fun f => ?_
  refine .bind (keeps.works (lift_works _)) fun p => ?_
  exact .bind (reply _) fun _ => finish _

/-! ### Login -/

theorem readIdAndPassword_holds (keeps : Keeps A P E)
    (failed : err ≠ none → ∀ w, P w → Q w)
    (finish : ∀ idpw idSize pwSize, PBuffer.ofSize (wrap 32 (idSize + pwSize)) = .ok idpw →
      Holds P (asyncRead (.login idpw idSize pwSize) .idpw fun _ => idpw.data.length)
        (fun _ => Q) E) :
    Holds P (readIdAndPassword err) (fun _ => Q) E := by
  refine .bind (keeps.works Within.get) fun w => .ite (fun _ => ?_) fun broken => ?_
  · exact lift_holds (fun e w hw => keeps.stop (by simp [NotEmptyQueue]) hw) fun idpw made =>
      finish idpw _ _ made
  · exact (keeps.works (errorHandle_works err)).conseq (fun _ => id) (fun _ => failed (by simpa using broken))
      fun _ _ => id

theorem responseReqLogin_holds {idpw : PBuffer} {idSize pwSize : Int} (keeps : Keeps A P E)
    (check : ∀ b text, A b (.exec .checkUserPassword text))
    (list : ∀ b text, A b (.exec .getCheckList text)) (login : ∀ b accepted, A b (.login accepted))
    (failed : err ≠ none → ∀ w, P w → Q w)
    (empty : ∀ w, P w → w.self.pc.hQue = [] → E .emptyQueue w)
    (finish : ∀ bytes, Holds P (asyncWrite bytes false) (fun _ => Q) E) :
    Holds P (responseReqLogin lib err idpw idSize pwSize) (fun _ => Q) E := by
  refine .ite (fun broken => ?_) fun _ => .ite (fun _ => ?_) fun _ => ?_
  · exact (keeps.works (errorHandle_works err)).conseq (fun _ => id)
      (fun _ => failed (Option.isSome_iff_ne_none.mp broken)) fun _ _ => id
  · exact .throw fun w hw => keeps.stop (by simp [NotEmptyQueue]) hw
  · refine .bind (keeps.works (runQuery_works lib check _)) fun result => ?_
    refine .bind (keeps.works (emit_works fun b => login b result)) fun _ => ?_
    refine .bind (keeps.works (when_works (sessionInit_works lib list _ _))) fun _ => ?_
    exact .bind (front_holds empty) fun h =>
      (finish _).conseq (fun _ front => front.1) (fun _ _ => id) fun _ _ => id

/-! ### Requests with a payload

The read of the payload is left to the user of the rule; it starts in the very state
whose buffer says how much to read. -/

theorem get_holds : Holds P (get : M σ (World σ)) (fun w v => v = w ∧ P w) E :=
  fun _ hw => ⟨rfl, hw⟩

theorem responseActSendMsg_holds (keeps : Keeps A R E) (calm : Calms A)
    (payload : ∀ w, P w →
      Holds (· = w) (readSource (MsReq.ofBytes w.self.hBuf.data).sz) (fun _ => R) E)
    (finish : ∀ err, Holds R (te err) (fun _ => Q) E) :
    Holds P (responseActSendMsg lib te err) (fun _ => Q) E := by
  refine .bind get_holds fun w => ?_
  intro v ⟨same, hw⟩
  subst same
  refine Holds.bind (payload v hw) (fun text => ?_) v rfl
  refine .bind (keeps.works (runQuery_works lib (fun b _ => calm b _ trivial) _)) fun _ => ?_
  refine .bind (keeps.works (runQuery_works lib (fun b _ => calm b _ trivial) _)) fun mList => ?_
  exact .bind (keeps.works (nmapNotifyWithList_works (fun b _ => calm b _ trivial) _)) fun _ =>
    finish err

theorem responseActConnect_holds (keeps : Keeps A R E) (calm : Calms A)
    (payload : ∀ w, P w →
      Holds (· = w) (readSource (ConcRequest.ofBytes w.self.hBuf.data).receiverIdSize) (fun _ => R) E)
    (finish : ∀ err, Holds R (te err) (fun _ => Q) E) :
    Holds P (responseActConnect lib te err) (fun _ => Q) E := by
  refine .bind get_holds fun w => ?_
  intro v ⟨same, hw⟩
  subst same
  refine Holds.bind (payload v hw) (fun receiver => ?_) v rfl
  refine .bind (keeps.works (runQuery_works lib (fun b _ => calm b _ trivial) _)) fun _ => ?_
  exact .bind (keeps.works (nmapNotify_works (fun b _ => calm b _ trivial) _)) fun _ => finish err

theorem responseActInvite_holds (before : Keeps A P E) (keeps : Keeps A R E) (calm : Calms A)
    (payload : ∀ w targetGetter, P w →
      PBuffer.ofSize (IvtReq.ofBytes w.self.hBuf.data).targetIdSize = .ok targetGetter →
      Holds (· = w) (read .targetGetter (IvtReq.ofBytes w.self.hBuf.data).targetIdSize
        targetGetter.data.length) (fun _ => R) E)
    (finish : ∀ err, Holds R (te err) (fun _ => Q) E) :
    Holds P (responseActInvite lib te err) (fun _ => Q) E := by
  refine .bind (before.works (when_works (errorHandle_works err))) fun _ => .bind get_holds fun w => ?_
  intro v ⟨same, hw⟩
  subst same
  refine lift_holds (P := (· = v)) ?_ (fun targetGetter made => ?_) v rfl
  · intro e w same
    exact before.stop (by simp [NotEmptyQueue]) (same ▸ hw)
  · refine .bind (payload v targetGetter hw made) fun bytes => ?_
    refine .bind (keeps.works (lift_works _)) fun target => ?_
    refine .bind (keeps.works (runQuery_works lib (fun b _ => calm b _ trivial) _)) fun _ => ?_
    exact .bind (keeps.works (nmapNotify_works (fun b _ => calm b _ trivial) _)) fun _ => finish err

theorem responseActCreateChatTable_holds (keeps : Keeps A R E) (calm : Calms A)
    (payload : ∀ w, P w → Holds (· = w) (readInvited (List.replicate 256 0)
      (CreateTableReq.ofBytes w.self.hBuf.data).participations.toNat) (fun _ => R) E)
    (finish : ∀ err, Holds R (te err) (fun _ => Q) E) :
    Holds P (responseActCreateChatTable lib te err) (fun _ => Q) E := by
  refine .bind get_holds fun w => ?_
  intro v ⟨same, hw⟩
  subst same
  refine Holds.bind (payload v hw) (fun cont => ?_) v rfl
  refine .bind (keeps.works (runQuery_works lib (fun b _ => calm b _ trivial) _)) fun key => ?_
  refine .bind (keeps.works (writeOrThrow_works (fun b _ => calm b _ trivial) _)) fun _ => ?_
  exact .bind (keeps.works (nmapNotifyWithList_works (fun b _ => calm b _ trivial) _)) fun _ =>
    finish err

/-- All payload reads at once, where reads are allowed. -/
theorem actionHandler_holds {err : ErrorCode} {a : EAction} (keeps : Keeps A P E) (calm : Calms A)
    (reads : ∀ b dest size allocated, A b (.read dest size allocated)) (failed : err ≠ none → ∀ w, P w → Q w)
    (login : ∀ idpw idSize pwSize, Holds P
      (asyncRead (.login idpw idSize pwSize) .idpw fun _ => idpw.data.length) (fun _ => Q) E)
    (finish : ∀ err, Holds P (taskEnd lib err) (fun _ => Q) E) :
    Holds P (actionHandler lib a err) (fun _ => Q) E := by
  have fromHere : ∀ {β : Type} {m : M σ β} (w : World σ), P w → Works A m →
      Holds (· = w) m (fun _ => P) E :=
    fun w hw works => (keeps.works works).conseq (fun _ same => same ▸ hw) (fun _ _ => id)
      fun _ _ => id
  cases a with
  | reqLog => exact readIdAndPassword_holds keeps failed fun idpw idSize pwSize _ => login idpw _ _
  | sendMsg =>
      exact responseActSendMsg_holds lib keeps calm (fun w hw => fromHere w hw
        (readSource_works (fun b => reads b _) (fun b => calm b _ rfl) _)) finish
  | requestConnection =>
      exact responseActConnect_holds lib keeps calm (fun w hw => fromHere w hw
        (readSource_works (fun b => reads b _) (fun b => calm b _ rfl) _)) finish
  | requestInvite =>
      exact responseActInvite_holds lib keeps keeps calm (fun w targetGetter hw _ => fromHere w hw
        (read_works fun b => reads b _ _ _)) finish
  | requestCreateTable =>
      exact responseActCreateChatTable_holds lib keeps calm (fun w hw => fromHere w hw
        (readInvited_works (fun b => reads b) _ _)) finish

/-- The commands; the two that write from their own buffer end there. -/
theorem commandHandler_holds {c : ECommand} (keeps : Keeps A P E) (calm : Calms A)
    (empty : ∀ w, P w → w.self.pc.hQue = [] → E .emptyQueue w)
    (reply : ∀ rows, Holds P (emit (.reply c rows)) (fun _ => P) E)
    (start : c = .getMsg → ∀ bytes, Holds P (asyncWrite bytes true) (fun _ => P) E)
    (written : ∀ bytes, Holds P (asyncWrite bytes false) (fun _ => Q) E)
    (finish : ∀ err, Holds P (te err) (fun _ => Q) E) :
    Holds P (commandHandler lib te err c) (fun _ => Q) E := by
  cases c with
  | getMsg => exact rgetNewMessage_holds lib keeps calm reply (start rfl) finish
  | getIvt => exact responseReqGetNewIvt_holds lib keeps calm empty reply written
  | getConnection => exact responseReqGetNewConc_holds lib keeps calm reply written
  | getFriendList => exact rgetFriendList_holds lib keeps calm reply finish

/-! ### A header that was read -/

theorem readHeaderHandle_takes {w : World σ} {h : Pchd} (empty : w.self.pc.hQue = [])
    (header : Pchd.ofBytes w.self.pc.iData = h) (accepted : h.Accepted) (ret : Bool) :
    readHeaderHandle lib none ret w = readHandle lib (taskEnd lib) none (w.push h) := by
  have low := not_lt.mpr accepted.1
  have high := not_lt.mpr accepted.2
  have decoded : (decodeHader none ret : M σ Bool) w = .ok true (w.push h) := by
    rw [decodeHader, if_neg (by simp), bind_apply, get_apply]
    simp only [header, empty, if_neg low, if_neg high]
    rfl
  simp [readHeaderHandle, M.when, bind_apply, decoded]

theorem readHeaderHandle_refuses {w : World σ} {h : Pchd} (empty : w.self.pc.hQue = [])
    (header : Pchd.ofBytes w.self.pc.iData = h) (refused : ¬ h.Accepted) (ret : Bool) :
    readHeaderHandle lib none ret w = sessionTask lib (taskEnd lib) none w := by
  have decoded : (decodeHader none ret : M σ Bool) w = .ok false w := by
    simp only [Pchd.Accepted, not_and, not_le] at refused
    by_cases negative : h.sz < 0
    · simp [decodeHader, bind_apply, header, negative]
    · simp [decodeHader, bind_apply, header, empty, negative, refused (not_lt.mp negative)]
  simp [readHeaderHandle, M.when, bind_apply, decoded]

end

/-! ## Invariants of all handlers -/

/-- What every basic step of a session keeps. -/
structure Invariant (A : Bool → Event → Prop) (I : World σ → Prop) : Prop where
  extended : ∀ {w t}, I w → Extends A w t → I t
  popped : ∀ {w}, I w → I w.pop
  pushed : ∀ {w h}, I w → I (w.push h)
  dispatched : ∀ {w h}, I w → I (w.dispatched h)
  header : ∀ {w}, I w →
    I ((w.logged (.read .header Pchd.size w.self.pc.iData.length)).started .readHeader)
  payload : ∀ {w} {a : EAction}, I w →
    I ((w.logged (.read .hBuf a.payload w.self.hBuf.data.length)).started (.action a))
  written : ∀ {w bytes source}, I w →
    I ((w.logged (.wrote bytes)).started (.taskEnd source))

namespace Invariant

variable {A : Bool → Event → Prop} {I : World σ → Prop}

/-- The invariant holds at the end, however the program ends. -/
abbrev Kept (I : World σ → Prop) (m : M σ α) : Prop := Holds I m (fun _ => I) fun _ => I

theorem keeps (inv : Invariant A I) : Keeps A I fun _ => I := ⟨inv.extended, fun _ => id⟩

theorem works (inv : Invariant A I) {m : M σ α} (h : Works A m) : Kept I m := inv.keeps.works h

theorem asyncWrite (inv : Invariant A I) (bytes : List Byte) (source : Bool) :
    Kept I (M.asyncWrite bytes source) := fun _ hw => inv.written hw

variable (lib : External σ) {te : ErrorCode → M σ Unit}

theorem command (inv : Invariant A I) (calm : Calms A)
    (reply : ∀ b c rows, A b (.reply c rows)) (finish : ∀ err, Kept I (te err))
    (err : ErrorCode) : Kept I (command lib te err) := by
  refine .bind (front_holds fun _ hw _ => hw) fun h => ?_
  have known := inv.keeps.front h
  refine .bind (known.works (checkManagerAt_works _)) fun _ => ?_
  refine Holds.conseq (P := I) ?_ (fun _ front => front.1) (fun _ _ => id) fun _ _ => id
  cases ECommand.ofCode h.comd with
  | some c =>
      exact commandHandler_holds lib inv.keeps calm (fun _ hw _ => hw)
        (fun rows => inv.works (emit_works fun b => reply b c rows)) (fun _ bytes => inv.asyncWrite bytes true)
        (fun bytes => inv.asyncWrite bytes false) finish
  | none => exact inv.works (Within.pure _)

theorem action (inv : Invariant A I) : Kept I (action : M σ Unit) := by
  refine .bind (front_holds fun _ hw _ => hw) fun h => ?_
  refine Holds.conseq (P := I) ?_ (fun _ front => front.1) (fun _ _ => id) fun _ _ => id
  cases EAction.ofCode h.comd with
  | some a => exact fun _ hw => inv.payload hw
  | none => exact fun _ hw => hw

theorem readHandle (inv : Invariant A I) (calm : Calms A)
    (reply : ∀ b c rows, A b (.reply c rows)) (finish : ∀ err, Kept I (te err))
    (err : ErrorCode) : Kept I (readHandle lib te err) := by
  refine .bind (front_holds fun _ hw _ => hw) fun h => ?_
  refine .bind (Q := fun _ => I) (fun _ front => inv.dispatched front.1) fun _ => ?_
  exact .ite (fun _ => inv.command lib calm reply finish err) fun _ => inv.action

theorem sessionTask (inv : Invariant A I) (calm : Calms A)
    (reply : ∀ b c rows, A b (.reply c rows)) (finish : ∀ err, Kept I (te err))
    (err : ErrorCode) : Kept I (sessionTask lib te err) := by
  refine .ite (fun _ => inv.works (errorHandle_works err)) fun _ => ?_
  refine .bind (inv.works Within.get) fun w => .ite (fun _ => ?_) fun _ => ?_
  · exact fun _ hw => inv.header hw
  · exact inv.readHandle lib calm reply finish err

theorem pop (inv : Invariant A I) : Kept I (pop : M σ Unit) := by
  refine .bind (inv.works Within.get) fun w => ?_
  cases w.self.pc.hQue with
  | nil => exact .throw fun _ hw => hw
  | cons h rest => exact fun _ hw => inv.popped hw

theorem taskEndWithin (inv : Invariant A I) (calm : Calms A)
    (reply : ∀ b c rows, A b (.reply c rows)) (n : Nat) (err : ErrorCode) :
    Kept I (taskEndWithin lib n err) := by
  induction n generalizing err with
  | zero => exact .throw fun _ hw => hw
  | succ n ih =>
      refine .bind inv.pop fun _ => ?_
      refine .bind (inv.works (touchSource_works (fun b => calm b _ rfl) _)) fun _ => ?_
      exact inv.sessionTask lib calm reply ih err

theorem taskEnd (inv : Invariant A I) (calm : Calms A)
    (reply : ∀ b c rows, A b (.reply c rows)) (err : ErrorCode) : Kept I (taskEnd lib err) :=
  .bind (inv.works Within.get) fun _ => inv.taskEndWithin lib calm reply _ err

theorem decodeHader (inv : Invariant A I) (err : ErrorCode) (ret : Bool) :
    Kept I (decodeHader err ret : M σ Bool) := by
  refine .ite (fun _ => inv.works (Within.pure _)) fun _ => ?_
  refine .bind (inv.works Within.get) fun w => .ite (fun _ => inv.works (Within.pure _)) fun _ => ?_
  cases w.self.pc.hQue with
  | cons pp rest => exact .ite (fun _ => inv.works (Within.pure _)) fun _ => inv.works (Within.pure _)
  | nil =>
      refine .ite (fun _ => inv.works (Within.pure _)) fun _ => ?_
      exact .bind (Q := fun _ => I) (fun _ hw => inv.pushed hw) fun _ => inv.works (Within.pure _)

theorem readHeaderHandle (inv : Invariant A I) (calm : Calms A)
    (reply : ∀ b c rows, A b (.reply c rows)) (err : ErrorCode) (ret : Bool) :
    Kept I (readHeaderHandle lib err ret) := by
  refine .bind (inv.works (when_works (errorHandle_works err))) fun _ => ?_
  refine .bind (inv.decodeHader err ret) fun accepted => .ite (fun _ => ?_) fun _ => ?_
  · exact inv.readHandle lib calm reply (inv.taskEnd lib calm reply) err
  · exact inv.sessionTask lib calm reply (inv.taskEnd lib calm reply) err

end Invariant

/-! ## Invariants of all steps -/

/-- What every basic step keeps, and what happens around the handlers. -/
structure Lasting (I : World σ → Prop) : Prop where
  extended : ∀ {w t}, I w → Extends (fun _ _ => True) w t → I t
  popped : ∀ {w}, I w → I w.pop
  pushed : ∀ {w h}, I w → I (w.push h)
  dispatched : ∀ {w h}, I w → I (w.dispatched h)
  starts : ∀ {w e handler}, I w → I ((w.logged e).started handler)
  completing : ∀ {w index op socket}, I w → I (w.completing index op socket)
  received : ∀ {w got}, I w → I { w with self := w.self.receiveHeader got }
  filled : ∀ {w got}, I w → I { w with self := w.self.receivePayload got }
  stopped : ∀ {w e}, I w → I { w with stopped := some e }

namespace Lasting

variable {I : World σ → Prop} (lib : External σ)

theorem invariant (lasting : Lasting I) : Invariant (fun _ _ => True) I :=
  ⟨lasting.extended, lasting.popped, lasting.pushed, lasting.dispatched, lasting.starts, lasting.starts,
    lasting.starts⟩

theorem complete (lasting : Lasting I) (op : Op) (err : ErrorCode) (got : List Byte) (ret : Bool) :
    Invariant.Kept I (complete lib op err got ret) := by
  have inv := lasting.invariant
  have any : Calms fun _ _ => True := fun _ _ _ => trivial
  have replies : ∀ (b : Bool) (c : ECommand) (rows : List ResultRow), True := fun _ _ _ => trivial
  have finish := inv.taskEnd lib any replies
  obtain ⟨handler, ticket⟩ := op
  cases handler with
  | readHeader =>
      refine .bind (Q := fun _ => I) (fun _ => lasting.received) fun _ => ?_
      exact inv.readHeaderHandle lib any replies err ret
  | action a =>
      refine .bind (Q := fun _ => I) (fun _ => lasting.filled) fun _ => ?_
      exact actionHandler_holds lib inv.keeps any (fun _ _ _ _ => trivial) (fun _ _ => id)
        (fun _ _ _ _ => lasting.starts) finish
  | login idpw idSize pwSize =>
      exact responseReqLogin_holds lib inv.keeps (fun _ _ => trivial) (fun _ _ => trivial)
        (fun _ _ => trivial) (fun _ _ => id) (fun _ i _ => i) fun bytes => inv.asyncWrite bytes false
  | taskEnd source => exact finish err

theorem next (lasting : Lasting I) {w t : World σ} {act : Act σ} (i : I w)
    (happens : next lib w act = some t) : I t := by
  refine step_kept i happens ?_ lasting.stopped fun c op got socket _ _ _ => ?_
  · exact fun i step => lasting.extended i (step.mono fun _ _ => False.elim)
  · exact (lasting.complete lib op c.err got c.ret).conseq (by rintro _ rfl; exact lasting.completing i)
      (fun _ _ => id) fun _ _ => id

end Lasting

end NineProject
