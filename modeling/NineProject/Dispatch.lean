import NineProject.Readable
import NineProject.Session.Returns

/-! # Headers that dispatch does not know

`Command` and `Action` compare the code of a header with those they have handlers
for, and fall through where none fits: an action with another code starts nothing,
and the header stays in front of the queue for good. A command with another code has
indexed the check list at -1 before.
-/

namespace NineProject

open Bytes M Effect Sql

variable {σ : Type}

/-- Something is outstanding, the header's task has ended, or the socket is closed. -/
def Left (w t : World σ) : Prop :=
  t.pending ≠ [] ∨ w.popped < t.popped ∨ t.self.socket.opened = false

instance (w t : World σ) : Decidable (Left w t) := inferInstanceAs (Decidable (_ ∨ _ ∨ _))

/-- Dispatch was defined, and left the session with something to do. -/
def Served (w t : World σ) : Prop := t.stopped = none ∧ Left w t

instance (w t : World σ) : Decidable (Served w t) := inferInstanceAs (Decidable (_ ∧ _))

section
variable (lib : External σ)

/-- The header of the reply can be written. -/
def World.CanWrite (w : World σ) : Prop := w.self.socket.writes.head?.join = none

/-- The rows the command asks for can be read, and there is room for what is made of them;
    of requests to connect none may be found. Where the handler writes its header at once,
    that write succeeds. -/
def Answers (w : World σ) (list : Vector Int 10) : ECommand → Prop
  | .getMsg => MessagesReadable lib w.db w.self.source w.self.userName (list.toArray.getD 0 0) ∧ w.CanWrite
  | .getIvt => ∃ p, replyBuffer = .ok p ∧ InvitesReadable lib.engine w.db p w.self.userName
  | .getConnection => (lib.engine.exec w.db (requestsText w.self.userName (list.toArray.getD 2 0))).2 = []
  | .getFriendList => FriendsReadable lib.engine w.db w.self.userName ∧ w.CanWrite

/-- The header has a handler, which gets as far as its reply; for an action it is enough
    that another operation is outstanding. -/
def Dispatchable (w : World σ) (list : Vector Int 10) (index : Nat) (h : Pchd) : Prop :=
  if isCommand h then ∃ c ∈ ECommand.ofCode h.comd, Answers lib w list c
  else (EAction.ofCode h.comd).isSome ∨ w.pending.eraseIdx index ≠ []

/-! ## Handlers -/

/-- A world in which the header in front is being handled. -/
structure Handling (w : World σ) (list : Vector Int 10) (h : Pchd) : Prop where
  queue : w.self.pc.hQue = [h]
  manager : w.self.checkManager = some list
  opened : w.self.socket.opened = true

variable {lib} {w v : World σ} {list : Vector Int 10} {h : Pchd}

theorem fetched_replied {entry : PBuffer × Int → ResultRow → Except Fault (PBuffer × Int)}
    (entries : ∀ got row got', HeaderKept got.1 → entry got row = .ok got' → HeaderKept got'.1)
    {text : Str} {header : Fetched → List Byte} {P : PBuffer → Fetched → PBuffer → Prop}
    (post : ∀ p f q, P p f q) :
    (∃ p, replyBuffer = .ok p ∧ ∃ f, ((Qr.fetch text entry p).run lib.engine w.db).result = .ok f ∧
      ∃ q, f.buf.allocateWithTag headerTag (header f) = .ok q ∧ P p f q) ↔
    ∃ p, replyBuffer = .ok p ∧ (Qr.fetch text entry p).Ends lib.engine w.db := by
  constructor
  · rintro ⟨p, made, f, fetched, -⟩
    exact ⟨p, made, f, fetched⟩
  · rintro ⟨p, made, f, fetched⟩
    obtain ⟨q, filled⟩ := (fetch_kept entries (replyBuffer_kept made) fetched).filled (header f)
    exact ⟨p, made, f, fetched, q, filled, post p f q⟩

theorem replied_left (c : ECommand) (rows : List ResultRow) (bytes : List Byte) :
    Left w (v.replied c rows bytes) := .inl (by simp [World.replied, World.started])

theorem getNewIvt_left (handling : Handling v list h) :
    Returns (responseReqGetNewIvt lib none) v (fun _ => Left w) ↔ Answers lib v list .getIvt := by
  have entries : ∀ got row got', HeaderKept got.1 → Qr.inviteEntry lib got row = .ok got' →
      HeaderKept got'.1 := fun _ _ _ => inviteEntry_kept
  simp only [Answers, ← getNewIvtReq_ends]
  rw [returns_getNewIvt lib handling.queue handling.manager]
  exact fetched_replied entries fun p f q => replied_left _ _ _

theorem getNewConc_left (handling : Handling v list h) :
    Returns (responseReqGetNewConc lib none) v (fun _ => Left w) ↔
      Answers lib v list .getConnection := by
  have entries : ∀ got row got', HeaderKept got.1 → Qr.connectionEntry lib got row = .ok got' →
      HeaderKept got'.1 := fun _ _ _ _ => connectionEntry_kept
  rw [returns_getNewConc lib handling.manager]
  refine (fetched_replied entries fun p f q => replied_left _ _ _).trans ?_
  obtain ⟨p, made⟩ := replyBuffer_ends
  simp only [made, Except.ok.injEq, exists_eq_left']
  exact getNewConnectionReq_ends

theorem header_written (h : Pchd) : h.toBytes ≠ [] := by
  intro none_
  have size := Pchd.toBytes_length h
  rw [none_] at size
  cases size

/-- The header goes out when the next blocking write succeeds. -/
theorem header_goes {u : World σ} (opened : v.self.socket.opened = true)
    (same : u.self.socket = v.self.socket) (h : Pchd) : (u.writing h.toBytes).1 = none ↔ v.CanWrite := by
  rw [writing_none_iff (header_written h) (same ▸ opened), same]
  rfl

theorem friendList_left (handling : Handling v list h) (older : w.popped ≤ v.popped) :
    Returns (rgetFriendList lib (taskEnd lib)) v (fun _ => Left w) ↔
      Answers lib v list .getFriendList := by
  rw [returns_getFriendList, Answers, ← getFriendList_ends]
  constructor
  · rintro ⟨got, fetched, wrote, -⟩
    exact ⟨⟨got, fetched⟩, (header_goes handling.opened (by rfl) _).mp wrote⟩
  · rintro ⟨⟨got, fetched⟩, can⟩
    refine ⟨got, fetched, (header_goes handling.opened (by rfl) _).mpr can, ?_⟩
    refine (sendFriends_extends (A := fun _ _ => True) (fun _ _ => trivial) _ _ _).mono
      fun ell t step => ?_
    have ran : Extends (fun _ _ => True) v
        (v.ran .getFriendList ((Qr.getFriendList v.self.userName).run lib.engine v.db)) :=
      Extends.ran (fun _ _ => trivial) v _
    have here := (ran.trans (writing_extends (fun _ _ => trivial) _ _)).trans
      ((Extends.logged _ trivial).trans step)
    have queue : t.self.pc.hQue = [h] := (congrArg Packer.hQue here.pc).trans handling.queue
    refine (taskEnd_pops lib queue ell).mono fun _ u popped => .inr (.inl ?_)
    rw [popped, here.popped]
    exact Nat.lt_succ_of_le older

/-- What `rget_new_message` does behind its blocking write. -/
theorem getMsg_ends (handling : Handling v list h) {u : World σ} (same : u.self.pc = v.self.pc)
    (header bytes : List Byte) (e : Event) {f : Session → Session} (pc : ∀ s, (f s).pc = s.pc) :
    Returns (asyncWrite bytes true) ((u.writing header).2.logged e) fun _ t =>
      Returns (setSelf f) t fun _ t => Returns (taskEnd lib none) t fun _ => Left w := by
  have kept := (writing_extends (A := fun _ _ => True) (fun _ _ => trivial) u header).pc
  have queue : (u.writing header).2.self.pc.hQue = [h] := by rw [kept, same, handling.queue]
  rw [returns_asyncWrite, returns_setSelf, returns_taskEnd lib (by rw [pc]; exact queue)]
  exact .inl (by simp [World.waits, World.started])

theorem getMsg_left (handling : Handling v list h) :
    Returns (rgetNewMessage lib (taskEnd lib) none) v (fun _ => Left w) ↔
      Answers lib v list .getMsg := by
  simp only [Answers, ← getNewMessage_ends]
  simp only [rgetNewMessage, returns_bind, returns_checkManagerAt handling.manager, returns_get,
    returns_runQuery, returns_when, returns_touchSource, returns_writeOrThrow, returns_emit]
  constructor
  · rintro ⟨-, f, fetched, wrote⟩
    refine ⟨⟨f, fetched⟩, ?_⟩
    split at wrote
    · exact (header_goes handling.opened (by rfl) _).mp wrote.1
    · exact (header_goes handling.opened (by rfl) _).mp wrote.1
  · rintro ⟨⟨f, fetched⟩, can⟩
    refine ⟨by decide, f, fetched, ?_⟩
    split
    · exact ⟨(header_goes handling.opened (by rfl) _).mpr can,
        getMsg_ends handling (by rfl) _ _ _ fun _ => rfl⟩
    · exact ⟨(header_goes handling.opened (by rfl) _).mpr can,
        getMsg_ends handling (by rfl) _ _ _ fun _ => rfl⟩

theorem commandHandler_left (handling : Handling v list h) (older : w.popped ≤ v.popped)
    (c : ECommand) : Returns (commandHandler lib (taskEnd lib) none c) v (fun _ => Left w) ↔
      Answers lib v list c := by
  cases c with
  | getMsg => exact getMsg_left handling
  | getIvt => exact getNewIvt_left handling
  | getConnection => exact getNewConc_left handling
  | getFriendList => exact friendList_left handling older

/-! ## Dispatch -/

theorem checkListIndex_inside_iff (comd : Int) :
    (0 ≤ commandNumberToCheckListIndex comd ∧ commandNumberToCheckListIndex comd < 10) ↔
      (ECommand.ofCode comd).isSome := by
  unfold commandNumberToCheckListIndex ECommand.ofCode
  split_ifs <;> simp

theorem readHandle_left (handling : Handling v list h) (older : v.popped = w.popped) :
    Returns (readHandle lib (taskEnd lib) none) v (fun _ => Left w) ↔
      if isCommand h then ∃ c ∈ ECommand.ofCode h.comd, Answers lib v list c
      else (EAction.ofCode h.comd).isSome ∨ v.pending ≠ [] := by
  have queue : (v.dispatched h).self.pc.hQue = [h] := handling.queue
  have dispatched : Handling (v.dispatched h) list h := ⟨queue, handling.manager, handling.opened⟩
  simp only [readHandle, returns_bind, returns_front handling.queue, returns_dispatch, returns_ite]
  split
  · simp only [command, returns_bind, returns_front queue,
      returns_checkManagerAt dispatched.manager, checkListIndex_inside_iff]
    cases ECommand.ofCode h.comd with
    | none => simp
    | some c =>
        simp only [Option.isSome_some, true_and, Option.mem_def, Option.some.injEq, exists_eq_left']
        rw [commandHandler_left dispatched (le_of_eq older.symm)]
        cases c <;> rfl
  · simp only [action, returns_bind, returns_front queue]
    cases EAction.ofCode h.comd with
    | some a => simp [Left, World.started]
    | none =>
        have opened : v.self.socket.opened = true := handling.opened
        simp [Left, World.dispatched, older, opened]

/-! ## The header that arrives -/

/-- No handler marks its own world as stopped. -/
theorem going_invariant : Invariant (fun _ _ => True) fun w : World σ => w.stopped = none where
  extended := fun going step => step.stopped.trans going
  popped := id
  pushed := id
  dispatched := id
  header := id
  payload := id
  written := id

theorem served_exec {m : M σ Unit} (going : Invariant.Kept (fun w : World σ => w.stopped = none) m)
    (start : v.stopped = none) : Served w (v.exec m) ↔ Returns m v fun _ => Left w := by
  have run := going v start
  unfold World.exec Returns Served
  cases result : m v with
  | ok a t =>
      rw [result] at run
      simp [show t.stopped = none from run]
  | error e t => simp

/-- `v` is `w` with the header read at `index` done and its header taken up. -/
structure TakenUp (w : World σ) (index : Nat) (h : Pchd) (v : World σ) : Prop where
  queue : v.self.pc.hQue = [h]
  opened : v.self.socket.opened = w.self.socket.opened
  writes : v.self.socket.writes = w.self.socket.writes
  userName : v.self.userName = w.self.userName
  checkManager : v.self.checkManager = w.self.checkManager
  source : v.self.source = w.self.source
  db : v.db = w.db
  pending : v.pending = w.pending.eraseIdx index
  popped : v.popped = w.popped
  running : v.stopped = none

theorem TakenUp.answers {index : Nat} (taken : TakenUp w index h v) (c : ECommand) :
    Answers lib v list c ↔ Answers lib w list c := by
  cases c <;> simp only [Answers, World.CanWrite, taken.writes, taken.userName, taken.source, taken.db]

/-- A header read that brings an accepted header goes straight to dispatch. -/
theorem headerRead_exec {t : World σ} {c : Completion} (reachable : w.Reachable lib)
    (arrives : h ∈ w.arriving (.complete c)) (accepted : h.Accepted)
    (step : next lib w (.complete c) = some t) :
    ∃ v, TakenUp w c.index h v ∧ t = v.exec (readHandle lib (taskEnd lib) none) := by
  obtain ⟨running, op, got, socket, found, moved, rfl⟩ := next_eq_some step
  obtain ⟨index, err, n, ret⟩ := c
  obtain ⟨handler, ticket⟩ := op
  cases err with
  | some f => cases arrives
  | none =>
      simp only [World.arriving, found, Option.any_some, decide_eq_true_eq] at arrives
      split at arrives
      · next header =>
          cases header
          have came := Option.mem_some.mp arrives
          have empty := reachable.empty found
          simp only [transfer] at moved
          split at moved
          · cases moved
            let u : World σ := w.completing index ⟨.readHeader, ticket⟩
              { w.self.socket with input := w.self.socket.input.drop (sizeT Handler.readHeader.asked) }
            let v : World σ := { u with self := u.self.receiveHeader (w.self.socket.input.take Pchd.size) }
            have taken : readHeaderHandle lib none ret v =
                readHandle lib (taskEnd lib) none (v.push h) :=
              readHeaderHandle_takes lib (w := v) empty came accepted ret
            refine ⟨v.push h, ⟨by simp [World.push, v, u, World.completing, Session.receiveHeader, empty],
              rfl, rfl, rfl, rfl, rfl, rfl, rfl, rfl, running⟩, ?_⟩
            exact exec_congr taken
          · cases moved
      · cases arrives

/-- In a reachable state of a user's open session, an accepted header is served exactly
    when it has a handler and the handler gets as far as its reply. -/
theorem header_served_iff {t : World σ} {c : Completion} (reachable : w.Reachable lib)
    (user : w.self.checkManager = some list) (opened : w.self.socket.opened = true)
    (arrives : h ∈ w.arriving (.complete c)) (accepted : h.Accepted)
    (step : next lib w (.complete c) = some t) : Served w t ↔ Dispatchable lib w list c.index h := by
  obtain ⟨v, taken, rfl⟩ := headerRead_exec reachable arrives accepted step
  have inv := going_invariant (σ := σ)
  have going := inv.readHandle lib (fun _ _ _ => trivial) (fun _ _ _ => trivial)
    (inv.taskEnd lib (fun _ _ _ => trivial) fun _ _ _ => trivial) none
  have handling : Handling v list h :=
    ⟨taken.queue, taken.checkManager.trans user, taken.opened.trans opened⟩
  rw [served_exec going taken.running, readHandle_left handling taken.popped, taken.pending]
  simp only [taken.answers]
  rfl

end

/-- Ann's session has read a header that asks for something. -/
structure Asked (h : Pchd) (w : World Memory) : Prop where
  user : w.self.checkManager = some (Vector.replicate 10 0)
  opened : w.self.socket.opened = true
  arrives : w.arriving .first = some h
  step : (next memoryServer w .first).isSome

instance (h : Pchd) (w : World Memory) : Decidable (Asked h w) :=
  decidable_of_iff (_ ∧ _ ∧ _ ∧ _) ⟨fun ⟨a, b, c, d⟩ => ⟨a, b, c, d⟩, fun ⟨a, b, c, d⟩ => ⟨a, b, c, d⟩⟩

def askedIvt : Pchd := { Pchd.empty with actionOrCommand := 1, comd := ECommand.getIvt.code }

theorem header_served_ivt : ∃ w t, World.Reachable memoryServer w ∧
    (Served w t ↔ Dispatchable memoryServer w (Vector.replicate 10 0) 0 askedIvt) := by
  obtain ⟨w, reachable, asked⟩ := annArrives_reachable (request 1 ECommand.getIvt.code)
    (P := Asked askedIvt) (by decide +kernel)
  obtain ⟨t, step⟩ := Option.isSome_iff_exists.mp asked.step
  exact ⟨w, t, reachable, header_served_iff reachable asked.user asked.opened
    asked.arrives (by decide) step⟩

/-- An action with a code that has no handler. -/
def askedNothing : Pchd := { Pchd.empty with actionOrCommand := 0, comd := 99 }

/-- Ann's session stays open with nothing to do. -/
theorem header_dropped :
    ¬ ∀ (w t : World Memory) (h : Pchd), World.Reachable memoryServer w →
      w.self.checkManager.isSome → w.self.socket.opened = true → w.arriving .first = some h →
      h.Accepted → next memoryServer w .first = some t → Served w t := by
  intro served
  obtain ⟨w, reachable, asked, left⟩ := annArrives_reachable (request 0 99)
    (P := fun w => Asked askedNothing w ∧ (next memoryServer w .first).any fun t => ¬ Served w t)
    (by decide +kernel)
  obtain ⟨t, step, unserved⟩ := (Option.any_eq_true _ _).mp left
  exact of_decide_eq_true unserved
    (served w t askedNothing reachable (by simp [asked.user]) asked.opened asked.arrives (by decide) step)

end NineProject
