import NineProject.Session.Server

/-! # What a session has taken from its stream

Of a world only so much matters to what the session reads next and for which header: the
queue, the handlers of what is outstanding, the bytes still to come, the headers that were
dispatched, and whether buffers and socket are as they should be. Each operation is given
by what it does to these.
-/

namespace NineProject

open Bytes M Effect

variable {σ α : Type}

/-- The header that is dispatched. -/
def Event.dispatched : Event → List Pchd
  | .dispatch _ h => [h]
  | _ => []

structure Wire where
  queue : List Pchd
  waiting : List Handler
  input : List Byte
  dispatched : List Pchd
  hBuf : List Byte
  /-- The sizes of the memory that headers and other payloads are read into. -/
  iData : Nat
  source : Nat
  opened : Bool
  /-- No blocking write is going to fail. -/
  smooth : Bool
  /-- Somebody is logged in. -/
  user : Bool
  running : Bool
  deriving DecidableEq, Repr

def World.wire (w : World σ) : Wire where
  queue := w.self.pc.hQue
  waiting := w.pending.map Op.handler
  input := w.self.socket.input
  dispatched := w.log.flatMap Event.dispatched
  hBuf := w.self.hBuf.data
  iData := w.self.pc.iData.length
  source := w.self.source.data.length
  opened := w.self.socket.opened
  smooth := w.self.socket.writes.all Option.isNone
  user := w.self.checkManager.isSome
  running := w.stopped.isNone

namespace World

variable (w : World σ)

@[simp] theorem wire_logged (e : Event) :
    (w.logged e).wire = { w.wire with dispatched := w.wire.dispatched ++ e.dispatched } := by
  simp [wire, logged]

@[simp] theorem wire_started (handler : Handler) :
    (w.started handler).wire = { w.wire with waiting := w.wire.waiting ++ [handler] } := by
  simp [wire, started]

@[simp] theorem wire_dispatched (h : Pchd) :
    (w.dispatched h).wire = { w.wire with dispatched := w.wire.dispatched ++ [h] } := by
  simp [wire, dispatched, Event.dispatched]

@[simp] theorem wire_push (h : Pchd) : (w.push h).wire = { w.wire with queue := w.wire.queue ++ [h] } := by
  simp [wire, push, Event.dispatched]

@[simp] theorem wire_pop : w.pop.wire = { w.wire with queue := w.wire.queue.tail } := by
  simp [wire, pop, Event.dispatched]

@[simp] theorem wire_consume (n : Nat) : (w.consume n).wire = { w.wire with input := w.wire.input.drop n } := rfl

theorem wire_touchSource {f : PBuffer → PBuffer} (same : (f w.self.source).data.length = w.self.source.data.length) :
    (w.touchSource f).wire = w.wire := by
  simp [wire, touchSource, Event.dispatched, same]

@[simp] theorem wire_ran (call : QrCall) (r : Sql.Ran σ Fault α) : (w.ran call r).wire = w.wire := by
  have silent : (r.executed.map (Event.exec call)).flatMap Event.dispatched = [] := by
    simp [List.flatMap_map, Event.dispatched]
  simp only [wire, ran, List.flatMap_append, silent, List.append_nil]

@[simp] theorem wire_notify (user : Str) (task : Nat) : (w.notify user task).wire = w.wire := by
  unfold notify
  split
  · simp [wire, Event.dispatched]
  · rfl

theorem wire_notifyAll (users : List Str) (task : Nat) :
    (users.foldl (fun w user => w.notify user task) w).wire = w.wire := by
  induction users generalizing w with
  | nil => rfl
  | cons user rest ih => exact (ih _).trans (wire_notify w user task)

@[simp] theorem wire_ended : w.ended.wire = { w.wire with queue := w.wire.queue.tail } := by
  rw [ended, wire_touchSource _ rfl, wire_pop]

@[simp] theorem wire_waits : w.waits.wire = { w.wire with waiting := w.wire.waiting ++ [.readHeader] } := by
  simp [waits, Event.dispatched]

theorem wire_login (list : Vector Int 10) (user : Str) :
    (World.login { w with self := { w.self with checkManager := some list, userName := user } } user).wire =
      { w.wire with user := true } := rfl

/-- A check of the mail box takes nothing from the stream. -/
theorem wire_checked (pointer : Nat) (flags : NotificationArr) (renewed : Bool) (kinds : List (Nat × Nat × ECommand)) :
    (w.checked pointer flags renewed kinds).wire = w.wire := rfl

/-- On an open socket a write succeeds where none is going to fail, and the next ones will. -/
theorem wire_writing {w : World σ} (opened : w.wire.opened = true) (smooth : w.wire.smooth = true)
    (bytes : List Byte) : (w.writing bytes).1 = none ∧ (w.writing bytes).2.wire = w.wire := by
  have open_ : w.self.socket.opened = true := opened
  have good : w.self.socket.writes.all Option.isNone = true := smooth
  have next : w.self.socket.writes.head?.join = none := by
    cases writes : w.self.socket.writes with
    | nil => rfl
    | cons first rest =>
        rw [writes, List.all_cons, Bool.and_eq_true] at good
        simpa using good.1
  have later : w.self.socket.writes.tail.all Option.isNone = true :=
    List.all_eq_true.mpr fun e member => List.all_eq_true.mp good e (List.mem_of_mem_tail member)
  by_cases empty : bytes = []
  · simp [writing, empty]
  · simp [writing, empty, open_, next, wire, logged, Event.dispatched, good, later]

end World

/-! ## Reading what is there -/

theorem sizeT_length {n : Nat} (int : n < 2 ^ 31) : sizeT n = n := by
  simp only [sizeT]
  omega

/-- A blocking read of bytes that are there, into memory that holds them. -/
theorem read_there {w : World σ} {dest : Dest} {allocated : Nat} {bytes rest : List Byte}
    (int : bytes.length < 2 ^ 31) (room : bytes.length ≤ allocated) (opened : w.self.socket.opened = true)
    (input : w.self.socket.input = bytes ++ rest) :
    M.read dest bytes.length allocated w =
      .ok bytes ((w.logged (.read dest bytes.length allocated)).consume bytes.length) := by
  have size := sizeT_length int
  have there : bytes.length ≤ (bytes ++ rest).length := by
    rw [List.length_append]
    omega
  have inside : ¬ allocated < min bytes.length (bytes ++ rest).length := by omega
  rw [read_eq]
  simp only [size, opened, Bool.true_eq_false, if_false, input, if_neg inside, if_pos there, List.take_left]
  split
  · next nothing =>
      cases List.length_eq_zero_iff.mp nothing
      rfl
  · rfl

/-- The payload of a request comes into `source_` and out of it as it is. -/
theorem readSource_there {w : World σ} {bytes rest : List Byte} (opened : w.wire.opened = true)
    (input : w.wire.input = bytes ++ rest) (room : bytes.length ≤ w.wire.source) (int : bytes.length < 2 ^ 31) :
    Returns (readSource bytes.length) w fun text t =>
      text = bytes ∧ t.db = w.db ∧ t.self.userName = w.self.userName ∧ t.wire = { w.wire with input := rest } := by
  let u := w.touchSource fun source => source.nsrc bytes.length
  have read : M.read .source bytes.length u.self.source.data.length u = _ :=
    read_there int room opened input
  let v := (u.logged (.read .source bytes.length u.self.source.data.length)).consume bytes.length
  have text : (v.self.source.receive bytes).toString = .ok bytes := by
    have inside : (poke w.self.source.data (0 : Nat) bytes).take bytes.length = bytes := by
      have copy : ((poke w.self.source.data (0 : Nat) bytes).drop 0).take bytes.length = bytes :=
        poke_inside (by rw [Nat.zero_add]; exact room)
      exact copy
    simp only [PBuffer.toString, PBuffer.receive, v, u, World.consume, World.logged, World.touchSource, PBuffer.nsrc]
    rw [if_neg (by omega), Int.toNat_natCast]
    exact congrArg Except.ok inside
  simp only [readSource, returns_bind, returns_touchSource, returns_get]
  refine (returns_of_eq read).mpr ((returns_lift).mpr ⟨bytes, text, rfl, rfl, rfl, ?_⟩)
  rw [World.wire_touchSource _ (by simp [PBuffer.receive]), World.wire_consume, World.wire_logged,
    World.wire_touchSource _ rfl, input]
  simp [Event.dispatched]

end NineProject
