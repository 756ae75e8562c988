import NineProject.Isolation
import NineProject.Serving

/-! # Requests one at a time

A session takes a request in pieces, and between two of them the other sessions go on. All
that can be seen of it happens in one of the pieces: a command is served when its header
arrives, a login when the id and the password do, and any other request when its record
does. So a run of the server is seen as a run of the office, in which requests are served
whole, one at a time, and those of one client in the order in which they were sent.
-/

namespace NineProject

open Bytes M Effect Sql

variable {σ : Type}

/-! ## When a request is served -/

/-- The requests of a session that were served, as its wire shows. -/
def Wire.settled (u : Wire) : Nat :=
  match u.waiting with
  | [.action _] | [.login _ _ _] => u.dispatched.length - 1
  | _ => u.dispatched.length

/-- A session that is sent these requests, as it is seen. -/
def World.shown (rs : List Sent) (w : World σ) : Service σ := w.service (rs.drop w.wire.settled)

/-- The handler of a completed operation serves a request. -/
def Handler.settles (input : List Byte) : Handler → Bool
  | .readHeader => (Pchd.ofBytes (input.take Pchd.size)).commanded.isSome
  | .action .reqLog => false
  | .action _ => true
  | .login _ _ _ => true
  | .taskEnd _ => false

def World.settles (w : World σ) (c : Completion) : Bool :=
  (w.pending[c.index]?).any fun op => op.handler.settles w.self.socket.input

section
variable {lib : External σ} {w : World σ} {rest : List Byte} {rs : List Sent}

/-! ## The pieces of a request -/

/-- A header has arrived and is in the queue. -/
def World.headed (w : World σ) (ticket : Nat) (r : Sent) (rest : List Byte) : World σ :=
  let u := w.completing 0 ⟨.readHeader, ticket⟩ { w.self.socket with input := rest }
  World.push { u with self := u.self.receiveHeader r.header } r.pchd

theorem World.headed_unseen (w : World σ) (ticket : Nat) (r : Sent) (rest : List Byte) :
    Unseen w (w.headed ticket r rest) := by
  intro todo
  simp [World.service, World.headed, World.push, World.completing, Session.receiveHeader, sent_concat]

theorem World.headed_wire {ticket : Nat} (alone : w.pending = [⟨.readHeader, ticket⟩]) (r : Sent) (rest : List Byte) :
    (w.headed ticket r rest).wire = { w.wire with queue := w.wire.queue ++ [r.pchd], waiting := [], input := rest } := by
  have received : ∀ u : World σ, World.wire { u with self := u.self.receiveHeader r.header } = u.wire := fun u => by
    simp [World.wire, Session.receiveHeader]
  rw [World.headed, World.wire_push, received, wire_completing alone]

theorem header_reads {r : Sent} {ticket n : Nat} {ret : Bool} (fits : w.wire.Fits) (wellFormed : r.WellFormed)
    (queue : w.wire.queue = []) (alone : w.pending = [⟨.readHeader, ticket⟩])
    (input : w.wire.input = r.header ++ rest) : next lib w (.complete ⟨0, none, n, ret⟩) =
      some ((w.headed ticket r rest).exec (readHandle lib (taskEnd lib) none)) := by
  refine (next_reads fits.stopped alone (by simp) (by rw [wellFormed.size]; rfl)
    (by rw [wellFormed.size]; decide) input).trans ?_
  have room : Pchd.size ≤ w.self.pc.iData.length := by
    rw [show w.self.pc.iData.length = 1024 from fits.iData]
    decide
  let u := w.completing 0 ⟨.readHeader, ticket⟩ { w.self.socket with input := rest }
  let v : World σ := { u with self := u.self.receiveHeader r.header }
  have arrived : Pchd.ofBytes v.self.pc.iData = r.pchd := received_record Pchd.ofBytes_take wellFormed.size room
  exact congrArg some (exec_congr (readHeaderHandle_takes lib (w := v) queue arrived wellFormed.accepted ret))

theorem shown_served {served todo : List Sent} (settled : w.wire.settled = served.length) :
    w.shown (served ++ todo) = w.service todo := by
  rw [World.shown, settled, List.drop_left]

/-- Behind the request that is in work. -/
theorem shown_serving {served todo : List Sent} {r : Sent} (settled : w.wire.settled = served.length + 1) :
    w.shown (served ++ r :: todo) = w.service todo := by
  have split : served ++ r :: todo = (served ++ [r]) ++ todo := by simp
  rw [split]
  exact shown_served (by simpa using settled)

theorem next_service {r : Sent} {todo : List Sent} {t : World σ}
    (serves : (serve lib r).run (w.service todo) = some ((), t.service todo)) :
    (w.service (r :: todo)).next lib = some (t.service todo) := by
  have same : Service.next lib (w.service (r :: todo)) = ((serve lib r).run (w.service todo)).map Prod.snd := rfl
  rw [same, serves]
  rfl

/-- A completed operation is seen as the service of the next request, or not at all. -/
def ShowsService (lib : External σ) (rs : List Sent) (w : World σ) (c : Completion) (t : World σ) : Prop :=
  (if w.settles c then (w.shown rs).next lib else some (w.shown rs)) = some (t.shown rs)

theorem exec_of_ran {m : M σ Unit} {t : World σ} (ran : m w = .ok () t) : w.exec m = t := by
  rw [World.exec, ran]

theorem action_unseen {te : ErrorCode → M σ Unit} {h : Pchd} {a : EAction} (queue : w.self.pc.hQue = [h])
    (acted : h.acted = some a) : IfReturns (readHandle lib te none) w fun _ t => Unseen w t := by
  have dispatched : Unseen w (w.dispatched h) := fun todo => by
    simp [World.service, World.dispatched, sent_concat]
  unfold Pchd.acted at acted
  split at acted
  · cases acted
  · next plain =>
      refine ifReturns_bind.mpr (ifReturns_front.mpr fun h' front => ?_)
      obtain rfl : h = h' := by simpa [queue] using front
      refine ifReturns_bind.mpr (ifReturns_modify.mpr ?_)
      rw [if_neg plain]
      refine ifReturns_bind.mpr (ifReturns_front.mpr fun h' front => ?_)
      obtain rfl : h = h' := by simpa [World.dispatched, queue] using front
      simp only [acted]
      refine ifReturns_modify.mpr ?_
      apply IsTrans.trans _ _ _ dispatched
      exact IsTrans.trans _ _ _ (Unseen.logged (by simp) _) (Unseen.started _ _)

/-- What a command replies with is short, where its header is next. -/
def ShortNext (lib : External σ) (w : World σ) : Prop :=
  ∀ c ∈ (Pchd.ofBytes (w.self.socket.input.take Pchd.size)).commanded, ∀ list ∈ w.self.checkManager,
    ShortReply lib w c

theorem header_shown {served todo : List Sent} {r : Sent} {n : Nat} {ret : Bool} {t : World σ} (fits : w.wire.Fits)
    (wellFormed : r.WellFormed) (opens : served = [] → r.payload.action = some .reqLog) (queue : w.wire.queue = [])
    (waiting : w.wire.waiting = [.readHeader]) (input : w.wire.input = stream (r :: todo))
    (dispatched : w.wire.dispatched = served.map Sent.pchd) (user : served ≠ [] → w.wire.user = true)
    (answered : Answered lib w .readHeader) (short : ShortNext lib w)
    (step : next lib w (.complete ⟨0, none, n, ret⟩) = some t) :
    ShowsService lib (served ++ r :: todo) w ⟨0, none, n, ret⟩ t := by
  obtain ⟨ticket, alone⟩ := pending_one waiting
  have front : w.self.socket.input = r.header ++ (r.payload.record ++ (r.payload.announced ++ stream todo)) := by
    apply Eq.trans input
    simp only [stream, List.flatMap_cons, Sent.bytes, List.append_assoc]
  have bytes : w.self.socket.input.take Pchd.size = r.header := by rw [front, ← wellFormed.size, List.take_left]
  have settles : w.settles ⟨0, none, n, ret⟩ = r.payload.commanded.isSome := by
    have commanded : (Pchd.ofBytes r.header).commanded = r.payload.commanded := wellFormed.command
    simp [World.settles, alone, Handler.settles, bytes, commanded]
  have before : w.shown (served ++ r :: todo) = w.service (r :: todo) :=
    shown_served (by simp [Wire.settled, waiting, dispatched])
  rw [header_reads fits wellFormed queue alone front] at step
  have wire := World.headed_wire alone r (r.payload.record ++ (r.payload.announced ++ stream todo))
  have unseen := w.headed_unseen ticket r (r.payload.record ++ (r.payload.announced ++ stream todo))
  have answers : ∀ list c, c ≠ .getMsg → Answers lib w list c → Answers lib (w.headed ticket r
      (r.payload.record ++ (r.payload.announced ++ stream todo))) list c := fun list c other answers => by
    cases c with
    | getMsg => exact absurd rfl other
    | getIvt | getConnection | getFriendList => exact answers
  have brief : ∀ c, ShortReply lib w c → ShortReply lib (w.headed ticket r
      (r.payload.record ++ (r.payload.announced ++ stream todo))) c := fun c brief => by
    cases c <;> exact brief
  generalize w.headed ticket r _ = x at step wire unseen answers brief
  have one : x.self.pc.hQue = [r.pchd] := by
    have queued := congrArg Wire.queue wire
    rwa [queue] at queued
  rw [ShowsService, settles, before]
  cases action : r.payload.action with
  | some a =>
      have acted : r.pchd.acted = some a := wellFormed.action.trans action
      have reads : Returns (readHandle lib (taskEnd lib) none) x _ := action_dispatched one acted
      obtain ⟨_, t', ran, left⟩ := reads
      rw [exec_of_ran ran] at step
      cases step
      have idle : r.payload.commanded = none := by
        cases payload : r.payload with
        | command c => simp [payload, Payload.action] at action
        | login | message | connection | invite | table => rfl
      have after : t.shown (served ++ r :: todo) = t.service (r :: todo) :=
        shown_served (by simp [left, wire, Wire.settled, dispatched])
      rw [after, action_unseen one acted _ _ ran, unseen, idle]
      rfl
  | none =>
      obtain ⟨c, payload⟩ := Payload.command_of_no_action action
      have later : served ≠ [] := fun none_ => by simp [opens none_] at action
      obtain ⟨list, manager⟩ := Option.isSome_iff_exists.mp (show w.self.checkManager.isSome = true from user later)
      have commanded : r.payload.commanded = some c := congrArg Payload.commanded payload
      have asked : r.pchd.commanded = some c := wellFormed.command.trans commanded
      have other : c ≠ .getMsg := by
        have inside := wellFormed.payload
        rwa [payload] at inside
      have known : Pchd.commanded (Pchd.ofBytes r.header) = some c := asked
      have answer : Answers lib x list c :=
        answers list c other (by simpa only [Answered, bytes, known, manager] using answered)
      have manager' : x.self.checkManager = some list := by
        have same : x.self.checkManager = w.self.checkManager := congrArg (fun s => s.toDesk.checkManager) (unseen [])
        rw [same, manager]
      have opened : x.wire.opened = true := by rw [wire]; exact fits.opened
      have smooth : x.wire.smooth = true := by rw [wire]; exact fits.smooth
      have reads : Returns (readHandle lib (taskEnd lib) none) x _ :=
        command_dispatched other opened smooth one asked manager' answer
      obtain ⟨_, t', ran, left⟩ := reads
      rw [exec_of_ran ran] at step
      cases step
      have writes : x.Writes := ⟨opened, by simpa [World.wire] using smooth⟩
      have follows : Follows (World.service todo) (readHandle lib (taskEnd lib) none) (serveCommand lib r.pchd c) x :=
        follows_command lib asked other one manager' writes
          (brief c (short c (by rw [bytes]; exact asked) list manager))
      have serves : (serve lib r).run (w.service todo) = some ((), t.service todo) := by
        rw [← unseen todo, ← follows _ _ ran, serve, payload]
      have after : t.shown (served ++ r :: todo) = t.service todo :=
        shown_serving (by cases c <;> simp [left, wire, commandReplied, Wire.settled, dispatched])
      rw [after, commanded, Option.isSome_some, if_pos rfl]
      exact next_service serves

/-- The record of a request has arrived. -/
def World.recorded (w : World σ) (op : Op) (record rest : List Byte) : World σ :=
  let u := w.completing 0 op { w.self.socket with input := rest }
  { u with self := u.self.receivePayload record }

theorem World.recorded_wire {op : Op} (alone : w.pending = [op]) (record rest : List Byte) :
    (w.recorded op record rest).wire = { w.wire with waiting := [], input := rest,
                                                     hBuf := poke w.self.hBuf.data 0 record } := by
  have received : (w.recorded op record rest).wire =
      { (w.completing 0 op { w.self.socket with input := rest }).wire with hBuf := poke w.self.hBuf.data 0 record } := rfl
  rw [received, wire_completing alone]

theorem record_reads {r : Sent} {a : EAction} {ticket n : Nat} {ret : Bool} (fits : w.wire.Fits)
    (action : r.payload.action = some a) (wellFormed : r.payload.WellFormed) (alone : w.pending = [⟨.action a, ticket⟩])
    (input : w.wire.input = r.payload.record ++ rest) : next lib w (.complete ⟨0, none, n, ret⟩) =
      some ((w.recorded ⟨.action a, ticket⟩ r.payload.record rest).exec (actionHandler lib a none)) := by
  have size := Payload.record_length action wellFormed
  refine (next_reads fits.stopped alone (by simp) (by rw [size]; rfl)
    (by rw [size]; cases a <;> decide) input).trans ?_
  exact congrArg some (exec_congr rfl)

theorem sizes_unseen : IfReturns (readIdAndPassword none) w fun _ t => Unseen w t := by
  simp only [readIdAndPassword, ifReturns_bind, ifReturns_get, Option.isNone_none, if_true, ifReturns_lift]
  intro idpw _
  refine ifReturns_modify.mpr ?_
  exact IsTrans.trans _ _ _ (Unseen.logged (by simp) w) (Unseen.started _ _)

theorem record_shown {served todo : List Sent} {r : Sent} {a : EAction} {n : Nat} {ret : Bool} {t : World σ}
    (fits : w.wire.Fits) (wellFormed : r.payload.WellFormed) (action : r.payload.action = some a)
    (queue : w.wire.queue = [r.pchd]) (waiting : w.wire.waiting = [.action a])
    (input : w.wire.input = r.payload.record ++ (r.payload.announced ++ stream todo))
    (dispatched : w.wire.dispatched = (served ++ [r]).map Sent.pchd) (answered : Answered lib w (.action a))
    (step : next lib w (.complete ⟨0, none, n, ret⟩) = some t) :
    ShowsService lib (served ++ r :: todo) w ⟨0, none, n, ret⟩ t := by
  obtain ⟨ticket, alone⟩ := pending_one waiting
  have settles : w.settles ⟨0, none, n, ret⟩ = Handler.settles w.self.socket.input (.action a) := by
    simp [World.settles, alone]
  have before : w.shown (served ++ r :: todo) = w.service (r :: todo) :=
    shown_served (by simp [Wire.settled, waiting, dispatched])
  rw [record_reads fits action wellFormed alone input] at step
  have wire := World.recorded_wire alone r.payload.record (r.payload.announced ++ stream todo)
  have unseen : Unseen w (w.recorded ⟨.action a, ticket⟩ r.payload.record (r.payload.announced ++ stream todo)) :=
    fun _ => rfl
  have db : (w.recorded ⟨.action a, ticket⟩ r.payload.record (r.payload.announced ++ stream todo)).db = w.db := rfl
  have hBuf : (w.recorded ⟨.action a, ticket⟩ r.payload.record (r.payload.announced ++ stream todo)).self.hBuf.data =
    poke w.self.hBuf.data 0 r.payload.record := rfl
  generalize w.recorded ⟨.action a, ticket⟩ r.payload.record _ = v at step wire unseen db hBuf
  have room : w.self.hBuf.data.length = Pchd.size := fits.hBuf
  have fits' : v.wire.Fits := by
    rw [wire]
    exact ⟨by simpa using room, fits.iData, fits.source, fits.opened, fits.smooth, fits.running⟩
  have front : v.wire.queue = [r.pchd] := by
    rw [wire]
    exact queue
  rw [ShowsService, settles, before]
  by_cases request : a = .reqLog
  · subst request
    obtain ⟨id, pw, payload⟩ := Payload.login_of_action action
    obtain ⟨shortId, shortPw⟩ : id.length ≤ 127 ∧ pw.length ≤ 127 := by rwa [payload] at wellFormed
    rw [payload] at hBuf
    obtain ⟨idpw, made, _, t', ran, left⟩ := sizes_take shortId shortPw hBuf (by rw [room]; decide)
    rw [exec_of_ran (show actionHandler lib .reqLog none v = _ from ran)] at step
    cases step
    have after : t.shown (served ++ r :: todo) = t.service (r :: todo) :=
      shown_served (by simp [left, wire, Wire.settled, dispatched])
    rw [after, sizes_unseen _ _ ran, unseen]
    rfl
  · have takes : Returns (recipients lib none a) v fun _ t => t.wire = { v.wire with input := stream todo } :=
      payload_takes action request wellFormed fits' room hBuf (by rw [wire]) fun record text payload => by
        rw [payload] at action wellFormed input
        cases action
        obtain ⟨size, sz, -⟩ := wellFormed
        rw [db]
        exact Answered.message (w := w) input size sz answered
    have waits : Returns (announce (recipients lib none a) a.flag (taskEnd lib none)) v fun _ t =>
        t.wire = { v.wire with queue := [], waiting := v.wire.waiting ++ [.readHeader], input := stream todo } :=
      announce_waits (u := { v.wire with input := stream todo }) front takes
    obtain ⟨_, t', ran, left⟩ := waits
    rw [← actionHandler_announces lib request none] at ran
    rw [exec_of_ran ran] at step
    cases step
    have follows : Follows (World.service todo) (actionHandler lib a none) (serve lib r) v :=
      follows_action lib action request wellFormed fits' room hBuf (by rw [wire]) front
    have after : t.shown (served ++ r :: todo) = t.service todo :=
      shown_serving (by simp [left, wire, Wire.settled, dispatched])
    have serves : (serve lib r).run (w.service todo) = some ((), t.service todo) := by
      rw [← unseen todo]
      exact follows _ _ ran
    have now : Handler.settles w.self.socket.input (.action a) = true := by
      cases a with
      | reqLog => exact absurd rfl request
      | sendMsg | requestConnection | requestInvite | requestCreateTable => rfl
    rw [after, now, if_pos rfl]
    exact next_service serves

theorem login_reads {id pw : Str} {idpw : PBuffer} {ticket n : Nat} {ret : Bool} (fits : w.wire.Fits)
    (short : id.length ≤ 127 ∧ pw.length ≤ 127) (made : PBuffer.ofSize ((id.length : Int) + pw.length) = .ok idpw)
    (alone : w.pending = [⟨.login idpw id.length pw.length, ticket⟩]) (input : w.wire.input = (id ++ pw) ++ rest) :
    next lib w (.complete ⟨0, none, n, ret⟩) = some ((w.completing 0 ⟨.login idpw id.length pw.length, ticket⟩
      { w.self.socket with input := rest }).exec (loginWith lib id pw)) := by
  have total : (id ++ pw).length = id.length + pw.length := List.length_append
  have asked : (Handler.login idpw id.length pw.length).asked = (id ++ pw).length := by
    rw [total, Handler.asked]
    push_cast
    exact wrap_of_inRange (by decide) ⟨by omega, by norm_num; omega⟩
  refine (next_reads fits.stopped alone (by simp) asked (by rw [total]; omega) input).trans ?_
  have decoded : loginArguments (idpw.receive (id ++ pw)) id.length pw.length = .ok (id, pw) := by
    have sum : ((id.length : Int) + pw.length).toNat = (id ++ pw).length := by rw [total]; omega
    have received : loginArguments (idpw.receive ((id ++ pw).take ((id.length : Int) + pw.length).toNat))
        id.length pw.length = .ok (id, pw) :=
      (loginArguments_received made (by rw [sum])).mpr ⟨by omega, by omega, by simp, by simp⟩
    rwa [sum, List.take_length] at received
  have handles : complete lib ⟨.login idpw id.length pw.length, ticket⟩ none (id ++ pw) ret = loginWith lib id pw := by
    have logs : complete lib ⟨.login idpw id.length pw.length, ticket⟩ none (id ++ pw) ret =
        responseReqLogin lib none (idpw.receive (id ++ pw)) id.length pw.length := rfl
    rw [logs, responseReqLogin_eq, decoded]
    rfl
  rw [handles]

theorem login_shown {served todo : List Sent} {r : Sent} {id pw : Str} {idpw : PBuffer} {n : Nat} {ret : Bool}
    {t : World σ} (fits : w.wire.Fits) (payload : r.payload = .login id pw)
    (short : id.length ≤ 127 ∧ pw.length ≤ 127) (made : PBuffer.ofSize ((id.length : Int) + pw.length) = .ok idpw)
    (queue : w.wire.queue = [r.pchd]) (waiting : w.wire.waiting = [.login idpw id.length pw.length])
    (input : w.wire.input = (id ++ pw) ++ stream todo) (dispatched : w.wire.dispatched = (served ++ [r]).map Sent.pchd)
    (answered : Answered lib w (.login idpw id.length pw.length))
    (admitted : FirstAccepted lib w (.login idpw id.length pw.length))
    (step : next lib w (.complete ⟨0, none, n, ret⟩) = some t) :
    ShowsService lib (served ++ r :: todo) w ⟨0, none, n, ret⟩ t := by
  obtain ⟨ticket, alone⟩ := pending_one waiting
  have settles : w.settles ⟨0, none, n, ret⟩ = true := by
    simp [World.settles, alone, Handler.settles]
  have before : w.shown (served ++ r :: todo) = w.service (r :: todo) :=
    shown_served (by simp [Wire.settled, waiting, dispatched])
  rw [login_reads fits short made alone input] at step
  let u := w.completing 0 ⟨.login idpw id.length pw.length, ticket⟩ { w.self.socket with input := stream todo }
  have wire : u.wire = { w.wire with waiting := [], input := stream todo } := wire_completing alone _
  obtain ⟨accepted, checked, listed, first⟩ := Answered.login (w := w) input answered
  have logs : Returns (loginWith lib id pw) u _ := login_takes queue checked listed (first admitted)
  obtain ⟨_, t', ran, left⟩ := logs
  rw [exec_of_ran ran] at step
  cases step
  have after : t.shown (served ++ r :: todo) = t.service todo :=
    shown_serving (by simp [left, wire, Wire.settled, dispatched])
  have serves : (serve lib r).run (w.service todo) = some ((), t.service todo) := by
    have follows : (serveLogin lib id pw).run (u.service todo) = some ((), t.service todo) :=
      follows_login lib id pw _ _ ran
    rw [serve, payload]
    exact follows
  rw [ShowsService, settles, before, after, if_pos rfl]
  exact next_service serves

/-- The end of a task is nothing to be seen. -/
theorem reply_shown {served todo : List Sent} {r : Sent} {n : Nat} {ret : Bool} {t : World σ} (fits : w.wire.Fits)
    (queue : w.wire.queue = [r.pchd]) (waiting : w.wire.waiting = [.taskEnd false])
    (dispatched : w.wire.dispatched = (served ++ [r]).map Sent.pchd)
    (step : next lib w (.complete ⟨0, none, n, ret⟩) = some t) :
    ShowsService lib (served ++ r :: todo) w ⟨0, none, n, ret⟩ t := by
  obtain ⟨ticket, alone⟩ := pending_one waiting
  have settles : w.settles ⟨0, none, n, ret⟩ = false := by
    simp [World.settles, alone, Handler.settles]
  have before : w.shown (served ++ r :: todo) = w.service todo :=
    shown_serving (by simp [Wire.settled, waiting, dispatched])
  let u := w.completing 0 ⟨.taskEnd false, ticket⟩ w.self.socket
  have wire : u.wire = { w.wire with waiting := [] } := wire_completing alone w.self.socket.input
  have ends : next lib w (.complete ⟨0, none, n, ret⟩) = some (u.exec (taskEnd lib none)) := by
    simp [next, fits.stopped, alone, transfer, complete, u]
  have ran := taskEnd_waits lib (w := u) queue
  rw [ends, exec_of_ran ran] at step
  cases step
  have left : u.ended.waits.wire = { u.wire with queue := [], waiting := [.readHeader] } := by
    rw [World.wire_waits, World.wire_ended, wire, queue]
    rfl
  have after : u.ended.waits.shown (served ++ r :: todo) = u.ended.waits.service todo :=
    shown_serving (by simp [left, wire, Wire.settled, dispatched])
  have unseen : Unseen u u.ended.waits := IsTrans.trans _ _ _ (Unseen.ended u) (Unseen.waits _)
  rw [ShowsService, settles, before, after, unseen]
  rfl

/-! ## A session -/

/-- What is replied with is short. -/
def Brief (lib : External σ) (w : World σ) : Act σ → Prop
  | .complete c => ∀ op ∈ w.pending[c.index]?, op.handler = .readHeader → ShortNext lib w
  | .checkMailBox | .others _ _ => True

instance decidableShortNext (lib : External σ) (w : World σ) : Decidable (ShortNext lib w) :=
  inferInstanceAs (Decidable (∀ c ∈ (Pchd.ofBytes (w.self.socket.input.take Pchd.size)).commanded,
    ∀ list ∈ w.self.checkManager, ShortReply lib w c))

instance (lib : External σ) (w : World σ) : (act : Act σ) → Decidable (Brief lib w act)
  | .complete c =>
      inferInstanceAs (Decidable (∀ op ∈ w.pending[c.index]?, op.handler = .readHeader → ShortNext lib w))
  | .checkMailBox | .others _ _ => .isTrue trivial

theorem InStep.shows {left : Nat} {t : World σ} {c : Completion} (wellFormed : ∀ r ∈ rs, r.WellFormed)
    (login : ∀ r ∈ rs.head?, r.payload.action = some .reqLog) (inStep : InStep rs left w)
    (unbroken : Unbroken lib w (.complete c)) (readable : Readable lib w (.complete c))
    (brief : Brief lib w (.complete c)) (step : next lib w (.complete c) = some t) : ShowsService lib rs w c t := by
  obtain ⟨fits, served, todo, rfl, reading, -⟩ := inStep
  obtain ⟨index, err, n, ret⟩ := c
  obtain ⟨smooth, accepted⟩ := unbroken
  cases smooth
  obtain ⟨handler, waiting⟩ := reading.waits_once
  obtain ⟨ticket, alone⟩ := pending_one waiting
  cases index with
  | succ i => simp [next, alone] at step
  | zero =>
      have one : ⟨handler, ticket⟩ ∈ w.pending[0]? := by simp [alone]
      cases reading with
      | header queue waiting' input dispatched user =>
          cases todo with
          | nil =>
              have rests : next lib w (.complete ⟨0, none, n, ret⟩) = none :=
                (Reading.header queue waiting' input dispatched user).rests n ret
              cases rests.symm.trans step
          | cons r todo =>
              have is : handler = .readHeader := by simpa using waiting.symm.trans waiting'
              subst is
              exact header_shown fits (wellFormed r (by simp)) (fun none_ => login r (by simp [none_])) queue waiting
                input dispatched user (readable _ one) (brief _ one rfl) step
      | @record todo r a action queue waiting' input dispatched user =>
          have is : handler = .action a := by simpa using waiting.symm.trans waiting'
          subst is
          exact record_shown fits (wellFormed r (by simp)).payload action queue waiting input dispatched
            (readable _ one) step
      | @login todo r id pw idpw payload made queue waiting' input dispatched user =>
          have is : handler = .login idpw id.length pw.length := by simpa using waiting.symm.trans waiting'
          subst is
          have short := (wellFormed r (by simp)).payload
          rw [payload] at short
          exact login_shown fits payload short made queue waiting input dispatched (readable _ one) (accepted _ one) step
      | @reply todo r queue waiting' input dispatched user =>
          exact reply_shown fits queue waiting' dispatched step

/-- A check of the mail box is seen as one. -/
theorem mailBox_shown {t : World σ} (readable : Readable lib w .checkMailBox) (running : w.stopped = none)
    (step : next lib w .checkMailBox = some t) : (collect.run (w.shown rs)).map Prod.snd = some (t.shown rs) := by
  have wire := wire_checkMailBox readable step running
  have settled : t.shown rs = t.service (rs.drop w.wire.settled) := by rw [World.shown, wire]
  rw [settled]
  have ran : w.exec checkMailBox = t := by simpa [next, running] using step
  cases on : w.self.initialized with
  | true =>
      obtain ⟨flags, found⟩ := Option.isSome_iff_exists.mp (readable on)
      obtain ⟨pointer, nf, at_⟩ := Option.bind_eq_some_iff.mp found
      obtain ⟨renewed, checked⟩ := checkMailBox_eq on nf at_
      rw [← ran, exec_of_ran checked]
      simp [collect, StateT.run, World.shown, World.service, on, nf, at_, World.checked]
  | false =>
      have idle : checkMailBox w = .ok () w := by simp [checkMailBox, bind_apply, on]
      rw [← ran, exec_of_ran idle]
      simp [collect, StateT.run, World.shown, World.service, on]

end

/-! ## A server -/

namespace Pool

variable (rs : Nat → List Sent)

/-- A server whose clients send these requests, as it is seen. -/
def office (p : Pool σ) : Office σ := ⟨p.db, p.nmap, p.sessions.mapIdx fun i l => (l.shown (rs i)).toDesk⟩

/-- What an event is seen as. -/
def turn (p : Pool σ) : PoolAct σ → Option (OfficeAct σ)
  | .handleAccept _ _ memory => some (.join memory.initialized (rs p.sessions.length))
  | .run _ | .notifyAbortConnection _ => none
  | .session i (.complete c) => if (p.sessions[i]?).any fun l => l.settles c then some (.serve i) else none
  | .session i .checkMailBox => some (.collect i)
  | .session _ (.others db nmap) => some (.others db nmap)

/-- Clients connect and send their requests, what they ask is answered, and no session is
    given back. -/
def Orderly (lib : External σ) (p : Pool σ) : PoolAct σ → Prop
  | .handleAccept i (.ok socket) _ =>
      socket.opened = true ∧ socket.input = stream (rs i) ∧ socket.writes.all Option.isNone = true
  | .handleAccept _ (.error _) _ | .run _ => True
  | .session i act => ∀ w ∈ p.world i, Unbroken lib w act ∧ Readable lib w act ∧ Brief lib w act
  | .notifyAbortConnection _ => False

instance (lib : External σ) (p : Pool σ) : (act : PoolAct σ) → Decidable (p.Orderly rs lib act)
  | .handleAccept i (.ok socket) _ => inferInstanceAs (Decidable (socket.opened = true ∧
      socket.input = stream (rs i) ∧ socket.writes.all Option.isNone = true))
  | .handleAccept _ (.error _) _ | .run _ => .isTrue trivial
  | .session i act => inferInstanceAs (Decidable (∀ w ∈ p.world i, Unbroken lib w act ∧ Readable lib w act ∧
      Brief lib w act))
  | .notifyAbortConnection _ => .isFalse id

variable {rs} {p q : Pool σ}

theorem Orderly.stays {lib : External σ} {act : PoolAct σ} (orderly : p.Orderly rs lib act) : act.Stays := by
  cases act with
  | notifyAbortConnection n => exact orderly
  | handleAccept | run | session => trivial

theorem seeing_shown (l : World σ) (s : σ × NMap) (todo : List Sent) :
    (l.seeing s).shown todo = { l.shown todo with db := s.1, nmap := s.2 } := rfl

theorem office_at {i : Nat} {l : World σ} (there : p.sessions[i]? = some l) :
    (p.office rs).at_ i = some ((l.seeing p.shared).shown (rs i)) := by
  simp [Office.at_, office, there, seeing_shown, shared]

theorem office_leave (i : Nat) (w : World σ) :
    (p.leave i w).office rs = (p.office rs).leave i (w.shown (rs i)) := by
  have desks : (p.sessions.set i w).mapIdx (fun i l => (l.shown (rs i)).toDesk) =
      (p.sessions.mapIdx fun i l => (l.shown (rs i)).toDesk).set i (w.shown (rs i)).toDesk := by
    apply List.ext_getElem?
    intro j
    simp only [List.getElem?_mapIdx, List.getElem?_set, List.length_mapIdx]
    split
    · next same =>
        subst same
        split
        · rfl
        · rfl
    · rfl
  simp only [office, leave, Office.leave, desks]
  rfl

/-- A desk that is left as it was. -/
theorem office_desk {i : Nat} {l : World σ} (there : p.sessions[i]? = some l) {s : Service σ}
    (same : s.toDesk = (l.shown (rs i)).toDesk) :
    (p.office rs).leave i s = { p.office rs with db := s.db, nmap := s.nmap } := by
  have desk : (p.office rs).desks[i]? = some s.toDesk := by simp [office, there, same]
  obtain ⟨inside, is⟩ := List.getElem?_eq_some_iff.mp desk
  simp only [Office.leave, ← is, List.set_getElem_self]

/-- What is not seen of a session changes nothing in the office. -/
theorem office_unchanged {i : Nat} {l w : World σ} (there : p.sessions[i]? = some l)
    (same : w.shown (rs i) = (l.seeing p.shared).shown (rs i)) : (p.leave i w).office rs = p.office rs := by
  have desk : ((l.seeing p.shared).shown (rs i)).toDesk = (l.shown (rs i)).toDesk := rfl
  rw [office_leave, same, office_desk there desk]
  rfl

end Pool

section
variable {lib : External σ} {rs : Nat → List Sent} {p q : Pool σ}

/-- A session that waits for its client, or has it and is to be started, or is in step with
    it. -/
def Stage (rs : Nat → List Sent) (p : Pool σ) (i : Nat) (l : World σ) : Prop :=
  Unused l ∧ ((i, none) ∈ p.posted → Client (rs i) l.self) ∨ ∃ left, InStep (rs i) left l

/-- What is known of all sessions. -/
structure Running (lib : External σ) (rs : Nat → List Sent) (p : Pool σ) : Prop where
  projects : ∀ i, ∃ done, Projects lib (fun _ _ => True) i done p
  stage : ∀ i l, p.sessions[i]? = some l → Stage rs p i l

theorem InStep.used {rs : List Sent} {left : Nat} {l : World σ} (inStep : InStep rs left l) : ¬ Unused l := by
  rintro ⟨-, -, is, -⟩
  obtain ⟨-, served, todo, -, reading, -⟩ := inStep
  obtain ⟨handler, waiting⟩ := reading.waits_once
  rw [is] at waiting
  cases waiting

theorem Unused.settled {l : World σ} (unused : Unused l) : l.wire.settled = 0 := by
  rw [unused.is]
  rfl

/-- Where a session is about to start, it has its client. -/
theorem Running.client {i : Nat} {l : World σ} (running : Running lib rs p) (there : p.sessions[i]? = some l)
    (posted : (i, none) ∈ p.posted) : Unused l ∧ Client (rs i) l.self := by
  obtain ⟨done, projects⟩ := running.projects i
  have enters : 0 < p.entering i := by
    have member : i ∈ p.posted.map Prod.fst := List.mem_map_of_mem (f := Prod.fst) posted
    exact Nat.add_pos_right _ (List.count_pos_iff.mpr member)
  rcases projects.stage l there with ⟨unused, -⟩ | ⟨-, started⟩
  · rcases running.stage i l there with ⟨-, client⟩ | ⟨left, inStep⟩
    · exact ⟨unused, client posted⟩
    · exact absurd unused inStep.used
  · omega

/-- A session that starts waits for the first header. -/
theorem Unused.started {l : World σ} (unused : Unused l) (running : l.stopped = none) (s : σ × NMap) :
    (l.seeing s).exec (sessionTask lib (taskEnd lib) none) = World.accepted lib l.self s.1 s.2 := by
  obtain ⟨-, -, is, -⟩ := unused
  rw [is, running]
  rfl

theorem Unused.waits {l : World σ} (unused : Unused l) (s : σ × NMap) :
    (l.seeing s).exec (sessionTask lib (taskEnd lib) none) = (l.seeing s).waits := by
  obtain ⟨⟨socket, initialized, renewed, iData, hBuf, source, new⟩, -, -, -⟩ := unused
  have empty : (l.seeing s).self.pc.hQue = [] := by
    have same : (l.seeing s).self = l.self := rfl
    rw [same, new]
    rfl
  exact exec_of_ran (sessionTask_waits lib empty)

theorem Unused.waits_shown {l : World σ} (unused : Unused l) (s : σ × NMap) (todo : List Sent) :
    (l.seeing s).waits.shown todo = (l.seeing s).shown todo := by
  have before : (l.seeing s).wire.settled = 0 := (unused.seeing s).settled
  have after : (l.seeing s).waits.wire.settled = 0 := by
    rw [World.wire_waits, (unused.seeing s).is]
    rfl
  rw [World.shown, World.shown, before, after, Unseen.waits]

/-- Before it is started, nothing happens to a session but a check that finds no flags. -/
theorem Unused.quiet {l w : World σ} {act : Act σ} (unused : Unused l) (readable : Readable lib l act)
    (step : next lib l act = some w) :
    act = .checkMailBox ∧ w = l ∨ ∃ db nmap, act = .others db nmap ∧ w = { l with db := db, nmap := nmap } := by
  obtain ⟨running, is⟩ := next_eq_some step
  cases act with
  | complete c =>
      have nothing := (unused.step step).2
      cases nothing
  | others db nmap => exact .inr ⟨db, nmap, rfl, is⟩
  | checkMailBox =>
      have off : l.self.initialized = false := by
        by_contra on
        have found := readable (by simpa using on)
        simp [unused.unset] at found
      have idle : checkMailBox l = .ok () l := by rw [checkMailBox_unset unused.unset, off]; rfl
      exact .inl ⟨rfl, is.trans (exec_of_ran idle)⟩

/-! ### Connections -/

theorem Running.handleAccept {j : Nat} {accepted : Except Failure Socket} {memory : Unset}
    (running : Running lib rs p) (orderly : p.Orderly rs lib (.handleAccept j accepted memory)) (waiting : j ∈ p.accepting)
    {i : Nat} {l : World σ} (there : (p.handleAccept j accepted).sessions[i]? = some l) :
    Stage rs (p.handleAccept j accepted) i l := by
  have older : ∀ (posted : List (Nat × ErrorCode)) (e : ErrorCode), (i = j → e ≠ none) →
      (i, none) ∈ posted ++ [(j, e)] → (i, none) ∈ posted := fun posted e other member => by
    rcases List.mem_append.mp member with old | new
    · exact old
    · cases List.mem_singleton.mp new
      exact absurd rfl (other rfl)
  cases accepted with
  | error err =>
      apply (running.stage i l there).imp_left
      rintro ⟨unused, client⟩
      exact ⟨unused, fun posted => client (older _ (some err) (by simp) posted)⟩
  | ok socket =>
      simp only [Pool.handleAccept, List.getElem?_modify] at there
      obtain ⟨old, found, is⟩ := Option.map_eq_some_iff.mp there
      by_cases own : j = i
      · subst own
        obtain ⟨opened, input, smooth⟩ := orderly
        obtain ⟨done, projects⟩ := running.projects j
        have enters : 0 < p.entering j := Nat.add_pos_left (List.count_pos_iff.mpr waiting) _
        have unused : Unused old := by
          rcases projects.stage old found with ⟨unused, -⟩ | ⟨-, started⟩
          · exact unused
          · omega
        rw [if_pos rfl] at is
        subst is
        have connected := unused.connected socket
        exact .inl ⟨connected, fun _ => ⟨connected.new, opened, input, smooth⟩⟩
      · rw [if_neg own] at is
        subst is
        apply (running.stage i _ found).imp_left
        rintro ⟨unused, client⟩
        exact ⟨unused, fun posted => client (older _ none (fun same => absurd same.symm own) posted)⟩

theorem Running.serverRun {v : Pool σ} {memory : Unset} (fresh : v.reusablePool = [])
    (nobody : v.entering v.sessions.length = 0) (stage : ∀ i l, v.sessions[i]? = some l → Stage rs v i l) {i : Nat}
    {l : World σ} (there : (v.serverRun memory).sessions[i]? = some l) : Stage rs (v.serverRun memory) i l := by
  have posted : (v.serverRun memory).posted = v.posted := by simp [Pool.serverRun, fresh]
  have sessions : (v.serverRun memory).sessions = v.sessions ++ [memory.world v.shared] := by
    simp [Pool.serverRun, fresh, Unset.world, Pool.shared]
  rw [Stage, posted]
  rw [sessions] at there
  rcases Sharing.found_concat there with ⟨rfl, rfl⟩ | old
  · refine .inl ⟨.made memory _, fun member => ?_⟩
    have enters : 0 < (v.posted.map Prod.fst).count v.sessions.length :=
      List.count_pos_iff.mpr (List.mem_map_of_mem (f := Prod.fst) member)
    rw [Pool.entering] at nobody
    omega
  · exact stage i l old

theorem office_handleAccept (j : Nat) (accepted : Except Failure Socket) :
    (p.handleAccept j accepted).office rs = p.office rs := by
  cases accepted with
  | error err => rfl
  | ok socket =>
      have desks : ((p.handleAccept j (.ok socket)).sessions.mapIdx fun i l => (l.shown (rs i)).toDesk) =
          p.sessions.mapIdx fun i l => (l.shown (rs i)).toDesk := by
        apply List.ext_getElem?
        intro i
        simp only [List.getElem?_mapIdx, Pool.handleAccept, List.getElem?_modify]
        cases p.sessions[i]? with
        | none => rfl
        | some l =>
            simp only [Option.map_some]
            split <;> rfl
      simp only [Pool.office, desks]
      rfl

theorem office_serverRun {v : Pool σ} (fresh : v.reusablePool = []) (memory : Unset) :
    (v.office rs).turn lib (.join memory.initialized (rs v.sessions.length)) =
      some ((v.serverRun memory).office rs) := by
  have new : ((memory.world v.shared).shown (rs v.sessions.length)).toDesk =
      ⟨[], none, none, memory.initialized, [], [], rs v.sessions.length⟩ := rfl
  simp only [Office.turn, Pool.serverRun, fresh, Pool.office, List.mapIdx_concat]
  rw [← new]
  rfl

/-! ### Steps -/

/-- A session comes back as `w`, and the others are where they were. -/
theorem Running.leave {i j : Nat} {w : World σ} (posted : List (Nat × ErrorCode)) (running : Running lib rs p)
    (fewer : ∀ post ∈ posted, post ∈ p.posted) (own : Stage rs { p with posted := posted } j w)
    {l : World σ} (there : (Pool.leave { p with posted := posted } j w).sessions[i]? = some l) :
    Stage rs (Pool.leave { p with posted := posted } j w) i l := by
  rcases Sharing.found_set there with ⟨rfl, rfl⟩ | ⟨-, old⟩
  · exact own
  · apply (running.stage i l old).imp_left
    rintro ⟨unused, client⟩
    exact ⟨unused, fun member => client (fewer _ member)⟩

theorem Running.run {n : Nat} (running : Running lib rs p) (step : p.next lib (.run n) = some q) :
    (∀ i l, q.sessions[i]? = some l → Stage rs q i l) ∧ q.office rs = p.office rs := by
  have fewer : ∀ post ∈ p.posted.eraseIdx n, post ∈ p.posted := fun post => List.mem_of_mem_eraseIdx
  obtain ⟨j, ⟨f, -, rfl⟩ | ⟨posted, w, found, alive, rfl⟩⟩ := Pool.run_cases step
  · refine ⟨fun i l there => ?_, rfl⟩
    apply (running.stage i l there).imp_left
    rintro ⟨unused, client⟩
    exact ⟨unused, fun member => client (fewer _ member)⟩
  · obtain ⟨l, there, rfl⟩ := Pool.world_eq_some found
    obtain ⟨unused, client⟩ := running.client there (List.mem_of_getElem? posted)
    have starts : Stage rs { p with posted := p.posted.eraseIdx n } j
        ((l.seeing p.shared).exec (sessionTask lib (taskEnd lib) none)) := by
      rw [unused.started alive]
      exact .inr ⟨_, client.inStep p.db p.nmap⟩
    refine ⟨fun i l there => running.leave _ fewer starts there, ?_⟩
    have same : ((l.seeing p.shared).exec (sessionTask lib (taskEnd lib) none)).shown (rs j) =
        (l.seeing p.shared).shown (rs j) := by
      rw [unused.waits]
      exact unused.waits_shown p.shared (rs j)
    exact Pool.office_unchanged there same

theorem Running.session (wellFormed : ∀ i, ∀ r ∈ rs i, r.WellFormed)
    (login : ∀ i, ∀ r ∈ (rs i).head?, r.payload.action = some .reqLog) {j : Nat} {act : Act σ}
    (running : Running lib rs p) (orderly : p.Orderly rs lib (.session j act))
    (step : p.next lib (.session j act) = some q) : (∀ i l, q.sessions[i]? = some l → Stage rs q i l) ∧
      Runs.after (Office.turn lib) (p.office rs) (p.turn rs (.session j act)).toList = some (q.office rs) := by
  obtain ⟨w, t, found, moved, rfl⟩ := Pool.session_cases step
  obtain ⟨l, there, rfl⟩ := Pool.world_eq_some found
  obtain ⟨unbroken, readable, brief⟩ := orderly _ found
  have at_ : (p.office rs).at_ j = some ((l.seeing p.shared).shown (rs j)) := Pool.office_at there
  have shared : ∀ db nmap, act = .others db nmap → t = { l.seeing p.shared with db := db, nmap := nmap } →
      Runs.after (Office.turn lib) (p.office rs) (p.turn rs (.session j act)).toList =
        some ((p.leave j t).office rs) := by
    rintro db nmap rfl rfl
    have desk : (World.shown (rs j) { l.seeing p.shared with db := db, nmap := nmap }).toDesk =
      (l.shown (rs j)).toDesk := rfl
    rw [Pool.office_leave, Pool.office_desk there desk]
    rfl
  rcases running.stage j l there with ⟨unused, client⟩ | ⟨left, inStep⟩
  · rcases (unused.seeing p.shared).quiet readable moved with ⟨rfl, rfl⟩ | ⟨db, nmap, rfl, is⟩
    · refine ⟨fun i k there' => running.leave p.posted (fun _ => id) (.inl ⟨unused.seeing p.shared, client⟩)
        there', ?_⟩
      have going := (next_eq_some moved).1
      have collects : (collect.run ((l.seeing p.shared).shown (rs j))).map Prod.snd = _ :=
        mailBox_shown readable going moved
      obtain ⟨_, collected, is⟩ := Option.map_eq_some_iff.mp collects
      simp only [Pool.turn, Option.toList_some, Runs.after_cons, Runs.after_nil, Office.turn, at_, Option.bind_some,
        collected, Option.map_some, is, Pool.office_leave]
    · refine ⟨fun i k there' => running.leave p.posted (fun _ => id) ?_ there', shared db nmap rfl is⟩
      subst is
      exact .inl ⟨unused.seeing (db, nmap), client⟩
  · have seen : InStep (rs j) left (l.seeing p.shared) := inStep.same rfl
    obtain ⟨fewer, still, -⟩ := seen.stepped (wellFormed j) (login j) unbroken readable moved
    refine ⟨fun i k there' => running.leave p.posted (fun _ => id) (.inr ⟨fewer, still⟩) there', ?_⟩
    cases act with
    | complete c =>
        have shows := seen.shows (wellFormed j) (login j) unbroken readable brief moved
        have settles : (p.sessions[j]?).any (fun l => l.settles c) = (l.seeing p.shared).settles c := by
          rw [there]
          rfl
        rw [ShowsService] at shows
        simp only [Pool.turn, settles]
        split at shows
        · next now =>
            rw [if_pos now]
            simp only [Option.toList_some, Runs.after_cons, Runs.after_nil, Office.turn, at_, Option.bind_some, shows,
              Option.map_some, Pool.office_leave]
        · next later =>
            rw [if_neg later, Pool.office_unchanged there (Option.some.inj shows).symm]
            rfl
    | checkMailBox =>
        have collects : (collect.run ((l.seeing p.shared).shown (rs j))).map Prod.snd = _ :=
          mailBox_shown readable seen.fits.stopped moved
        obtain ⟨_, collected, is⟩ := Option.map_eq_some_iff.mp collects
        simp only [Pool.turn, Option.toList_some, Runs.after_cons, Runs.after_nil, Office.turn, at_, Option.bind_some,
          collected, Option.map_some, is, Pool.office_leave]
    | others db nmap => exact shared db nmap rfl (by simpa [next, seen.fits.stopped] using moved.symm)

theorem Running.next (wellFormed : ∀ i, ∀ r ∈ rs i, r.WellFormed)
    (login : ∀ i, ∀ r ∈ (rs i).head?, r.payload.action = some .reqLog) {act : PoolAct σ} (running : Running lib rs p)
    (orderly : p.Orderly rs lib act) (step : p.next lib act = some q) :
    Running lib rs q ∧ Runs.after (Office.turn lib) (p.office rs) (p.turn rs act).toList = some (q.office rs) := by
  have projects : ∀ i, ∃ done, Projects lib (fun _ _ => True) i done q := fun i => by
    obtain ⟨done, projects⟩ := running.projects i
    exact ⟨_, projects.next (fun _ _ _ => trivial) orderly.stays (fun _ _ _ _ => trivial) step⟩
  suffices moved : (∀ i l, q.sessions[i]? = some l → Stage rs q i l) ∧
      Runs.after (Office.turn lib) (p.office rs) (p.turn rs act).toList = some (q.office rs) from
    ⟨⟨projects, moved.1⟩, moved.2⟩
  cases act with
  | session j act => exact running.session wellFormed login orderly step
  | notifyAbortConnection n => exact orderly.elim
  | run n =>
      obtain ⟨stage, same⟩ := running.run step
      exact ⟨stage, congrArg some same.symm⟩
  | handleAccept j accepted memory =>
      obtain ⟨waiting, rfl⟩ := Pool.handleAccept_cases step
      obtain ⟨done, here⟩ := running.projects p.sessions.length
      have made := here.handleAccept waiting accepted
      have length : (p.handleAccept j accepted).sessions.length = p.sessions.length := by
        cases accepted with
        | error err => rfl
        | ok socket => exact List.length_modify ..
      have nobody : (p.handleAccept j accepted).entering (p.handleAccept j accepted).sessions.length = 0 := by
        rw [length]
        exact (made.later length.le).1
      have stage : ∀ i l, (p.handleAccept j accepted).sessions[i]? = some l →
          Stage rs (p.handleAccept j accepted) i l :=
        fun i l there => running.handleAccept orderly waiting there
      refine ⟨fun i l there => Running.serverRun made.fresh nobody stage there, ?_⟩
      have joins : ((p.handleAccept j accepted).office rs).turn lib (.join memory.initialized (rs _)) = _ :=
        office_serverRun made.fresh memory
      rw [length, office_handleAccept] at joins
      simp [Pool.turn, Runs.after_cons, joins]

theorem Running.start (db : σ) (memory : Unset) : Running lib rs (Pool.start db memory) where
  projects i := ⟨[], .start db memory⟩
  stage i l there := by
    have made : l ∈ (Pool.start db memory).sessions := List.mem_of_getElem? there
    obtain rfl := List.mem_singleton.mp made
    exact .inl ⟨.made memory (db, NMap.empty), fun posted => by cases posted⟩

/-- What a run of the server is seen as. -/
def turns (lib : External σ) (rs : Nat → List Sent) (db : σ) (memory : Unset) (acts : List (PoolAct σ)) :
    List (OfficeAct σ) :=
  .join memory.initialized (rs 0) :: Runs.shown (Pool.next lib) (Pool.turn rs) (Pool.start db memory) acts

/-- The office has served what the server's clients were served, and no session that was
    started is kept waiting by another. -/
structure Serial (lib : External σ) (rs : Nat → List Sent) (db : σ) (memory : Unset) (acts : List (PoolAct σ))
    (p : Pool σ) : Prop where
  served : Runs.after (Office.turn lib) ⟨db, .empty, []⟩ (turns lib rs db memory acts) = some (p.office rs)
  goesOn : ∀ i l, p.sessions[i]? = some l → Unused l ∨ Ended (rs i) (l.seeing p.shared) ∨
    ∀ n ret, (next lib (l.seeing p.shared) (.complete ⟨0, none, n, ret⟩)).isSome = true
  all : ∀ i l, p.sessions[i]? = some l → Ended (rs i) l → ((p.office rs).desks[i]?).map Desk.todo = some []

theorem Ended.settled {rs : List Sent} {l : World σ} (ended : Ended rs l) : l.wire.settled = rs.length := by
  have waiting : l.wire.waiting = [.readHeader] := ended.waiting
  simp [Wire.settled, waiting, ended.dispatched]

/-- A run of the server, with its sessions between any two pieces of their requests, comes
    to what the office comes to, in which requests are served whole and one at a time: the
    same database, the same flags, and the same bytes to every client. -/
theorem server_serial {db : σ} {memory : Unset} {acts : List (PoolAct σ)}
    (wellFormed : ∀ i, ∀ r ∈ rs i, r.WellFormed)
    (login : ∀ i, ∀ r ∈ (rs i).head?, r.payload.action = some .reqLog)
    (orderly : Runs.Each (Pool.next lib) (fun p act => p.Orderly rs lib act) (Pool.start db memory) acts)
    (ran : Runs.after (Pool.next lib) (Pool.start db memory) acts = some p) : Serial lib rs db memory acts p := by
  have start : Running lib rs (Pool.start db memory) := .start db memory
  have simulated : Running lib rs p ∧ Runs.after (Office.turn lib) ((Pool.start db memory).office rs)
      (Runs.shown (Pool.next lib) (Pool.turn rs) (Pool.start db memory) acts) = some (p.office rs) :=
    Runs.simulated (fun q act q' running orderly step => running.next wellFormed login orderly step) start orderly ran
  obtain ⟨running, served⟩ := simulated
  refine ⟨served, fun i l there => ?_, fun i l there ended => ?_⟩
  · rcases running.stage i l there with ⟨unused, -⟩ | ⟨left, inStep⟩
    · exact .inl unused
    · have seen : InStep (rs i) left (l.seeing p.shared) := inStep.same rfl
      exact .inr (seen.goes_on (wellFormed i))
  have todo : (l.shown (rs i)).todo = [] := by
    have settled := ended.settled
    simp [World.shown, World.service, settled]
  simp [Pool.office, there, todo]

end

/-- What Ann and Bob send. -/
def annAndBob : Nat → List Sent
  | 0 =>
      [⟨request 0 EAction.reqLog.code, .login (str "ann") (str "kiwi")⟩,
        ⟨request 0 EAction.requestConnection.code, .connection (ofInt 4 0 ++ ofInt 4 3 ++ ofInt 8 0) (str "bob")⟩]
  | 1 =>
      [⟨request 0 EAction.reqLog.code, .login (str "bob") (str "plum")⟩,
        ⟨request 1 ECommand.getFriendList.code, .command .getFriendList⟩,
        ⟨request 1 ECommand.getFriendList.code, .command .getFriendList⟩]
  | _ => []

theorem annAndBob_wellFormed : ∀ i, ∀ r ∈ annAndBob i, r.WellFormed := by
  intro i
  rcases i with _ | _ | n
  · decide
  · decide
  · simp [annAndBob]

theorem annAndBob_logIn : ∀ i, ∀ r ∈ (annAndBob i).head?, r.payload.action = some .reqLog := by
  intro i
  rcases i with _ | _ | n
  · decide
  · decide
  · simp [annAndBob]

theorem server_serial_annAsksBob :
    ∃ p, Runs.after (Pool.next memoryServer) (Pool.start twoUsers zeros) annAsksBob = some p ∧
      Serial memoryServer annAndBob twoUsers zeros annAsksBob p := by
  obtain ⟨p, ran⟩ := annAsksBob_runs
  exact ⟨p, ran, server_serial annAndBob_wellFormed annAndBob_logIn (by decide +kernel) ran⟩

/-- Bob is served his login and his first look before Ann is served what she asks of him. -/
example : (turns memoryServer annAndBob twoUsers zeros annAsksBob).map (fun turn => match turn with
    | .serve i => some i
    | _ => none) = [none, none, none, some 0, some 1, some 1, some 0, some 1] := by decide +kernel

end NineProject
