import NineProject.Framing
import NineProject.LoginPackets
import NineProject.Statements

/-! # The client of the repository

`client_no_ssl` logs in with a header whose code it leaves at zero. No action has that
code, so the server takes the header up and does nothing with it: it stays in front of
the queue, and whatever comes after it is never asked for. The client is not served, in
no run of the server, and neither is anybody whom the session object is used for later.
-/

namespace NineProject

open Bytes M Effect

/-- What `req_login` and `req_login_handle` write: a header of zeros, and the login. -/
def clientLogin (buf : List Byte) (id pw : Str) : List Byte := Pchd.empty.toBytes ++ loginPacket buf id pw

/-- Headers are taken up and bytes are asked for; nothing is run, written or raised. -/
def Event.Inward : Event → Prop
  | .push _ _ | .dispatch _ _ | .read _ _ _ => True
  | _ => False

instance : DecidablePred Event.Inward := fun e => by cases e <;> unfold Event.Inward <;> infer_instance

/-- If there is a header among the bytes, it is the one of `req_login`. -/
def Zeros (input : List Byte) : Prop := Pchd.size ≤ input.length → input.take Pchd.size = Pchd.empty.toBytes

theorem clientLogin_zeros {input buf : List Byte} {id pw : Str} (sent : input <+: clientLogin buf id pw) :
    Zeros input := by
  intro long
  obtain ⟨rest, is⟩ := sent
  have front : (input ++ rest).take Pchd.size = Pchd.empty.toBytes := by
    rw [is, clientLogin]
    exact List.take_left' rfl
  rwa [List.take_append_of_le_length long] at front

/-! ## The session of the client -/

section
variable {σ : Type} {lib : External σ} {te : ErrorCode → M σ Unit} {w t : World σ}

/-- What holds of a session whose clients are all of this kind, whatever is in its queue. -/
structure Unserved (w : World σ) : Prop where
  log : ∀ e ∈ w.log, e.Inward
  pending : ∀ op ∈ w.pending, op.handler = .readHeader
  userName : w.self.userName = []
  nf : w.self.nf = none
  notice : w.self.notice = []
  iData : w.self.pc.iData.length = 1024

/-- The header has been taken up. -/
structure Stuck (w : World σ) : Prop extends Unserved w where
  queue : w.self.pc.hQue = [Pchd.empty]

/-- The header has been taken up, or is all that can come next. -/
structure Unheard (w : World σ) : Prop extends Unserved w where
  queue : w.self.pc.hQue = [] ∧ Zeros w.self.socket.input ∨ w.self.pc.hQue = [Pchd.empty]

/-- The header has been taken up, or was just read. -/
structure Arrived (w : World σ) : Prop extends Unserved w where
  queue : w.self.pc.hQue = [] ∧ Pchd.ofBytes w.self.pc.iData = Pchd.empty ∨ w.self.pc.hQue = [Pchd.empty]

theorem Stuck.unheard (stuck : Stuck w) : Unheard w := ⟨stuck.toUnserved, .inr stuck.queue⟩

/-- A change of what these say nothing of. -/
theorem Unserved.same (unserved : Unserved w) (log : t.log = w.log) (pending : t.pending = w.pending)
    (userName : t.self.userName = w.self.userName) (nf : t.self.nf = w.self.nf)
    (notice : t.self.notice = w.self.notice) (pc : t.self.pc.iData = w.self.pc.iData) : Unserved t :=
  ⟨log ▸ unserved.log, pending ▸ unserved.pending, userName.trans unserved.userName, nf.trans unserved.nf,
    notice.trans unserved.notice, pc ▸ unserved.iData⟩

theorem Unserved.logged {e : Event} (unserved : Unserved w) (inward : e.Inward) (log : t.log = w.log ++ [e])
    (pending : t.pending = w.pending) (self : t.self.userName = w.self.userName) (nf : t.self.nf = w.self.nf)
    (notice : t.self.notice = w.self.notice) (pc : t.self.pc.iData = w.self.pc.iData) : Unserved t := by
  refine ⟨fun e' member => ?_, pending ▸ unserved.pending, self.trans unserved.userName, nf.trans unserved.nf,
    notice.trans unserved.notice, pc ▸ unserved.iData⟩
  rw [log] at member
  rcases List.mem_append.mp member with old | new
  · exact unserved.log e' old
  · rwa [List.mem_singleton.mp new]

theorem Unheard.halted (unheard : Unheard w) (stop : Stop) : Unheard { w with stopped := some stop } :=
  ⟨unheard.toUnserved.same rfl rfl rfl rfl rfl rfl, unheard.queue⟩

theorem Unheard.shared (unheard : Unheard w) (db : σ) (nmap : NMap) : Unheard { w with db := db, nmap := nmap } :=
  ⟨unheard.toUnserved.same rfl rfl rfl rfl rfl rfl, unheard.queue⟩

/-- Another client of this kind. -/
theorem Unheard.connected (unheard : Unheard w) {socket : Socket} (zeros : Zeros socket.input) :
    Unheard { w with self := { w.self with socket := socket } } :=
  ⟨unheard.toUnserved.same rfl rfl rfl rfl rfl rfl, unheard.queue.imp_left fun ⟨empty, _⟩ => ⟨empty, zeros⟩⟩

/-- A program that leaves the session so, however it ends. -/
abbrev Leaves (P : World σ → Prop) (m : M σ Unit) : Prop :=
  Holds P m (fun _ t => Unheard t) fun _ t => Unheard t

theorem Leaves.exec {P : World σ → Prop} {m : M σ Unit} (leaves : Leaves P m) (known : P w) : Unheard (w.exec m) := by
  have left := leaves w known
  unfold World.exec
  cases ran : m w with
  | ok a t => simpa only [ran] using left
  | error stop t =>
      rw [ran] at left
      exact Unheard.halted left stop

/-! ## The handlers -/

theorem errorHandle_leaves (err : ErrorCode) : Leaves Unheard (errorHandle err : M σ Unit) := by
  apply Holds.ite
  · intro _ w unheard
    exact ⟨unheard.toUnserved.same rfl rfl rfl rfl rfl rfl, unheard.queue⟩
  · intro _
    exact .pure fun _ => id

/-- The code of the header is that of no action. -/
theorem readHandle_leaves (err : ErrorCode) : Leaves Unheard (readHandle lib te err) := by
  intro w unheard
  rcases unheard.queue with ⟨empty, -⟩ | stuck
  · simpa [readHandle, front, bind_apply, empty] using unheard
  · have noCommand : ¬ isCommand Pchd.empty := by decide
    have noAction : EAction.ofCode Pchd.empty.comd = none := by decide
    have ran : readHandle lib te err w = .ok () (w.dispatched Pchd.empty) := by
      simp [readHandle, front, dispatch, bind_apply, stuck, noCommand, action, noAction, World.dispatched]
    rw [ran]
    exact ⟨unheard.toUnserved.logged (e := .dispatch w.popped Pchd.empty) trivial rfl rfl rfl rfl rfl rfl, .inr stuck⟩

theorem sessionTask_leaves (err : ErrorCode) : Leaves Unheard (sessionTask lib te err) := by
  apply Holds.ite
  · intro _
    exact errorHandle_leaves err
  · intro _
    apply Holds.bind get_holds
    intro w v ⟨same, unheard⟩
    subst same
    by_cases empty : v.self.pc.hQue = []
    · rw [if_pos empty]
      have reads : Event.Inward (.read .header Handler.readHeader.asked v.self.pc.iData.length) := trivial
      have logged := unheard.toUnserved.logged (t := v.logged _) reads rfl rfl rfl rfl rfl rfl
      refine ⟨⟨logged.log, fun op member => ?_, logged.userName, logged.nf, logged.notice, logged.iData⟩,
        unheard.queue⟩
      rcases List.mem_append.mp member with old | new
      · exact unheard.pending op old
      · rw [List.mem_singleton.mp new]
    · rw [if_neg empty]
      exact readHandle_leaves err v unheard

theorem readHeaderHandle_broken {err : ErrorCode} (failed : err.isSome = true) (ret : Bool) :
    Leaves Unheard (readHeaderHandle lib err ret) := by
  apply Holds.bind
  · apply Holds.ite
    · intro _
      exact errorHandle_leaves err
    · intro none_
      exact absurd failed none_
  · intro _
    have decoded : decodeHader err ret = (pure ret : M σ Bool) := if_pos failed
    rw [decoded]
    apply Holds.bind (Holds.pure (Q := fun _ w => Unheard w) fun _ => id)
    intro accepted
    cases accepted with
    | true => exact readHandle_leaves err
    | false => exact sessionTask_leaves err

/-- The header is put in the queue where there is none, and no other is. -/
theorem decodeHader_arrived (ret : Bool) :
    Holds Arrived (decodeHader none ret : M σ Bool) (fun _ t => Stuck t) fun _ t => Unheard t := by
  intro w arrived
  rcases arrived.queue with ⟨empty, header⟩ | stuck
  · have ran : decodeHader none ret w = .ok true (w.push Pchd.empty) := by
      simp [decodeHader, bind_apply, empty, header, Pchd.empty, M.push]
      rfl
    rw [ran]
    refine ⟨arrived.toUnserved.logged (e := .push w.pushed Pchd.empty) trivial rfl rfl rfl rfl rfl rfl, ?_⟩
    simp [World.push, empty]
  · have quiet : ∃ got, decodeHader none ret w = .ok got w := by
      simp only [decodeHader, bind_apply, Option.isSome_none, Bool.false_eq_true, if_false, get_apply, stuck]
      split
      · exact ⟨_, rfl⟩
      · split <;> exact ⟨_, rfl⟩
    obtain ⟨got, ran⟩ := quiet
    rw [ran]
    exact ⟨arrived.toUnserved, stuck⟩

theorem readHeaderHandle_arrived (ret : Bool) : Leaves Arrived (readHeaderHandle lib none ret) := by
  apply Holds.bind (Q := fun _ w => Arrived w)
  · exact .pure fun _ => id
  · intro _
    apply Holds.bind (decodeHader_arrived ret)
    intro accepted
    cases accepted with
    | true => exact (readHandle_leaves none).conseq (fun _ => Stuck.unheard) (fun _ _ => id) fun _ _ => id
    | false => exact (sessionTask_leaves none).conseq (fun _ => Stuck.unheard) (fun _ _ => id) fun _ _ => id

/-- Without an array a check finds nothing to notice. -/
theorem checkMailBox_leaves : Leaves Unheard (checkMailBox : M σ Unit) := by
  intro w unheard
  cases on : w.self.initialized with
  | false => simpa [checkMailBox, bind_apply, on] using unheard
  | true => simpa [checkMailBox, bind_apply, on, mailKinds, checkMail, unheard.nf] using unheard

/-! ## Steps -/

/-- What a completed read has put in its place. -/
def World.receiving (w : World σ) (index : Nat) (op : Op) (socket : Socket) (got : List Byte) : World σ :=
  let v := w.completing index op socket
  { v with self := v.self.receiveHeader got }

theorem Unserved.receiving (unserved : Unserved w) (index : Nat) (op : Op) (socket : Socket) (got : List Byte) :
    Unserved (w.receiving index op socket got) :=
  ⟨unserved.log, fun op member => unserved.pending op (List.mem_of_mem_eraseIdx member), unserved.userName, unserved.nf,
    unserved.notice, (poke_length _ _ _).trans unserved.iData⟩

theorem Unheard.completes {op : Op} {c : Completion} {got : List Byte} {socket : Socket} (unheard : Unheard w)
    (reads : op.handler = .readHeader) (transfers : transfer op c w.self.socket = some (got, socket)) :
    Unheard ((w.completing c.index op socket).exec (complete lib op c.err got c.ret)) := by
  have received := unheard.toUnserved.receiving c.index op socket got
  have handled : ∀ {P : World σ → Prop}, Leaves P (readHeaderHandle lib c.err c.ret) →
      P (w.receiving c.index op socket got) →
        Unheard ((w.completing c.index op socket).exec (complete lib op c.err got c.ret)) := fun leaves known => by
    unfold complete
    rw [reads]
    exact Leaves.exec (Holds.bind (Holds.modify (P := (· = w.completing c.index op socket))
      fun _ is => is ▸ known) fun _ => leaves) rfl
  have asked : sizeT Handler.readHeader.asked = Pchd.size := by decide
  unfold transfer at transfers
  simp only [reads, asked] at transfers
  cases outcome : c.err with
  | some f =>
      simp only [outcome] at transfers
      split at transfers
      · cases transfers
        have leaves : Leaves Unheard (readHeaderHandle lib c.err c.ret) :=
          readHeaderHandle_broken (by simp [outcome]) c.ret
        have nothing : Zeros [] := fun long => absurd long (by decide)
        have left := handled leaves ⟨received, unheard.queue.imp_left fun ⟨empty, _⟩ => ⟨empty, nothing⟩⟩
        rwa [outcome] at left
      · cases transfers
  | none =>
      simp only [outcome] at transfers
      split at transfers
      · next long =>
          cases transfers
          have leaves : Leaves Arrived (readHeaderHandle lib c.err c.ret) := by
            rw [outcome]
            exact readHeaderHandle_arrived c.ret
          rw [← outcome]
          refine handled leaves ⟨received, ?_⟩
          refine unheard.queue.imp_left fun ⟨empty, zeros⟩ => ⟨empty, ?_⟩
          have size : Pchd.size ≤ w.self.pc.iData.length := by
            rw [unheard.iData]
            decide
          have header : Pchd.ofBytes (poke w.self.pc.iData 0 Pchd.empty.toBytes) = Pchd.ofBytes Pchd.empty.toBytes :=
            received_record Pchd.ofBytes_take rfl size
          show Pchd.ofBytes (poke w.self.pc.iData 0 _) = _
          rw [zeros long, header]
          decide
      · cases transfers

theorem Unheard.next {act : Act σ} (unheard : Unheard w) (step : NineProject.next lib w act = some t) : Unheard t := by
  cases act with
  | complete c =>
      simp only [NineProject.next] at step
      split at step
      · cases step
      · obtain ⟨op, pending, step⟩ := Option.bind_eq_some_iff.mp step
        obtain ⟨⟨got, socket⟩, transfers, rfl⟩ := Option.map_eq_some_iff.mp step
        exact unheard.completes (unheard.pending op (List.mem_of_getElem? pending)) transfers
  | checkMailBox =>
      simp only [NineProject.next] at step
      split at step
      · cases step
      · cases step
        exact checkMailBox_leaves.exec unheard
  | others db nmap =>
      simp only [NineProject.next] at step
      split at step
      · cases step
      · cases step
        exact unheard.shared db nmap

end

/-! ## Every run -/

section
variable {σ : Type} {lib : External σ} {p q : Pool σ} {i : Nat}

/-- Whoever connects to this session is the client of the repository, or what is left of
    one when its connection broke. -/
def FromClient (i : Nat) : PoolAct σ → Prop
  | .handleAccept j (.ok socket) _ => j = i → ∃ buf id pw, socket.input <+: clientLogin buf id pw
  | _ => True

/-- The session, if it was made, has heard nothing. -/
def Pool.Silent (p : Pool σ) (i : Nat) : Prop := ∀ w, p.sessions[i]? = some w → Unheard w

theorem Unset.unheard (memory : Unset) (db : σ) (nmap : NMap) :
    Unheard ⟨memory.session, db, nmap, [], 0, 0, 0, [], none⟩ where
  log := by simp
  pending := by simp
  userName := rfl
  nf := rfl
  notice := rfl
  iData := memory.iData.size_toArray ▸ rfl
  queue := .inl ⟨rfl, fun long => absurd (show 32 ≤ 0 from long) (by decide)⟩

namespace Pool.Silent

theorem serverRun (silent : p.Silent i) (memory : Unset) : (p.serverRun memory).Silent i := by
  intro w there
  unfold Pool.serverRun at there
  cases pool : p.reusablePool with
  | cons j rest =>
      rw [pool] at there
      exact silent w there
  | nil =>
      rw [pool] at there
      rcases Sharing.found_concat there with ⟨-, rfl⟩ | old
      · exact memory.unheard p.db p.nmap
      · exact silent w old

theorem leave {j : Nat} {w : World σ} (silent : p.Silent i) (left : j = i → Unheard w) : (p.leave j w).Silent i := by
  intro v there
  simp only [Pool.leave, List.getElem?_set] at there
  split at there
  · next same =>
      split at there
      · cases there
        exact left same
      · cases there
  · exact silent v there

theorem world {j : Nat} {w : World σ} (silent : p.Silent i) (there : p.world j = some w) (same : j = i) : Unheard w := by
  obtain ⟨l, found, rfl⟩ := Option.map_eq_some_iff.mp there
  exact (silent l (same ▸ found)).shared p.db p.nmap

theorem handleAccept {j : Nat} {accepted : Except Failure Socket} {memory : Unset} (silent : p.Silent i)
    (client : FromClient (σ := σ) i (.handleAccept j accepted memory)) : (p.handleAccept j accepted).Silent i := by
  cases accepted with
  | error err => exact silent
  | ok socket =>
      intro w there
      simp only [Pool.handleAccept, List.getElem?_modify] at there
      obtain ⟨l, found, is⟩ := Option.map_eq_some_iff.mp there
      split at is
      · next same =>
          obtain ⟨buf, id, pw, sent⟩ := client same
          rw [← is]
          exact (silent l found).connected (clientLogin_zeros sent)
      · rw [← is]
        exact silent l found

theorem next {act : PoolAct σ} (silent : p.Silent i) (client : FromClient i act) (step : p.next lib act = some q) :
    q.Silent i := by
  cases act with
  | handleAccept j accepted memory =>
      obtain ⟨-, rfl⟩ := handleAccept_cases step
      exact (silent.handleAccept client).serverRun memory
  | run n =>
      obtain ⟨j, ⟨f, -, rfl⟩ | ⟨-, w, there, -, rfl⟩⟩ := run_cases step
      · exact silent
      · exact Silent.leave silent fun same => (sessionTask_leaves none).exec (Silent.world silent there same)
  | session j act =>
      obtain ⟨w, t, there, moved, rfl⟩ := session_cases step
      exact silent.leave fun same => (silent.world there same).next moved
  | notifyAbortConnection n =>
      obtain ⟨j, -, rfl⟩ := notifyAbortConnection_cases step
      exact silent

end Pool.Silent

/-- In no run is the client of the repository served, however the others are: nothing is
    run for it, nothing is written to it, and nobody is logged in. -/
theorem own_client_unserved {db : σ} {memory : Unset} {acts : List (PoolAct σ)}
    (client : ∀ act ∈ acts, FromClient i act)
    (ran : Runs.after (Pool.next lib) (Pool.start db memory) acts = some p) :
    ∀ w, p.sessions[i]? = some w →
      (∀ e ∈ w.log, e.Inward) ∧ w.self.userName = [] ∧ w.self.nf = none ∧ w.self.notice = [] := by
  have start : (Pool.start db memory).Silent i := by
    apply Pool.Silent.serverRun
    intro w there
    cases there
  have silent : p.Silent i := Runs.invariant (C := fun _ act => FromClient i act) (I := fun q : Pool σ => q.Silent i)
    (fun _ _ _ silent client step => silent.next client step) start
    ((Runs.Each.trivial _ _ _).allowed client |>.mono fun _ _ => And.left) ran
  intro w there
  have unheard := silent w there
  exact ⟨unheard.log, unheard.userName, unheard.nf, unheard.notice⟩

end

/-- Ann comes with the client of the repository, and Bob with one that names the action. -/
def annBringsClient : List (PoolAct Sql.Memory) :=
  let ann := clientLogin (List.replicate stagingSize 0) (str "ann") (str "kiwi")
  let bob := loginOf (str "bob") (str "plum")
  [.handleAccept 0 (.ok ⟨true, ann, none, []⟩) zeros, .run 0,
    .handleAccept 1 (.ok ⟨true, bob, none, []⟩) zeros, .run 0,
    .session 0 .first] ++ List.replicate 4 (.session 1 .first) ++ [.session 0 .checkMailBox]

/-- Bob is logged in, and Ann's header is still in the queue. -/
theorem own_client_unserved_ann : ∃ p ann bob,
    Runs.after (Pool.next memoryServer) (Pool.start twoUsers zeros) annBringsClient = some p ∧
      p.sessions[0]? = some ann ∧ p.sessions[1]? = some bob ∧ bob.self.userName = str "bob" ∧
      ann.self.pc.hQue = [Pchd.empty] ∧
      (∀ e ∈ ann.log, e.Inward) ∧ ann.self.userName = [] ∧ ann.self.nf = none ∧ ann.self.notice = [] := by
  obtain ⟨p, ran⟩ := Option.isSome_iff_exists.mp (show ((Runs.after (Pool.next memoryServer)
    (Pool.start twoUsers zeros) annBringsClient).filter fun p =>
      p.sessions[0]?.any (fun ann => ann.self.pc.hQue = [Pchd.empty]) &&
        p.sessions[1]?.any fun bob => bob.self.userName = str "bob").isSome by decide +kernel)
  obtain ⟨ran, known⟩ := Option.filter_eq_some_iff.mp ran
  obtain ⟨first, second⟩ := Bool.and_eq_true_iff.mp known
  obtain ⟨ann, there, queue⟩ := Option.any_eq_true _ _ |>.mp first
  obtain ⟨bob, there', named⟩ := Option.any_eq_true _ _ |>.mp second
  have client : ∀ act ∈ annBringsClient, FromClient 0 act := by
    intro act member
    simp only [annBringsClient, List.replicate, List.cons_append, List.nil_append, List.mem_cons, List.not_mem_nil,
      or_false] at member
    rcases member with rfl | rfl | rfl | rfl | rfl | rfl | rfl | rfl | rfl | rfl
    · exact fun _ => ⟨_, _, _, List.prefix_refl _⟩
    · trivial
    · exact fun other => absurd other (by decide)
    all_goals trivial
  exact ⟨p, ann, bob, ran, there, there', of_decide_eq_true named, of_decide_eq_true queue,
    own_client_unserved client ran ann there⟩

end NineProject
