import NineProject.Session.Queue

/-! # Handlers that end normally

When does a handler return, and in which state? Each basic operation is given by an
equivalence, so that for a handler the question comes down to its queries, its
blocking reads and its blocking writes.
-/

namespace NineProject

open Bytes M Effect

variable {σ α : Type}

namespace World

/-- What a blocking write answers, and the world it leaves. -/
def writing (w : World σ) (bytes : List Byte) : ErrorCode × World σ :=
  let s := w.self.socket
  if bytes = [] then (none, w)
  else if s.opened = false then (some .other, w)
  else
    let v := { w with self := { w.self with socket := { s with writes := s.writes.tail } } }
    match s.writes.head?.join with
    | some f => (some f, v)
    | none => (none, v.logged (.wrote bytes))

/-- The header in front is done with. -/
def ended (w : World σ) : World σ := w.pop.touchSource PBuffer.initRecord

/-- The next header read is started. -/
def waits (w : World σ) : World σ :=
  (w.logged (.read .header Pchd.size w.self.pc.iData.length)).started .readHeader

end World

section
variable {Q : Unit → World σ → Prop} {w : World σ}

@[simp] theorem returns_emit {e : Event} : Returns (emit e) w Q ↔ Q () (w.logged e) := returns_modify

@[simp] theorem returns_setSelf {f : Session → Session} :
    Returns (setSelf f) w Q ↔ Q () { w with self := f w.self } := returns_modify

@[simp] theorem returns_dispatch {h : Pchd} : Returns (dispatch h) w Q ↔ Q () (w.dispatched h) :=
  returns_modify

@[simp] theorem returns_asyncRead {handler : Handler} {dest : Dest} {allocated : World σ → Nat} :
    Returns (asyncRead handler dest allocated) w Q ↔
      Q () ((w.logged (.read dest handler.asked (allocated w))).started handler) := returns_modify

@[simp] theorem returns_asyncWrite {bytes : List Byte} {source : Bool} :
    Returns (asyncWrite bytes source) w Q ↔ Q () ((w.logged (.wrote bytes)).started (.taskEnd source)) :=
  returns_modify

@[simp] theorem returns_touchSource {f : PBuffer → PBuffer} :
    Returns (touchSource f) w Q ↔ Q () (w.touchSource f) := returns_modify

@[simp] theorem returns_nmapNotify {user : Str} {task : Nat} :
    Returns (nmapNotify user task) w Q ↔ Q () (w.notify user task) := returns_modify

theorem returns_nmapNotifyWithList {users : List Str} {task : Nat} :
    Returns (nmapNotifyWithList users task) w Q ↔
      Q () (users.foldl (fun w user => w.notify user task) w) := by
  induction users generalizing w with
  | nil => exact returns_pure
  | cons user rest ih => simp [nmapNotifyWithList, ih]

theorem returns_when {c : Prop} [Decidable c] {m : M σ Unit} :
    Returns (when c m) w Q ↔ if c then Returns m w Q else Q () w := by
  simp [M.when, returns_ite]

end

@[simp] theorem returns_lift {r : Except Fault α} {w : World σ} {Q : α → World σ → Prop} :
    Returns (lift r) w Q ↔ ∃ a, r = .ok a ∧ Q a w := by
  cases r with
  | ok a => simp [M.lift]
  | error e => simp [M.lift]

theorem returns_front {w : World σ} {h : Pchd} {rest : List Pchd} (queue : w.self.pc.hQue = h :: rest)
    {Q : Pchd → World σ → Prop} : Returns front w Q ↔ Q h w := by
  simp [M.front, queue]

@[simp] theorem returns_runQuery {lib : External σ} {call : QrCall} {p : Query α} {w : World σ}
    {Q : α → World σ → Prop} : Returns (runQuery lib call p) w Q ↔
      ∃ a, (p.run lib.engine w.db).result = .ok a ∧ Q a (w.ran call (p.run lib.engine w.db)) := by
  simp [M.runQuery]

theorem returns_checkManagerAt {w : World σ} {list : Vector Int 10} (manager : w.self.checkManager = some list)
    {i : Int} {Q : Int → World σ → Prop} : Returns (checkManagerAt i) w Q ↔
      (0 ≤ i ∧ i < 10) ∧ Q (list.toArray.getD i.toNat 0) w := by
  simp only [M.checkManagerAt, returns_bind, returns_get, manager]
  by_cases inside : 0 ≤ i ∧ i < 10
  · simp [inside]
  · simp [inside]

@[simp] theorem returns_write {bytes : List Byte} {w : World σ} {Q : ErrorCode → World σ → Prop} :
    Returns (write bytes) w Q ↔ Q (w.writing bytes).1 (w.writing bytes).2 := by
  simp only [M.write, returns_bind, returns_get, World.writing]
  by_cases empty : bytes = []
  · simp [empty]
  · by_cases closed : w.self.socket.opened = false
    · simp [empty, closed]
    · cases outcome : w.self.socket.writes.head?.join <;> simp [empty, closed]

theorem write_eq (bytes : List Byte) (w : World σ) :
    write bytes w = .ok (w.writing bytes).1 (w.writing bytes).2 := by
  obtain ⟨code, t, ran, rfl, rfl⟩ := (returns_write (w := w)
    (Q := fun code t => code = (w.writing bytes).1 ∧ t = (w.writing bytes).2)).mpr ⟨rfl, rfl⟩
  exact ran

theorem writing_extends {A : Bool → Event → Prop} (wrote : ∀ b bytes, A b (.wrote bytes)) (w : World σ)
    (bytes : List Byte) : Extends A w (w.writing bytes).2 := by
  have step := write_works wrote bytes w
  rw [write_eq] at step
  exact step

theorem returns_writeOrThrow {bytes : List Byte} {w : World σ} {Q : Unit → World σ → Prop} :
    Returns (writeOrThrow bytes) w Q ↔ (w.writing bytes).1 = none ∧ Q () (w.writing bytes).2 := by
  simp only [M.writeOrThrow, returns_bind, returns_write]
  cases (w.writing bytes).1 <;> simp

/-- On an open socket nothing is thrown as long as the next write succeeds. -/
theorem writing_none_iff {w : World σ} {bytes : List Byte} (some_bytes : bytes ≠ [])
    (opened : w.self.socket.opened = true) :
    (w.writing bytes).1 = none ↔ w.self.socket.writes.head?.join = none := by
  cases outcome : w.self.socket.writes.head?.join <;> simp [World.writing, some_bytes, opened, outcome]

/-- The names go out whether or not they arrive. -/
theorem returns_sendFriends (ell : ErrorCode) (users : List Str) (w : World σ) :
    Returns (sendFriends ell users) w fun _ _ => True := by
  induction users generalizing ell w with
  | nil => exact returns_pure.mpr trivial
  | cons user rest ih =>
      simp only [sendFriends, sendIdWithDesc, returns_bind, returns_write, returns_when]
      split
      · simp only [errorHandle, returns_ite, returns_setSelf, returns_pure]
        split <;> exact ih _ _
      · exact ih _ _

theorem sendFriends_extends {A : Bool → Event → Prop} (wrote : ∀ b bytes, A b (.wrote bytes))
    (ell : ErrorCode) (users : List Str) (w : World σ) :
    Returns (sendFriends ell users) w fun _ t => Extends A w t :=
  ((returns_sendFriends ell users w).within (sendFriends_works wrote ell users)).mono
    fun _ _ => And.right

/-! ## Replies in a buffer of their own -/

/-- A new buffer with room for the header of the reply. -/
def replyBuffer : Except Fault PBuffer :=
  (PBuffer.ofSize 256).bind fun p => p.reserveWithTag Pchd.size headerTag

/-- The header finds its place. -/
def HeaderKept (p : PBuffer) : Prop := ∃ at_, p.getSrcReservedWithTag headerTag = .ok at_

theorem replyBuffer_kept {p : PBuffer} (made : replyBuffer = .ok p) : HeaderKept p := by
  have placed : replyBuffer.toOption.any fun p => (p.getSrcReservedWithTag headerTag).isOk := by decide
  rw [made] at placed
  cases slot : p.getSrcReservedWithTag headerTag with
  | ok at_ => exact ⟨at_, slot⟩
  | error e => simp [Except.toOption, slot, Except.isOk, Except.toBool] at placed

theorem replyBuffer_ends : ∃ p, replyBuffer = .ok p := by
  cases made : replyBuffer with
  | ok p => exact ⟨p, rfl⟩
  | error e => exact absurd (show replyBuffer.isOk by decide) (by simp [made, Except.isOk, Except.toBool])

theorem replyBuffer_eq_ok {p : PBuffer} : replyBuffer = .ok p ↔
    ∃ q, PBuffer.ofSize 256 = .ok q ∧ q.reserveWithTag Pchd.size headerTag = .ok p := by
  unfold replyBuffer
  cases PBuffer.ofSize 256 with
  | ok q => simp [Except.bind]
  | error e => simp [Except.bind]

theorem allocateSome_kept {p q : PBuffer} {src : List Byte} (kept : HeaderKept p)
    (took : p.allocateSome src = .ok q) : HeaderKept q := by
  rcases PBuffer.allocateSome_eq_ok.mp took with ⟨-, -, -, rfl⟩ | ⟨-, rfl⟩
  · exact kept
  · exact kept

theorem appendEntry_kept {got got' : PBuffer × Int} {record text : List Byte}
    (kept : HeaderKept got.1) (took : Qr.appendEntry got record text = .ok got') :
    HeaderKept got'.1 := by
  obtain ⟨p, first, rest⟩ := bind_eq_ok.mp took
  obtain ⟨q, second, same⟩ := bind_eq_ok.mp rest
  cases same
  exact allocateSome_kept (allocateSome_kept kept (PBuffer.allocateInside_eq_ok.mp first).2)
    (PBuffer.allocateInside_eq_ok.mp second).2

theorem inviteEntry_kept {lib : External σ} {got got' : PBuffer × Int} {row : Sql.ResultRow}
    (kept : HeaderKept got.1) (took : Qr.inviteEntry lib got row = .ok got') : HeaderKept got'.1 := by
  obtain ⟨sender, -, rest⟩ := bind_eq_ok.mp took
  obtain ⟨tableKey, -, rest⟩ := bind_eq_ok.mp rest
  obtain ⟨time, -, rest⟩ := bind_eq_ok.mp rest
  exact appendEntry_kept kept rest

theorem connectionEntry_kept {lib : External σ} {got got' : PBuffer × Int} {row : Sql.ResultRow}
    (took : Qr.connectionEntry lib got row = .ok got') : HeaderKept got'.1 :=
  absurd took Qr.connectionEntry_ne_ok

/-- Whatever a fetch appends, the header still finds its place. -/
theorem fetch_kept {E : Sql.Engine σ} {db : σ} {p : PBuffer} {text : Str}
    {entry : PBuffer × Int → Sql.ResultRow → Except Fault (PBuffer × Int)}
    (entries : ∀ got row got', HeaderKept got.1 → entry got row = .ok got' → HeaderKept got'.1)
    (kept : HeaderKept p) {f : Fetched}
    (fetched : ((Qr.fetch text entry p).run E db).result = .ok f) : HeaderKept f.buf := by
  obtain ⟨ran, -⟩ := Qr.fetch_eq_ok.mp fetched
  have all := eachRow_kept (P := fun got : PBuffer × Int => HeaderKept got.1) entries
    (show HeaderKept (p, (0 : Int)).1 from kept) ran
  exact all

theorem HeaderKept.filled {p : PBuffer} (kept : HeaderKept p) (src : List Byte) :
    ∃ q, p.allocateWithTag headerTag src = .ok q := by
  obtain ⟨at_, slot⟩ := kept
  exact ⟨{ p with data := poke p.data at_ src }, by simp [PBuffer.allocateWithTag, slot, Except.map]⟩

/-! ## The end of a task -/

section
variable (lib : External σ)

theorem sessionTask_waits {te : ErrorCode → M σ Unit} {w : World σ} (empty : w.self.pc.hQue = []) :
    sessionTask lib te none w = .ok () w.waits := by
  simp [sessionTask, bind_apply, empty, M.asyncRead, World.waits, Handler.asked]

theorem taskEnd_eq {w : World σ} {h : Pchd} (queue : w.self.pc.hQue = [h]) (err : ErrorCode) :
    taskEnd lib err w = sessionTask lib (taskEndWithin lib 0) err w.ended := by
  have popped : (M.pop : M σ Unit) w = .ok () w.pop := by simp [M.pop, bind_apply, queue]
  simp only [taskEnd, bind_apply, get_apply, queue, List.length_singleton, taskEndWithin, popped]
  rfl

/-- With no other header behind it, a task ends by waiting for the next. -/
theorem taskEnd_waits {w : World σ} {h : Pchd} (queue : w.self.pc.hQue = [h]) :
    taskEnd lib none w = .ok () w.ended.waits := by
  rw [taskEnd_eq lib queue, sessionTask_waits lib]
  simp [World.ended, World.pop, World.touchSource, queue]

/-- However a task ends, its header is popped. -/
theorem taskEnd_pops {w : World σ} {h : Pchd} (queue : w.self.pc.hQue = [h]) (err : ErrorCode) :
    Returns (taskEnd lib err) w fun _ t => t.popped = w.popped + 1 := by
  have one : (w.ended).self.pc.hQue = [] := by simp [World.ended, World.pop, World.touchSource, queue]
  rw [Returns, taskEnd_eq lib queue]
  cases err with
  | none => exact ⟨_, _, sessionTask_waits lib one, rfl⟩
  | some f =>
      simp only [sessionTask, Option.isSome_some, if_true, errorHandle]
      split
      · exact ⟨_, _, rfl, rfl⟩
      · exact ⟨_, _, rfl, rfl⟩

theorem returns_taskEnd {w : World σ} {h : Pchd} (queue : w.self.pc.hQue = [h])
    {Q : Unit → World σ → Prop} : Returns (taskEnd lib none) w Q ↔ Q () w.ended.waits :=
  returns_of_eq (taskEnd_waits lib queue)

/-! ## Commands -/

section
variable {w : World σ} {list : Vector Int 10} {Q : Unit → World σ → Prop}

/-- A reply made of rows is on its way. -/
def World.replied (w : World σ) (c : ECommand) (rows : List Sql.ResultRow) (bytes : List Byte) : World σ :=
  ((w.logged (.reply c rows)).logged (.wrote bytes)).started (.taskEnd false)

theorem returns_getNewIvt {h : Pchd} {rest : List Pchd} (queue : w.self.pc.hQue = h :: rest)
    (manager : w.self.checkManager = some list) :
    Returns (responseReqGetNewIvt lib none) w Q ↔ ∃ p, replyBuffer = .ok p ∧ ∃ f,
      ((Qr.getNewIvtReq lib w.self.userName p).run lib.engine w.db).result = .ok f ∧ ∃ q,
        f.buf.allocateWithTag headerTag
          (Pchd.toBytes { h with ack := 1, actionOrCommand := 1, count := wrap 32 f.count }) = .ok q ∧
        Q () ((w.ran .getNewIvtReq ((Qr.getNewIvtReq lib w.self.userName p).run lib.engine w.db)).replied
          .getIvt f.rows q.written) := by
  simp only [responseReqGetNewIvt, returns_bind, returns_front queue, returns_when, Option.isSome_none,
    Bool.false_eq_true, if_false, returns_lift, returns_checkManagerAt manager, returns_get,
    returns_runQuery, returns_emit, returns_asyncWrite, replyBuffer_eq_ok]
  have inside : (0 : Int) ≤ (CheckListIndex.tableIvt : Int) ∧ (CheckListIndex.tableIvt : Int) < 10 := by
    decide
  simp only [inside, and_self, true_and]
  constructor
  · rintro ⟨p, made, q, reserved, f, fetched, r, filled, post⟩
    exact ⟨q, ⟨p, made, reserved⟩, f, fetched, r, filled, post⟩
  · rintro ⟨q, ⟨p, made, reserved⟩, f, fetched, r, filled, post⟩
    exact ⟨p, made, q, reserved, f, fetched, r, filled, post⟩

theorem returns_getNewConc (manager : w.self.checkManager = some list) :
    Returns (responseReqGetNewConc lib none) w Q ↔ ∃ p, replyBuffer = .ok p ∧ ∃ f,
      ((Qr.getNewConnectionReq lib w.self.userName p (list.toArray.getD 2 0)).run lib.engine
        w.db).result = .ok f ∧ ∃ q,
        f.buf.allocateWithTag headerTag
          (Pchd.toBytes ⟨0, 1, ECommand.code .getConnection, 0, 0, wrap 32 f.count, 0⟩) = .ok q ∧
        Q () ((w.ran .getNewConnectionReq ((Qr.getNewConnectionReq lib w.self.userName p
          (list.toArray.getD 2 0)).run lib.engine w.db)).replied .getConnection f.rows q.written) := by
  simp only [responseReqGetNewConc, returns_bind, returns_when, Option.isSome_none,
    Bool.false_eq_true, if_false, returns_lift, returns_checkManagerAt manager, returns_get,
    returns_runQuery, returns_emit, returns_asyncWrite, replyBuffer_eq_ok]
  have inside : (0 : Int) ≤ (CheckListIndex.connectionReq : Int) ∧
      (CheckListIndex.connectionReq : Int) < 10 := by decide
  simp only [inside, and_self, true_and]
  constructor
  · rintro ⟨p, made, q, reserved, f, fetched, r, filled, post⟩
    exact ⟨q, ⟨p, made, reserved⟩, f, fetched, r, filled, post⟩
  · rintro ⟨q, ⟨p, made, reserved⟩, f, fetched, r, filled, post⟩
    exact ⟨p, made, q, reserved, f, fetched, r, filled, post⟩

/-- The header in front of the friends. -/
def friendsHeader (friends : List Str) : Pchd :=
  { Pchd.empty with ack := 1, count := wrap 32 friends.length }

theorem returns_getFriendList {te : ErrorCode → M σ Unit} :
    Returns (rgetFriendList lib te) w Q ↔ ∃ got,
      ((Qr.getFriendList w.self.userName).run lib.engine w.db).result = .ok got ∧
      let v := (w.ran .getFriendList ((Qr.getFriendList w.self.userName).run lib.engine w.db)).writing
        (friendsHeader got.1).toBytes
      v.1 = none ∧ Returns (sendFriends none got.1) (v.2.logged (.reply .getFriendList got.2))
        fun ell t => Returns (te ell) t Q := by
  simp only [rgetFriendList, returns_bind, returns_get, returns_runQuery, returns_writeOrThrow,
    returns_emit, friendsHeader]

end

end
end NineProject
