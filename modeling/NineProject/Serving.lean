import NineProject.Service

/-! # Sessions that serve

Each handler of a session follows the service, from the state in which its request has
arrived: nothing that a client or another session could see happens outside the moment at
which the request is served.
-/

namespace NineProject

open Bytes M Effect Sql

variable {σ α : Type}

/-- What is seen of a session, with these requests to serve. -/
def World.service (todo : List Sent) (w : World σ) : Service σ where
  userName := w.self.userName
  checkManager := w.self.checkManager
  nf := w.self.nf
  initialized := w.self.initialized
  notice := w.self.notice
  sent := sent w.log
  todo := todo
  db := w.db
  nmap := w.nmap

theorem sent_concat {e : Event} (quiet : ∀ bytes, e ≠ .wrote bytes) (log : List Event) :
    sent (log ++ [e]) = sent log := by
  have silent : sent [e] = [] := sent_quiet (by simpa using quiet)
  rw [sent_append, silent, List.append_nil]

/-- Nothing is seen of it. -/
def Unseen (w t : World σ) : Prop := ∀ todo, t.service todo = w.service todo

namespace Unseen

instance : Std.Refl (Unseen (σ := σ)) := ⟨fun _ _ => rfl⟩

instance : IsTrans (World σ) Unseen := ⟨fun _ _ _ first second todo => (second todo).trans (first todo)⟩

theorem logged {e : Event} (quiet : ∀ bytes, e ≠ .wrote bytes) (w : World σ) : Unseen w (w.logged e) := by
  intro todo
  simp only [World.service, World.logged, sent_concat quiet]

theorem touched (f : PBuffer → PBuffer) (w : World σ) : Unseen w (w.touchSource f) := by
  intro todo
  simp [World.service, World.touchSource, sent_concat]

theorem started (w : World σ) (handler : Handler) : Unseen w (w.started handler) := fun _ => rfl

theorem ended (w : World σ) : Unseen w w.ended := by
  have popped : Unseen w w.pop := fun todo => by
    simp [World.service, World.pop, sent_concat]
  exact IsTrans.trans _ _ _ popped (touched PBuffer.initRecord w.pop)

theorem waits (w : World σ) : Unseen w w.waits :=
  IsTrans.trans _ _ _ (logged (by simp) w) (started _ _)

/-! ### Reads -/

theorem lift (r : Except Fault α) : Within Unseen (fun _ => True) (M.lift r : M σ α) := by
  cases r with
  | ok a => exact Within.pure a
  | error e => exact Within.throw trivial

theorem read (dest : Dest) (asked : Int) (allocated : Nat) :
    Within Unseen (fun _ => True) (M.read dest asked allocated : M σ (List Byte)) := by
  apply Within.bind
  · exact Within.modify fun w => logged (by simp) w
  · intro _
    apply Within.bind Within.get
    intro w
    apply Within.ite (Within.pure _)
    apply Within.ite (Within.throw trivial)
    apply Within.ite (Within.throw trivial)
    apply Within.ite
    · exact Within.bind (Within.modify fun w _ => rfl) fun _ => Within.pure _
    · cases w.self.socket.fault with
      | some f => exact Within.throw trivial
      | none => exact Within.throw trivial

theorem readSource (size : Int) : Within Unseen (fun _ => True) (readSource size : M σ Str) := by
  have touching : ∀ f, Within Unseen (fun _ => True) (touchSource f : M σ Unit) :=
    fun f => Within.modify (touched f)
  apply Within.bind (touching _)
  intro _
  apply Within.bind Within.get
  intro _
  apply Within.bind (read _ _ _)
  intro bytes
  exact Within.bind (touching _) fun _ => Within.bind Within.get fun _ => lift _

theorem readTarget (size : Int) : Within Unseen (fun _ => True) (readTarget size : M σ Str) :=
  Within.bind (lift _) fun _ => Within.bind (read _ _ _) fun _ => lift _

theorem readInvited (data : List Byte) (n : Nat) :
    Within Unseen (fun _ => True) (readInvited data n : M σ (List Str)) := by
  induction n generalizing data with
  | zero => exact Within.pure _
  | succ n ih =>
      apply Within.bind (read _ _ _)
      intro us
      apply Within.bind (read _ _ _)
      intro bytes
      apply Within.bind (Within.ite (Within.throw trivial) (Within.pure _))
      intro _
      apply Within.bind (Within.ite (Within.throw trivial) (Within.pure _))
      intro _
      exact Within.bind (ih _) fun rest => Within.pure _

end Unseen

/-! ## What is seen -/

section
variable (lib : External σ) (todo : List Sent)

theorem ran_service (call : QrCall) (r : Ran σ Fault α) (w : World σ) :
    (w.ran call r).service todo = { w.service todo with db := r.db } := by
  have silent : sent (r.executed.map (.exec call)) = [] := sent_quiet fun e member => by
    obtain ⟨text, -, rfl⟩ := List.mem_map.mp member
    simp
  simp only [World.service, World.ran, sent_append, silent, List.append_nil]

theorem wrote_service (bytes : List Byte) (w : World σ) :
    (w.logged (.wrote bytes)).service todo =
      { w.service todo with sent := (w.service todo).sent ++ bytes } := by
  simp [World.service, World.logged, sent]

theorem notify_service (user : Str) (task : Nat) (w : World σ) :
    (w.notify user task).service todo =
      { w.service todo with nmap := (w.service todo).nmap.notify user task } := by
  unfold World.notify
  split
  · simp [World.service, sent_concat]
  · next unknown =>
      have same : w.nmap.notify user task = w.nmap := by
        rw [NMap.notify, Option.not_isSome_iff_eq_none.mp unknown]
      simp only [World.service, same]

theorem notifyAll_service (users : List Str) (task : Nat) (w : World σ) :
    (users.foldl (fun w user => w.notify user task) w).service todo =
      { w.service todo with nmap := (w.service todo).nmap.notifyWithList users task } := by
  induction users generalizing w with
  | nil => rfl
  | cons user rest ih =>
      rw [List.foldl_cons, ih, notify_service]
      rfl

variable {todo} {w : World σ}

/-- A write that succeeds is seen. -/
theorem writing_service {bytes : List Byte} (succeeds : (w.writing bytes).1 = none) :
    (w.writing bytes).2.service todo = { w.service todo with sent := (w.service todo).sent ++ bytes } := by
  by_cases empty : bytes = []
  · simp [World.writing, empty]
  · by_cases closed : w.self.socket.opened = false
    · simp [World.writing, empty, closed] at succeeds
    · cases outcome : w.self.socket.writes.head?.join with
      | some f => simp [World.writing, empty, closed, outcome] at succeeds
      | none =>
          simp only [World.writing, empty, closed, outcome, if_false]
          exact wrote_service todo bytes _

/-! ## What follows the service -/

theorem follows_runQuery {β : Type} (call : QrCall) {q : Query β} {f : β → M σ α} {g : β → Serve σ α}
    (rest : ∀ b, (q.run lib.engine w.db).result = .ok b →
      Follows (World.service todo) (f b) (g b) (w.ran call (q.run lib.engine w.db))) :
    Follows (World.service todo) (runQuery lib call q >>= f) (ask lib q >>= g) w := by
  refine ifReturns_bind.mpr (ifReturns_runQuery.mpr fun b found => ?_)
  have asked : (ask lib q).run (w.service todo) = some (b, (w.ran call (q.run lib.engine w.db)).service todo) := by
    rw [ran_service]
    exact ask_run found
  intro a t ran
  rw [StateT.run_bind, asked]
  exact rest b found a t ran

theorem follows_query (call : QrCall) (q : Query α) :
    Follows (World.service todo) (runQuery lib call q) (ask lib q) w := by
  have last : Follows (World.service todo) (runQuery lib call q >>= Pure.pure) (ask lib q >>= Pure.pure) w :=
    follows_runQuery lib call fun b _ => Follows.pure b _
  simpa only [bind_pure] using last

theorem ifReturns_front {Q : Pchd → World σ → Prop} : IfReturns front w Q ↔ ∀ h ∈ w.self.pc.hQue.head?, Q h w := by
  simp only [M.front, ifReturns_bind, ifReturns_get]
  cases w.self.pc.hQue <;> simp

theorem follows_notifyAll (users : List Str) (task : Nat) :
    Follows (World.service todo) (nmapNotifyWithList users task) (tell users task) w := by
  have ends : Returns (nmapNotifyWithList users task) w fun _ t =>
      t = users.foldl (fun w user => w.notify user task) w := returns_nmapNotifyWithList.mpr rfl
  obtain ⟨_, t, ran, rfl⟩ := ends
  intro a u ran'
  cases ran.symm.trans ran'
  rw [notifyAll_service]
  rfl

theorem follows_writeOrThrow (bytes : List Byte) :
    Follows (World.service todo) (writeOrThrow bytes) (send bytes) w := by
  refine ifReturns_writeOrThrow.mpr fun succeeds => ?_
  rw [writing_service succeeds]
  rfl

theorem follows_asyncWrite (bytes : List Byte) (fromSource : Bool) :
    Follows (World.service todo) (asyncWrite bytes fromSource) (send bytes) w :=
  Follows.modify (wrote_service todo bytes w)

/-- The end of a task is not seen. -/
theorem taskEnd_unseen {h : Pchd} (queue : w.self.pc.hQue = [h]) :
    IfReturns (taskEnd lib none) w fun _ t => t.service todo = w.service todo := by
  intro _ t ran
  cases (taskEnd_waits lib queue).symm.trans ran
  exact IsTrans.trans _ _ _ (Unseen.ended w) (Unseen.waits _) todo

/-! ### Logins -/

theorem follows_letIn (id : Str) (accepted : Bool) :
    Follows (World.service todo) (when accepted (sessionInit lib none id)) (letIn lib id accepted) w := by
  cases accepted with
  | false => exact Follows.pure _ _
  | true =>
      have ran : (when true (sessionInit lib none id) : M σ Unit) = runQuery lib .getCheckList (Qr.getCheckList id) >>=
          fun list => (setSelf fun s => { s with checkManager := some list, userName := id }) >>=
            fun _ => modify fun w => w.login id := rfl
      rw [ran]
      refine follows_runQuery lib .getCheckList fun list _ => ?_
      intro _ t ended
      cases ended
      rfl

theorem follows_login (id pw : Str) :
    Follows (World.service todo) (loginWith lib id pw) (serveLogin lib id pw) w := by
  refine follows_runQuery lib .checkUserPassword fun accepted _ => ?_
  refine Follows.silent (ifReturns_modify.mpr ⟨Unseen.logged (by simp) _ todo, ?_⟩)
  refine (follows_letIn lib id accepted).bind fun _ t _ => ?_
  exact Follows.silent (ifReturns_front.mpr fun _ _ => ⟨rfl, follows_asyncWrite _ _⟩)

/-! ### Commands -/

/-- The texts that a reply is made of are short enough for its buffer. -/
def ShortTexts (parts : ResultRow → Except Fault (List Byte × List Byte)) (rows : List ResultRow) : Prop :=
  ∀ row ∈ rows, ∀ e ∈ (parts row).toOption, e.2.length ≤ 256

instance (parts : ResultRow → Except Fault (List Byte × List Byte)) (rows : List ResultRow) :
    Decidable (ShortTexts parts rows) :=
  inferInstanceAs (Decidable (∀ row ∈ rows, ∀ e ∈ (parts row).toOption, e.2.length ≤ 256))

theorem ivtParts_record {row : ResultRow} {e : List Byte × List Byte} (made : ivtParts lib row = .ok e) :
    e.1.length ≤ 256 := by
  obtain ⟨sender, -, made⟩ := bind_eq_ok.mp made
  obtain ⟨tableKey, -, made⟩ := bind_eq_ok.mp made
  obtain ⟨time, -, made⟩ := bind_eq_ok.mp made
  cases made
  simp [StrtIvtResponse.size]

theorem concParts_ne_ok {row : ResultRow} {e : List Byte × List Byte} : concParts lib row ≠ .ok e := by
  intro made
  obtain ⟨sender, -, made⟩ := bind_eq_ok.mp made
  obtain ⟨time, -, made⟩ := bind_eq_ok.mp made
  cases made

/-- The bytes of a reply are its header and the entries of its rows. -/
theorem entries_written {entry : PBuffer × Int → ResultRow → Except Fault (PBuffer × Int)}
    {parts : ResultRow → Except Fault (List Byte × List Byte)} (appends : Appends entry parts) {db : σ} {text : Str}
    (records : ∀ row e, parts row = .ok e → e.1.length ≤ 256) (short : ShortTexts parts (lib.engine.exec db text).2)
    {header : Int → Pchd} {p q : PBuffer} {f : Fetched} (made : replyBuffer = .ok p)
    (fetched : ((Qr.fetch text entry p).run lib.engine db).result = .ok f)
    (filled : f.buf.allocateWithTag headerTag (header f.count).toBytes = .ok q) :
    ∃ es : List (List Byte × List Byte), ((entriesOf parts text).run lib.engine db).result = .ok es ∧
      q.written = (header es.length).toBytes ++ es.flatMap Layout.encode := by
  obtain ⟨ran, -, -⟩ := Qr.fetch_eq_ok.mp fetched
  obtain ⟨es, all, put, count⟩ := appends.eachRow.mp ran
  have small : ∀ c ∈ chunksOf es, c.length ≤ 256 := by
    intro c member
    obtain ⟨e, there, one⟩ := List.mem_flatMap.mp member
    obtain ⟨i, inside, rfl⟩ := List.getElem_of_mem there
    have found : i < (lib.engine.exec db text).2.length := all.length_eq ▸ inside
    have parted : parts (lib.engine.exec db text).2[i] = .ok es[i] := all.get found inside
    rcases List.mem_pair.mp one with rfl | rfl
    · exact records _ _ parted
    · exact short _ (List.getElem_mem found) _ (by simp [parted, Except.toOption])
  obtain ⟨q', filled', written⟩ := reply_written small made (appendAll_eq_ok.mp put).2 (header f.count).toBytes_length
  obtain rfl : q = q' := Except.ok.inj (filled.symm.trans filled')
  refine ⟨es, ?_, ?_⟩
  · rw [entriesOf, query_run]
    exact eachRow_collect.mpr ⟨es, rfl, all⟩
  · rw [written, count, all.length_eq, Int.zero_add]

theorem follows_entries (call : QrCall) (c : ECommand)
    {entry : PBuffer × Int → ResultRow → Except Fault (PBuffer × Int)}
    {parts : ResultRow → Except Fault (List Byte × List Byte)} (appends : Appends entry parts) {text : Str}
    (records : ∀ row e, parts row = .ok e → e.1.length ≤ 256) (short : ShortTexts parts (lib.engine.exec w.db text).2)
    {header : Int → Pchd} {m : M σ Unit}
    (replies : ∀ t, m w = .ok () t → ∃ p, replyBuffer = .ok p ∧ ∃ f,
      ((Qr.fetch text entry p).run lib.engine w.db).result = .ok f ∧ ∃ q,
        f.buf.allocateWithTag headerTag (header f.count).toBytes = .ok q ∧
        t = (w.ran call ((Qr.fetch text entry p).run lib.engine w.db)).replied c f.rows q.written) :
    Follows (World.service todo) m (sendEntries lib header (entriesOf parts text)) w := by
  intro _ t ran
  obtain ⟨p, made, f, fetched, q, filled, rfl⟩ := replies t ran
  obtain ⟨es, ends, written⟩ := entries_written lib appends records short made fetched filled
  have db : ((Qr.fetch text entry p).run lib.engine w.db).db = ((entriesOf parts text).run lib.engine w.db).db := by
    rw [Qr.fetch_db, entriesOf, query_run]
  rw [sendEntries, StateT.run_bind, ask_run (s := w.service todo) ends]
  rw [World.replied, Unseen.started, wrote_service, Unseen.logged (by simp), ran_service, db, written]
  rfl

theorem follows_getIvt {h : Pchd} {rest : List Pchd} {list : Vector Int 10} (queue : w.self.pc.hQue = h :: rest)
    (manager : w.self.checkManager = some list)
    (short : ShortTexts (ivtParts lib) (lib.engine.exec w.db
      (selectQuery .invite (0, .string w.self.userName) Compare.equal SelectTarget.all)).2) :
    Follows (World.service todo) (responseReqGetNewIvt lib none) (serveCommand lib h .getIvt) w := by
  refine follows_entries lib .getNewIvtReq .getIvt (inviteEntry_appends lib) (fun row e => ivtParts_record lib) short
    fun t ran => ?_
  have returns : Returns (responseReqGetNewIvt lib none) w fun _ v => t = v := ⟨(), t, ran, rfl⟩
  exact (returns_getNewIvt lib queue manager).mp returns

theorem follows_getConnection {h : Pchd} {list : Vector Int 10} (manager : w.self.checkManager = some list) :
    Follows (World.service todo) (responseReqGetNewConc lib none) (serveCommand lib h .getConnection) w := by
  have known : (w.service todo).checkManager = some list := manager
  have served : (serveCommand lib h .getConnection).run (w.service todo) = (sendEntries lib concHeader
      (entriesOf (concParts lib) (selectQuery2 .connectionRequest (1, .string w.self.userName)
        (-2, .int (list.toArray.getD 2 0)) Compare.equal Compare.equalAndHigher SelectTarget.all))).run
      (w.service todo) := by
    simp [serveCommand, known]
    rfl
  intro a t ran
  rw [served]
  refine follows_entries lib .getNewConnectionReq .getConnection (connectionEntry_appends lib)
    (fun row e made => absurd made (concParts_ne_ok lib)) (fun row _ e made => ?_) (fun t ran => ?_) a t ran
  · cases parted : concParts lib row with
    | ok e => exact absurd parted (concParts_ne_ok lib)
    | error f => simp [parted, Except.toOption] at made
  · have returns : Returns (responseReqGetNewConc lib none) w fun _ v => t = v := ⟨(), t, ran, rfl⟩
    exact (returns_getNewConc lib manager).mp returns

theorem sendFriends_service (users : List Str) (writes : w.Writes) :
    IfReturns (sendFriends none users) w fun ell t => ell = none ∧ t.self.pc = w.self.pc ∧ t.service todo =
      { w.service todo with sent := (w.service todo).sent ++ (users.map friendEntry).flatMap Layout.encode } := by
  induction users generalizing w with
  | nil => exact ifReturns_pure.mpr ⟨rfl, rfl, by simp⟩
  | cons user rest ih =>
      obtain ⟨record, one⟩ := writing_wrote writes (UserDescriptor.toBytes ⟨wrap 32 user.length, 0⟩)
      obtain ⟨name, two⟩ := writing_wrote one.writes user
      simp only [sendFriends, sendIdWithDesc, ifReturns_bind, ifReturns_write, name, M.when, Option.isSome_none,
        Bool.false_eq_true, if_false, ifReturns_pure]
      intro ell t ran
      obtain ⟨ended, pc, seen⟩ := ih two.writes ell t ran
      refine ⟨ended, pc.trans (two.pc.trans one.pc), ?_⟩
      rw [seen, writing_service name, writing_service record]
      simp [friendEntry, Layout.encode]

theorem follows_getFriendList {h asked : Pchd} (queue : w.self.pc.hQue = [h]) (writes : w.Writes) :
    Follows (World.service todo) (rgetFriendList lib (taskEnd lib)) (serveCommand lib asked .getFriendList) w := by
  apply Follows.read
  refine follows_runQuery lib .getFriendList fun got found => ?_
  obtain ⟨friends, rows⟩ := got
  generalize ran : w.ran .getFriendList _ = v
  have self : v.self = w.self := by
    rw [← ran]
    rfl
  have writing : v.Writes := ⟨by rw [self]; exact writes.opened, by rw [self]; exact writes.succeed⟩
  obtain ⟨succeeds, wrote⟩ := writing_wrote writing (friendsHeader friends).toBytes
  have header : (v.writing (friendsHeader friends).toBytes).2.service todo = _ := writing_service succeeds
  show Follows _ (writeOrThrow (friendsHeader friends).toBytes >>= fun _ => emit (.reply .getFriendList rows) >>=
    fun _ => sendFriends none friends >>= taskEnd lib) (send (friendsReply friends)) v
  refine ifReturns_bind.mpr (ifReturns_writeOrThrow.mpr fun _ => ?_)
  generalize (v.writing (friendsHeader friends).toBytes).2 = x at wrote header ⊢
  refine ifReturns_bind.mpr (ifReturns_modify.mpr (ifReturns_bind.mpr fun ell u ran' => ?_))
  have quiet := Unseen.logged (e := .reply .getFriendList rows) (by simp) x todo
  have writes' : (x.logged (.reply .getFriendList rows)).Writes := ⟨wrote.writes.opened, wrote.writes.succeed⟩
  obtain ⟨rfl, pc, seen⟩ := sendFriends_service friends writes' ell u ran'
  have front : u.self.pc.hQue = [h] := by
    rw [pc, ← queue, ← self, ← wrote.pc]
    rfl
  intro _ t ended
  rw [taskEnd_unseen lib front _ t ended, seen, quiet, header]
  simp [send, friendsReply]

/-- What a command replies with is short. -/
def ShortReply (w : World σ) : ECommand → Prop
  | .getIvt => ShortTexts (ivtParts lib) (lib.engine.exec w.db
      (selectQuery .invite (0, .string w.self.userName) Compare.equal SelectTarget.all)).2
  | .getMsg | .getConnection | .getFriendList => True

instance decidableShortReply (w : World σ) (c : ECommand) : Decidable (ShortReply lib w c) := by
  cases c <;> unfold ShortReply <;> infer_instance

theorem follows_command {h : Pchd} {c : ECommand} {list : Vector Int 10} (commanded : h.commanded = some c)
    (other : c ≠ .getMsg) (queue : w.self.pc.hQue = [h]) (manager : w.self.checkManager = some list)
    (writes : w.Writes) (short : ShortReply lib w c) :
    Follows (World.service todo) (readHandle lib (taskEnd lib) none) (serveCommand lib h c) w := by
  unfold Pchd.commanded at commanded
  split at commanded
  · next told =>
      let u := w.dispatched h
      have seen : u.service todo = w.service todo := by
        simp [u, World.service, World.dispatched, sent_concat]
      have handles : Follows (World.service todo) (commandHandler lib (taskEnd lib) none c) (serveCommand lib h c) u := by
        cases c with
        | getMsg => exact absurd rfl other
        | getIvt => exact follows_getIvt lib (w := u) queue manager short
        | getConnection => exact follows_getConnection lib (w := u) manager
        | getFriendList => exact follows_getFriendList lib (w := u) queue ⟨writes.opened, writes.succeed⟩
      refine Follows.silent (ifReturns_front.mpr fun h' front => ⟨rfl, ?_⟩)
      obtain rfl : h = h' := by simpa [queue] using front
      refine Follows.silent (ifReturns_modify.mpr ⟨seen, ?_⟩)
      rw [if_pos told]
      refine Follows.silent (ifReturns_front.mpr fun h' front => ⟨rfl, ?_⟩)
      obtain rfl : h = h' := by simpa [World.dispatched, queue] using front
      refine Follows.silent fun _ t checked => ?_
      have kept := checkManagerAt_same (P := fun v => u = v) (E := fun _ _ => True)
        (commandNumberToCheckListIndex h.comd) (fun _ _ _ => trivial) u rfl
      rw [checked] at kept
      obtain rfl : u = t := kept
      refine ⟨rfl, ?_⟩
      simp only [commanded]
      exact handles
  · cases commanded

/-! ### Actions -/

/-- The text of a request, from the bytes that are next. -/
theorem readSource_text {bytes rest : List Byte} (fits : w.wire.Fits) (short : bytes.length ≤ 1024)
    (input : w.wire.input = bytes ++ rest) :
    IfReturns (readSource bytes.length) w fun text t => text = bytes ∧ Unseen w t := by
  intro text t ran
  have reads := readSource_there fits.opened input (by rw [fits.source]; exact short) (short.trans_lt (by decide))
  obtain ⟨text', t', ran', is, -⟩ := reads
  cases ran.symm.trans ran'
  exact ⟨is, (Unseen.readSource _).returned ran⟩

/-- Of the name that is read nothing counts as written. -/
theorem readTarget_text (size : Int) :
    IfReturns (readTarget size) w fun target t => target = [] ∧ Unseen w t := by
  intro target t ran
  refine ⟨?_, (Unseen.readTarget _).returned ran⟩
  have empty : IfReturns (readTarget size) w fun target _ => target = [] := by
    simp only [readTarget, ifReturns_bind, ifReturns_lift]
    intro p made bytes u _ target read
    exact Except.ok.inj (read.symm.trans (getter_empty made bytes))
  exact empty target t ran

/-- The names of those invited, from the descriptors and names that are next. -/
theorem readInvited_names {invited : List (List Byte × Str)} {rest : List Byte}
    (sizes : ∀ p ∈ invited, p.1.length = UserDescriptor.size ∧ (UserDescriptor.ofBytes p.1).idSize = p.2.length ∧
      p.2.length ≤ 256) {data : List Byte} (room : data.length = 256) (opened : w.wire.opened = true)
    (input : w.wire.input = (invited.flatMap fun p => p.1 ++ p.2) ++ rest) :
    IfReturns (readInvited data invited.length) w fun cont t =>
      cont = invited.map Prod.snd ∧ Unseen w t := by
  intro cont t ran
  refine ⟨?_, (Unseen.readInvited _ _).returned ran⟩
  suffices names : IfReturns (readInvited data invited.length) w fun cont _ => cont = invited.map Prod.snd from
    names cont t ran
  clear ran
  induction invited generalizing w data with
  | nil => exact ifReturns_pure.mpr rfl
  | cons p others ih =>
      obtain ⟨size, idSize, short⟩ := sizes p List.mem_cons_self
      have front : w.self.socket.input = p.1 ++ (p.2 ++ ((others.flatMap fun p => p.1 ++ p.2) ++ rest)) := by
        apply Eq.trans input
        simp only [List.flatMap_cons, List.append_assoc]
      let u := (w.logged (.read .descriptor p.1.length p.1.length)).consume p.1.length
      have next : u.self.socket.input = p.2 ++ ((others.flatMap fun p => p.1 ++ p.2) ++ rest) := by
        have taken : u.self.socket.input = w.self.socket.input.drop p.1.length := rfl
        rw [taken, front, List.drop_left]
      let v := (u.logged (.read .data p.2.length data.length)).consume p.2.length
      have descriptor : M.read .descriptor p.1.length p.1.length w = .ok p.1 u :=
        read_there (by rw [size]; decide) le_rfl opened front
      have asked : min data.length (sizeT p.2.length) = p.2.length := by
        rw [sizeT_length (short.trans_lt (by decide)), room, min_eq_right short]
      have name : M.read .data p.2.length data.length u = .ok p.2 v :=
        read_there (short.trans_lt (by decide)) (room ▸ short) opened next
      have left : v.wire.input = (others.flatMap fun p => p.1 ++ p.2) ++ rest := by
        have taken : v.wire.input = u.self.socket.input.drop p.2.length := rfl
        rw [taken, next, List.drop_left]
      have copied : (poke data 0 p.2).take p.2.length = p.2 := by
        have copy : ((poke data (0 : Nat) p.2).drop 0).take p.2.length = p.2 := poke_inside (by omega)
        exact copy
      simp only [List.length_cons, readInvited, ifReturns_bind, ← size]
      rw [ifReturns_of_eq descriptor]
      simp only [idSize, asked]
      rw [ifReturns_of_eq name, M.when, if_neg (by omega), ifReturns_pure, M.when,
        if_neg (by rw [poke_length, room]; omega), ifReturns_pure]
      intro names t ran
      have later := ih (w := v) (fun q member => sizes q (List.mem_cons_of_mem p member)) (by simpa using room) opened
        left names t ran
      rw [ifReturns_pure, later, Int.toNat_natCast, copied]
      rfl

theorem follows_recipients {p : Payload} {a : EAction} {mem rest : List Byte} (action : p.action = some a)
    (request : a ≠ .reqLog) (wellFormed : p.WellFormed) (fits : w.wire.Fits) (room : mem.length = Pchd.size)
    (hBuf : w.self.hBuf.data = poke mem 0 p.record) (input : w.wire.input = p.announced ++ rest) :
    Follows (World.service todo) (recipients lib none a) (concerned lib p) w := by
  cases p with
  | command c => cases action
  | login id pw =>
      cases action
      exact absurd rfl request
  | message record text =>
      cases action
      obtain ⟨size, sz, short⟩ := wellFormed
      have read : MsReq.ofBytes w.self.hBuf.data = MsReq.ofBytes record := by
        rw [hBuf]
        exact received_record MsReq.ofBytes_take size (by rw [room]; decide)
      refine Follows.silent (ifReturns_get.mpr ⟨rfl, ?_⟩)
      simp only [read, sz]
      refine Follows.silent fun got t ran => ?_
      obtain ⟨rfl, seen⟩ := readSource_text fits short input got t ran
      refine ⟨seen todo, follows_runQuery lib .insertMessage fun _ _ => ?_⟩
      exact follows_query lib .getDiningMembers _
  | connection record receiver =>
      cases action
      obtain ⟨size, sz, short⟩ := wellFormed
      have read : ConcRequest.ofBytes w.self.hBuf.data = ConcRequest.ofBytes record := by
        rw [hBuf]
        exact received_record ConcRequest.ofBytes_take size (by rw [room]; decide)
      apply Follows.read
      simp only [read, sz]
      refine Follows.silent fun got t ran => ?_
      obtain ⟨rfl, seen⟩ := readSource_text fits short input got t ran
      exact ⟨seen todo, follows_runQuery lib .insertConnection fun _ _ => Follows.pure _ _⟩
  | invite record target =>
      cases action
      obtain ⟨size, sz, short⟩ := wellFormed
      have read : IvtReq.ofBytes w.self.hBuf.data = IvtReq.ofBytes record := by
        rw [hBuf]
        exact received_record IvtReq.ofBytes_take size (by rw [room]; decide)
      refine Follows.silent (ifReturns_pure.mpr ⟨rfl, ?_⟩)
      apply Follows.read
      simp only [read]
      refine Follows.silent fun got t ran => ?_
      obtain ⟨rfl, seen⟩ := readTarget_text _ got t ran
      exact ⟨seen todo, follows_runQuery lib .insertInvite fun _ _ => Follows.pure _ _⟩
  | table record invited =>
      cases action
      obtain ⟨size, participations, sizes⟩ := wellFormed
      have read : CreateTableReq.ofBytes w.self.hBuf.data = CreateTableReq.ofBytes record := by
        rw [hBuf]
        exact received_record CreateTableReq.ofBytes_take size (by rw [room]; decide)
      apply Follows.read
      simp only [read, participations, Int.toNat_natCast]
      refine Follows.silent fun got t ran => ?_
      obtain ⟨rfl, seen⟩ := readInvited_names sizes (List.length_replicate ..) fits.opened input got t ran
      refine ⟨seen todo, follows_runQuery lib .createTable fun key _ => ?_⟩
      exact (follows_writeOrThrow _).bind fun _ _ _ => Follows.pure _ _

theorem serve_action {r : Sent} {a : EAction} (action : r.payload.action = some a) (request : a ≠ .reqLog) :
    serve lib r = concerned lib r.payload >>= fun users => tell users a.flag := by
  obtain ⟨header, payload⟩ := r
  cases payload with
  | command c => cases action
  | login id pw =>
      cases action
      exact absurd rfl request
  | message record text | connection record receiver | invite record target | table record invited =>
      cases action
      rfl

theorem follows_action {r : Sent} {a : EAction} {h : Pchd} {mem rest : List Byte} (action : r.payload.action = some a)
    (request : a ≠ .reqLog) (wellFormed : r.payload.WellFormed) (fits : w.wire.Fits) (room : mem.length = Pchd.size)
    (hBuf : w.self.hBuf.data = poke mem 0 r.payload.record) (input : w.wire.input = r.payload.announced ++ rest)
    (queue : w.self.pc.hQue = [h]) : Follows (World.service todo) (actionHandler lib a none) (serve lib r) w := by
  rw [actionHandler_announces lib request, serve_action lib action request]
  have concerns : Follows (World.service todo) (recipients lib none a) (concerned lib r.payload) w :=
    follows_recipients lib action request wellFormed fits room hBuf input
  refine concerns.bind fun users t ran => (follows_notifyAll users a.flag).after fun u told => ?_
  have quiet := recipients_quiet lib none a w
  rw [ran] at quiet
  have listed : Returns (nmapNotifyWithList users a.flag) t fun _ v =>
      v = users.foldl (fun w user => w.notify user a.flag) t := returns_nmapNotifyWithList.mpr rfl
  obtain ⟨_, v, told', rfl⟩ := listed
  cases told.symm.trans told'
  apply taskEnd_unseen
  rw [(notifyAll users a.flag t).2.1, quiet.pc, queue]

end

end NineProject
