import NineProject.Session.Moves

/-! # Every step is made of moves

`session.cpp` once more, handler by handler, with the moves each is made of. What a
handler needs to know of its own middle, that a reply goes to the user it was fetched
for and comes from a database that is still there, is carried along as internal work.
-/

namespace NineProject

open Bytes M Effect Sql Relation

variable {σ α : Type} {lib : External σ} {N : Str → Prop}

theorem Makes.bind {β : Type} {m : M σ α} {f : α → M σ β} (first : Makes lib N m) (rest : ∀ a, Makes lib N (f a)) :
    Makes lib N (m >>= f) := fun w => (first w).bind fun a t _ => rest a t

/-- What is made behind a move is made with it. -/
theorem Makes.after {m : M σ α} (makes : Makes lib N m) {w v : World σ} (move : Move lib N w v)
    (running : w.stopped = none) (goes : v.stopped = w.stopped) : match m v with
      | .ok _ t => Moves lib N w t ∧ t.stopped = none ∧ True
      | .error e t => Moves lib N w { t with stopped := some e } := by
  have made := makes v (goes.trans running)
  cases ran : m v with
  | ok a t =>
      rw [ran] at made
      exact ⟨.head move made.1, made.2⟩
  | error e t =>
      rw [ran] at made
      exact .head move made

theorem Makes.work {m : M σ α} (work : Internal.Work m) : Makes lib N m := fun _ => (Does.work work).mono fun _ _ _ => trivial

theorem Makes.when {c : Prop} [Decidable c] {m : M σ Unit} (makes : Makes lib N m) : Makes lib N (M.when c m) :=
  fun w => .ite (fun _ => makes w) fun _ => .pure trivial

theorem notify_makes (user : Str) (task : Nat) : Makes lib N (nmapNotify user task : M σ Unit) :=
  by
  refine fun w => .modify (fun running => .notify running user task) ?_ trivial
  unfold World.notify
  split <;> rfl

theorem notifyWithList_makes (users : List Str) (task : Nat) :
    Makes lib N (nmapNotifyWithList users task : M σ Unit) := by
  induction users with
  | nil => exact Makes.work (.pure _)
  | cons user rest ih => exact (notify_makes user task).bind fun _ => ih

/-! ## Login -/

theorem sessionInit_eq (w : World σ) (id : Str) : sessionInit lib none id w =
    match ((Qr.getCheckList id).run lib.engine w.db).result with
    | .ok list => .ok () ((w.listed lib id).admitted id list)
    | .error e => .error (.fault e) (w.listed lib id) := by
  have asked : sessionInit lib none id w = (lift ((Qr.getCheckList id).run lib.engine w.db).result >>= fun list => do
      setSelf fun s => { s with checkManager := some list, userName := id }
      modify fun w => w.login id : M σ Unit) (w.listed lib id) := rfl
  rw [asked]
  cases ((Qr.getCheckList id).run lib.engine w.db).result with
  | ok list => rfl
  | error e => rfl

/-- A password check, its answer and what comes of it. -/
theorem login_makes {id pw : Str} (sent : N id) {rest : Bool → M σ Unit}
    (makes : ∀ result, Makes lib N (rest result)) :
    Makes lib N (do
      let result ← runQuery lib .checkUserPassword (Qr.checkUserPassword id pw)
      emit (.login result)
      M.when result (sessionInit lib none id)
      rest result) := by
  intro w running
  let r := (Qr.checkUserPassword id pw).run lib.engine w.db
  have asked : ∀ f : Bool → M σ Unit, (runQuery lib .checkUserPassword (Qr.checkUserPassword id pw) >>= f) w =
      (lift r.result >>= f) (w.ran .checkUserPassword r) := fun _ => rfl
  rw [asked]
  cases result : r.result with
  | error e => exact Moves.marked (.single (.asks running (.checkUserPassword sent))) (.fault e)
  | ok answer =>
      cases answer with
      | false => exact (makes false).after (.refused running sent result) running rfl
      | true =>
          let u := w.checkedPassword lib id pw true
          have begun : (lift (.ok true) >>= fun result => do
              emit (.login result)
              M.when result (sessionInit lib none id)
              rest result : M σ Unit) (w.ran .checkUserPassword r) =
                (sessionInit lib none id >>= fun _ => rest true) u := rfl
          rw [begun, bind_apply, sessionInit_eq]
          cases fetched : ((Qr.getCheckList id).run lib.engine u.db).result with
          | error e => exact .single (.unlisted running sent result fetched)
          | ok list => exact (makes true).after (.admitted running sent result fetched) running rfl

theorem responseReqLogin_makes {err : ErrorCode} {idpw : PBuffer} {idSize pwSize : Int}
    (sent : err = none → N (idpw.data.take idSize.toNat)) :
    Makes lib N (responseReqLogin lib err idpw idSize pwSize) := by
  intro w
  refine .ite (fun _ => Makes.work (Internal.errorHandle err) w) fun smooth => .ite (fun _ => .throw) fun _ => ?_
  have none_ : err = none := by simpa using smooth
  subst none_
  exact login_makes (sent rfl) (fun result => Makes.bind (Makes.work Internal.front) fun _ =>
    Makes.work (Internal.asyncWrite _ _)) w

theorem readIdAndPassword_makes (err : ErrorCode) : Makes lib N (readIdAndPassword err : M σ Unit) :=
  (Makes.work .get).bind fun _ w => .ite
    (fun _ => (Makes.work (Internal.lift _)).bind (fun _ => Makes.work Internal.asyncRead) w)
    fun _ => Makes.work (Internal.errorHandle err) w

/-! ## Commands -/

section
variable {te : ErrorCode → M σ Unit}

/-- What answers a command does so after internal work. -/
theorem FetchedFor.internal {w t : World σ} {c : ECommand} {rows : List ResultRow}
    (answers : FetchedFor lib w.self w.db c rows) (internal : Internal w t) : FetchedFor lib t.self t.db c rows := by
  have cursor : ∀ {i lastCheck}, w.self.CursorAt i lastCheck → t.self.CursorAt i lastCheck :=
    fun ⟨list, manager, is⟩ => ⟨list, internal.checkManager.trans manager, is⟩
  rw [internal.db]
  cases answers with
  | getMsg at_ result left =>
      rw [← internal.userName] at result left
      exact .getMsg (cursor at_) result left
  | getIvt result left =>
      rw [← internal.userName] at result left
      exact .getIvt result left
  | getConnection at_ result left =>
      rw [← internal.userName] at result left
      exact .getConnection (cursor at_) result left
  | getFriendList result left =>
      rw [← internal.userName] at result left
      exact .getFriendList result left

/-- The rows are ready to be sent. -/
abbrev Answering (lib : External σ) (c : ECommand) (rows : List ResultRow) (w : World σ) : Prop :=
  FetchedFor lib w.self w.db c rows

theorem Answering.work {w : World σ} {c : ECommand} {rows : List ResultRow} (ready : Answering lib c rows w)
    {m : M σ α} (work : Internal.Work m) : Does lib N m w fun _ => Answering lib c rows :=
  .internal work fun _ _ _ internal => ready.internal internal

theorem Answering.reply {w : World σ} {c : ECommand} {rows : List ResultRow} (ready : Answering lib c rows w) :
    Does lib N (emit (.reply c rows)) w fun _ t => t = w.logged (.reply c rows) :=
  .modify (fun running => .answers running ready) rfl rfl

theorem get_does (w : World σ) : Does lib N (get : M σ (World σ)) w fun v t => w = v ∧ w = t := .get ⟨rfl, rfl⟩

theorem rgetFriendList_makes (finish : ∀ err, Makes lib N (te err)) : Makes lib N (rgetFriendList lib te) := by
  intro w
  refine .bind (get_does w) ?_
  rintro _ _ ⟨rfl, rfl⟩
  refine .bind (Q := fun (got : List Str × List ResultRow) => Answering lib .getFriendList got.2)
    (.query .getFriendList fun got is => .getFriendList is rfl) ?_
  rintro ⟨fList, rows⟩ t ready
  refine .bind (ready.work (Internal.writeOrThrow _)) fun _ u ready => .bind ready.reply fun _ v _ => ?_
  exact (Makes.work (Internal.sendFriends none fList)).bind finish v

/-- The cursor that a command uses, as it is read. -/
theorem cursor_does (w : World σ) (i : Nat) (inside : i < 10) :
    Does lib N (checkManagerAt i) w fun lastCheck t => w = t ∧ w.self.CursorAt i lastCheck := by
  refine .internal (Internal.checkManagerAt i) fun lastCheck t ran _ => ?_
  have read := checkManagerAt_holds (E := fun _ _ => True) i inside (P := (· = w)) (fun _ _ => trivial) w rfl
  rw [ran] at read
  obtain ⟨same, list, manager, is⟩ := read
  exact ⟨same.symm, list, same ▸ manager, is⟩

theorem Session.CursorAt.internal {w t : World σ} {i : Nat} {lastCheck : Int} (cursor : w.self.CursorAt i lastCheck)
    (internal : Internal w t) : t.self.CursorAt i lastCheck := by
  obtain ⟨list, manager, is⟩ := cursor
  exact ⟨list, internal.checkManager.trans manager, is⟩

/-- A cursor that is written back as it was read. -/
theorem Session.CursorAt.written {w : World σ} {lastCheck : Int} (cursor : w.self.CursorAt 0 lastCheck) : Internal w
    { w with self := { w.self with checkManager := w.self.checkManager.map (·.setIfInBounds 0 lastCheck) } } := by
  obtain ⟨list, manager, rfl⟩ := cursor
  have same : list.setIfInBounds 0 (list.toArray.getD 0 0) = list := by
    apply Vector.ext
    intro i inside
    rw [Vector.getElem_setIfInBounds]
    split
    · next here =>
        subst here
        simp [Array.getD]
    · rfl
  have back : w.self.checkManager.map (·.setIfInBounds 0 (list.toArray.getD 0 0)) = w.self.checkManager := by
    rw [manager, Option.map_some, same]
  exact { Internal.refl w with checkManager := back }

theorem rgetNewMessage_makes (finish : ∀ err, Makes lib N (te err)) (err : ErrorCode) :
    Makes lib N (rgetNewMessage lib te err) := by
  intro w
  refine .bind (cursor_does w CheckListIndex.messageArr (by decide)) ?_
  rintro lastCheck _ ⟨rfl, cursor⟩
  refine .bind (get_does w) ?_
  rintro _ _ ⟨rfl, rfl⟩
  refine .bind (Q := fun (f : Fetched) t => Answering lib .getMsg f.rows t ∧ t.self.CursorAt 0 lastCheck)
    (.query .getNewMessage fun f is => ⟨.getMsg cursor is rfl, cursor⟩) fun f t known => ?_
  have works : ∀ {α : Type} {m : M σ α} {u : World σ}, Internal.Work m →
      Answering lib .getMsg f.rows u ∧ u.self.CursorAt 0 lastCheck →
      Does lib N m u fun _ v => Answering lib .getMsg f.rows v ∧ v.self.CursorAt 0 lastCheck :=
    fun work known => .internal work fun _ _ _ internal => ⟨known.1.internal internal, known.2.internal internal⟩
  refine .bind (works (Internal.when (Internal.touchSource _)) known) fun _ u known => ?_
  refine .bind (works (Internal.writeOrThrow _) known) fun _ u known => .bind known.1.reply ?_
  rintro _ _ rfl
  refine .bind (get_does _) ?_
  rintro _ _ ⟨rfl, rfl⟩
  refine .bind (Q := fun _ v => v.self.CursorAt 0 lastCheck)
    (.internal (Internal.asyncWrite _ _) fun _ _ _ internal => Session.CursorAt.internal (w := u.logged _) known.2 internal)
    fun _ v cursor => ?_
  exact .bind (Q := fun _ _ => True) (.modify (fun _ => .internal cursor.written) rfl trivial) fun _ t _ =>
    finish err t

theorem responseReqGetNewIvt_makes (err : ErrorCode) : Makes lib N (responseReqGetNewIvt lib err : M σ Unit) := by
  refine (Makes.work Internal.front).bind fun h => (Makes.work (Internal.when (Internal.errorHandle err))).bind fun _ => ?_
  refine (Makes.work (Internal.lift _)).bind fun pb => (Makes.work (Internal.lift _)).bind fun pb => ?_
  refine (Makes.work (Internal.checkManagerAt _)).bind fun _ w => ?_
  refine .bind (get_does w) ?_
  rintro _ _ ⟨rfl, rfl⟩
  refine .bind (Q := fun (f : Fetched) => Answering lib .getIvt f.rows)
    (.query .getNewIvtReq fun f is => .getIvt is rfl) fun f t ready => ?_
  refine .bind (ready.work (Internal.lift _)) fun pb u ready => .bind ready.reply fun _ v _ => ?_
  exact Makes.work (Internal.asyncWrite _ _) v

theorem responseReqGetNewConc_makes (err : ErrorCode) : Makes lib N (responseReqGetNewConc lib err : M σ Unit) := by
  refine (Makes.work (Internal.when (Internal.errorHandle err))).bind fun _ => ?_
  refine (Makes.work (Internal.lift _)).bind fun p => (Makes.work (Internal.lift _)).bind fun p w => ?_
  refine .bind (cursor_does w CheckListIndex.connectionReq (by decide)) ?_
  rintro lastCheck _ ⟨rfl, cursor⟩
  refine .bind (get_does w) ?_
  rintro _ _ ⟨rfl, rfl⟩
  refine .bind (Q := fun (f : Fetched) => Answering lib .getConnection f.rows)
    (.query .getNewConnectionReq fun f is => .getConnection cursor is rfl) fun f t ready => ?_
  refine .bind (ready.work (Internal.lift _)) fun p u ready => .bind ready.reply fun _ v _ => ?_
  exact Makes.work (Internal.asyncWrite _ _) v

theorem command_makes (finish : ∀ err, Makes lib N (te err)) (err : ErrorCode) : Makes lib N (command lib te err) := by
  refine (Makes.work Internal.front).bind fun h => (Makes.work (Internal.checkManagerAt _)).bind fun _ => ?_
  cases ECommand.ofCode h.comd with
  | none => exact Makes.work (.pure _)
  | some c =>
      cases c with
      | getConnection => exact responseReqGetNewConc_makes err
      | getIvt => exact responseReqGetNewIvt_makes err
      | getMsg => exact rgetNewMessage_makes finish err
      | getFriendList => exact rgetFriendList_makes finish

/-! ## Actions -/

/-- Work that takes names and texts off the connection. -/
theorem taken_does {m : M σ α} (work : Internal.Work m) {w : World σ} {P : α → Prop}
    (sent : ∀ a, M.value m w = some a → P a) : Does lib N m w fun a t => P a ∧ Internal w t :=
  .internal work fun a _ ran internal => ⟨sent a (M.value_eq ran), internal⟩

theorem responseActSendMsg_does (finish : ∀ err, Makes lib N (te err)) (err : ErrorCode) {w : World σ}
    (sent : ∀ s ∈ EAction.sendMsg.texts w, N s) :
    Does lib N (responseActSendMsg lib te err) w fun _ _ => True := by
  refine .bind (get_does w) ?_
  rintro _ _ ⟨rfl, rfl⟩
  refine .bind (taken_does (P := N) (Internal.readSource _) fun text is => sent text (by simp [EAction.texts, is]))
    fun text t ⟨sent, _⟩ => ?_
  refine .bind (Q := fun _ _ => True) (.query (.insertMessage sent) fun _ _ => trivial) fun _ t _ => ?_
  refine .bind (Q := fun _ _ => True) (.query .getDiningMembers fun _ _ => trivial) fun mList t _ => ?_
  exact (notifyWithList_makes mList _).bind (fun _ => finish err) t

theorem responseActConnect_does (finish : ∀ err, Makes lib N (te err)) (err : ErrorCode) {w : World σ}
    (sent : ∀ s ∈ EAction.requestConnection.texts w, N s) :
    Does lib N (responseActConnect lib te err) w fun _ _ => True := by
  refine .bind (get_does w) ?_
  rintro _ _ ⟨rfl, rfl⟩
  refine .bind (taken_does (P := N) (Internal.readSource _) fun receiver is =>
    sent receiver (by simp [EAction.texts, is])) fun receiver t ⟨sent, internal⟩ => ?_
  refine .bind (Q := fun _ _ => True) (.query (internal.userName ▸ .insertConnection sent) fun _ _ => trivial)
    fun _ t _ => ?_
  exact (notify_makes receiver _).bind (fun _ => finish err) t

theorem responseActInvite_makes (finish : ∀ err, Makes lib N (te err)) (err : ErrorCode) :
    Makes lib N (responseActInvite lib te err) := by
  refine (Makes.work (Internal.when (Internal.errorHandle err))).bind fun _ w => ?_
  refine .bind (get_does w) ?_
  rintro _ _ ⟨rfl, rfl⟩
  refine .bind (.lift (Q := fun getter t => PBuffer.ofSize _ = .ok getter ∧ w = t) fun _ made => ⟨made, rfl⟩) ?_
  rintro getter _ ⟨made, rfl⟩
  refine .bind (Does.work (Internal.read _ _ _)) fun bytes t internal => ?_
  refine .bind (.lift (Q := fun target u => target = [] ∧ t = u) fun _ text => ⟨target_empty made text, rfl⟩) ?_
  rintro _ _ ⟨rfl, rfl⟩
  refine .bind (Q := fun _ _ => True) (.query (internal.userName ▸ .insertInvite) fun _ _ => trivial) fun _ t _ => ?_
  exact (notify_makes [] _).bind (fun _ => finish err) t

theorem responseActCreateChatTable_does (finish : ∀ err, Makes lib N (te err)) (err : ErrorCode) {w : World σ}
    (sent : ∀ s ∈ EAction.requestCreateTable.texts w, N s) :
    Does lib N (responseActCreateChatTable lib te err) w fun _ _ => True := by
  refine .bind (get_does w) ?_
  rintro _ _ ⟨rfl, rfl⟩
  refine .bind (taken_does (P := fun cont => ∀ name ∈ cont, N name) (Internal.readInvited _ _) fun cont is name member =>
    sent name ?_) fun cont t ⟨sent, internal⟩ => ?_
  · show name ∈ (M.value (readInvited _ _) w).getD []
    rwa [is]
  refine .bind (Q := fun _ _ => True) (.query (internal.userName ▸ .createTable sent) fun _ _ => trivial) fun key t _ => ?_
  refine (Makes.work (Internal.writeOrThrow _)).bind (fun _ => ?_) t
  exact (notifyWithList_makes cont _).bind fun _ => finish err

end

/-! ## Dispatch -/

theorem readHandle_makes {te : ErrorCode → M σ Unit} (finish : ∀ err, Makes lib N (te err)) (err : ErrorCode) :
    Makes lib N (readHandle lib te err) := by
  refine (Makes.work Internal.front).bind fun h => (Makes.work (Internal.dispatch h)).bind fun _ w => ?_
  exact .ite (fun _ => command_makes finish err w) fun _ => Makes.work Internal.action w

theorem sessionTask_makes {te : ErrorCode → M σ Unit} (finish : ∀ err, Makes lib N (te err)) (err : ErrorCode) :
    Makes lib N (sessionTask lib te err) := by
  intro w
  refine .ite (fun _ => Makes.work (Internal.errorHandle err) w) fun _ => ?_
  refine (Makes.work .get).bind (fun v t => .ite (fun _ => ?_) fun _ => readHandle_makes finish err t) w
  exact Makes.work Internal.asyncRead t

/-- By induction on the headers that may be behind. -/
theorem taskEndWithin_makes (n : Nat) (err : ErrorCode) : Makes lib N (taskEndWithin lib n err) := by
  induction n generalizing err with
  | zero => exact fun _ => .throw
  | succ n ih =>
      refine (Makes.work Internal.pop).bind fun _ => (Makes.work (Internal.touchSource _)).bind fun _ => ?_
      exact sessionTask_makes ih err

theorem taskEnd_makes (err : ErrorCode) : Makes lib N (taskEnd lib err) :=
  (Makes.work .get).bind fun _ => taskEndWithin_makes _ err

theorem readHeaderHandle_makes (err : ErrorCode) (ret : Bool) : Makes lib N (readHeaderHandle lib err ret) := by
  refine (Makes.work (Internal.when (Internal.errorHandle err))).bind fun _ => ?_
  refine (Makes.work (Internal.decodeHader err ret)).bind fun accepted w => ?_
  exact .ite (fun _ => readHandle_makes taskEnd_makes err w) fun _ => sessionTask_makes taskEnd_makes err w

theorem actionHandler_does (a : EAction) (err : ErrorCode) {w : World σ} (sent : ∀ s ∈ a.texts w, N s) :
    Does lib N (actionHandler lib a err) w fun _ _ => True := by
  cases a with
  | reqLog => exact readIdAndPassword_makes err w
  | sendMsg => exact responseActSendMsg_does taskEnd_makes err sent
  | requestConnection => exact responseActConnect_does taskEnd_makes err sent
  | requestInvite => exact responseActInvite_makes taskEnd_makes err w
  | requestCreateTable => exact responseActCreateChatTable_does taskEnd_makes err sent

/-! ## Steps -/

theorem complete_does {op : Op} {err : ErrorCode} {got : List Byte} (ret : Bool) {w : World σ}
    (sent : ∀ s ∈ w.texts op.handler err got, N s) : Does lib N (complete lib op err got ret) w fun _ _ => True := by
  obtain ⟨handler, ticket⟩ := op
  cases handler with
  | readHeader =>
      exact (Makes.work (Internal.setSelf fun w => { Internal.refl w with })).bind
        (fun _ => readHeaderHandle_makes err ret) w
  | action a =>
      have received : Internal w { w with self := w.self.receivePayload got } := { Internal.refl w with }
      refine .bind (Q := fun _ t => t = { w with self := w.self.receivePayload got })
        (.modify (fun _ => .internal received) rfl rfl) ?_
      rintro _ _ rfl
      exact actionHandler_does a err sent
  | login idpw idSize pwSize =>
      refine responseReqLogin_makes (fun smooth => ?_) w
      subst smooth
      exact sent _ (List.mem_singleton.mpr rfl)
  | taskEnd source => exact taskEnd_makes err w

/-- A program made of moves takes the world it starts in to the one it leaves. -/
theorem Does.exec {m : M σ Unit} {w : World σ} {Q : Unit → World σ → Prop} (does : Does lib N m w Q)
    (running : w.stopped = none) : Moves lib N w (w.exec m) := by
  have made := does running
  unfold World.exec
  cases ran : m w with
  | ok a t =>
      rw [ran] at made
      exact made.1
  | error e t =>
      rw [ran] at made
      exact made

theorem checkMail_makes {kind : Nat × Nat × ECommand} (known : kind ∈ mailKinds) :
    Makes lib N (checkMail kind : M σ Unit) := by
  intro w running
  cases found : w.self.nf.bind w.nmap.at_ with
  | none =>
      have stuck : checkMail kind w = .error (.fault .wildPointer) w := by
        simp [checkMail, bind_apply, found]
      rw [stuck]
      exact .single (.halted _)
  | some flags =>
      obtain ⟨pointer, nf, at_⟩ := Option.bind_eq_some_iff.mp found
      rw [checkMail_eq nf at_]
      show Moves lib N w (if flags.getNew kind.1 then w.noticed pointer kind else w) ∧ _
      by_cases raised : flags.getNew kind.1 = true
      · rw [if_pos raised]
        exact ⟨.single (.noticed running nf at_ raised known), running, trivial⟩
      · rw [if_neg raised]
        exact ⟨.refl, running, trivial⟩

theorem checkMailBox_makes : Makes lib N (checkMailBox : M σ Unit) := by
  refine (Makes.work .get).bind fun v w => .ite (fun _ => ?_) fun _ => .pure trivial
  have each : ∀ kind ∈ mailKinds, Makes lib N (checkMail kind : M σ Unit) := fun _ => checkMail_makes
  have all : ∀ kinds : List (Nat × Nat × ECommand), (∀ kind ∈ kinds, Makes lib N (checkMail kind : M σ Unit)) →
      Makes lib N (kinds.forM checkMail : M σ Unit) := by
    intro kinds
    induction kinds with
    | nil => exact fun _ => Makes.work (.pure _)
    | cons kind rest ih =>
        exact fun makes => (makes kind (by simp)).bind fun _ => ih fun k member => makes k (by simp [member])
  exact all mailKinds each w

/-- Every step of a session but those of the others is made of moves. -/
theorem next_moves {w t : World σ} {act : Act σ} (own : ∀ db nmap, act ≠ .others db nmap)
    (sent : ∀ s ∈ w.taken act, N s) (step : next lib w act = some t) : Moves lib N w t := by
  obtain ⟨running, what⟩ := next_eq_some step
  cases act with
  | others db nmap => exact absurd rfl (own db nmap)
  | checkMailBox =>
      rw [show t = w.exec checkMailBox from what]
      exact (checkMailBox_makes w).exec running
  | complete c =>
      obtain ⟨op, got, socket, found, moved, rfl⟩ := what
      have begun : Internal w (w.completing c.index op socket) := { Internal.refl w with }
      have taken : w.taken (.complete c) = (w.completing c.index op socket).texts op.handler c.err got := by
        simp [World.taken, found, moved]
      exact begun.moves.trans ((complete_does c.ret (taken ▸ sent)).exec running)

end NineProject
