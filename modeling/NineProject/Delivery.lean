import NineProject.Fidelity
import NineProject.Readers
import NineProject.Session.Queue

/-! # Rows delivered to a session

The three commands that fetch rows each have a cursor in the check list, handed to
them by value: none is ever advanced. A fetch returns what lies above its cursor
every time it is asked for, and what is returned once is returned again unless the
cursor happened to cover it.
-/

namespace NineProject

open Bytes M Effect Sql

variable {σ : Type}

/-- A row with this rowid was in a reply to the command. -/
def Delivered (log : List Event) (c : ECommand) (rowid : Int) : Prop :=
  ∃ rows, .reply c rows ∈ log ∧ ∃ row ∈ rows, row.rowid = rowid

/-- No row of `ms`, `invite` or `connectionRequest` is in two replies. -/
def NoRepeats (log : List Event) : Prop :=
  Runs.InOrder (fun before e => ∀ c rows, e = .reply c rows → c ≠ .getFriendList →
    ∀ row ∈ rows, ¬ Delivered before c row.rowid) log

/-- An event that delivers none of these rows. -/
def Event.Fetchless (e : Event) : Prop := ∀ c rows, e = .reply c rows → c = .getFriendList

theorem NoRepeats.more {log es : List Event} (once : NoRepeats log)
    (fetchless : ∀ e ∈ es, e.Fetchless) : NoRepeats (log ++ es) := by
  refine Runs.InOrder.append once fun before e after split c rows is fetches => ?_
  exact absurd (fetchless e (by simp [split]) c rows is) fetches

theorem NoRepeats.reply {log : List Event} (once : NoRepeats log) {c : ECommand}
    {rows : List ResultRow} (new : ∀ row ∈ rows, ¬ Delivered log c row.rowid) :
    NoRepeats (log ++ [.reply c rows]) := by
  refine Runs.InOrder.append once fun before e after split c' rows' is _ row member => ?_
  cases before with
  | nil =>
      cases split
      cases is
      simpa using new row member
  | cons first before => simp at split

theorem Delivered.of_more {log es : List Event} {c : ECommand} {rowid : Int}
    (fetchless : ∀ e ∈ es, e.Fetchless) (fetches : c ≠ .getFriendList)
    (delivered : Delivered (log ++ es) c rowid) : Delivered log c rowid := by
  obtain ⟨rows, member, row⟩ := delivered
  rcases List.mem_append.mp member with old | new
  · exact ⟨rows, old, row⟩
  · exact absurd (fetchless _ new c rows rfl) fetches

/-! ## The rows of a fetch -/

/-- The statement that `get_new_message` finds the tables of a user with. -/
private def tablesCall (user : Str) : BuilderCall := .select .participate (1, .string user) 2 0

section
variable {lib : External σ} {numeric : Str → Value} {view : σ → Store}

theorem getTable_db (lawful : lib.engine.Lawful numeric view) {user : Str} (plain : 34 ∉ user)
    (db : σ) : ((Qr.getTable user).run lib.engine db).db = db := by
  have exec : lib.engine.exec db (tablesCall user).text = _ := getTable_exec lawful plain db
  have text : selectQuery .participate (1, .string user) 2 0 = (tablesCall user).text := rfl
  simp only [Qr.getTable, query_run, text, exec]

/-- A message that the fetch of a table returns. -/
def Due (ms : Table) (k cursor : Int) (r : Row) : Prop :=
  r ∈ ms.rows ∧ r.cells[0]? = some (.int k) ∧ cursor < r.rowid

theorem newMessageInTable_rows (lawful : lib.engine.Lawful numeric view) {db : σ} {p : PBuffer}
    {k c : Int} (columns : (view db (str "ms")).columns = msColumns) :
    Program.Reads lib.engine db (Qr.getNewMessageInTable lib p k c) fun f =>
      f.lastCheck = wrap 32 (lib.engine.lastInsertRowid db) ∧
        ∀ row ∈ f.rows, ∃ r, row = resultOf r ∧ Due (view db (str "ms")) k c r := by
  obtain ⟨same, rows⟩ := fetch_spec lawful k c columns
  refine .bind (.statement same) fun got is => .bind (lift_reads _) fun entry _ =>
    .bind .rowid fun rowId last => .pure ⟨by rw [last], fun row member => ?_⟩
  rw [is] at member
  obtain ⟨r, kept, key, above, rfl⟩ := (rows row).mp member
  exact ⟨r, rfl, kept, key, above⟩

/-- The first table is fetched from the cursor that was handed over, every other from
    the latest insertion. -/
theorem newMessageInTables_rows (lawful : lib.engine.Lawful numeric view) {db : σ}
    (columns : (view db (str "ms")).columns = msColumns) (keys : List Int) (p : PBuffer) (c : Int) :
    Program.Reads lib.engine db (Qr.getNewMessageInTables lib p c keys) fun f =>
      ∀ row ∈ f.rows, ∃ r, row = resultOf r ∧
        ((∃ k ∈ keys.head?, Due (view db (str "ms")) k c r) ∨
          ∃ k ∈ keys.tail, Due (view db (str "ms")) k (wrap 32 (lib.engine.lastInsertRowid db)) r) := by
  induction keys generalizing p c with
  | nil => exact .pure (by simp)
  | cons k rest ih =>
      refine .bind (newMessageInTable_rows lawful columns) fun here ⟨last, due⟩ =>
        .bind (ih here.buf here.lastCheck) fun more later => .pure fun row member => ?_
      rcases List.mem_append.mp member with now | then_
      · obtain ⟨r, rfl, above⟩ := due row now
        exact ⟨r, rfl, .inl ⟨k, rfl, above⟩⟩
      · obtain ⟨r, rfl, ⟨key, head, above⟩ | ⟨key, tail, above⟩⟩ := later row then_
        · exact ⟨r, rfl, .inr ⟨key, List.mem_of_mem_head? head, last ▸ above⟩⟩
        · exact ⟨r, rfl, .inr ⟨key, List.mem_of_mem_tail tail, above⟩⟩

theorem newMessage_rows (lawful : lib.engine.Lawful numeric view) {db : σ} {user : Str}
    (plain : 34 ∉ user) (columns : (view db (str "ms")).columns = msColumns) (p : PBuffer) (c : Int) :
    Program.Reads lib.engine db (Qr.getNewMessage lib p user c) fun f =>
      ∃ keys, ((Qr.getTable user).run lib.engine db).result = .ok keys ∧
        ∀ row ∈ f.rows, ∃ r, row = resultOf r ∧
          ((∃ k ∈ keys.head?, Due (view db (str "ms")) k c r) ∨
            ∃ k ∈ keys.tail, Due (view db (str "ms")) k (wrap 32 (lib.engine.lastInsertRowid db)) r) := by
  refine .bind (.result (getTable_db lawful plain db)) fun keys listed => ?_
  obtain ⟨same, rows⟩ := newMessageInTables_rows lawful columns keys p c
  exact ⟨same, fun f is => ⟨keys, listed, rows f is⟩⟩

end

/-! ## When a fetch repeats nothing -/

/-- Of the messages in the tables of the user, those delivered before are covered by
    the cursor that their table is fetched from: that of the check list for the first
    table, the latest insertion for every other. -/
structure CursorsCover (lib : External σ) (view : σ → Store) (w : World σ) : Prop where
  user : 34 ∉ w.self.userName
  columns : (view w.db (str "ms")).columns = msColumns
  first : ∀ list keys, w.self.checkManager = some list →
    ((Qr.getTable w.self.userName).run lib.engine w.db).result = .ok keys → ∀ k ∈ keys.head?,
      ∀ r ∈ (view w.db (str "ms")).rows, r.cells[0]? = some (.int k) →
        Delivered w.log .getMsg r.rowid → r.rowid ≤ list.toArray.getD 0 0
  others : ∀ keys, ((Qr.getTable w.self.userName).run lib.engine w.db).result = .ok keys →
    ∀ k ∈ keys.tail, ∀ r ∈ (view w.db (str "ms")).rows, r.cells[0]? = some (.int k) →
      Delivered w.log .getMsg r.rowid → r.rowid ≤ wrap 32 (lib.engine.lastInsertRowid w.db)

/-- The command finds nothing that it delivered before. -/
def NewFor (lib : External σ) (view : σ → Store) (w : World σ) : Option ECommand → Prop
  | some .getMsg => CursorsCover lib view w
  | some .getIvt => ∀ rowid, ¬ Delivered w.log .getIvt rowid
  | some .getConnection => ∀ rowid, ¬ Delivered w.log .getConnection rowid
  | some .getFriendList | none => True

/-- So does the one that a step brings. -/
def FindsNew (lib : External σ) (view : σ → Store) (w : World σ) (act : Act σ) : Prop :=
  ∀ h ∈ w.arriving act, h.Accepted → NewFor lib view w h.commanded

theorem NewFor.since {lib : External σ} {view : σ → Store} {w v : World σ} {c : Option ECommand}
    (new : NewFor lib view w c) (db : v.db = w.db) (userName : v.self.userName = w.self.userName)
    (checkManager : v.self.checkManager = w.self.checkManager) (es : List Event)
    (log : v.log = w.log ++ es) (fetchless : ∀ e ∈ es, e.Fetchless) : NewFor lib view v c := by
  have before : ∀ {c n}, c ≠ .getFriendList → Delivered v.log c n → Delivered w.log c n :=
    fun fetches delivered => (log ▸ delivered).of_more fetchless fetches
  match c with
  | none | some .getFriendList => trivial
  | some .getIvt => exact fun n delivered => new n (before (by simp) delivered)
  | some .getConnection => exact fun n delivered => new n (before (by simp) delivered)
  | some .getMsg =>
      obtain ⟨user, columns, first, others⟩ := new
      refine ⟨userName ▸ user, db ▸ columns, ?_, ?_⟩
      · rw [db, userName, checkManager]
        exact fun list keys cursors listed k head r kept key delivered =>
          first list keys cursors listed k head r kept key (before (by simp) delivered)
      · rw [db, userName]
        exact fun keys listed k tail r kept key delivered =>
          others keys listed k tail r kept key (before (by simp) delivered)

theorem CursorsCover.new {lib : External σ} {numeric : Str → Value} {view : σ → Store}
    (lawful : lib.engine.Lawful numeric view) {w : World σ} (cover : CursorsCover lib view w)
    {list : Vector Int 10} (cursors : w.self.checkManager = some list) {p : PBuffer} {f : Fetched}
    (fetched : ((Qr.getNewMessage lib p w.self.userName (list.toArray.getD 0 0)).run lib.engine
      w.db).result = .ok f) : ∀ row ∈ f.rows, ¬ Delivered w.log .getMsg row.rowid := by
  intro row member delivered
  obtain ⟨keys, listed, due⟩ := (newMessage_rows lawful cover.user cover.columns _ _).2 f fetched
  obtain ⟨r, rfl, ⟨k, head, kept, key, above⟩ | ⟨k, tail, kept, key, above⟩⟩ := due row member
  · exact absurd (cover.first list keys cursors listed k head r kept key delivered) (not_le.mpr above)
  · exact absurd (cover.others keys listed k tail r kept key delivered) (not_le.mpr above)

/-! ## One command -/

def Once (w : World σ) : Prop := NoRepeats w.log

theorem Once.more {w t : World σ} (once : Once w) (es : List Event) (log : t.log = w.log ++ es)
    (fetchless : ∀ e ∈ es, e.Fetchless) : Once t := by
  unfold Once
  rw [log]
  exact NoRepeats.more once fetchless

theorem once_turns : Turns (fun _ e => e.Fetchless) (Once (σ := σ)) where
  extended := fun once step => by
    obtain ⟨es, log, fetchless⟩ := step.log
    exact once.more es log fetchless
  source := fun _ _ _ => by simp
  completing := id
  received := id
  pushed := fun {w h} once => once.more [.push w.pushed h] rfl (by simp [Event.Fetchless])
  popped := fun {w} once => once.more [.pop w.popped w.ticket] rfl (by simp [Event.Fetchless])
  header := fun once => once.more [.read _ _ _] rfl (by simp [Event.Fetchless])
  stopped := id

theorem calm_fetchless : Calms fun _ e => e.Fetchless := by
  intro b e calm c rows is
  subst is
  exact calm.elim

theorem once_keeps : Keeps (fun _ e => e.Fetchless) (Lone (Once (σ := σ))) fun _ => Lone Once :=
  lone_keeps once_turns.extended

/-- None of these rows was delivered. -/
def Unsent (c : ECommand) (S : Int → Prop) (w : World σ) : Prop :=
  Lone Once w ∧ ∀ n, S n → ¬ Delivered w.log c n

theorem unsent_extended {c : ECommand} {S : Int → Prop} (fetches : c ≠ .getFriendList) {w t : World σ}
    (unsent : Unsent c S w) (step : Extends (fun _ e => e.Fetchless) w t) : Unsent c S t := by
  refine ⟨once_keeps.extended unsent.1 step, fun n wanted delivered => ?_⟩
  obtain ⟨es, log, fetchless⟩ := step.log
  rw [log] at delivered
  exact unsent.2 n wanted (delivered.of_more fetchless fetches)

theorem unsent_keeps {c : ECommand} {S : Int → Prop} (fetches : c ≠ .getFriendList) :
    Keeps (fun _ e => e.Fetchless) (Unsent (σ := σ) c S) fun _ => Lone Once :=
  ⟨unsent_extended fetches, fun _ => And.left⟩

theorem reply_once {c : ECommand} {S : Int → Prop} {rows : List ResultRow}
    (wanted : ∀ row ∈ rows, S row.rowid) {E : Stop → World σ → Prop} :
    Holds (Unsent c S) (emit (.reply c rows)) (fun _ => Lone (σ := σ) Once) E := fun _ unsent =>
  ⟨unsent.1.1, NoRepeats.reply unsent.1.2 fun row member => unsent.2 _ (wanted row member)⟩

theorem written_once (bytes : List Byte) (source : Bool) {E : Stop → World σ → Prop} :
    Holds (Lone Once) (asyncWrite bytes source) (fun _ => Lone Once) E := fun _ lone =>
  lone.starts (by simp) (lone.2.more [.wrote bytes] rfl (by simp [Event.Fetchless]))

section
variable {lib : External σ} {numeric : Str → Value} {view : σ → Store}

theorem rgetNewMessage_once (lawful : lib.engine.Lawful numeric view) (err : ErrorCode) :
    Holds (fun w => Lone Once w ∧ CursorsCover lib view w) (rgetNewMessage lib (taskEnd lib) err)
      (fun _ => Lone Once) fun _ => Lone Once := by
  refine .bind (checkManagerAt_holds _ (by decide) fun _ => And.left) fun lastCheck =>
    .bind get_holds fun _ => ?_
  rintro w ⟨rfl, ⟨lone, cover⟩, list, cursors, rfl⟩
  have ran : ∀ {α : Type} (r : Ran σ Fault α), Extends (fun _ e => e.Fetchless) w
      (w.ran .getNewMessage r) := Extends.ran (fun _ _ => by simp [Event.Fetchless]) w
  have wrote : ∀ (b : Bool) (bytes : List Byte), (Event.wrote bytes).Fetchless := by
    simp [Event.Fetchless]
  refine Holds.bind (P := (· = w)) (E := fun _ => Lone Once)
    (Q := fun f => Unsent .getMsg fun n => ∃ row ∈ f.rows, row.rowid = n)
    (runQuery_holds lib ?_ ?_) (fun f => ?_) w rfl
  · rintro e _ rfl
    exact once_keeps.extended lone (ran _)
  · rintro f _ rfl fetched
    refine unsent_extended (by simp) ⟨lone, ?_⟩ (ran _)
    rintro n ⟨row, member, rfl⟩
    exact cover.new lawful cursors fetched row member
  have keeps := unsent_keeps (σ := σ) (c := .getMsg) (S := fun n => ∃ row ∈ f.rows, row.rowid = n)
    (by simp)
  refine .bind (keeps.works (when_works (touchSource_works (fun b => calm_fetchless b _ rfl) _)))
    fun _ => .bind (keeps.works (writeOrThrow_works wrote _)) fun _ => ?_
  refine .bind (reply_once fun row member => ⟨row, member, rfl⟩) fun _ => ?_
  refine .bind (once_keeps.works Within.get) fun _ => .bind (written_once _ _) fun _ => ?_
  exact .bind (once_keeps.works (setSelf_works (fun _ => rfl) (fun _ => rfl) cursor_stranger)) fun _ =>
    once_turns.taskEnd lib err

theorem commandHandler_once (lawful : lib.engine.Lawful numeric view) (c : ECommand) (err : ErrorCode) :
    Holds (fun w => Lone Once w ∧ NewFor lib view w (some c)) (commandHandler lib (taskEnd lib) err c)
      (fun _ => Lone Once) fun _ => Lone Once := by
  cases c with
  | getMsg => exact rgetNewMessage_once lawful err
  | getIvt =>
      have keeps := unsent_keeps (σ := σ) (c := .getIvt) (S := fun _ => True) (by simp)
      exact (responseReqGetNewIvt_holds lib keeps calm_fetchless (fun _ unsent _ => unsent.1)
        (fun rows => reply_once fun _ _ => trivial) fun bytes => written_once bytes false).conseq
          (fun w ⟨lone, new⟩ => ⟨lone, fun n _ => new n⟩) (fun _ _ => id) fun _ _ => id
  | getConnection =>
      have keeps := unsent_keeps (σ := σ) (c := .getConnection) (S := fun _ => True) (by simp)
      exact (responseReqGetNewConc_holds lib keeps calm_fetchless
        (fun rows => reply_once fun _ _ => trivial) fun bytes => written_once bytes false).conseq
          (fun w ⟨lone, new⟩ => ⟨lone, fun n _ => new n⟩) (fun _ _ => id) fun _ _ => id
  | getFriendList =>
      exact (rgetFriendList_holds lib once_keeps calm_fetchless
        (fun rows => once_keeps.works (emit_works fun _ => by simp [Event.Fetchless]))
        (once_turns.taskEnd lib)).conseq (fun _ => And.left) (fun _ _ => id) fun _ _ => id

/-! ## One header -/

theorem readHandle_once (lawful : lib.engine.Lawful numeric view) {w : World σ} {h : Pchd}
    (new : NewFor lib view w h.commanded) (err : ErrorCode) :
    Holds (fun v => Taken Once h v ∧ Takes w h v) (readHandle lib (taskEnd lib) err)
      (fun _ => Lone Once) fun _ => Lone Once := by
  let Knows : World σ → Prop := fun v => Once v ∧ NewFor lib view v h.commanded
  have weaken : ∀ v, Taken Knows h v → Lone Once v := fun v taken =>
    Taken.lone ⟨taken.1, taken.2.1, taken.2.2.1⟩
  suffices served : Holds (Taken Knows h) (readHandle lib (taskEnd lib) err) (fun _ => Lone Once)
      fun _ => Lone Once by
    refine served.conseq (fun v ⟨⟨none_, one, once⟩, takes⟩ => ⟨none_, one, once, ?_⟩)
      (fun _ _ => id) fun _ _ => id
    exact new.since takes.db takes.userName takes.checkManager _ takes.log (by simp [Event.Fetchless])
  refine .bind (front_taken h) fun got => .assume fun same => ?_
  subst same
  refine .bind (Q := fun _ => Taken Knows got) ?_ fun _ => .ite (fun command_ => ?_) fun _ => ?_
  · rintro v ⟨none_, one, once, new⟩
    have dispatched : ∀ e ∈ [Event.dispatch v.popped got], e.Fetchless := by simp [Event.Fetchless]
    exact ⟨none_, one, once.more _ rfl dispatched, new.since rfl rfl rfl _ rfl dispatched⟩
  · refine .bind (front_taken got) fun got' => .assume fun same => ?_
    subst same
    refine .bind (checkManagerAt_same _ fun _ => weaken) fun _ => ?_
    have asked : got'.commanded = ECommand.ofCode got'.comd := if_pos command_
    cases known : ECommand.ofCode got'.comd with
    | none => exact .pure weaken
    | some c =>
        exact (commandHandler_once lawful c err).conseq (fun v taken => ⟨weaken v taken, by
          simpa only [asked, known] using taken.2.2.2⟩) (fun _ _ => id) fun _ _ => id
  · refine .bind (front_taken got) fun got' => .assume fun same => ?_
    subst same
    cases EAction.ofCode got'.comd with
    | none => exact .pure weaken
    | some a =>
        exact fun v taken => (weaken v taken).starts (by simp)
          (taken.2.2.1.more [.read _ _ _] rfl (by simp [Event.Fetchless]))

/-! ## Runs -/

theorem once_step (lawful : lib.engine.Lawful numeric view) {w t : World σ} {act : Act σ}
    (lone : Lone Once w) (new : FindsNew lib view w act) (happens : next lib w act = some t) :
    Lone Once t := by
  have turns := once_turns (σ := σ)
  have keeps := once_keeps (σ := σ)
  refine turns.step lib lone happens ?_
  rintro c op got socket rfl found moved
  have started := turns.completing_lone lone found socket
  obtain ⟨handler, ticket⟩ := op
  cases handler with
  | readHeader =>
      exact turns.headerRead lib lone found moved fun h arrived accepted =>
        readHandle_once lawful (new h arrived accepted) none
  | action a =>
      refine .bind (Q := fun _ => Lone Once) (by rintro _ rfl; exact started) fun _ => ?_
      exact actionHandler_holds lib keeps calm_fetchless (fun _ _ _ _ => by simp [Event.Fetchless])
        (fun _ _ => id) (fun _ _ _ _ lone => lone.starts (by simp)
          (lone.2.more [.read _ _ _] rfl (by simp [Event.Fetchless]))) (turns.taskEnd lib)
  | login idpw idSize pwSize =>
      have run : Holds (Lone Once) (responseReqLogin lib c.err (idpw.receive got) idSize pwSize)
          (fun _ => Lone Once) fun _ => Lone Once :=
        responseReqLogin_holds lib keeps (fun _ _ => by simp [Event.Fetchless])
          (fun _ _ => by simp [Event.Fetchless]) (fun _ _ => by simp [Event.Fetchless])
          (fun _ _ => id) (fun _ lone _ => lone) fun bytes => written_once bytes false
      exact run.conseq (by rintro _ rfl; exact started) (fun _ _ => id) fun _ _ => id
  | taskEnd source =>
      exact (turns.taskEnd lib c.err).conseq (by rintro _ rfl; exact started) (fun _ _ => id) fun _ _ => id

/-- No fetch was answered yet. -/
def Unanswered (w : World σ) : Prop := ∀ e ∈ w.log, e.Fetchless

/-- In a run whose every command finds nothing that it delivered before, no row is
    delivered twice, whatever the other sessions do in between. -/
theorem delivered_once (lawful : lib.engine.Lawful numeric view) {w t : World σ}
    {acts : List (Act σ)} (start : Lone Unanswered w)
    (new : Runs.Each (next lib) (FindsNew lib view) w acts)
    (run : Runs.after (next lib) w acts = some t) : NoRepeats t.log := by
  have once : Lone Once w := ⟨start.1, NoRepeats.more Runs.InOrder.nil start.2⟩
  exact (Runs.invariant (fun _ _ _ => once_step lawful) once new run).2

end

/-- An invitation of Ann to table 7. -/
def annInvited : List (Str × List Row) :=
  [(str "invite", [⟨1, [.text (str "ann"), .int 7, .text (str "bob"), .text someTime]⟩])]

theorem annWaits_unanswered (input : List Byte) (rows : List (Str × List Row)) :
    Lone Unanswered (annWaits input rows) :=
  ⟨le_refl 1, by simp [Unanswered, annWaits]⟩

theorem delivered_once_invite :
    ∃ t, Runs.after (next memoryServer) (annWaits (request 1 ECommand.getIvt.code) annInvited) [.first] =
        some t ∧ NoRepeats t.log := by
  obtain ⟨t, run⟩ := Option.isSome_iff_exists.mp
    (show (Runs.after (next memoryServer) (annWaits (request 1 ECommand.getIvt.code) annInvited)
      [.first]).isSome by decide +kernel)
  have arrives : (annWaits (request 1 ECommand.getIvt.code) annInvited).arriving .first =
      some { Pchd.empty with actionOrCommand := 1, comd := ECommand.getIvt.code } := by decide +kernel
  have new : Runs.Each (next memoryServer) (FindsNew memoryServer Memory.store)
      (annWaits (request 1 ECommand.getIvt.code) annInvited) [.first] := by
    refine ⟨fun h arrived _ => ?_, fun _ _ => trivial⟩
    cases arrives.symm.trans arrived
    exact fun rowid delivered => by simp [Delivered, annWaits] at delivered
  exact ⟨t, run, delivered_once (Memory.engine_lawful .text _) (annWaits_unanswered _ _) new run⟩

/-- Ann asks for her invitations twice. -/
def annAsksTwice : World Memory :=
  annWaits (request 1 ECommand.getIvt.code ++ request 1 ECommand.getIvt.code) annInvited

theorem behind_of_count {e : Event} {log : List Event} (twice : 2 ≤ log.count e) :
    ∃ before after, log = before ++ e :: after ∧ e ∈ before := by
  obtain ⟨first, rest, rfl, new⟩ :=
    List.eq_append_cons_of_mem (List.count_pos_iff.mp (show 0 < log.count e by omega))
  have again : 0 < rest.count e := by
    simp only [List.count_append, List.count_eq_zero.mpr new, List.count_cons_self] at twice
    omega
  obtain ⟨between, after, rfl⟩ := List.append_of_mem (List.count_pos_iff.mp again)
  exact ⟨first ++ e :: between, after, by simp, by simp⟩

/-- The invitation is in both replies. -/
theorem invite_repeated :
    ¬ ∀ (w t : World Memory) (acts : List (Act Memory)), Lone Unanswered w →
      Runs.after (next memoryServer) w acts = some t → NoRepeats t.log := by
  intro once
  let invitation : ResultRow := ⟨1, [some (str "ann"), some (str "7"), some (str "bob"), some someTime]⟩
  have twice : (Runs.after (next memoryServer) annAsksTwice [.first, .first, .first]).any fun t =>
      2 ≤ t.log.count (.reply .getIvt [invitation]) := by
    decide +kernel
  obtain ⟨t, run, again⟩ := (Option.any_eq_true _ _).mp twice
  obtain ⟨before, after, split, member⟩ := behind_of_count (of_decide_eq_true again)
  have new := once _ t _ (annWaits_unanswered _ _) run before _ after split .getIvt [invitation] rfl
    (by simp) invitation (by simp)
  exact new ⟨[invitation], member, invitation, by simp, rfl⟩

end NineProject
