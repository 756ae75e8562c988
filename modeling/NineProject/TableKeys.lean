import NineProject.Base.Runs
import NineProject.AllOrNothing
import NineProject.Sql.Shared

/-! # Whose key a new table gets

`create_table` inserts its row and asks for the key with a second call, and between
the two any other session may insert on the same connection. The key is the call's
own as long as none of them does, and as long as its own insertion succeeds.
-/

namespace NineProject

open Bytes Sql

variable {σ : Type} {E : Engine σ} {view : σ → Store} {host : Str} {cont : List Str}

/-- The call ran its first statement on `db`, which added `r`. -/
def Inserted (E : Engine σ) (view : σ → Store) (host : Str) (cont : List Str) (db : σ) (r : Row) : Prop :=
  (view db).Adds (view (E.exec db (tableText host cont)).1) (str "chatTable") r

/-- The key, and that in the statement of every participant, is the rowid of the row the
    call inserted. -/
def OwnKey (E : Engine σ) (view : σ → Store) (host : Str) (cont : List Str) (s : Shared σ Fault Int)
    (key : Int) : Prop :=
  ∃ db r rest, s.ran = (db, tableText host cont) :: rest ∧ Inserted E view host cont db r ∧ key = r.rowid ∧
    rest.map Prod.snd = participateTexts r.rowid 0 cont

/-- The call's insertion adds its row, with a rowid that fits the key, and while the call
    has yet to ask for it no one else changes what the latest insertion is. -/
def Undisturbed (E : Engine σ) (view : σ → Store) (host : Str) (cont : List Str) (s : Shared σ Fault Int) :
    Turn → Prop
  | .mine => s.ran = [] → ∃ r, Inserted E view host cont s.db r ∧
      E.lastInsertRowid (E.exec s.db (tableText host cont)).1 = r.rowid ∧ InRange 32 r.rowid
  | .other i => s.mine.asksRowid = true → ∀ t ∈ s.next E (.other i),
      E.lastInsertRowid t.db = E.lastInsertRowid s.db

/-! ## How far the call is -/

/-- The call behind its first statement. -/
def asking (cont : List Str) : Query Int :=
  .lastInsertRowid fun n => do
    Qr.addParticipants (wrap 32 n) 0 cont
    pure (wrap 32 n)

/-- The call with these participants left. -/
def joining (key index : Int) (users : List Str) : Query Int := do
  Qr.addParticipants key index users
  pure key

theorem joining_cons (key index : Int) (user : Str) (rest : List Str) : joining key index (user :: rest) =
    .exec (insertText .participate (.string user) (.int key) [.int index])
      fun _ => joining key (index + 1) rest := by
  simp only [joining, Qr.addParticipants, participateText_eq]
  rfl

inductive Progress (E : Engine σ) (view : σ → Store) (host : Str) (cont : List Str)
    (s : Shared σ Fault Int) : Prop where
  | starts (mine : s.mine = Qr.createTable host cont) (ran : s.ran = [])
  | asks {db : σ} {r : Row} (mine : s.mine = asking cont) (ran : s.ran = [(db, tableText host cont)])
      (inserted : Inserted E view host cont db r) (fits : InRange 32 r.rowid)
      (last : E.lastInsertRowid s.db = r.rowid)
  | joins {db : σ} {r : Row} {rest : List (σ × Str)} {index : Int} {users : List Str}
      (mine : s.mine = joining r.rowid index users) (ran : s.ran = (db, tableText host cont) :: rest)
      (inserted : Inserted E view host cont db r)
      (texts : rest.map Prod.snd ++ participateTexts r.rowid index users = participateTexts r.rowid 0 cont)

namespace Progress

variable {s t : Shared σ Fault Int}

/-- A call of the session itself. -/
theorem mine (progress : Progress E view host cont s) (undisturbed : Undisturbed E view host cont s .mine)
    (step : s.next E .mine = some t) : Progress E view host cont t := by
  obtain ⟨⟨p, db'⟩, moved, rfl⟩ := Option.map_eq_some_iff.mp step
  cases progress with
  | starts mine ran =>
      obtain ⟨r, inserted, last, fits⟩ := undisturbed ran
      rw [mine] at moved
      cases moved
      exact .asks rfl (by rw [ran, mine]; rfl) inserted fits last
  | asks mine ran inserted fits last =>
      rename_i db r
      rw [mine] at moved
      cases moved
      have key : wrap 32 (E.lastInsertRowid s.db) = r.rowid := by rw [last, wrap32_eq_iff.mpr fits]
      have first : s.ran ++ s.mine.nextStatement.toList.map (fun text => (s.db, text)) =
          (db, tableText host cont) :: [] := by
        rw [ran, mine]
        rfl
      exact .joins (congrArg (fun key => joining key 0 cont) key) first inserted (List.nil_append _)
  | joins mine ran inserted texts =>
      rename_i users
      cases users with
      | nil =>
          rw [mine] at moved
          cases moved
      | cons user users =>
          rw [mine, joining_cons] at moved
          cases moved
          refine .joins rfl (by rw [ran]; rfl) inserted ?_
          rw [← texts, mine, joining_cons]
          simp [Program.nextStatement, participateTexts]

/-- A call of another session. -/
theorem other {i : Nat} (progress : Progress E view host cont s)
    (undisturbed : Undisturbed E view host cont s (.other i)) (step : s.next E (.other i) = some t) :
    Progress E view host cont t := by
  have same := undisturbed
  obtain ⟨q, -, moved⟩ := Option.bind_eq_some_iff.mp step
  obtain ⟨p, -, is⟩ := Option.map_eq_some_iff.mp moved
  have mine : t.mine = s.mine := by rw [← is]
  have ran : t.ran = s.ran := by rw [← is]
  cases progress with
  | starts mine' ran' => exact .starts (mine.trans mine') (ran.trans ran')
  | asks mine' ran' inserted fits last =>
      have kept := same (by rw [mine']; rfl) t step
      exact .asks (mine.trans mine') (ran.trans ran') inserted fits (kept.trans last)
  | joins mine' ran' inserted texts => exact .joins (mine.trans mine') (ran.trans ran') inserted texts

/-- The call can go on, or it has returned with its own key. -/
theorem returns (progress : Progress E view host cont s) :
    (s.next E .mine).isSome ∨ ∃ key, s.mine = .done key ∧ OwnKey E view host cont s key := by
  cases progress with
  | starts mine ran => exact .inl (by rw [Shared.next, mine]; rfl)
  | asks mine ran inserted fits last => exact .inl (by rw [Shared.next, mine]; rfl)
  | joins mine ran inserted texts =>
      rename_i users
      cases users with
      | nil => exact .inr ⟨_, mine, _, _, _, ran, inserted, rfl, by simpa [participateTexts] using texts⟩
      | cons user users => exact .inl (by rw [Shared.next, mine, joining_cons]; rfl)

end Progress

/-- In every interleaving that leaves the call undisturbed, the call returns with its own
    key or can go on. -/
theorem createTable_ownKey {s t : Shared σ Fault Int} {turns : List Turn}
    (mine : s.mine = Qr.createTable host cont) (ran : s.ran = [])
    (undisturbed : Runs.Each (Shared.next E) (Undisturbed E view host cont) s turns)
    (run : Runs.after (Shared.next E) s turns = some t) :
    (t.next E .mine).isSome ∨ ∃ key, t.mine = .done key ∧ OwnKey E view host cont t key := by
  refine Progress.returns (Runs.invariant (fun u turn v progress meets step => ?_) (.starts mine ran)
    undisturbed run)
  cases turn with
  | mine => exact progress.mine meets step
  | other i => exact progress.other meets step

/-! ## Sessions that create tables and send requests -/

/-- What another session may be doing. -/
inductive SessionCall where
  | createTable (host : Str) (cont : List Str)
  | insertMessage (rq : MsReq) (text : Str)
  | insertInvite (target sender : Str) (tableKey : Int)
  | insertConnection (sender target : Str)

def SessionCall.query : SessionCall → Query Unit
  | createTable host cont => do
      let _ ← Qr.createTable host cont
  | insertMessage rq text => do
      let _ ← Qr.insertMessage rq text
  | insertInvite target sender tableKey => Qr.insertInvite target sender tableKey
  | insertConnection sender target => do
      let _ ← Qr.insertConnection sender target

/-- A connection on which a call creates a table while others do these. -/
def creating (db : σ) (host : Str) (cont : List Str) (calls : List SessionCall) : Shared σ Fault Int :=
  ⟨db, Qr.createTable host cont, calls.map SessionCall.query, []⟩

/-- Ann creates a table for Bob while Carl asks her to connect; a request is there already. -/
def annAndCarl : Shared Memory Fault Int :=
  creating ⟨tables [(str "connectionRequest", [⟨1, [.text (str "dan"), .text (str "ann"), .text someTime]⟩])], 1⟩
    (str "ann") [str "bob"] [.insertConnection (str "carl") (str "ann")]

theorem annAndCarl_undisturbed : Runs.Each (Shared.next memoryServer.engine)
    (Undisturbed memoryServer.engine Memory.store (str "ann") [str "bob"]) annAndCarl
    [.other 0, .mine, .mine, .mine] := by
  have takes : memoryServer.engine.Takes Memory.store (tableText (str "ann") [str "bob"]) (str "chatTable") :=
    tableText_takes [str "bob"] (by decide) (by decide)
  refine ⟨fun asks => absurd asks (by decide), fun t step => ?_⟩
  cases step
  refine ⟨fun _ => ?_, fun t step => ?_⟩
  · obtain ⟨r, inserted, last⟩ := takes _
    refine ⟨r, inserted, last, ?_⟩
    rw [← last]
    decide +kernel
  · cases step
    refine ⟨fun ran => (List.cons_ne_nil _ _ ran).elim, fun t step => ?_⟩
    cases step
    exact ⟨fun ran => (List.cons_ne_nil _ _ ran).elim, fun _ _ => trivial⟩

theorem createTable_ownKey_alone :
    ∃ t, Runs.after (Shared.next memoryServer.engine) annAndCarl [.other 0, .mine, .mine, .mine] = some t ∧
      ((t.next memoryServer.engine .mine).isSome ∨ ∃ key, t.mine = .done key ∧
        OwnKey memoryServer.engine Memory.store (str "ann") [str "bob"] t key) := by
  obtain ⟨t, run⟩ := Option.isSome_iff_exists.mp (show (Runs.after (Shared.next memoryServer.engine) annAndCarl
    [.other 0, .mine, .mine, .mine]).isSome by decide +kernel)
  exact ⟨t, run, createTable_ownKey rfl rfl annAndCarl_undisturbed run⟩

/-- What a call returned, the rowids its first statement left in `chatTable`, and whether
    there were any before. -/
def returnedBeside (s : Shared Memory Fault Int) : Option Int × List Int × Bool :=
  (match s.mine with
    | .done key => some key
    | _ => none,
    (s.ran.head?.map fun first =>
      ((memoryServer.engine.exec first.1 first.2).1.store (str "chatTable")).rows.map Row.rowid).getD [],
    s.ran.head?.any fun first => ((first.1.store (str "chatTable")).rows).isEmpty)

/-- Carl's request comes in between, and Ann gets its rowid for her key. -/
theorem createTable_othersKey :
    ¬ ∀ (db : Memory) (host : Str) (cont : List Str) (calls : List SessionCall) (turns : List Turn)
      (t : Shared Memory Fault Int) (key : Int),
      Runs.after (Shared.next memoryServer.engine) (creating db host cont calls) turns = some t →
      t.mine = .done key → OwnKey memoryServer.engine Memory.store host cont t key := by
  intro own
  have left : (Runs.after (Shared.next memoryServer.engine) annAndCarl [.mine, .other 0, .mine, .mine]).any
      fun t => returnedBeside t = (some 2, [1], true) := by
    decide +kernel
  obtain ⟨t, run, is⟩ := (Option.any_eq_true _ _).mp left
  obtain ⟨returned, rowids, before⟩ : _ ∧ _ ∧ _ := by simpa [returnedBeside] using is
  cases mine : t.mine with
  | done key =>
      obtain ⟨db, r, rest, ran, ⟨-, grown, -⟩, same, -⟩ := own _ _ _ _ _ t key run mine
      simp only [mine, Option.some.injEq] at returned
      simp only [ran, List.head?_cons, Option.map_some, Option.getD_some, Option.any_some,
        List.isEmpty_iff] at rowids before
      rw [show ((memoryServer.engine.exec db (tableText (str "ann") [str "bob"])).1.store (str "chatTable")).rows =
        [r] by rw [grown, before]; rfl] at rowids
      simp only [List.map_cons, List.map_nil, List.cons.injEq, and_true] at rowids
      omega
  | fail e => simp [mine] at returned
  | exec text next => simp [mine] at returned
  | lastInsertRowid next => simp [mine] at returned

end NineProject
