import NineProject.Entries
import NineProject.Readers

/-! # When a query comes to its end

A callback throws on a row whose columns are not what it takes them for, and a fetch ends
where its buffer has no room left. So each query comes to the end of its rows under a
condition on these rows, and on the room for what is made of them.
-/

namespace NineProject

open Bytes Sql

section
variable {σ α : Type} {E : Engine σ} {db : σ}

theorem query_ends_iff {text : Str} {callback : α → ResultRow → Except Fault α} {init : α} :
    (query text callback init).Ends E db ↔ ∃ b, eachRow callback init (E.exec db text).2 = .ok b := by
  simp only [Query.Ends, query_run]

theorem fetch_ends_iff {text : Str} {entry : PBuffer × Int → ResultRow → Except Fault (PBuffer × Int)} {p : PBuffer} :
    (Qr.fetch text entry p).Ends E db ↔ ∃ got, eachRow entry (p, 0) (E.exec db text).2 = .ok got := by
  rw [Query.Ends, Qr.fetch_run]
  cases eachRow entry (p, 0) (E.exec db text).2 <;> simp [Except.map]

/-! ## Lists -/

/-- A callback that makes an element of each row ends where it can take them all. -/
theorem collect_ends_iff {f : ResultRow → Except Fault α} {Takes : ResultRow → Prop}
    (takes : ∀ row, (∃ a, f row = .ok a) ↔ Takes row) {init : List α} {rows : List ResultRow} :
    (∃ out, eachRow (fun list row => (f row).map fun a => list ++ [a]) init rows = .ok out) ↔
      ∀ row ∈ rows, Takes row := by
  refine eachRow_ends_iff fun list row => ?_
  rw [← takes row]
  cases f row <;> simp [Except.map]

theorem argText_ends {row : ResultRow} {i : Nat} : (∃ t, argText row i = .ok t) ↔ Shows row i := by
  simp [argText_ok]

theorem pushText_ends_iff {list : List Str} {rows : List ResultRow} :
    (∃ names, eachRow Qr.pushText list rows = .ok names) ↔ ∀ row ∈ rows, Shows row 0 :=
  collect_ends_iff fun _ => argText_ends

/-- The statement of `insert_message`. -/
def messageText (rq : MsReq) (text : Str) : Str :=
  insertQueryWithPair4 .message (0, .int rq.tableKey) (1, .int rq.sender) (2, .string text) (4, .int rq.uncheck)

/-- The statement of `get_dining_members`. -/
def membersText (tableKey : Int) : Str := selectQuery .participate (0, .int tableKey) Compare.equal 1

theorem getDiningMembers_ends {tableKey : Int} : (Qr.getDiningMembers tableKey).Ends E db ↔
    ∀ row ∈ (E.exec db (membersText tableKey)).2, Shows row 0 :=
  query_ends_iff.trans pushText_ends_iff

/-- The statement of `get_table`. -/
def seatsText (user : Str) : Str := selectQuery .participate (1, .string user) 2 0

/-- The keys that `get_table` reads. -/
def keysOf (seats : List ResultRow) : List Int := seats.filterMap fun row => Decimal.stoi (shown row 0)

theorem keysOf_inRange {seats : List ResultRow} {key : Int} (member : key ∈ keysOf seats) : InRange 32 key := by
  obtain ⟨row, -, read⟩ := List.mem_filterMap.mp member
  exact Decimal.stoi_inRange read

theorem getTable_ok {user : Str} {keys : List Int} : ((Qr.getTable user).run E db).result = .ok keys ↔
    (∀ row ∈ (E.exec db (seatsText user)).2, ShowsInt row 0) ∧ keys = keysOf (E.exec db (seatsText user)).2 := by
  simp only [Qr.getTable, query_run]
  rw [eachRow_collect]
  show (∃ made, keys = [] ++ made ∧ List.Forall₂ _ (E.exec db (seatsText user)).2 made) ↔ _
  simp only [List.nil_append, exists_eq_left']
  generalize (E.exec db (seatsText user)).2 = rows
  induction rows generalizing keys with
  | nil => simp [keysOf]
  | cons row rest ih =>
      rw [List.forall_mem_cons, keysOf, List.filterMap_cons]
      constructor
      · intro all
        cases all with
        | cons first others =>
            obtain ⟨there, value⟩ := argInt_ok.mp first
            obtain ⟨numbers, rfl⟩ := ih.mp others
            exact ⟨⟨⟨there, by simp [value]⟩, numbers⟩, by simp [value, keysOf]⟩
      · rintro ⟨⟨⟨there, value⟩, numbers⟩, rfl⟩
        obtain ⟨key, value⟩ := Option.isSome_iff_exists.mp value
        rw [value]
        exact .cons (argInt_ok.mpr ⟨there, value⟩) (ih.mpr ⟨numbers, rfl⟩)

/-- The statements of `get_friend_list`: the friends on one side, and on the other. -/
def friendsText (user : Str) (side other : Int) : Str := selectQuery .userPair (side, .string user) Compare.equal other

/-- The names of both sides can be read. -/
def FriendsReadable (E : Engine σ) (db : σ) (user : Str) : Prop :=
  let one := E.exec db (friendsText user 0 1)
  (∀ row ∈ one.2, Shows row 0) ∧ ∀ row ∈ (E.exec one.1 (friendsText user 1 0)).2, Shows row 0

instance (user : Str) : Decidable (FriendsReadable E db user) := inferInstanceAs (Decidable (_ ∧ _))

theorem getFriendList_ends {user : Str} : (Qr.getFriendList user).Ends E db ↔ FriendsReadable E db user := by
  simp only [Query.Ends, Qr.getFriendList, Program.run_bind_ok, Program.run_statement, lift_run, Program.run_pure,
    Except.ok.injEq, exists_eq_left']
  constructor
  · rintro ⟨-, friends, first, all, second, -⟩
    exact ⟨pushText_ends_iff.mp ⟨friends, first⟩, pushText_ends_iff.mp ⟨all, second⟩⟩
  · rintro ⟨one, two⟩
    obtain ⟨friends, first⟩ : ∃ friends, eachRow Qr.pushText [] (E.exec db (friendsText user 0 1)).2 = .ok friends :=
      pushText_ends_iff.mpr one
    obtain ⟨all, second⟩ := (pushText_ends_iff : (∃ all, eachRow Qr.pushText friends _ = .ok all) ↔ _).mpr two
    exact ⟨_, friends, first, all, second, rfl⟩

/-! ## Logins -/

/-- The statement of `check_user_password`. -/
def passwordText (id : Str) : Str := selectQuery .user (0, .string id) 2 1

/-- The password of the last row; without rows it is empty. -/
def lastShown (rows : List ResultRow) : Str := (rows.getLast?.map fun row => shown row 0).getD []

theorem checkUserPassword_ok {id pw : Str} {accepted : Bool} :
    ((Qr.checkUserPassword id pw).run E db).result = .ok accepted ↔
      (∀ row ∈ (E.exec db (passwordText id)).2, Shows row 0) ∧
        accepted = (pw == lastShown (E.exec db (passwordText id)).2) := by
  have last : ∀ (rows : List ResultRow) (init t : Str), eachRow (fun _ row => argText row 0) init rows = .ok t ↔
      (∀ row ∈ rows, Shows row 0) ∧ t = (rows.getLast?.map fun row => shown row 0).getD init := by
    intro rows
    induction rows with
    | nil => simp [eachRow, eq_comm]
    | cons row rest ih =>
        intro init t
        rw [List.forall_mem_cons, eachRow]
        by_cases there : Shows row 0
        · rw [argText_of_shows there]
          refine (ih (shown row 0) t).trans ?_
          cases rest with
          | nil => simp [there]
          | cons next others => simp [there, List.getLast?_eq_some_getLast]
        · refine iff_of_false ?_ fun h => there h.1.1
          intro ran
          obtain ⟨first, text, -⟩ := bind_eq_ok.mp ran
          exact there (argText_ok.mp text).1
  simp only [Qr.checkUserPassword, Program.run_bind_ok, query_run, Program.run_pure, Except.ok.injEq]
  constructor
  · rintro ⟨wpw, ran, rfl⟩
    obtain ⟨texts, rfl⟩ := (last _ _ _).mp ran
    exact ⟨texts, rfl⟩
  · rintro ⟨texts, rfl⟩
    exact ⟨_, (last _ _ _).mpr ⟨texts, rfl⟩, rfl⟩

theorem checkUserPassword_db {id pw : Str} :
    ((Qr.checkUserPassword id pw).run E db).db = (E.exec db (passwordText id)).1 := by
  simp only [Qr.checkUserPassword, Program.run_bind, query_run]
  cases eachRow (fun _ row => argText row 0) [] (E.exec db _).2 <;> rfl

/-- The statement of `get_check_list`. -/
def checkListText (user : Str) : Str := selectQuery .checkList (0, .string user) Compare.equal SelectTarget.all

/-- The columns of the row behind the first are numbers, and there is a place for each. -/
def CheckReadable (row : ResultRow) : Prop := ∀ i ∈ (List.range row.argv.length).drop 1, ShowsInt row i ∧ i < 10

instance (row : ResultRow) : Decidable (CheckReadable row) := inferInstanceAs (Decidable (∀ i ∈ _, _))

theorem setCheckList_ends {list : Vector Int 10} {row : ResultRow} :
    (∃ list', Qr.setCheckList list row = .ok list') ↔ CheckReadable row := by
  unfold Qr.setCheckList CheckReadable
  generalize (List.range row.argv.length).drop 1 = places
  induction places generalizing list with
  | nil => exact ⟨fun _ _ member => absurd member List.not_mem_nil, fun _ => ⟨list, rfl⟩⟩
  | cons i rest ih =>
      rw [List.forall_mem_cons, List.foldlM_cons]
      constructor
      · rintro ⟨list', ran⟩
        obtain ⟨mid, here, others⟩ := bind_eq_ok.mp ran
        obtain ⟨n, read, set⟩ := bind_eq_ok.mp here
        by_cases inside : i < 10
        · exact ⟨⟨argInt_ends.mp ⟨n, read⟩, inside⟩, ih.mp ⟨list', others⟩⟩
        · rw [if_neg inside] at set
          cases set
      · rintro ⟨⟨number, inside⟩, others⟩
        obtain ⟨n, read⟩ := argInt_ends.mpr number
        obtain ⟨list', ran⟩ := ih.mpr others
        exact ⟨list', bind_eq_ok.mpr ⟨_, bind_eq_ok.mpr ⟨n, read, if_pos inside⟩, ran⟩⟩

theorem getCheckList_ends {user : Str} : (Qr.getCheckList user).Ends E db ↔
    ∀ row ∈ (E.exec db (checkListText user)).2, CheckReadable row := by
  rw [Qr.getCheckList, query_ends_iff]
  have takes : ∀ list row, (∃ list', Qr.setCheckList list row = .ok list') ↔ CheckReadable row :=
    fun _ _ => setCheckList_ends
  exact eachRow_ends_iff takes

/-! ## Fetches -/

variable {lib : External σ} {p : PBuffer}

/-- The statement of `get_new_ivt_req`. -/
def invitesText (user : Str) : Str := selectQuery .invite (0, .string user) Compare.equal SelectTarget.all

/-- The invites of a user can be read, and their entries have room. -/
def InvitesReadable (E : Engine σ) (db : σ) (p : PBuffer) (user : Str) : Prop :=
  let rows := (E.exec db (invitesText user)).2
  (∀ row ∈ rows, InviteReadable row) ∧ p.RoomFor (rows.flatMap inviteLengths)

instance (user : Str) : Decidable (InvitesReadable E db p user) := inferInstanceAs (Decidable (_ ∧ _))

theorem getNewIvtReq_ends {user : Str} : (Qr.getNewIvtReq lib user p).Ends lib.engine db ↔
    InvitesReadable lib.engine db p user := by
  rw [Qr.getNewIvtReq_fetch, fetch_ends_iff]
  exact (inviteEntry_enters lib).ends_iff

/-- The statement of `get_new_connection_req`. -/
def requestsText (user : Str) (lastCheck : Int) : Str :=
  selectQuery2 .connectionRequest (1, .string user) (-2, .int lastCheck) Compare.equal
    Compare.equalAndHigher SelectTarget.all

/-- The fetch of connection requests ends where it finds none. -/
theorem getNewConnectionReq_ends {user : Str} {lastCheck : Int} :
    (Qr.getNewConnectionReq lib user p lastCheck).Ends lib.engine db ↔
      (lib.engine.exec db (requestsText user lastCheck)).2 = [] := by
  rw [Qr.getNewConnectionReq_fetch, fetch_ends_iff]
  exact connectionEntries_iff lib

/-- The messages of these tables that are asked for one table after the other: each is asked
    from the rowid that the one before it left. -/
def messagesAsked (E : Engine σ) : σ → Int → List Int → List ResultRow
  | _, _, [] => []
  | db, lastCheck, tableKey :: rest =>
      let one := E.exec db (fetchText tableKey lastCheck)
      one.2 ++ messagesAsked E one.1 (wrap 32 (E.lastInsertRowid one.1)) rest

theorem eachRow_append {α : Type} (callback : α → ResultRow → Except Fault α) (init : α)
    (rows more : List ResultRow) : eachRow callback init (rows ++ more) =
      (eachRow callback init rows).bind fun a => eachRow callback a more := by
  induction rows generalizing init with
  | nil => rfl
  | cons row rest ih =>
      simp only [List.cons_append, eachRow]
      cases callback init row with
      | error e => rfl
      | ok a => exact ih a

/-- Entries are the same whatever was counted before them. -/
theorem Appends.eachRow_count {entry : PBuffer × Int → ResultRow → Except Fault (PBuffer × Int)}
    {parts : ResultRow → Except Fault (List Byte × List Byte)} (appends : Appends entry parts) {q : PBuffer}
    {n m : Int} {rows : List ResultRow} :
    NineProject.eachRow entry (p, n) rows = .ok (q, n + m) ↔ NineProject.eachRow entry (p, 0) rows = .ok (q, m) := by
  rw [appends.eachRow, appends.eachRow]
  simp

/-- What the fetches of these tables leave: the entries of all rows they ask for. -/
theorem newMessages_ok {c n : Int} {keys : List Int} {b : PBuffer} {rows : List ResultRow} :
    (∃ left, ((Qr.getNewMessageInTables lib p c keys).run lib.engine db).result = .ok ⟨b, n, left, rows⟩) ↔
      eachRow (Qr.messageEntry lib) (p, 0) (messagesAsked lib.engine db c keys) = .ok (b, n) ∧
        rows = messagesAsked lib.engine db c keys := by
  induction keys generalizing db p c n rows with
  | nil => simp [Qr.getNewMessageInTables, messagesAsked, eachRow, eq_comm, and_assoc]
  | cons k rest ih =>
      have counts := (messageEntry_enters lib).appends
      simp only [Qr.getNewMessageInTables, Program.run_bind_ok, Qr.getNewMessageInTable_fetch, Program.run_pure,
        Except.ok.injEq, messagesAsked]
      rw [eachRow_append]
      constructor
      · rintro ⟨left, here, first, ⟨b', m, left', behind⟩, later, same⟩
        obtain ⟨ran, cursor, found⟩ := Qr.fetch_eq_ok.mp first
        cases same
        rw [Qr.fetch_db, cursor] at later
        obtain ⟨others, behind⟩ := ih.mp ⟨_, later⟩
        refine ⟨?_, by rw [found, behind]; rfl⟩
        exact bind_eq_ok.mpr ⟨_, ran, counts.eachRow_count.mpr others⟩
      · rintro ⟨ran, rfl⟩
        obtain ⟨⟨q, m⟩, here, others⟩ := bind_eq_ok.mp ran
        have later := counts.eachRow_count (m := n - m).mp (by rwa [add_sub_cancel])
        obtain ⟨left, more⟩ := ih.mpr ⟨later, rfl⟩
        let one := lib.engine.exec db (fetchText k c)
        let cursor := wrap 32 (lib.engine.lastInsertRowid one.1)
        refine ⟨left, ⟨q, m, cursor, one.2⟩, Qr.fetch_eq_ok.mpr ⟨here, rfl, rfl⟩,
          ⟨b, n - m, left, messagesAsked lib.engine one.1 cursor rest⟩, ?_, ?_⟩
        · rw [Qr.fetch_db]
          exact more
        · simp only [add_sub_cancel]
          rfl

/-- The messages of a user's tables can be read, and their entries have room. -/
def MessagesReadable (lib : External σ) (db : σ) (p : PBuffer) (user : Str) (lastCheck : Int) : Prop :=
  let seats := lib.engine.exec db (seatsText user)
  let rows := messagesAsked lib.engine seats.1 lastCheck (keysOf seats.2)
  (∀ row ∈ seats.2, ShowsInt row 0) ∧ (∀ row ∈ rows, MessageReadable lib row) ∧
    p.RoomFor (rows.flatMap messageLengths)

instance (user : Str) (lastCheck : Int) : Decidable (MessagesReadable lib db p user lastCheck) :=
  inferInstanceAs (Decidable (_ ∧ _ ∧ _))

theorem getNewMessage_ends {user : Str} {lastCheck : Int} :
    (Qr.getNewMessage lib p user lastCheck).Ends lib.engine db ↔ MessagesReadable lib db p user lastCheck := by
  have run : ((Qr.getTable user).run lib.engine db).db = (lib.engine.exec db (seatsText user)).1 := by
    simp only [Qr.getTable, query_run]
    rfl
  simp only [Query.Ends, Qr.getNewMessage, Program.run_bind_ok, getTable_ok, run]
  unfold MessagesReadable
  refine Iff.trans ?_ (and_congr_right fun _ => (messageEntry_enters lib).ends_iff (n := 0))
  constructor
  · rintro ⟨⟨b, n, left, rows⟩, keys, ⟨numbers, rfl⟩, ran⟩
    exact ⟨numbers, ⟨_, (newMessages_ok.mp ⟨left, ran⟩).1⟩⟩
  · rintro ⟨numbers, ⟨b, n⟩, ran⟩
    obtain ⟨left, made⟩ := newMessages_ok.mpr ⟨ran, rfl⟩
    exact ⟨_, _, ⟨numbers, rfl⟩, made⟩

end

end NineProject
