import NineProject.Replies

/-! # The list of friends

Two queries look a user up in either column of `userPair` and take the other. The list
goes out in blocking writes, a header that counts it and a descriptor in front of every
id.
-/

namespace NineProject

open Bytes Sql M Effect

/-! ## Rows of `userPair` -/

structure UserPair where
  rowid : Int
  user0 : Str
  user1 : Str
  deriving DecidableEq, Repr

def pairColumns : List Column := [⟨str "user0", .text⟩, ⟨str "user1", .text⟩]

def UserPair.row (p : UserPair) : Row := ⟨p.rowid, [.text p.user0, .text p.user1]⟩

/-- The table with these rows. -/
def pairTable (content : List UserPair) : Table := ⟨pairColumns, content.map UserPair.row⟩

/-- The partners of the rows with the user in front, and those of the rows with the user behind. -/
def friendsOf (content : List UserPair) (user : Str) : List Str :=
  (content.filter fun p => p.user0 = user).map UserPair.user1 ++
    (content.filter fun p => p.user1 = user).map UserPair.user0

/-- Each row makes its two ids friends of each other, once. -/
theorem friendsOf_cons_count (p : UserPair) (content : List UserPair) (u v : Str) :
    (friendsOf (p :: content) u).count v = (friendsOf content u).count v +
      ((if p.user0 = u ∧ p.user1 = v then 1 else 0) + if p.user1 = u ∧ p.user0 = v then 1 else 0) := by
  simp only [friendsOf, List.filter_cons, List.count_append]
  by_cases front : p.user0 = u
  · by_cases behind : p.user1 = u
    · simp only [front, behind, decide_true, if_true, List.map_cons, List.count_cons, true_and, beq_iff_eq]
      omega
    · simp only [front, behind, decide_true, decide_false, Bool.false_eq_true, if_true, if_false, List.map_cons,
        List.count_cons, true_and, false_and, beq_iff_eq]
      omega
  · by_cases behind : p.user1 = u
    · simp only [front, behind, decide_true, decide_false, Bool.false_eq_true, if_true, if_false, List.map_cons,
        List.count_cons, true_and, false_and, beq_iff_eq]
      omega
    · simp only [front, behind, decide_false, Bool.false_eq_true, if_false, false_and]
      omega

theorem friendsOf_symmetric (content : List UserPair) (u v : Str) :
    (friendsOf content u).count v = (friendsOf content v).count u := by
  induction content with
  | nil => rfl
  | cons p rest ih =>
      rw [friendsOf_cons_count, friendsOf_cons_count, ih]
      simp only [and_comm (a := p.user0 = u), and_comm (a := p.user1 = u)]
      omega

/-! ## What the queries find -/

section
variable {σ : Type} {E : Engine σ} {numeric : Str → Value} {view : σ → Store}

theorem eachRow_pushText {α : Type} (id : α → Int) (text : α → Str) (l : List α) (init : List Str) :
    eachRow Qr.pushText init (l.map fun a => ⟨id a, [some (text a)]⟩) =
      .ok (init ++ l.map fun a => cString (text a)) := by
  refine eachRow_collect.mpr ⟨_, rfl, ?_⟩
  rw [List.forall₂_map_left_iff, List.forall₂_map_right_iff, List.forall₂_same]
  exact fun a _ => argText_eq rfl

/-- A column of the rows with the user in the other one. -/
theorem partners_exec (lawful : E.Lawful numeric view) {user : Str} {db : σ} {content : List UserPair}
    {first target : Int} {i : Nat} {own other : UserPair → Str} {ts : List Token}
    (plain : 34 ∉ user) (nulFree : 0 ∉ user) (noColumn : ¬ (pairTable content).knows user)
    (holds : view db (str "userPair") = pairTable content) (column : QueryDescriptor.userPair.dsc.HasColumn first)
    (asked : QueryDescriptor.userPair.dsc.HasColumn target)
    (opens : Lexer.scan .gap (selectOpening .userPair first Compare.equal target) = some (ts, .string 34 []))
    (clear : Lexer.Clear (selectOpening .userPair first Compare.equal target))
    (at_ : (pairTable content).index (conditionColumn QueryDescriptor.userPair.dsc first) = some i)
    (kind : (pairTable content).affinity (conditionColumn QueryDescriptor.userPair.dsc first) = .text)
    (here : ∀ p : UserPair, p.row.cells[i]? = some (.text (own p)))
    (there : ∀ p : UserPair, (pairTable content).project p.row (targetOf QueryDescriptor.userPair.dsc target) =
      [some (other p)])
    (known : (pairTable content).shows (targetOf QueryDescriptor.userPair.dsc target)) :
    E.exec db (selectQuery .userPair (first, .string user) Compare.equal target) =
      (db, (content.filter fun p => own p = user).map fun p => ⟨p.rowid, [some (other p)]⟩) := by
  have table : view db QueryDescriptor.userPair.dsc.getTableName = pairTable content := holds
  have rows : (pairTable content).rows = content.map UserPair.row := rfl
  have kept : ∀ p ∈ content, ((fun r : Row => decide (r.cells[i]? = some (.text user))) ∘ UserPair.row) p =
      decide (own p = user) := fun p _ => by simp [here]
  rw [selectText_exec lawful (.inr column) (.inr (.inr asked)) opens clear plain db, if_neg nulFree,
    select_text_rows numeric (by rw [table]; exact at_) (by rw [table]; exact kind) (by rw [table]; exact noColumn)
      (by rw [table]; exact known), table, rowsWith, rows, List.filter_map, List.map_map, List.filter_congr kept]
  exact congrArg (Prod.mk db) (List.map_congr_left fun p _ => by rw [Function.comp_apply, there]; rfl)

theorem getFriendList_result (lawful : E.Lawful numeric view) {user : Str} {db : σ} {content : List UserPair}
    (plain : 34 ∉ user) (nulFree : 0 ∉ user) (noColumn : ¬ (pairTable content).knows user)
    (holds : view db (str "userPair") = pairTable content) :
    ∃ rows, ((Qr.getFriendList user).run E db).result = .ok ((friendsOf content user).map cString, rows) := by
  have front : E.exec db (selectQuery .userPair (0, .string user) Compare.equal 1) =
      (db, (content.filter fun p => p.user0 = user).map fun p => ⟨p.rowid, [some p.user1]⟩) :=
    partners_exec lawful plain nulFree noColumn holds (by decide) (by decide) rfl (by decide) rfl rfl
      (fun _ => rfl) (fun _ => rfl) rfl
  have behind : E.exec db (selectQuery .userPair (1, .string user) Compare.equal 0) =
      (db, (content.filter fun p => p.user1 = user).map fun p => ⟨p.rowid, [some p.user0]⟩) :=
    partners_exec lawful plain nulFree noColumn holds (by decide) (by decide) rfl (by decide) rfl rfl
      (fun _ => rfl) (fun _ => rfl) rfl
  refine ⟨(E.exec db (selectQuery .userPair (0, .string user) Compare.equal 1)).2 ++
    (E.exec db (selectQuery .userPair (1, .string user) Compare.equal 0)).2, ?_⟩
  simp only [Qr.getFriendList, Program.run_bind, Program.run_statement, lift_run, Program.run_pure, front, behind,
    eachRow_pushText, friendsOf, List.map_append, List.map_map, Function.comp_def, List.nil_append]

end

/-! ## What is sent -/

/-- The bytes of all writes, one behind the other. -/
def sent (log : List Event) : List Byte :=
  log.flatMap fun e => match e with
    | .wrote bytes => bytes
    | _ => []

def UserDescriptor.layout : Layout := ⟨UserDescriptor.size, 0⟩

theorem UserDescriptor.framed {u : UserDescriptor} {text : Str} (count : u.idSize = text.length)
    (int : text.length < 2 ^ 31) : layout.Framed (u.toBytes, text) := by
  have inRange : InRange 32 u.idSize := by
    rw [count]
    exact ⟨by omega, by norm_num; omega⟩
  refine ⟨by simp [toBytes, layout, size], ?_⟩
  show field u.toBytes 0 4 = _
  rw [← count]
  exact field_head _ (by decide) inRange

theorem friendsHeader_count (friends : List Str) : (friendsHeader friends).count = wrap 32 friends.length := by
  simp only [friendsHeader]

/-- The descriptor of an id, and the id. -/
def friendEntry (s : Str) : List Byte × List Byte := (UserDescriptor.toBytes ⟨wrap 32 s.length, 0⟩, s)

/-- The reply with these friends. -/
def friendsReply (friends : List Str) : List Byte :=
  (friendsHeader friends).toBytes ++ (friends.map friendEntry).flatMap Layout.encode

section
variable {σ : Type}

/-- Every blocking write there will be succeeds. -/
structure World.Writes (w : World σ) : Prop where
  opened : w.self.socket.opened = true
  succeed : ∀ outcome ∈ w.self.socket.writes, outcome = none

/-- These bytes were written since, and the header queue is as it was. -/
structure Wrote (w : World σ) (bytes : List Byte) (t : World σ) : Prop where
  writes : t.Writes
  pc : t.self.pc = w.self.pc
  sent : sent t.log = sent w.log ++ bytes

theorem sent_append (log more : List Event) : sent (log ++ more) = sent log ++ sent more := List.flatMap_append

theorem sent_quiet {log : List Event} (quiet : ∀ e ∈ log, ∀ bytes, e ≠ .wrote bytes) : sent log = [] := by
  refine List.flatMap_eq_nil_iff.mpr fun e member => ?_
  cases e with
  | wrote bytes => exact absurd rfl (quiet _ member bytes)
  | _ => rfl

theorem Wrote.trans {w v t : World σ} {first second : List Byte} (one : Wrote w first v) (two : Wrote v second t) :
    Wrote w (first ++ second) t :=
  ⟨two.writes, two.pc.trans one.pc, by rw [two.sent, one.sent, List.append_assoc]⟩

theorem writing_wrote {w : World σ} (writes : w.Writes) (bytes : List Byte) :
    (w.writing bytes).1 = none ∧ Wrote w bytes (w.writing bytes).2 := by
  unfold World.writing
  by_cases empty : bytes = []
  · rw [if_pos empty]
    exact ⟨rfl, writes, rfl, by rw [empty, List.append_nil]⟩
  · have outcome : w.self.socket.writes.head?.join = none := by
      cases outcomes : w.self.socket.writes with
      | nil => rfl
      | cons outcome rest => simp [writes.succeed outcome (by simp [outcomes])]
    simp only [if_neg empty, writes.opened, Bool.true_eq_false, if_false, outcome]
    refine ⟨trivial, ⟨rfl, fun o member => writes.succeed o (List.mem_of_mem_tail member)⟩, rfl, ?_⟩
    exact (sent_append _ _).trans (congrArg _ (List.append_nil _))

theorem sendFriends_wrote (users : List Str) {w : World σ} (writes : w.Writes) :
    Returns (sendFriends none users) w fun ell t =>
      ell = none ∧ Wrote w ((users.map friendEntry).flatMap Layout.encode) t := by
  induction users generalizing w with
  | nil => exact returns_pure.mpr ⟨rfl, writes, rfl, (List.append_nil _).symm⟩
  | cons user rest ih =>
      obtain ⟨-, one⟩ := writing_wrote writes (UserDescriptor.toBytes ⟨wrap 32 user.length, 0⟩)
      obtain ⟨succeeded, two⟩ := writing_wrote one.writes user
      simp only [sendFriends, sendIdWithDesc, returns_bind, returns_write, succeeded, returns_when,
        Option.isSome_none, Bool.false_eq_true, if_false]
      refine (ih two.writes).mono fun ell t later => ?_
      obtain ⟨none_, others⟩ := later
      refine ⟨none_, ?_⟩
      rw [List.map_cons, List.flatMap_cons]
      exact (one.trans two).trans others

/-- The handler writes the reply, where all writes succeed. -/
theorem friendList_sent (lib : External σ) {w : World σ} {h : Pchd} {got : List Str × List ResultRow}
    (queue : w.self.pc.hQue = [h]) (writes : w.Writes)
    (ran : ((Qr.getFriendList w.self.userName).run lib.engine w.db).result = .ok got) :
    Returns (rgetFriendList lib (taskEnd lib)) w fun _ t => sent t.log = sent w.log ++ friendsReply got.1 := by
  let v := w.ran .getFriendList ((Qr.getFriendList w.self.userName).run lib.engine w.db)
  have asked : sent v.log = sent w.log := by
    have quiet : sent (((Qr.getFriendList w.self.userName).run lib.engine w.db).executed.map
        (Event.exec .getFriendList)) = [] := sent_quiet fun e member bytes is => by
      obtain ⟨text, -, rfl⟩ := List.mem_map.mp member
      cases is
    exact (sent_append _ _).trans (by rw [quiet, List.append_nil])
  obtain ⟨succeeded, header⟩ := writing_wrote (w := v) ⟨writes.opened, writes.succeed⟩ (friendsHeader got.1).toBytes
  let u := (v.writing (friendsHeader got.1).toBytes).2.logged (.reply .getFriendList got.2)
  rw [returns_getFriendList]
  refine ⟨got, ran, succeeded, ?_⟩
  refine (sendFriends_wrote got.1 (w := u) ⟨header.writes.opened, header.writes.succeed⟩).mono fun ell t => ?_
  rintro ⟨rfl, entries⟩
  have ends : t.self.pc.hQue = [h] := by
    rw [entries.pc]
    show (v.writing (friendsHeader got.1).toBytes).2.self.pc.hQue = _
    rw [header.pc]
    exact queue
  refine (returns_taskEnd lib ends).mpr ?_
  have replied : sent u.log = sent v.log ++ (friendsHeader got.1).toBytes := by
    rw [← header.sent]
    exact (sent_append _ _).trans (List.append_nil _)
  have waited : sent t.ended.waits.log = sent t.log := by
    have log : t.ended.waits.log = t.log ++ [.pop t.popped t.ticket, .source t.pop.sourceBusy,
      .read .header Pchd.size t.ended.self.pc.iData.length] := by
      simp only [World.waits, World.ended, World.touchSource, World.pop, World.logged, World.started,
        List.append_assoc, List.cons_append, List.nil_append]
    rw [log]
    exact (sent_append _ _).trans (List.append_nil _)
  rw [waited, entries.sent, replied, asked, friendsReply, List.append_assoc]

/-- The handler ends, and what it has written is decoded to these ids. -/
def FriendsReplied (lib : External σ) (w : World σ) (ids : List Str) : Prop :=
  Returns (rgetFriendList lib (taskEnd lib)) w fun _ t => ∃ bytes, sent t.log = sent w.log ++ bytes ∧
    (readReply UserDescriptor.layout bytes).map (fun es => es.map Prod.snd) = some ids

theorem friendsReplied_iff {lib : External σ} {w : World σ} {h : Pchd} {got : List Str × List ResultRow}
    {ids : List Str} (queue : w.self.pc.hQue = [h]) (writes : w.Writes)
    (ran : ((Qr.getFriendList w.self.userName).run lib.engine w.db).result = .ok got) :
    FriendsReplied lib w ids ↔
      (readReply UserDescriptor.layout (friendsReply got.1)).map (fun es => es.map Prod.snd) = some ids := by
  obtain ⟨a, t, ends, log⟩ := friendList_sent lib queue writes ran
  constructor
  · rintro ⟨a', t', ends', bytes, log', decoded⟩
    cases ends.symm.trans ends'
    rwa [List.append_cancel_left (log.symm.trans log')]
  · exact fun decoded => ⟨a, t, ends, _, log, decoded⟩

/-- Ids that a descriptor can size, and no more than a header can count, are read back. -/
theorem readReply_friends {friends : List Str} (short : ∀ s ∈ friends, s.length < 2 ^ 31)
    (few : friends.length < 2 ^ 31) :
    readReply UserDescriptor.layout (friendsReply friends) = some (friends.map friendEntry) := by
  have few' : (friends.map friendEntry).length < 2 ^ 31 := by rwa [List.length_map]
  refine readReply_encode ?_ ?_ few'
  · intro e member
    obtain ⟨s, there, rfl⟩ := List.mem_map.mp member
    rw [friendEntry, wrap32_nat (short s there)]
    exact UserDescriptor.framed rfl (short s there)
  · rw [List.length_map]
    exact (friendsHeader_count friends).trans (wrap32_nat few)

/-! ## Friends are mutual -/

variable {lib : External σ} {numeric : Str → Value} {view : σ → Store}

/-- A user asks for friends among these pairs, and all writes succeed. -/
structure AsksFriends (view : σ → Store) (content : List UserPair) (w : World σ) : Prop where
  queue : ∃ h, w.self.pc.hQue = [h]
  writes : w.Writes
  holds : view w.db (str "userPair") = pairTable content
  plain : 34 ∉ w.self.userName
  noColumn : ¬ (pairTable content).knows w.self.userName

/-- An id that a C string shows whole and a descriptor can size. -/
def PlainId (s : Str) : Prop := 0 ∉ s ∧ s.length < 2 ^ 31

instance (s : Str) : Decidable (PlainId s) := inferInstanceAs (Decidable (_ ∧ _))

theorem friendsOf_plain {content : List UserPair} (ids : ∀ p ∈ content, PlainId p.user0 ∧ PlainId p.user1)
    {user s : Str} (friend : s ∈ friendsOf content user) : PlainId s := by
  rcases List.mem_append.mp friend with front | behind
  · obtain ⟨p, member, rfl⟩ := List.mem_map.mp front
    exact (ids p (List.mem_filter.mp member).1).2
  · obtain ⟨p, member, rfl⟩ := List.mem_map.mp behind
    exact (ids p (List.mem_filter.mp member).1).1

/-- The user's name reaches the engine whole, and a header can count the friends. -/
structure Countable (content : List UserPair) (user : Str) : Prop where
  nulFree : 0 ∉ user
  few : (friendsOf content user).length < 2 ^ 31

theorem AsksFriends.replied_iff (lawful : lib.engine.Lawful numeric view) {content : List UserPair} {w : World σ}
    (ids : ∀ p ∈ content, PlainId p.user0 ∧ PlainId p.user1) (asks : AsksFriends view content w)
    (countable : Countable content w.self.userName) {us : List Str} :
    FriendsReplied lib w us ↔ friendsOf content w.self.userName = us := by
  obtain ⟨h, queue⟩ := asks.queue
  obtain ⟨rows, ran⟩ := getFriendList_result lawful asks.plain countable.nulFree asks.noColumn asks.holds
  have whole : (friendsOf content w.self.userName).map cString = friendsOf content w.self.userName :=
    List.map_congr_left (fun s friend => cString_fixed (friendsOf_plain ids friend).1) |>.trans (List.map_id _)
  rw [whole] at ran
  rw [friendsReplied_iff queue asks.writes ran,
    readReply_friends (fun s friend => (friendsOf_plain ids friend).2) countable.few]
  simp [friendEntry, Function.comp_def]

/-- A user is sent the partners of both columns, and two users are in each other's lists
    equally often. -/
theorem friendList_decodes (lawful : lib.engine.Lawful numeric view) {content : List UserPair}
    (ids : ∀ p ∈ content, PlainId p.user0 ∧ PlainId p.user1) {w : World σ} (asks : AsksFriends view content w)
    (countable : Countable content w.self.userName) :
    FriendsReplied lib w (friendsOf content w.self.userName) ∧
      ∀ v : World σ, AsksFriends view content v → Countable content v.self.userName → ∀ us vs,
        FriendsReplied lib w us → FriendsReplied lib v vs →
          us.count v.self.userName = vs.count w.self.userName := by
  refine ⟨(asks.replied_iff lawful ids countable).mpr rfl, fun v others countable' us vs mine theirs => ?_⟩
  rw [← (asks.replied_iff lawful ids countable).mp mine, ← (others.replied_iff lawful ids countable').mp theirs]
  exact friendsOf_symmetric content _ _

end

/-! ## Bob's friends -/

/-- Somebody asks for friends among these pairs. -/
def asksAs (user : Str) (content : List UserPair) : World Memory :=
  askingFor user .getFriendList [(str "userPair", content.map UserPair.row)]

/-- Bob does. -/
def bobAsks (content : List UserPair) : World Memory := asksAs (str "bob") content

def somePairs : List UserPair := [⟨1, str "ann", str "bob"⟩, ⟨2, str "bob", str "carl"⟩, ⟨3, str "bob", str "bob"⟩]

theorem pairTable_unknown (content : List UserPair) : ¬ (pairTable content).knows (str "bob") :=
  show ¬ (Table.mk pairColumns []).knows (str "bob") by decide

theorem bobAsks_asks (content : List UserPair) : AsksFriends Memory.store content (bobAsks content) :=
  ⟨⟨_, rfl⟩, ⟨rfl, fun _ member => by cases member⟩, rfl, show 34 ∉ str "bob" by decide, pairTable_unknown content⟩

theorem friendList_decodes_bob :
    FriendsReplied memoryServer (bobAsks somePairs) (friendsOf somePairs (str "bob")) ∧
      ∀ v : World Memory, AsksFriends Memory.store somePairs v → Countable somePairs v.self.userName → ∀ us vs,
        FriendsReplied memoryServer (bobAsks somePairs) us → FriendsReplied memoryServer v vs →
          us.count v.self.userName = vs.count (str "bob") :=
  friendList_decodes (Memory.engine_lawful .text _) (by decide) (bobAsks_asks somePairs) ⟨by decide, by decide⟩

theorem bobAsks_replied_iff (content : List UserPair) {ids : List Str} :
    FriendsReplied memoryServer (bobAsks content) ids ↔ (readReply UserDescriptor.layout
      (friendsReply ((friendsOf content (str "bob")).map cString))).map (fun es => es.map Prod.snd) = some ids := by
  have user : (bobAsks content).self.userName = str "bob" := rfl
  have lawful : memoryServer.engine.Lawful .text Memory.store := Memory.engine_lawful .text _
  have asks := bobAsks_asks content
  obtain ⟨h, queue⟩ := asks.queue
  obtain ⟨rows, ran⟩ := getFriendList_result lawful (by decide) (by decide) (pairTable_unknown content) asks.holds
  rw [← user] at ran
  have replied : FriendsReplied memoryServer (bobAsks content) ids ↔ _ := friendsReplied_iff queue asks.writes ran
  rwa [user] at replied

/-- An id with a zero byte, as many friends as no header counts, and an id that no
    descriptor sizes. -/
def outsized : List (List UserPair) :=
  [[⟨1, str "bob", [97, 0, 98]⟩], List.replicate (2 ^ 31) ⟨1, str "bob", str "ann"⟩,
    [⟨1, str "bob", List.replicate (2 ^ 31) 97⟩]]

theorem uncounted {friends : List Str} (many : friends.length = 2 ^ 31) :
    readReply UserDescriptor.layout (friendsReply friends) = none := by
  have count : (friendsHeader friends).count = -2 ^ 31 := by
    rw [friendsHeader_count, many]
    decide
  rw [friendsReply, readReply_toBytes (count ▸ by decide), count, if_neg (by decide)]

theorem unsized {s : Str} (long : s.length = 2 ^ 31) : readReply UserDescriptor.layout (friendsReply [s]) = none := by
  have count : (friendsHeader [s]).count = 1 := by
    rw [friendsHeader_count, List.length_singleton]
    decide
  have wrapped : wrap 32 (s.length : Int) = -2 ^ 31 := by
    rw [long]
    decide
  have size : field ((UserDescriptor.toBytes ⟨-2 ^ 31, 0⟩ ++ s).take 8) 0 4 = -2 ^ 31 := by
    rw [show 8 = (UserDescriptor.toBytes ⟨-2 ^ 31, 0⟩).length from rfl, List.take_left]
    decide
  have none_ : UserDescriptor.layout.entry (UserDescriptor.toBytes ⟨-2 ^ 31, 0⟩ ++ s) = none :=
    if_neg fun fits => absurd (size ▸ fits.2.1) (by decide)
  have entries : ([s].map friendEntry).flatMap Layout.encode = UserDescriptor.toBytes ⟨-2 ^ 31, 0⟩ ++ s := by
    rw [List.map_singleton, friendEntry, wrapped, List.flatMap_singleton, Layout.encode]
  have unread : UserDescriptor.layout.entries 1 (UserDescriptor.toBytes ⟨-2 ^ 31, 0⟩ ++ s) = none := by
    rw [Layout.entries, none_, Option.bind_none]
  rw [friendsReply, readReply_toBytes (count ▸ by decide), count, if_pos (by decide), entries,
    show (1 : Int).toNat = 1 from rfl, unread]

/-- The names of columns are short. -/
theorem long_unknown (content : List UserPair) {s : Str} (long : 8 ≤ s.length) : ¬ (pairTable content).knows s := by
  have apart : ∀ name : Str, name.length < 8 → sameName s name = false := fun name short => by
    rw [sameName, decide_eq_false_iff_not]
    intro same
    have length := congrArg List.length same
    simp only [List.length_map] at length
    omega
  have columns : (pairTable content).columns = pairColumns := rfl
  simp [Table.knows, Table.index, Table.isRowid, columns, pairColumns, apart (str "user0") (by decide),
    apart (str "user1") (by decide), apart (str "rowid") (by decide), apart (str "oid") (by decide),
    apart (str "_rowid_") (by decide)]

theorem friendsOf_single {s : Str} (other : s ≠ str "bob") :
    friendsOf [⟨1, str "bob", s⟩] (str "bob") = [s] := by
  simp [friendsOf, other]

theorem friendsOf_replicate (n : Nat) :
    friendsOf (List.replicate n ⟨1, str "bob", str "ann"⟩) (str "bob") = List.replicate n (str "ann") := by
  have other : str "ann" ≠ str "bob" := by decide
  simp [friendsOf, other]

/-- Bob asks for his friends, whose ids are neither quoted nor names of columns, and they
    are not read back. -/
def Altered (content : List UserPair) : Prop :=
  AsksFriends Memory.store content (bobAsks content) ∧
    (∀ p ∈ content, 34 ∉ p.user0 ∧ 34 ∉ p.user1 ∧ ¬ (pairTable content).knows p.user0 ∧
      ¬ (pairTable content).knows p.user1) ∧
    ¬ FriendsReplied memoryServer (bobAsks content) (friendsOf content (str "bob"))

theorem outsized_altered : outsized.Forall Altered := by
  rw [List.forall_iff_forall_mem]
  have bob := pairTable_unknown
  have ann : ∀ content, ¬ (pairTable content).knows (str "ann") := fun content =>
    show ¬ (Table.mk pairColumns []).knows (str "ann") by decide
  intro content member
  refine ⟨bobAsks_asks content, ?_⟩
  rw [bobAsks_replied_iff]
  rcases List.mem_cons.mp member with rfl | member
  · have cut : (friendsOf [⟨1, str "bob", [97, 0, 98]⟩] (str "bob")).map cString = [[97]] := by decide
    rw [cut, readReply_friends (by decide) (by decide)]
    exact ⟨by decide, by decide⟩
  rcases List.mem_cons.mp member with rfl | member
  · have many : ((friendsOf (List.replicate (2 ^ 31) ⟨1, str "bob", str "ann"⟩) (str "bob")).map cString).length =
        2 ^ 31 := by
      rw [friendsOf_replicate, List.length_map, List.length_replicate]
    rw [uncounted many]
    refine ⟨fun p there => ?_, Option.some_ne_none _ |>.symm⟩
    rw [List.eq_of_mem_replicate there]
    exact ⟨by decide, by decide, bob _, ann _⟩
  · obtain rfl := List.mem_singleton.mp member
    have plain : ∀ b ∈ List.replicate (2 ^ 31) (97 : Byte), b = 97 := fun b there => List.eq_of_mem_replicate there
    have length : (List.replicate (2 ^ 31) (97 : Byte)).length = 2 ^ 31 := List.length_replicate
    generalize List.replicate (2 ^ 31) (97 : Byte) = s at plain length ⊢
    have other : s ≠ str "bob" := fun same => absurd (same ▸ length) (by decide)
    have whole : cString s = s := cString_fixed fun zero => absurd (plain 0 zero) (by decide)
    rw [friendsOf_single other, List.map_singleton, whole, unsized length]
    refine ⟨fun p there => ?_, Option.some_ne_none _ |>.symm⟩
    obtain rfl := List.mem_singleton.mp there
    have long : 8 ≤ s.length := by omega
    exact ⟨show 34 ∉ str "bob" by decide, fun quote => absurd (plain 34 quote) (by decide), bob _, long_unknown _ long⟩

/-- Neither is the list of a user whom the engine takes for a column in other letters: every
    row meets it. -/
theorem friendList_altered : outsized.Forall Altered ∧
    ¬ FriendsReplied memoryServer (asksAs (str "USER0") somePairs) (friendsOf somePairs (str "USER0")) := by
  refine ⟨outsized_altered, fun replied => ?_⟩
  have writes : (asksAs (str "USER0") somePairs).Writes := ⟨rfl, fun _ member => by cases member⟩
  have found : ((Qr.getFriendList (str "USER0")).run memoryServer.engine
      (asksAs (str "USER0") somePairs).db).result.toOption.map Prod.fst =
        some [str "bob", str "carl", str "bob", str "bob"] := by decide +kernel
  cases ran : ((Qr.getFriendList (str "USER0")).run memoryServer.engine (asksAs (str "USER0") somePairs).db).result with
  | error e => simp [ran, Except.toOption] at found
  | ok got =>
      have friends : got.1 = [str "bob", str "carl", str "bob", str "bob"] := by
        simpa [ran, Except.toOption] using found
      have sent := (friendsReplied_iff rfl writes ran).mp replied
      rw [friends, readReply_friends (by decide) (by decide)] at sent
      exact absurd sent (by decide)

end NineProject
