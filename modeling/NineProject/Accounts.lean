import NineProject.Statements

/-! # Whom a session speaks for

The record of a session shows at each point which user it speaks for: the one of the
last login that was accepted. Every statement is run for that user, and every reply is
made of rows that were fetched for that user, on a database that such statements made,
whatever the other sessions do and whatever the clients send.
-/

namespace NineProject

open Bytes Sql Relation

/-- The user a session speaks for after these events: nobody, or the user of the last
    login that was accepted. -/
def Account (log : List Event) (user : Str) : Prop :=
  (.login true ∉ log ∧ user = []) ∨ ∃ before after,
    log = before ++ .exec .checkUserPassword (selectQuery .user (0, .string user) 2 1) :: .login true :: after ∧
      .login true ∉ after

theorem Account.append {log es : List Event} {user : Str} (account : Account log user) (clean : .login true ∉ es) :
    Account (log ++ es) user := by
  rcases account with ⟨nobody, rfl⟩ | ⟨before, after, rfl, last⟩
  · exact .inl ⟨by simp [nobody, clean], rfl⟩
  · exact .inr ⟨before, after ++ es, by simp, by simp [last, clean]⟩

theorem Account.login (log : List Event) (user : Str) :
    Account (log ++ [.exec .checkUserPassword (selectQuery .user (0, .string user) 2 1)] ++ [.login true]) user :=
  .inr ⟨log, [], by simp, by simp⟩

theorem checkText_injective {id id' : Str}
    (same : selectQuery .user (0, .string id) 2 1 = selectQuery .user (0, .string id') 2 1) : id = id' := by
  have opening : ∀ s, selectQuery .user (0, .string s) 2 1 =
      selectOpening .user 0 Compare.equal 1 ++ (s ++ str "\" ) ;") := fun s => by
    simp only [selectQuery, selectOpening, toStringS, List.append_assoc]
    rfl
  rw [opening, opening] at same
  exact List.append_cancel_right (List.append_cancel_left same)

/-- A session speaks for one user at a time. -/
theorem Account.unique {log : List Event} {user user' : Str} (account : Account log user)
    (account' : Account log user') : user = user' := by
  let asked : Str → Event := fun id => .exec .checkUserPassword (selectQuery .user (0, .string id) 2 1)
  -- of two logins the later one is the last only if they are the same
  have last : ∀ {more after after' : List Event} {id id' : Str},
      asked id :: .login true :: after = more ++ asked id' :: .login true :: after' → .login true ∉ after → id = id' := by
    intro more after after' id id' is clean
    rcases more with _ | ⟨first, _ | ⟨second, rest⟩⟩
    · simp only [List.nil_append, List.cons.injEq] at is
      exact checkText_injective (by simpa [asked] using is.1)
    · simp [asked] at is
    · simp only [List.cons_append, List.cons.injEq] at is
      exact absurd (by simp [is.2.2]) clean
  rcases account with ⟨nobody, rfl⟩ | ⟨before, after, rfl, clean⟩
  · rcases account' with ⟨-, rfl⟩ | ⟨before, after, rfl, -⟩
    · rfl
    · simp at nobody
  · rcases account' with ⟨nobody, -⟩ | ⟨before', after', is, clean'⟩
    · simp at nobody
    · rcases List.append_eq_append_iff.mp is with ⟨more, -, split⟩ | ⟨more, -, split⟩
      · exact last split clean
      · exact (last split clean').symm

/-! ## Claims about every point of a record -/

/-- An event of a record that was continued is new or was there before. -/
theorem split_record {log es before after : List Event} {e : Event} (is : log ++ es = before ++ e :: after) :
    (∃ later, before = log ++ later ∧ es = later ++ e :: after) ∨
      ∃ more, log = before ++ e :: more ∧ after = more ++ es := by
  rcases List.append_eq_append_iff.mp is with ⟨later, rfl, split⟩ | ⟨more, split, behind⟩
  · exact .inl ⟨later, rfl, split⟩
  · cases more with
    | nil => exact .inl ⟨[], by simpa using split.symm, by simpa using behind.symm⟩
    | cons first more =>
        cases behind
        exact .inr ⟨more, split, rfl⟩

section
variable {σ : Type} (lib : External σ) (N : Str → Prop) (D : σ → Prop)

/-- Nobody, or a user whose name was taken up. -/
def Speaks (user : Str) : Prop := user = [] ∨ N user

theorem Speaks.plain {user : Str} (speaks : Speaks Unquoted user) : 34 ∉ user :=
  speaks.elim (fun nobody => by simp [nobody]) id

/-- A statement is run for the user the session speaks for, with names and texts that were
    taken up, and a reply is made of what was fetched for that user, which left a database
    in `D`. -/
def ForAccount (before : List Event) : Event → Prop
  | .exec call text => ∃ user, Account before user ∧ Speaks N user ∧ Said N user call text
  | .reply c rows => ∃ (self : Session) (db : σ), D db ∧
      Account before self.userName ∧ Speaks N self.userName ∧ FetchedFor lib self db c rows
  | _ => True

variable {lib N D} {log : List Event} {user : Str}

/-- Events that show nothing of the user. -/
theorem ForAccount.others {es : List Event} (known : Runs.InOrder (ForAccount lib N D) log)
    (others : ∀ e ∈ es, (∀ call text, e ≠ .exec call text) ∧ ∀ c rows, e ≠ .reply c rows) :
    Runs.InOrder (ForAccount lib N D) (log ++ es) := by
  refine known.append fun before e after is => ?_
  obtain ⟨noText, noRows⟩ := others e (by simp [is])
  cases e with
  | exec call text => exact absurd rfl (noText call text)
  | reply c rows => exact absurd rfl (noRows c rows)
  | _ => trivial

/-- Statements of one call. -/
theorem ForAccount.ran {call : QrCall} {texts : List Str} (known : Runs.InOrder (ForAccount lib N D) log)
    (account : Account log user) (sent : Speaks N user) (said : ∀ text ∈ texts, Said N user call text) :
    Runs.InOrder (ForAccount lib N D) (log ++ texts.map (.exec call)) := by
  refine known.append fun before e after is => ?_
  have within : ∀ e' ∈ before ++ e :: after, ∃ text ∈ texts, e' = .exec call text := fun e' member => by
    rw [← is] at member
    obtain ⟨text, there, rfl⟩ := List.mem_map.mp member
    exact ⟨text, there, rfl⟩
  obtain ⟨text, there, rfl⟩ := within e (by simp)
  refine ⟨user, account.append fun login => ?_, sent, said text there⟩
  obtain ⟨text', -, same⟩ := within (.login true) (by simp [login])
  cases same

/-- A call of one statement. -/
theorem ForAccount.ranOne {call : QrCall} {text : Str} (known : Runs.InOrder (ForAccount lib N D) log)
    (account : Account log user) (sent : Speaks N user) (said : Said N user call text) :
    Runs.InOrder (ForAccount lib N D) (log ++ [.exec call text]) :=
  ForAccount.ran known account sent (List.forall_mem_singleton.mpr said)

theorem checkUserPassword_executed {E : Engine σ} (id pw : Str) (db : σ) :
    ((Qr.checkUserPassword id pw).run E db).executed = [selectQuery .user (0, .string id) 2 1] := by
  simp only [Qr.checkUserPassword, Program.run_bind, query_run]
  cases eachRow (fun _ row => argText row 0) [] (E.exec db (selectQuery .user (0, .string id) 2 1)).2 <;> rfl

theorem checkedPassword_log (w : World σ) (id pw : Str) (result : Bool) : (w.checkedPassword lib id pw result).log =
    w.log ++ [.exec .checkUserPassword (selectQuery .user (0, .string id) 2 1)] ++ [.login result] := by
  show w.log ++ _ ++ _ = _
  rw [checkUserPassword_executed]
  rfl

theorem listed_log (w : World σ) (id : Str) : (w.listed lib id).log =
    w.log ++ [.exec .getCheckList (selectQuery .checkList (0, .string id) Compare.equal SelectTarget.all)] := by
  show w.log ++ _ = _
  rw [Qr.getCheckList, query_run]
  rfl

theorem loggedIn_log (w : World σ) (id pw : Str) : ((w.checkedPassword lib id pw true).listed lib id).log =
    w.log ++ [.exec .checkUserPassword (selectQuery .user (0, .string id) 2 1), .login true,
      .exec .getCheckList (selectQuery .checkList (0, .string id) Compare.equal SelectTarget.all)] := by
  rw [listed_log, checkedPassword_log, List.append_assoc, List.append_assoc]
  rfl

/-- What a session knows of its record. -/
structure Attributed (lib : External σ) (N : Str → Prop) (D : σ → Prop) (w : World σ) : Prop where
  sent : Speaks N w.self.userName
  /-- While it runs. -/
  account : w.stopped = none → Account w.log w.self.userName
  each : Runs.InOrder (ForAccount lib N D) w.log

/-- Events that are no statement, no answer to a login and no reply. -/
theorem Attributed.others {w t : World σ} {es : List Event} (attributed : Attributed lib N D w)
    (running : t.stopped = none → w.stopped = none) (userName : t.self.userName = w.self.userName)
    (log : t.log = w.log ++ es)
    (others : ∀ e ∈ es, e ≠ .login true ∧ (∀ call text, e ≠ .exec call text) ∧ ∀ c rows, e ≠ .reply c rows) :
    Attributed lib N D t where
  sent := userName ▸ attributed.sent
  account := fun runs => by
    rw [log, userName]
    exact (attributed.account (running runs)).append fun login => (others _ login).1 rfl
  each := by
    rw [log]
    exact ForAccount.others attributed.each fun e member => (others e member).2

theorem Attributed.move {w t : World σ} (attributed : Attributed lib N D w) (here : D w.db) (move : Move lib N w t) :
    Attributed lib N D t := by
  have answered : ∀ {id : Str} (pw : Str) (result : Bool), w.stopped = none → N id →
      Runs.InOrder (ForAccount lib N D) (w.checkedPassword lib id pw result).log := fun pw result running sent => by
    rw [checkedPassword_log]
    exact ForAccount.others (ForAccount.ranOne attributed.each (attributed.account running) attributed.sent
      ⟨_, .checkUserPassword sent⟩) (by simp)
  have user : ∀ (id pw : Str), Account (w.checkedPassword lib id pw true).log id := fun id pw => by
    rw [checkedPassword_log]
    exact Account.login w.log id
  have listed : ∀ {id : Str} (pw : Str), w.stopped = none → N id →
      Runs.InOrder (ForAccount lib N D) ((w.checkedPassword lib id pw true).listed lib id).log :=
    fun {id} pw running sent => by
      rw [listed_log]
      exact ForAccount.ranOne (answered pw true running sent) (user id pw) (.inr sent) ⟨_, .getCheckList sent⟩
  cases move with
  | internal internal =>
      obtain ⟨es, log, own⟩ := internal.log
      refine attributed.others (fun runs => internal.stopped ▸ runs) internal.userName log fun e member => ?_
      have private_ := own e member
      cases e <;> simp_all [Event.Private]
  | halted stop => exact ⟨attributed.sent, (fun runs => by cases runs), attributed.each⟩
  | connected _ => exact attributed.others id rfl (List.append_nil _).symm (by simp)
  | asks running asks =>
      have said := asks.only.executed lib.engine w.db
      exact ⟨attributed.sent, fun _ => (attributed.account running).append (by simp),
        ForAccount.ran attributed.each (attributed.account running) attributed.sent said⟩
  | notify running user task =>
      unfold World.notify
      split
      · exact attributed.others id rfl (rfl : _ = w.log ++ [.renew user task]) (by simp)
      · exact attributed
  | refused running sent _ =>
      refine ⟨attributed.sent, fun _ => ?_, answered _ false running sent⟩
      rw [checkedPassword_log]
      exact ((attributed.account running).append (by simp)).append (by simp)
  | admitted running sent _ _ => exact ⟨.inr sent, fun _ => (user _ _).append (by simp), listed _ running sent⟩
  | unlisted running sent _ _ => exact ⟨attributed.sent, (fun runs => by cases runs), listed _ running sent⟩
  | answers running answers =>
      refine ⟨attributed.sent, fun _ => (attributed.account running).append (by simp), attributed.each.append ?_⟩
      intro before e after is
      obtain ⟨rfl, rfl⟩ : before = [] ∧ e = _ := by
        cases before with
        | nil => exact ⟨rfl, by cases is; rfl⟩
        | cons _ before => simp at is
      exact ⟨w.self, w.db, here, by simpa using attributed.account running, attributed.sent, answers⟩
  | noticed running _ _ _ _ => exact attributed.others id rfl (List.append_nil _).symm (by simp)

theorem Attributed.seeing (attributed : Attributed lib N D w) (s : σ × NMap) : Attributed lib N D (w.seeing s) :=
  ⟨attributed.sent, attributed.account, attributed.each⟩

theorem Attributed.fresh (memory : Unset) (s : σ × NMap) : Attributed lib N D (memory.world s) :=
  ⟨.inl rfl, fun _ => .inl ⟨by simp [Unset.world], rfl⟩, .nil⟩

/-- A database that statements with such names and texts, run for such users, made of this one. -/
def Led (lib : External σ) (N : Str → Prop) (first db : σ) : Prop :=
  ∃ texts, db = execAll lib.engine first texts ∧
    ∀ text ∈ texts, ∃ user call, Speaks N user ∧ Said N user call text

theorem Led.move {first : σ} {w t : World σ} (led : Led lib N first w.db) (speaks : Speaks N w.self.userName)
    (move : Move lib N w t) : Led lib N first t.db := by
  obtain ⟨before, db, said⟩ := led
  obtain ⟨es, made⟩ := move.performs
  refine ⟨before ++ texts es, ?_, fun text member => ?_⟩
  · rw [made.db, db, execAll, execAll, execAll, List.foldl_append]
  · rcases List.mem_append.mp member with old | new
    · exact said text old
    · obtain ⟨call, there⟩ := mem_texts.mp new
      exact ⟨_, call, speaks, made.meets call text there⟩

theorem attributed_knows {C : Unset → Prop} (first : σ) :
    Knows lib N C (fun s t => Led lib N first s.1 → Led lib N first t.1) (fun s => Led lib N first s.1)
      (Attributed lib N (Led lib N first)) where
  own := fun led attributed move => attributed.move led move
  guarantee := fun _ attributed move led => led.move attributed.sent move
  shared := fun led leads => leads led
  others := fun _ attributed _ => attributed.seeing _
  joins := fun {memory s} _ _ => .fresh memory s

variable {db : σ} {memory : Unset} {acts : List (PoolAct σ)} {p : Pool σ}

/-- In every run of a server that takes up names and texts in `N`, each statement is run for
    the user whom its session speaks for at that point, with such names and texts, and each
    reply is made of rows that were fetched for that user on a database that such statements
    made. -/
theorem statements_for_account
    (allows : Runs.Each (Pool.next lib) (Pool.Allows N (fun _ => True)) (Pool.start db memory) acts)
    (ran : Runs.after (Pool.next lib) (Pool.start db memory) acts = some p) :
    ∀ w ∈ p.sessions, Runs.InOrder (ForAccount lib N (Led lib N db)) w.log := fun w member =>
  (((Pool.reaches trivial allows ran).known (attributed_knows db) ⟨[], rfl, by simp⟩).2 w member).each

/-- A statement reads as the one that its call is meant to be for the user the session speaks
    for, unless a zero byte cuts it off inside a string. -/
def ReadsAsMeant (before : List Event) : Event → Prop
  | .exec call text => ∃ user s, Account before user ∧ Says Unquoted user call text s ∧ Faithful text s
  | _ => True

/-- Where no name or text of a client has a double quote, every statement that any session
    ever runs means what it is meant to. -/
theorem statements_meant
    (allows : Runs.Each (Pool.next lib) (Pool.Allows Unquoted (fun _ => True)) (Pool.start db memory) acts)
    (ran : Runs.after (Pool.next lib) (Pool.start db memory) acts = some p) :
    ∀ w ∈ p.sessions, Runs.InOrder ReadsAsMeant w.log := by
  intro w member
  have known := (((Pool.reaches trivial allows ran).known (attributed_knows db) ⟨[], rfl, by simp⟩).2 w member).each
  refine known.mono fun before e forAccount => ?_
  cases e with
  | exec call text =>
      obtain ⟨user, account, speaks, s, told⟩ := forAccount
      exact ⟨user, s, account, told, told.faithful id speaks.plain⟩
  | _ => trivial

end

theorem statements_for_account_annAsksBob :
    ∃ p, Runs.after (Pool.next memoryServer) (Pool.start twoUsers zeros) annAsksBob = some p ∧
      ∀ w ∈ p.sessions, Runs.InOrder (ForAccount memoryServer Unquoted (Led memoryServer Unquoted twoUsers)) w.log := by
  obtain ⟨p, ran⟩ := annAsksBob_runs
  exact ⟨p, ran, statements_for_account annAsksBob_allows ran⟩

theorem statements_meant_annAsksBob :
    ∃ p, Runs.after (Pool.next memoryServer) (Pool.start twoUsers zeros) annAsksBob = some p ∧
      ∀ w ∈ p.sessions, Runs.InOrder ReadsAsMeant w.log := by
  obtain ⟨p, ran⟩ := annAsksBob_runs
  exact ⟨p, ran, statements_meant annAsksBob_allows ran⟩

end NineProject
