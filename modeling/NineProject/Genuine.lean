import NineProject.Linear
import NineProject.Password

/-! # Who speaks for whom

Seen as an office, the server serves requests whole, and nothing but an accepted login
puts a name on a desk. So a session speaks for a user only if its own client has sent the
password that the server keeps for the user.
-/

namespace NineProject

open Bytes Sql

/-! ## What a service does to the user -/

section
variable {σ α β : Type} {lib : External σ} {s t : Service σ}

theorem ask_eq_some {q : Query α} {a : α} : (ask lib q).run s = some (a, t) ↔
    (q.run lib.engine s.db).result = .ok a ∧ t = { s with db := (q.run lib.engine s.db).db } := by
  simp only [ask, StateT.run]
  cases (q.run lib.engine s.db).result with
  | error e => simp [Except.toOption]
  | ok b => simp [Except.toOption, eq_comm]

/-- Whatever it does, the service is still for the same user, with the same requests to come. -/
def Constant (m : Serve σ α) : Prop :=
  ∀ s a t, m.run s = some (a, t) → t.userName = s.userName ∧ t.todo = s.todo

namespace Constant

theorem bind {m : Serve σ α} {f : α → Serve σ β} (first : Constant m) (rest : ∀ a, Constant (f a)) :
    Constant (m >>= f) := by
  intro s b t ran
  rw [StateT.run_bind] at ran
  obtain ⟨⟨a, u⟩, ran, ran'⟩ := Option.bind_eq_some_iff.mp ran
  obtain ⟨user, todo⟩ := first s a u ran
  obtain ⟨user', todo'⟩ := rest a u b t ran'
  exact ⟨user'.trans user, todo'.trans todo⟩

theorem pure (a : α) : Constant (Pure.pure a : Serve σ α) := by
  intro s b t ran
  cases ran
  exact ⟨rfl, rfl⟩

theorem get : Constant (MonadState.get : Serve σ (Service σ)) := by
  intro s b t ran
  cases ran
  exact ⟨rfl, rfl⟩

theorem modify {f : Service σ → Service σ} (same : ∀ s, (f s).userName = s.userName ∧ (f s).todo = s.todo) :
    Constant (modify f : Serve σ Unit) := by
  intro s b t ran
  cases ran
  exact same s

theorem ask (q : Query α) : Constant (NineProject.ask lib q) := by
  intro s a t ran
  obtain ⟨-, rfl⟩ := ask_eq_some.mp ran
  exact ⟨rfl, rfl⟩

theorem none : Constant (failure : Serve σ α) := by
  intro s a t ran
  cases ran

/-- A value that may be missing. -/
theorem lift (o : Option α) : Constant (liftM o : Serve σ α) := by
  intro s a t ran
  cases o with
  | none => cases ran
  | some b =>
      cases ran
      exact ⟨rfl, rfl⟩

theorem send (bytes : List Byte) : Constant (NineProject.send bytes : Serve σ Unit) := .modify fun _ => ⟨rfl, rfl⟩

theorem tell (users : List Str) (task : Nat) : Constant (NineProject.tell users task : Serve σ Unit) :=
  .modify fun _ => ⟨rfl, rfl⟩

theorem sendEntries (h : Int → Pchd) (q : Query (List (List Byte × List Byte))) : Constant (sendEntries lib h q) :=
  .bind (.ask q) fun _ => .send _

theorem serveCommand (h : Pchd) (c : ECommand) : Constant (serveCommand lib h c) := by
  cases c with
  | getMsg => exact .none
  | getIvt => exact .bind .get fun s => .sendEntries _ _
  | getConnection => exact .bind .get fun s => .bind (.lift _) fun list => .sendEntries _ _
  | getFriendList => exact .bind .get fun s => .bind (.ask _) fun got => .send _

theorem concerned (payload : Payload) : Constant (concerned lib payload) := by
  cases payload with
  | login id pw => exact .pure []
  | command c => exact .pure []
  | message record text => exact .bind (.ask _) fun _ => .ask _
  | connection record receiver => exact .bind .get fun s => .bind (.ask _) fun _ => .pure _
  | invite record target => exact .bind .get fun s => .bind (.ask _) fun _ => .pure _
  | table record invited =>
      exact .bind .get fun s => .bind (.ask _) fun key => .bind (.send _) fun _ => .pure _

end Constant

/-- Who is accepted is the user of the service from then on. -/
theorem serveLogin_user {id pw : Str} (served : (serveLogin lib id pw).run s = some ((), t)) : t.todo = s.todo ∧
    (t.userName = s.userName ∨
      t.userName = id ∧ ((Qr.checkUserPassword id pw).run lib.engine s.db).result = .ok true) := by
  rw [serveLogin, StateT.run_bind] at served
  obtain ⟨⟨accepted, u⟩, checked, served⟩ := Option.bind_eq_some_iff.mp served
  obtain ⟨result, rfl⟩ := ask_eq_some.mp checked
  rw [StateT.run_bind] at served
  obtain ⟨⟨_, v⟩, entered, served⟩ := Option.bind_eq_some_iff.mp served
  obtain ⟨user, todo⟩ := Constant.send _ _ _ _ served
  cases accepted with
  | false =>
      cases entered
      exact ⟨todo, .inl user⟩
  | true =>
      rw [letIn, if_pos rfl, StateT.run_bind] at entered
      obtain ⟨⟨list, x⟩, asked, entered⟩ := Option.bind_eq_some_iff.mp entered
      obtain ⟨-, rfl⟩ := ask_eq_some.mp asked
      cases entered
      exact ⟨todo, .inr ⟨user, result⟩⟩

theorem serve_user {r : Sent} (served : (serve lib r).run s = some ((), t)) : t.todo = s.todo ∧
    (t.userName = s.userName ∨ ∃ pw, r.payload = .login t.userName pw ∧
      ((Qr.checkUserPassword t.userName pw).run lib.engine s.db).result = .ok true) := by
  have constant : ∀ {m : Serve σ Unit} {P : Prop}, Constant m → m.run s = some ((), t) → t.todo = s.todo ∧
      (t.userName = s.userName ∨ P) := fun constant ran => (constant s () t ran).symm.imp_right .inl
  obtain ⟨header, payload⟩ := r
  cases payload with
  | login id pw =>
      obtain ⟨todo, same | ⟨rfl, result⟩⟩ := serveLogin_user served
      · exact ⟨todo, .inl same⟩
      · exact ⟨todo, .inr ⟨pw, rfl, result⟩⟩
  | command c => exact constant (.serveCommand _ c) served
  | message record text => exact constant (.bind (.concerned _) fun _ => .tell _ _) served
  | connection record receiver => exact constant (.bind (.concerned _) fun _ => .tell _ _) served
  | invite record target => exact constant (.bind (.concerned _) fun _ => .tell _ _) served
  | table record invited => exact constant (.bind (.concerned _) fun _ => .tell _ _) served

end

/-! ## What stands on a desk -/

section
variable {σ : Type} {lib : External σ} {numeric : Str → Value} {view : σ → Store} {rs : Nat → List Sent}
  {users : List (Int × Str × Str)}

/-- The client of this desk sent the password that is wanted of the user. -/
def Sends (rs : List Sent) (users : List (Int × Str × Str)) (user : Str) : Prop :=
  ∃ r ∈ rs, r.payload = .login user (wantedPassword users user)

/-- The requests on each desk are its client's, and whoever has a name there has it from
    an own login. -/
def Office.Genuine (rs : Nat → List Sent) (users : List (Int × Str × Str)) (o : Office σ) : Prop :=
  ∀ i d, o.desks[i]? = some d → (∀ r ∈ d.todo, r ∈ rs i) ∧ (d.userName = [] ∨ Sends (rs i) users d.userName)

namespace Office.Genuine

variable {o o' : Office σ}

theorem leave {i : Nat} {s t : Service σ} (genuine : o.Genuine rs users) (at_ : o.at_ i = some s)
    (todo : ∀ r ∈ t.todo, r ∈ s.todo)
    (user : t.userName = s.userName ∨ Sends (rs i) users t.userName) : (o.leave i t).Genuine rs users := by
  obtain ⟨d, there, rfl⟩ := Option.map_eq_some_iff.mp at_
  obtain ⟨own, known⟩ := genuine i d there
  intro j d' there'
  rcases Sharing.found_set there' with ⟨rfl, rfl⟩ | ⟨-, old⟩
  · refine ⟨fun r member => own r (todo r member), ?_⟩
    rcases user with same | sends
    · rw [same]
      exact known
    · exact .inr sends
  · exact genuine j d' old

theorem turn {act : OfficeAct σ} (lawful : lib.engine.Lawful numeric view)
    (table : view o.db (str "user") = userTable users)
    (names : ∀ i, ∀ r ∈ rs i, ∀ id pw, r.payload = .login id pw → 34 ∉ id ∧ ¬ namesUserColumn id)
    (joins : ∀ initialized todo, act = .join initialized todo → todo = rs o.desks.length)
    (genuine : o.Genuine rs users) (step : o.turn lib act = some o') : o'.Genuine rs users := by
  cases act with
  | join initialized todo =>
      obtain rfl := joins _ _ rfl
      cases step
      intro i d there
      rcases Sharing.found_concat there with ⟨rfl, rfl⟩ | old
      · exact ⟨fun _ => id, .inl rfl⟩
      · exact genuine i d old
  | serve i =>
      obtain ⟨s, at_, step⟩ := Option.bind_eq_some_iff.mp step
      obtain ⟨t, served, rfl⟩ := Option.map_eq_some_iff.mp step
      obtain ⟨d, there, is⟩ := Option.map_eq_some_iff.mp at_
      have own : ∀ r ∈ s.todo, r ∈ rs i := by
        rw [← is]
        exact (genuine i d there).1
      have db : s.db = o.db := by rw [← is]
      unfold Service.next at served
      split at served
      · cases served
      · next r rest todo =>
          obtain ⟨⟨_, u⟩, ran, rfl⟩ := Option.map_eq_some_iff.mp served
          obtain ⟨left, user⟩ := serve_user ran
          refine genuine.leave at_ (fun r' member => ?_) ?_
          · rw [todo]
            rw [left] at member
            exact List.mem_cons_of_mem r member
          rcases user with same | ⟨pw, login, result⟩
          · exact .inl same
          · have mine : r ∈ rs i := own r (by simp [todo])
            obtain ⟨plain, noColumn⟩ := names i r mine _ _ login
            rw [db, checkUserPassword_result lawful table plain noColumn] at result
            have wanted : pw = wantedPassword users u.userName := by simpa using result
            exact .inr ⟨r, mine, wanted ▸ login⟩
  | collect i =>
      obtain ⟨s, at_, step⟩ := Option.bind_eq_some_iff.mp step
      obtain ⟨⟨_, t⟩, collected, rfl⟩ := Option.map_eq_some_iff.mp step
      have same : t.todo = s.todo ∧ t.userName = s.userName := by
        simp only [collect, StateT.run] at collected
        split at collected
        · obtain ⟨pointer, -, collected⟩ := Option.bind_eq_some_iff.mp collected
          obtain ⟨flags, -, collected⟩ := Option.bind_eq_some_iff.mp collected
          cases collected
          exact ⟨rfl, rfl⟩
        · cases collected
          exact ⟨rfl, rfl⟩
      exact genuine.leave at_ (fun r member => same.1 ▸ member) (.inl same.2)
  | others db nmap =>
      cases step
      exact genuine

end Office.Genuine

/-! ## Every run -/

variable {db : σ} {memory : Unset} {acts : List (PoolAct σ)} {p q : Pool σ}

/-- Whoever joins brings the requests of the next place. -/
theorem Pool.turn_joins {act : PoolAct σ} {initialized : Bool} {todo : List Sent}
    (turn : p.turn rs act = some (.join initialized todo)) : todo = rs (p.office rs).desks.length := by
  cases act with
  | handleAccept i accepted memory =>
      cases turn
      simp [Pool.office]
  | run n => cases turn
  | notifyAbortConnection n => cases turn
  | session i act =>
      cases act with
      | complete c =>
          simp only [Pool.turn] at turn
          split at turn
          · cases turn
          · cases turn
      | checkMailBox => cases turn
      | others db nmap => cases turn

theorem Office.Genuine.start (db : σ) (memory : Unset) : ((Pool.start db memory).office rs).Genuine rs users := by
  intro i d there
  cases i with
  | zero =>
      cases there
      exact ⟨fun _ => id, .inl rfl⟩
  | succ i => cases there

/-- A session speaks for a user only if its own client has sent a login with the password
    that is stored for the user, however the requests of all clients come in pieces. -/
theorem logins_genuine (lawful : lib.engine.Lawful numeric view) (table : view db (str "user") = userTable users)
    (wellFormed : ∀ i, ∀ r ∈ rs i, r.WellFormed)
    (login : ∀ i, ∀ r ∈ (rs i).head?, r.payload.action = some .reqLog)
    (names : ∀ i, ∀ r ∈ rs i, ∀ id pw, r.payload = .login id pw → 34 ∉ id ∧ ¬ namesUserColumn id)
    (allows : Runs.Each (Pool.next lib) (Pool.Allows Unquoted (fun _ => True)) (Pool.start db memory) acts)
    (orderly : Runs.Each (Pool.next lib) (fun p act => p.Orderly rs lib act) (Pool.start db memory) acts)
    (ran : Runs.after (Pool.next lib) (Pool.start db memory) acts = some p) :
    ∀ i w, p.sessions[i]? = some w → w.self.userName ≠ [] →
      ∃ r ∈ rs i, r.payload = .login w.self.userName (wantedPassword users w.self.userName) := by
  let Known (q : Pool σ) : Prop := Running lib rs q ∧ q.Reaches lib Unquoted (fun _ => True) (db, NMap.empty) ∧
    (q.office rs).Genuine rs users
  have known : Known p := by
    refine Runs.invariant (I := Known) ?_ ⟨.start db memory, .single (.join ⟨memory, trivial, rfl⟩), .start db memory⟩
      (allows.and orderly) ran
    rintro q act q' ⟨running, reaches, genuine⟩ ⟨allows, orderly⟩ step
    obtain ⟨running', turned⟩ := running.next wellFormed login orderly step
    have further := Pool.next_steps allows step
    refine ⟨running', Relation.ReflTransGen.trans reaches further, ?_⟩
    cases turn : q.turn rs act with
    | none =>
        rw [turn] at turned
        have same : q.office rs = q'.office rs := Option.some.inj turned
        rw [← same]
        exact genuine
    | some a =>
        rw [turn, Option.toList_some, Runs.after_cons] at turned
        obtain ⟨o, step', is⟩ := Option.bind_eq_some_iff.mp turned
        cases is
        -- no session writes the users
        have fixed : view q.db (str "user") = view db (str "user") := ((reaches.grows lawful) (str "user")).2 (by decide)
        exact genuine.turn lawful (fixed.trans table) names (fun _ _ is => Pool.turn_joins (is ▸ turn)) step'
  intro i w there named
  have desk : (p.office rs).desks[i]? = some (w.shown (rs i)).toDesk := by simp [Pool.office, there]
  exact (known.2.2 i _ desk).2.resolve_left named

end

theorem logins_genuine_annAsksBob :
    ∃ p, Runs.after (Pool.next memoryServer) (Pool.start twoUsers zeros) annAsksBob = some p ∧
      ∀ i w, p.sessions[i]? = some w → w.self.userName ≠ [] → ∃ r ∈ annAndBob i, r.payload =
        .login w.self.userName (wantedPassword [(1, str "ann", str "kiwi"), (2, str "bob", str "plum")] w.self.userName) := by
  obtain ⟨p, ran⟩ := annAsksBob_runs
  refine ⟨p, ran, logins_genuine (Memory.engine_lawful .text _) (show twoUsers.store (str "user") = _ from rfl)
    annAndBob_wellFormed annAndBob_logIn (fun i => ?_) annAsksBob_allows (by decide +kernel) ran⟩
  rcases i with _ | _ | n
  · simp only [annAndBob, List.mem_cons, List.not_mem_nil, or_false]
    rintro r (rfl | rfl) id pw is
    · cases is
      decide
    · cases is
  · simp only [annAndBob, List.mem_cons, List.not_mem_nil, or_false]
    rintro r (rfl | rfl | rfl) id pw is
    · cases is
      decide
    · cases is
    · cases is
  · simp [annAndBob]

end NineProject
