import NineProject.Backing
import NineProject.Session.Wire

/-! # Whom an invitation reaches

The name of an invited user is read into a buffer whose written length stays 0, and what
`to_string` makes of that is the empty name: for it the row is inserted, and for it a
flag is raised.
-/

namespace NineProject

open Bytes M Effect Sql

section
variable {σ : Type} {lib : External σ} {numeric : Str → Value} {view : σ → Store}

/-! ## What the handler does -/

/-- The statement for an invitation. -/
def inviteText (target sender : Str) (tableKey : Int) : Str :=
  insertQueryWithPair3 .invite (0, .string target) (1, .int tableKey) (2, .string sender)

/-- Nothing that is read into a new buffer counts as written. -/
theorem getter_empty {p : PBuffer} {size : Int} (made : PBuffer.ofSize size = .ok p) (bytes : List Byte) :
    (p.receive bytes).toString = .ok [] := by
  unfold PBuffer.ofSize PBuffer.newChars at made
  split at made
  · cases made
  · cases made
    rfl

/-- The request of a user who invites someone is in work: its sizes are in `hBuf_`, and the
    name is next on the socket. -/
structure Invites (w : World σ) (target : Str) (tableKey : Int) : Prop where
  queue : ∃ h, w.self.pc.hQue = [h]
  opened : w.self.socket.opened = true
  request : IvtReq.ofBytes w.self.hBuf.data = ⟨tableKey, target.length⟩
  payload : ∃ rest, w.self.socket.input = target ++ rest
  named : target ≠ []
  int : target.length < 2 ^ 31

/-- The database behind the statement for nobody. -/
def stored (lib : External σ) (db : σ) (sender : Str) (tableKey : Int) : σ :=
  (lib.engine.exec db (inviteText [] sender tableKey)).1

/-- The end of a task tells nobody of anything. -/
theorem renew_waits {w t : World σ} {events : List Event} (behind : t.log = w.log ++ events) {user : Str}
    {task : Nat} : .renew user task ∈ w.since t.ended.waits ↔ .renew user task ∈ events := by
  simp [World.since, World.waits, World.ended, World.touchSource, World.pop, World.logged, World.started, behind]

/-- The handler returns, having stored an invitation of nobody and told nobody of it. -/
theorem invite_returns {w : World σ} {target : Str} {tableKey : Int} (invites : Invites w target tableKey) :
    Returns (responseActInvite lib (taskEnd lib) none) w fun _ v =>
      v.db = stored lib w.db w.self.userName tableKey ∧ ∀ user task, .renew user task ∈ w.since v ↔
        (user = [] ∧ task = CheckListIndex.tableIvt) ∧ w.Registered [] := by
  obtain ⟨h, queue⟩ := invites.queue
  obtain ⟨rest, input⟩ := invites.payload
  obtain ⟨p, made⟩ : ∃ p, PBuffer.ofSize target.length = .ok p := by
    simp [PBuffer.ofSize, PBuffer.newChars, show ¬ (target.length : Int) < 0 by omega, Except.map]
  have room : target.length ≤ p.data.length := by exact_mod_cast (ofSize_length made).2.le
  have reads : M.read .targetGetter target.length p.data.length w = _ :=
    read_there invites.int room invites.opened input
  simp only [responseActInvite, returns_bind, returns_when, Option.isSome_none, Bool.false_eq_true, if_false,
    returns_get, returns_lift, invites.request, made, Except.ok.injEq, exists_eq_left']
  rw [returns_of_eq reads, getter_empty made]
  simp only [Except.ok.injEq, exists_eq_left', returns_runQuery, insertInvite_run, returns_nmapNotify]
  refine ⟨(), trivial, ?_⟩
  obtain ⟨u, ran⟩ : ∃ u, u = ((w.logged (.read .targetGetter target.length p.data.length)).consume
      target.length).ran .insertInvite (⟨.ok (), stored lib w.db w.self.userName tableKey,
        [inviteText [] w.self.userName tableKey]⟩ : Ran σ Fault Unit) := ⟨_, rfl⟩
  have database : u.db = stored lib w.db w.self.userName tableKey := by
    rw [ran]
    rfl
  have known : u.Registered [] ↔ w.Registered [] := by
    rw [ran]
    rfl
  have before : u.log = w.log ++ [.read .targetGetter target.length p.data.length,
      .exec .insertInvite (inviteText [] w.self.userName tableKey)] := by
    rw [ran]
    exact List.append_assoc ..
  have ends : (u.notify [] CheckListIndex.tableIvt).self.pc.hQue = [h] := by
    rw [notify_self, ran]
    exact queue
  show Returns (taskEnd lib none) (World.notify (World.ran _ _ ⟨.ok (), stored lib w.db w.self.userName tableKey,
    [inviteText [] w.self.userName tableKey]⟩) [] CheckListIndex.tableIvt) _
  rw [← ran]
  refine (returns_taskEnd lib ends).mpr ⟨?_, fun user task => ?_⟩
  · show (u.notify [] CheckListIndex.tableIvt).db = _
    rw [notify_db, database]
  · obtain ⟨-, -, log⟩ := notifyAll [[]] CheckListIndex.tableIvt u
    simp only [List.foldl_cons, List.foldl_nil, before, List.append_assoc] at log
    rw [renew_waits log]
    by_cases nobody : w.Registered []
    · simp [known, nobody]
    · simp [known, nobody]

/-! ## What the invited user gets -/

/-- The row of an invitation. -/
def InvitesTo (target sender : Str) (tableKey : Int) (r : Row) : Prop :=
  r.cells[0]? = some (.text target) ∧ r.cells[1]? = some (.int tableKey) ∧ r.cells[2]? = some (.text sender)

/-- The database has gained an invitation, and a fetch for its target returns an entry of it. -/
structure InviteStored (lib : External σ) (view : σ → Store) (before after : σ) (target sender : Str)
    (tableKey : Int) : Prop where
  row : (view before).Gains (view after) (str "invite") (InvitesTo target sender tableKey)
  fetched : ∃ p f, replyBuffer = .ok p ∧ ((Qr.getNewIvtReq lib target p).run lib.engine after).result = .ok f ∧
    ∃ row ∈ f.rows, argInt row 1 = .ok tableKey ∧ argText row 2 = .ok sender

/-- The handler returns, with the invitation stored for its target, who is told of it if
    registered, and nobody else is. -/
def InviteReaches (lib : External σ) (view : σ → Store) (w : World σ) (target : Str) (tableKey : Int) : Prop :=
  Returns (responseActInvite lib (taskEnd lib) none) w fun _ v =>
    InviteStored lib view w.db v.db target w.self.userName tableKey ∧
      ∀ user task, .renew user task ∈ w.since v ↔
        (user = target ∧ task = CheckListIndex.tableIvt) ∧ w.Registered target

/-- From a name without double quotes the statement for nobody stores nothing for anybody. -/
theorem stored_nobody (lawful : lib.engine.Lawful numeric view) {db : σ} (schema : Schema (view db))
    {target sender : Str} {tableKey : Int} (named : target ≠ []) (plain : 34 ∉ sender) :
    ¬ (view db).Gains (view (stored lib db sender tableKey)) (str "invite") (InvitesTo target sender tableKey) := by
  intro gains
  have means : Means (inviteText [] sender tableKey) (inviteInsert [] sender tableKey) :=
    invite_means tableKey List.not_mem_nil plain
  obtain ⟨r, adds, here, -⟩ := (means.gains_iff lawful).mp gains
  obtain ⟨default, cells⟩ := means.cells lawful adds
  rw [cells, Insert.cells, show (view db (inviteInsert [] sender tableKey).table).columns = _ from schema.invite] at here
  exact named (Value.text.inj (Option.some.inj here)).symm

/-- What reaching takes: the invitation is among what is stored for nobody, and whoever has
    no name is told exactly where the target should be. -/
theorem inviteReaches_told {w : World σ} {target : Str} {tableKey : Int} (invites : Invites w target tableKey) :
    InviteReaches lib view w target tableKey ↔
      InviteStored lib view w.db (stored lib w.db w.self.userName tableKey) target w.self.userName tableKey ∧
        ∀ user task, (user = [] ∧ task = CheckListIndex.tableIvt) ∧ w.Registered [] ↔
          (user = target ∧ task = CheckListIndex.tableIvt) ∧ w.Registered target := by
  obtain ⟨a, v, ran, after, told⟩ := invite_returns invites
  have iff : InviteReaches lib view w target tableKey ↔ _ := returns_of_eq ran
  rw [iff, after]
  simp only [told]

/-- Nobody who has a name and flags is reached. -/
theorem inviteReaches_strangers {w : World σ} {target : Str} {tableKey : Int} (invites : Invites w target tableKey)
    (reaches : InviteReaches lib view w target tableKey) : ¬ w.Registered target ∧ ¬ w.Registered [] := by
  obtain ⟨-, same⟩ := (inviteReaches_told invites).mp reaches
  constructor
  · intro known
    obtain ⟨⟨unnamed, -⟩, -⟩ := (same target _).mpr ⟨⟨rfl, rfl⟩, known⟩
    exact invites.named unnamed
  · intro known
    obtain ⟨⟨unnamed, -⟩, -⟩ := (same [] _).mp ⟨⟨rfl, rfl⟩, known⟩
    exact invites.named unnamed.symm

/-- An invitation reaches the one who is named in it only where nobody with flags is called
    so or has no name, and the sender's own name is the SQL that stores it. -/
theorem invite_reaches_iff (lawful : lib.engine.Lawful numeric view) {w : World σ} {target : Str} {tableKey : Int}
    (schema : Schema (view w.db)) (invites : Invites w target tableKey) :
    InviteReaches lib view w target tableKey ↔
      34 ∈ w.self.userName ∧ ¬ w.Registered target ∧ ¬ w.Registered [] ∧
        InviteStored lib view w.db (stored lib w.db w.self.userName tableKey) target w.self.userName tableKey := by
  constructor
  · intro reaches
    obtain ⟨stranger, nobody⟩ := inviteReaches_strangers invites reaches
    obtain ⟨invited, -⟩ := (inviteReaches_told invites).mp reaches
    refine ⟨?_, stranger, nobody, invited⟩
    by_contra plain
    exact stored_nobody lawful schema invites.named plain invited.row
  · rintro ⟨-, stranger, nobody, invited⟩
    refine (inviteReaches_told invites).mpr ⟨invited, fun user task => ?_⟩
    exact iff_of_false (fun h => nobody h.2) fun h => stranger h.2

end

/-! ## Ann invites Bob -/

/-- Ann's session has read the sizes of an invitation to table 7, and Bob's name is next. -/
def annInvitesBob (users : List (Str × Nat)) : World Memory :=
  { annInvites users with
    self := { (annInvites users).self with
      socket := ⟨true, str "bob", none, []⟩
      hBuf := { (client []).hBuf with data := poke (List.replicate 32 0) 0 (ofInt 4 7 ++ ofInt 4 3) } } }

theorem annInvitesBob_invites (users : List (Str × Nat)) : Invites (annInvitesBob users) (str "bob") 7 where
  queue := ⟨createHeader, rfl⟩
  opened := rfl
  request := show IvtReq.ofBytes (poke (List.replicate 32 0) 0 (ofInt 4 7 ++ ofInt 4 3)) = ⟨7, 3⟩ by decide
  payload := ⟨[], rfl⟩
  named := by decide
  int := by decide

theorem invite_reaches_bob :
    InviteReaches memoryServer Memory.store (annInvitesBob [(str "bob", 1)]) (str "bob") 7 ↔
      34 ∈ str "ann" ∧ ¬ (annInvitesBob [(str "bob", 1)]).Registered (str "bob") ∧
        ¬ (annInvitesBob [(str "bob", 1)]).Registered [] ∧
          InviteStored memoryServer Memory.store (annInvitesBob [(str "bob", 1)]).db
            (stored memoryServer (annInvitesBob [(str "bob", 1)]).db (str "ann") 7) (str "bob") (str "ann") 7 :=
  invite_reaches_iff (Memory.engine_lawful .text _) ⟨rfl, rfl, rfl⟩ (annInvitesBob_invites _)

/-- Bob is neither told of the invitation nor does he find it. -/
theorem invite_misses :
    ¬ ∀ (lib : External Memory) (w : World Memory) (target : Str) (tableKey : Int),
      lib.engine.Lawful .text Memory.store → Schema w.db.store → Invites w target tableKey → 34 ∉ target →
      InviteReaches lib Memory.store w target tableKey := by
  intro reach
  have lawful : memoryServer.engine.Lawful .text Memory.store := Memory.engine_lawful .text _
  have schema : Schema (annInvitesBob [(str "bob", 1)]).db.store := ⟨rfl, rfl, rfl⟩
  have invites := annInvitesBob_invites [(str "bob", 1)]
  have reached := reach memoryServer _ (str "bob") 7 lawful schema invites (by decide)
  obtain ⟨stranger, -⟩ := inviteReaches_strangers invites reached
  exact absurd rfl stranger

end NineProject
