import NineProject.Session.Queue

/-! # What a session does before it is logged in

No handler looks at whether its session is logged in. What keeps a stranger out is
only what the stranger asks for: as long as every header is a login, or has a code
that no action answers to, nothing is inserted, notified or replied. A command, or
one of the four other actions, is served as for a user.
-/

namespace NineProject

open Bytes M Effect Sql

variable {σ : Type}

/-- A call that inserts rows. -/
def QrCall.Inserts : QrCall → Prop
  | .insertMessage | .insertConnection | .insertInvite | .createTable => True
  | _ => False

instance (call : QrCall) : Decidable call.Inserts := by
  cases call <;> unfold QrCall.Inserts <;> infer_instance

/-- What only a user may have done: an inserting statement, a flag raised, a reply made
    of rows. -/
def Event.Privileged : Event → Prop
  | .exec call _ => call.Inserts
  | .renew _ _ | .reply _ _ => True
  | _ => False

instance (e : Event) : Decidable e.Privileged :=
  match e with
  | .exec call _ => inferInstanceAs (Decidable call.Inserts)
  | .renew _ _ | .reply _ _ => .isTrue trivial
  | .push _ _ | .dispatch _ _ | .pop _ _ | .read _ _ _ | .source _ | .login _ | .wrote _ => .isFalse id

def LoggedIn (log : List Event) : Prop := .login true ∈ log

/-- Every privileged event stands behind a login that was accepted. -/
def Gated (log : List Event) : Prop :=
  Runs.InOrder (fun before e => e.Privileged → LoggedIn before) log

theorem Gated.quiet {log es : List Event} (gated : Gated log) (quiet : ∀ e ∈ es, ¬ e.Privileged) :
    Gated (log ++ es) := by
  refine Runs.InOrder.append gated fun before e after split privileged => absurd privileged (quiet e ?_)
  simp [split]

theorem Gated.admitted {log : List Event} (gated : Gated log) (admitted : LoggedIn log)
    (es : List Event) : Gated (log ++ es) :=
  Runs.InOrder.append gated fun _ _ _ _ _ => List.mem_append_left _ admitted

/-! ## Users -/

/-- The session of a user, with the gate respected so far. -/
def Admitted (w : World σ) : Prop := Gated w.log ∧ LoggedIn w.log

theorem Admitted.more {w t : World σ} (admitted : Admitted w) {es : List Event}
    (log : t.log = w.log ++ es) : Admitted t := by
  unfold Admitted
  rw [log]
  exact ⟨admitted.1.admitted admitted.2 es, List.mem_append_left _ admitted.2⟩

theorem admitted_lasting : Lasting (Admitted (σ := σ)) where
  extended := fun admitted step => by
    obtain ⟨es, log, -⟩ := step.log
    exact admitted.more log
  popped := fun admitted => admitted.more rfl
  pushed := fun admitted => admitted.more rfl
  dispatched := fun admitted => admitted.more rfl
  starts := fun admitted => admitted.more rfl
  completing := fun {w index op socket} admitted =>
    admitted.more (t := w.completing index op socket) (List.append_nil _).symm
  received := id
  filled := id
  stopped := id

/-! ## Strangers -/

/-- An action that is a login, or has no handler. -/
def Pchd.Harmless (h : Pchd) : Prop :=
  ¬ isCommand h ∧ ∀ a ∈ EAction.ofCode h.comd, a = .reqLog

instance (h : Pchd) : Decidable h.Harmless := by
  unfold Pchd.Harmless
  infer_instance

def Handler.Harmless : Handler → Prop
  | .action a => a = .reqLog
  | .readHeader | .login _ _ _ | .taskEnd _ => True

/-- The gate is respected so far, and before the login nothing but logins is under way. -/
def Guarded (w : World σ) : Prop :=
  Gated w.log ∧ (LoggedIn w.log ∨ ∀ op ∈ w.pending, op.handler.Harmless)

theorem Guarded.more {w t : World σ} (guarded : Guarded w) (es : List Event)
    (log : t.log = w.log ++ es) (quiet : ∀ e ∈ es, ¬ e.Privileged)
    (pending : ∀ op ∈ t.pending, op ∈ w.pending ∨ op.handler.Harmless) : Guarded t := by
  unfold Guarded
  rw [log]
  refine ⟨guarded.1.quiet quiet, ?_⟩
  rcases guarded.2 with admitted | harmless
  · exact .inl (List.mem_append_left _ admitted)
  · exact .inr fun op member => (pending op member).elim (harmless op) id

theorem Guarded.starts {w : World σ} (guarded : Guarded w) {e : Event} (quiet : ¬ e.Privileged)
    {handler : Handler} (harmless : handler.Harmless) : Guarded ((w.logged e).started handler) := by
  refine guarded.more [e] rfl (by simpa using quiet) fun op member => ?_
  rcases List.mem_append.mp member with old | new
  · exact .inl old
  · rw [List.mem_singleton.mp new]
    exact .inr harmless

theorem guarded_turns : Turns (fun _ e => ¬ e.Privileged) (Guarded (σ := σ)) where
  extended := fun guarded step => by
    obtain ⟨es, log, quiet⟩ := step.log
    exact guarded.more es log quiet fun op member => .inl (step.pending ▸ member)
  source := fun _ => id
  completing := fun guarded => guarded.more [] (by simp [World.completing]) (by simp)
    fun _ member => .inl (List.mem_of_mem_eraseIdx member)
  received := id
  pushed := fun {w h} guarded => guarded.more [.push w.pushed h] rfl
    (by simp [Event.Privileged]) fun _ => .inl
  popped := fun {w} guarded => guarded.more [.pop w.popped w.ticket] rfl
    (by simp [Event.Privileged]) fun _ => .inl
  header := fun guarded => guarded.starts id trivial
  stopped := id

/-- A harmless header leads to a login, or to nothing. -/
theorem readHandle_guarded (lib : External σ) (te : ErrorCode → M σ Unit) {h : Pchd}
    (harmless : h.Harmless) (err : ErrorCode) :
    Holds (Taken Guarded h) (readHandle lib te err) (fun _ => Lone Guarded) fun _ => Lone Guarded := by
  refine .bind (front_taken h) fun got => .assume fun same => ?_
  subst same
  refine .bind (Q := fun _ => Taken Guarded got) ?_ fun _ => .ite (fun c => absurd c harmless.1) fun _ => ?_
  · rintro w ⟨none_, one, guarded⟩
    exact ⟨none_, one, guarded.more [.dispatch w.popped got] rfl (by simp [Event.Privileged])
      fun _ => .inl⟩
  · refine .bind (front_taken got) fun got' => .assume fun same => ?_
    subst same
    cases known : EAction.ofCode got'.comd with
    | none => exact .pure fun _ => Taken.lone
    | some a =>
        have login : a = .reqLog := harmless.2 a known
        exact fun w taken => taken.lone.starts (by simp) (taken.2.2.starts id login)

theorem guarded_complete (lib : External σ) {w : World σ} {c : Completion} {op : Op} {got : List Byte}
    {socket : Socket} (lone : Lone Guarded w) (stranger : ¬ LoggedIn w.log)
    (arrives : ∀ h ∈ w.arriving (.complete c), h.Accepted → h.Harmless)
    (found : w.pending[c.index]? = some op)
    (moved : transfer op c w.self.socket = some (got, socket)) :
    Holds (· = w.completing c.index op socket) (complete lib op c.err got c.ret)
      (fun _ => Lone Guarded) fun _ => Lone Guarded := by
  have turns := guarded_turns (σ := σ)
  have keeps := lone_keeps (σ := σ) turns.extended
  have started := turns.completing_lone lone found socket
  have harmless : op.handler.Harmless :=
    (lone.2.2.resolve_left stranger) op (List.mem_of_getElem? found)
  obtain ⟨handler, ticket⟩ := op
  cases handler with
  | readHeader =>
      refine turns.headerRead lib lone found moved fun h arrived accepted => ?_
      exact (readHandle_guarded lib _ (arrives h arrived accepted) none).conseq (fun _ taken => taken.1)
        (fun _ _ => id) fun _ _ => id
  | action a =>
      cases harmless
      refine .bind (Q := fun _ => Lone Guarded) (by rintro _ rfl; exact started) fun _ => ?_
      exact readIdAndPassword_holds keeps (fun _ _ => id) fun idpw idSize pwSize _ _ lone =>
        lone.starts (by simp) (lone.2.starts id trivial)
  | login idpw idSize pwSize =>
      have run : Holds (Lone Guarded) (responseReqLogin lib c.err (idpw.receive got) idSize pwSize)
          (fun _ => Lone Guarded) fun _ => Lone Guarded :=
        responseReqLogin_holds lib keeps (fun _ _ => id) (fun _ _ => id) (fun _ _ => id)
          (fun _ _ => id) (fun _ lone _ => lone) fun _ _ lone =>
            lone.starts (by simp) (lone.2.starts id trivial)
      exact run.conseq (by rintro _ rfl; exact started) (fun _ _ => id) fun _ _ => id
  | taskEnd source =>
      exact (turns.taskEnd lib c.err).conseq (by rintro _ rfl; exact started) (fun _ _ => id) fun _ _ => id

/-! ## Runs -/

/-- Before a login is accepted, the step brings harmless headers only. -/
def Knocks (w : World σ) (act : Act σ) : Prop :=
  LoggedIn w.log ∨ ∀ h ∈ w.arriving act, h.Accepted → h.Harmless

instance (w : World σ) (act : Act σ) : Decidable (Knocks w act) := by
  unfold Knocks LoggedIn
  infer_instance

theorem gate_step (lib : External σ) {w t : World σ} {act : Act σ}
    (respected : Admitted w ∨ Lone Guarded w) (knocks : Knocks w act)
    (happens : next lib w act = some t) : Admitted t ∨ Lone Guarded t := by
  by_cases user : LoggedIn w.log
  · have admitted : Admitted w := ⟨respected.elim And.left fun lone => lone.2.1, user⟩
    exact .inl (admitted_lasting.next lib admitted happens)
  · have lone : Lone Guarded w := respected.resolve_left fun admitted => user admitted.2
    refine .inr (guarded_turns.step lib lone happens ?_)
    rintro c op got socket rfl found moved
    exact guarded_complete lib lone user (knocks.resolve_left user) found moved

/-- In a run of a new session that brings only harmless headers until a login is
    accepted, no privileged event comes before that login. -/
theorem gate_respected {lib : External σ} {s : Session} (new : s.New) {db : σ} {nmap : NMap}
    {t : World σ} {acts : List (Act σ)}
    (knocks : Runs.Each (next lib) Knocks (World.accepted lib s db nmap) acts)
    (run : Runs.after (next lib) (World.accepted lib s db nmap) acts = some t) : Gated t.log := by
  have start : Lone Guarded (World.accepted lib s db nmap) := by
    obtain ⟨socket, initialized, renewed, iData, hBuf, source, rfl⟩ := new
    have nothing : Clear Guarded
        ⟨.accepted socket initialized renewed iData hBuf source, db, nmap, [], 0, 0, 0, [], none⟩ :=
      ⟨rfl, rfl, Runs.InOrder.nil, .inr (by simp)⟩
    exact exec_of_holds (guarded_turns.sessionTask lib none) nothing (fun _ => id)
      fun _ _ => id
  have kept := Runs.invariant (fun _ _ _ => gate_step lib) (.inr start) knocks run
  exact kept.elim And.left fun lone => lone.2.1

theorem gate_respected_login :
    ∃ t, Runs.after (next memoryServer) (World.accepted memoryServer (client annLogin) (annDb []) .empty)
        [.first, .first] = some t ∧ Gated t.log := by
  obtain ⟨t, run⟩ := Option.isSome_iff_exists.mp
    (show (Runs.after (next memoryServer) (World.accepted memoryServer (client annLogin) (annDb [])
      .empty) [.first, .first]).isSome by decide +kernel)
  exact ⟨t, run, gate_respected (client_new _) (by decide +kernel) run⟩

/-- A message of a stranger, for table 7. -/
def strangeMessage : List Byte :=
  request 0 EAction.sendMsg.code ++ ofInt 4 7 ++ ofInt 4 3 ++ ofInt 2 2 ++ [0, 0] ++ ofInt 4 0 ++
    List.replicate 8 0 ++ str "hi"

/-- It is stored without a login. -/
theorem gate_passed :
    ¬ ∀ (s : Session) (db : Memory) (nmap : NMap) (acts : List (Act Memory)) (t : World Memory),
      s.New → Runs.after (next memoryServer) (World.accepted memoryServer s db nmap) acts = some t →
      Gated t.log := by
  intro respected
  have stored : (Runs.after (next memoryServer) (World.accepted memoryServer (client strangeMessage)
      (annDb []) .empty) [.first, .first]).any fun t =>
        decide (.login true ∉ t.log) && t.log.any fun e => e.Privileged := by
    decide +kernel
  obtain ⟨t, run, facts⟩ := (Option.any_eq_true _ _).mp stored
  simp only [Bool.and_eq_true, decide_eq_true_eq, List.any_eq_true] at facts
  obtain ⟨stranger, e, member, privileged⟩ := facts
  obtain ⟨before, after, split⟩ := List.append_of_mem member
  refine stranger ?_
  rw [split]
  exact List.mem_append_left _
    (respected _ _ _ _ t (client_new _) run before e after split privileged)

end NineProject
