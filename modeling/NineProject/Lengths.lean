import NineProject.Session.Rules

/-! # Lengths from the wire

Every read names the memory it goes to. The two login sizes and the size of an
invited name are what their memory is allocated for, and a name for a new table goes
to an array whose size the read knows, so those reads always fit. The text of a message
and the name of a receiver go to `source_`, and nothing compares their sizes with its.
-/

namespace NineProject

open Bytes M Effect Sql

variable {σ : Type}

/-- A read asks for no more than its memory holds, and for no negative number. -/
def Event.InBounds : Event → Prop
  | .read _ asked allocated => 0 ≤ asked ∧ asked ≤ allocated
  | _ => True

instance (e : Event) : Decidable e.InBounds :=
  match e with
  | .read _ asked allocated => inferInstanceAs (Decidable (0 ≤ asked ∧ asked ≤ allocated))
  | .push _ _ | .dispatch _ _ | .pop _ _ | .source _ | .exec _ _ | .login _ | .renew _ _ | .reply _ _ | .wrote _ =>
      .isTrue trivial

def InBounds (log : List Event) : Prop := ∀ e ∈ log, e.InBounds

instance (log : List Event) : Decidable (InBounds log) := inferInstanceAs (Decidable (∀ e ∈ _, _))

/-! ## What fits -/

/-- The length in a payload fits in the memory it is used with, `source` bytes being
    allocated for `source_`. -/
def EAction.Fits (payload : List Byte) (source : Nat) : EAction → Prop
  | .reqLog | .requestInvite | .requestCreateTable => True
  | .sendMsg => 0 ≤ (MsReq.ofBytes payload).sz ∧ (MsReq.ofBytes payload).sz ≤ source
  | .requestConnection =>
      0 ≤ (ConcRequest.ofBytes payload).receiverIdSize ∧
        (ConcRequest.ofBytes payload).receiverIdSize ≤ source

instance (payload : List Byte) (source : Nat) (a : EAction) : Decidable (a.Fits payload source) := by
  cases a <;> unfold EAction.Fits <;> infer_instance

def EAction.FitsIn (a : EAction) (w : World σ) : Prop := a.Fits w.self.hBuf.data w.self.source.data.length

/-- The lengths in a payload that a step brings fit. -/
def LengthsFit (w : World σ) : Act σ → Prop
  | .complete c => ∀ op ∈ w.pending[c.index]?, ∀ t ∈ transfer op c w.self.socket,
      match op.handler with
      | .action a => a.Fits (w.self.receivePayload t.1).hBuf.data w.self.source.data.length
      | _ => True
  | .checkMailBox | .others _ _ => True

instance (w : World σ) (act : Act σ) : Decidable (LengthsFit w act) := by
  unfold LengthsFit
  cases act with
  | complete c =>
      have : ∀ op t, Decidable (match (op : Op).handler with
          | .action a => a.Fits (w.self.receivePayload (t : List Byte × Socket).1).hBuf.data
              w.self.source.data.length
          | _ => True) := by
        intro op t
        split <;> infer_instance
      infer_instance
  | checkMailBox => infer_instance
  | others => infer_instance

/-! ## The invariant -/

/-- All reads so far were in bounds, and the memory of the two fixed buffers is there. -/
structure Bounded (w : World σ) : Prop where
  reads : InBounds w.log
  hBuf : w.self.hBuf.data.length = 32
  iData : w.self.pc.iData.length = 1024

theorem Bounded.more {w t : World σ} (bounded : Bounded w) (es : List Event)
    (log : t.log = w.log ++ es) (inBounds : ∀ e ∈ es, e.InBounds)
    (hBuf : t.self.hBuf.data.length = w.self.hBuf.data.length)
    (iData : t.self.pc.iData.length = w.self.pc.iData.length) : Bounded t := by
  refine ⟨?_, hBuf.trans bounded.hBuf, iData.trans bounded.iData⟩
  rw [log]
  intro e member
  exact (List.mem_append.mp member).elim (bounded.reads e) (inBounds e)

theorem Bounded.reads_into {w : World σ} (bounded : Bounded w) {dest : Dest} {handler : Handler}
    {allocated : Nat} (low : 0 ≤ handler.asked) (fits : handler.asked ≤ allocated) :
    Bounded ((w.logged (.read dest handler.asked allocated)).started handler) :=
  bounded.more [.read dest handler.asked allocated] rfl (by simpa [Event.InBounds] using ⟨low, fits⟩)
    rfl rfl

theorem bounded_invariant : Invariant (fun _ e => e.InBounds) (Bounded (σ := σ)) where
  extended := fun bounded step => by
    obtain ⟨es, log, inBounds⟩ := step.log
    exact bounded.more es log inBounds (by rw [step.hBuf]) (by rw [step.pc])
  popped := fun {w} bounded => bounded.more [.pop w.popped w.ticket] rfl
    (by simp [Event.InBounds]) rfl rfl
  pushed := fun {w h} bounded => bounded.more [.push w.pushed h] rfl (by simp [Event.InBounds]) rfl rfl
  dispatched := fun {w h} bounded => bounded.more [.dispatch w.popped h] rfl
    (by simp [Event.InBounds]) rfl rfl
  header := fun bounded => bounded.reads_into (by simp [Handler.asked])
    (by simp [Handler.asked, bounded.iData, Pchd.size])
  payload := fun {w a} bounded => bounded.reads_into (by simp [Handler.asked]) (by
    have size : a.payload ≤ 32 := by cases a <;> decide
    simp only [Handler.asked, bounded.hBuf]
    omega)
  written := fun {w bytes source} bounded => bounded.more [.wrote bytes] rfl
    (by simp [Event.InBounds]) rfl rfl

theorem calm_inBounds : Calms fun _ e => e.InBounds := by
  intro b e calm
  cases e with
  | read => exact calm.elim
  | _ => trivial

/-! ## Reads of a request -/

theorem readSource_bounded {size : Int} {v : World σ} (bounded : Bounded v)
    (fits : 0 ≤ size ∧ size ≤ v.self.source.data.length) :
    Holds (· = v) (readSource size) (fun _ => Bounded) fun _ => Bounded := by
  rintro w rfl
  have keeps := bounded_invariant.keeps (σ := σ)
  have touch : ∀ f, Works (fun _ e => e.InBounds) (touchSource f : M σ Unit) :=
    fun f => touchSource_works (fun _ => trivial) f
  -- giving the memory out leaves as much of it as there was
  let given := w.touchSource fun source => source.nsrc size
  have here : Bounded given := bounded.more [.source _] rfl (by simp [Event.InBounds]) rfl rfl
  have rest : Holds Bounded (do
      let bytes ← (read .source size w.self.source.data.length : M σ (List Byte))
      touchSource fun source => source.receive bytes
      lift (← get).self.source.toString) (fun _ => Bounded) fun _ => Bounded := by
    refine .bind (keeps.works (read_works fun _ => fits)) fun bytes => ?_
    exact .bind (keeps.works (touch _)) fun _ => .bind (keeps.works Within.get) fun v =>
      keeps.works (lift_works _)
  exact rest given here

theorem read_bounded {dest : Dest} {asked : Int} {allocated : Nat} (fits : 0 ≤ asked ∧ asked ≤ allocated) :
    Invariant.Kept Bounded (read dest asked allocated : M σ (List Byte)) :=
  bounded_invariant.keeps.works (read_works fun _ => fits)

/-- A buffer made of the array asks for no more than the array holds. -/
theorem readInvited_bounded (n : Nat) (data : List Byte) :
    Invariant.Kept Bounded (readInvited data n : M σ (List Str)) := by
  have keeps := bounded_invariant.keeps (σ := σ)
  have throws : ∀ (c : Prop) [Decidable c] (f : Fault), Invariant.Kept (Bounded (σ := σ)) (M.when c (throw (.fault f))) :=
    fun c _ f => keeps.works (when_works (Within.throw (by simp [NotEmptyQueue])))
  induction n generalizing data with
  | zero => exact .pure fun _ => id
  | succ n ih =>
      refine .bind (read_bounded ⟨by omega, le_rfl⟩) fun us => .bind (read_bounded ⟨by omega, ?_⟩) fun bytes => ?_
      · exact_mod_cast min_le_left _ _
      · exact .bind (throws _ _) fun _ => .bind (throws _ _) fun _ => .bind (ih _) fun rest => .pure fun _ => id

/-! ## Payloads -/

theorem action_bounded (lib : External σ) (a : EAction) (err : ErrorCode) :
    Holds (fun w => Bounded w ∧ a.FitsIn w) (actionHandler lib a err) (fun _ => Bounded)
      fun _ => Bounded := by
  have inv := bounded_invariant (σ := σ)
  have keeps := inv.keeps
  have finish := inv.taskEnd lib calm_inBounds fun _ _ _ => trivial
  cases a with
  | reqLog =>
      refine (readIdAndPassword_holds keeps (fun _ _ => id) fun idpw idSize pwSize made w bounded => ?_).conseq
        (fun _ => And.left) (fun _ _ => id) fun _ _ => id
      obtain ⟨low, allocated⟩ := ofSize_length made
      exact bounded.reads_into low allocated.le
  | sendMsg =>
      exact responseActSendMsg_holds lib keeps calm_inBounds
        (fun w fits => readSource_bounded fits.1 fits.2) finish
  | requestConnection =>
      exact responseActConnect_holds lib keeps calm_inBounds
        (fun w fits => readSource_bounded fits.1 fits.2) finish
  | requestInvite =>
      refine (responseActInvite_holds lib keeps keeps calm_inBounds (fun w targetGetter bounded made => ?_)
        finish).conseq (fun _ => And.left) (fun _ _ => id) fun _ _ => id
      obtain ⟨low, allocated⟩ := ofSize_length made
      exact (read_bounded ⟨low, allocated.le⟩).conseq (by rintro _ rfl; exact bounded) (fun _ _ => id) fun _ _ => id
  | requestCreateTable =>
      refine responseActCreateChatTable_holds lib keeps calm_inBounds (fun w fits => ?_) finish
      exact (readInvited_bounded _ _).conseq (by rintro _ rfl; exact fits.1) (fun _ _ => id) fun _ _ => id

/-! ## Runs -/

theorem bounded_step (lib : External σ) {w t : World σ} {act : Act σ} (bounded : Bounded w)
    (fits : LengthsFit w act) (happens : next lib w act = some t) : Bounded t := by
  have inv := bounded_invariant (σ := σ)
  have finish := inv.taskEnd lib calm_inBounds fun _ _ _ => trivial
  refine step_kept bounded happens ?_ (fun kept => ⟨kept.reads, kept.hBuf, kept.iData⟩)
    fun c op got socket act_ found moved => ?_
  · exact fun bounded step => inv.extended bounded (step.mono fun _ _ => False.elim)
  subst act_
  have started : Bounded (w.completing c.index op socket) :=
    ⟨bounded.reads, bounded.hBuf, bounded.iData⟩
  have fits := fits op found (got, socket) moved
  obtain ⟨handler, ticket⟩ := op
  cases handler with
  | readHeader =>
      refine .bind (Q := fun _ => Bounded) ?_ fun _ =>
        inv.readHeaderHandle lib calm_inBounds (fun _ _ _ => trivial) c.err c.ret
      rintro _ rfl
      exact ⟨bounded.reads, bounded.hBuf, by simp [World.completing, Session.receiveHeader, bounded.iData]⟩
  | action a =>
      refine .bind (Q := fun _ w => Bounded w ∧ a.FitsIn w) ?_ fun _ => action_bounded lib a c.err
      rintro _ rfl
      exact ⟨⟨bounded.reads, by simp [World.completing, Session.receivePayload, PBuffer.receive, bounded.hBuf],
        bounded.iData⟩, fits⟩
  | login idpw idSize pwSize =>
      have run : Invariant.Kept Bounded (responseReqLogin lib c.err (idpw.receive got) idSize pwSize) :=
        responseReqLogin_holds lib inv.keeps (fun _ _ => trivial) (fun _ _ => trivial)
          (fun _ _ => trivial) (fun _ _ => id) (fun _ bounded _ => bounded)
          fun bytes => inv.asyncWrite bytes false
      exact run.conseq (by rintro _ rfl; exact started) (fun _ _ => id) fun _ _ => id
  | taskEnd source =>
      exact (finish c.err).conseq (by rintro _ rfl; exact started) (fun _ _ => id) fun _ _ => id

/-- In every run of a new session whose payloads bring lengths that fit, no read outruns
    its memory. -/
theorem reads_inBounds {lib : External σ} {s : Session} (new : s.New) {db : σ} {nmap : NMap}
    {t : World σ} {acts : List (Act σ)}
    (fits : Runs.Each (next lib) LengthsFit (World.accepted lib s db nmap) acts)
    (run : Runs.after (next lib) (World.accepted lib s db nmap) acts = some t) : InBounds t.log := by
  have start : Bounded (World.accepted lib s db nmap) := by
    obtain ⟨socket, initialized, renewed, iData, hBuf, source, rfl⟩ := new
    refine ⟨?_, hBuf.size_toArray, iData.size_toArray⟩
    show ∀ e ∈ [Event.read .header _ _], e.InBounds
    simp [Event.InBounds, Handler.asked, Pchd.size, Session.accepted]
  exact (Runs.invariant (fun _ _ _ => bounded_step lib) start fits run).reads

theorem reads_inBounds_login :
    ∃ t, Runs.after (next memoryServer) (World.accepted memoryServer (client annLogin) (annDb []) .empty)
        [.first, .first, .first] = some t ∧ InBounds t.log := by
  obtain ⟨t, run⟩ := Option.isSome_iff_exists.mp
    (show (Runs.after (next memoryServer) (World.accepted memoryServer (client annLogin) (annDb [])
      .empty) [.first, .first, .first]).isSome by decide +kernel)
  exact ⟨t, run, reads_inBounds (client_new _) (by decide +kernel) run⟩

/-- A message that claims 2000 bytes, for 1024 that are allocated. -/
def longMessage : List Byte :=
  request 0 EAction.sendMsg.code ++ ofInt 4 7 ++ ofInt 4 3 ++ ofInt 2 2000 ++ List.replicate 14 0

theorem read_outruns :
    ¬ ∀ (s : Session) (db : Memory) (nmap : NMap) (acts : List (Act Memory)) (t : World Memory),
      s.New → Runs.after (next memoryServer) (World.accepted memoryServer s db nmap) acts = some t →
      InBounds t.log := by
  intro bounded
  have outrun : (Runs.after (next memoryServer) (World.accepted memoryServer (client longMessage)
      (annDb []) .empty) [.first, .first]).any fun t => ¬ InBounds t.log := by
    decide +kernel
  obtain ⟨t, run, beyond⟩ := (Option.any_eq_true _ _).mp outrun
  exact (by simpa using beyond : ¬ InBounds t.log) (bounded _ _ _ _ t (client_new _) run)

end NineProject
