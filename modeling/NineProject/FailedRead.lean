import NineProject.Session.Rules

/-! # Payload reads that fail

The handlers of a payload get the error of their read, and most of them go on with
whatever bytes are in the buffer. What stops them is the next blocking read, on the
socket that failed; where the stale lengths ask it for nothing, it returns, and the
request of an earlier payload is carried out.
-/

namespace NineProject

open Bytes M Effect Sql

variable {σ : Type}

/-- A statement that is executed, or a flag that is raised. -/
def Event.Acts : Event → Prop
  | .exec _ _ | .renew _ _ => True
  | _ => False

instance (e : Event) : Decidable e.Acts :=
  match e with
  | .exec _ _ | .renew _ _ => .isTrue trivial
  | .push _ _ | .dispatch _ _ | .pop _ _ | .read _ _ _ | .source _ | .login _ | .reply _ _ | .wrote _ => .isFalse id

/-- What was recorded between two states has no effect, or has some. -/
def Quiet (w t : World σ) : Prop := ∃ es, t.log = w.log ++ es ∧ ∀ e ∈ es, ¬ e.Acts
def Loud (w t : World σ) : Prop := ∃ es, t.log = w.log ++ es ∧ ∃ e ∈ es, e.Acts

theorem Loud.not_quiet {w t : World σ} (loud : Loud w t) : ¬ Quiet w t := by
  rintro ⟨es, log, quiet⟩
  obtain ⟨fs, log', e, member, acts⟩ := loud
  have same : es = fs := List.append_cancel_left (log.symm.trans log')
  exact quiet e (same ▸ member) acts

theorem Quiet.more {w v t : World σ} (quiet : Quiet w v) (fs : List Event) (log : t.log = v.log ++ fs)
    (silent : ∀ e ∈ fs, ¬ e.Acts) : Quiet w t := by
  obtain ⟨es, before, none_⟩ := quiet
  refine ⟨es ++ fs, by rw [log, before, List.append_assoc], fun e member => ?_⟩
  exact (List.mem_append.mp member).elim (none_ e) (silent e)

theorem Quiet.acted {w v t : World σ} (quiet : Quiet w v) {fs : List Event} (log : t.log = v.log ++ fs)
    {e : Event} (member : e ∈ fs) (acts : e.Acts) : Loud w t := by
  obtain ⟨es, before, -⟩ := quiet
  exact ⟨es ++ fs, by rw [log, before, List.append_assoc], e, List.mem_append_right _ member, acts⟩

theorem Loud.more {w v t : World σ} (loud : Loud w v) {fs : List Event} (log : t.log = v.log ++ fs) :
    Loud w t := by
  obtain ⟨es, before, e, member, acts⟩ := loud
  exact ⟨es ++ fs, by rw [log, before, List.append_assoc], e, List.mem_append_left _ member, acts⟩

theorem quiet_keeps (w : World σ) : Keeps (fun _ e => ¬ e.Acts) (Quiet w) fun _ => Quiet w where
  extended := fun quiet step => by
    obtain ⟨es, log, silent⟩ := step.log
    exact quiet.more es log silent
  stop := fun _ => id

/-- What was done stays done, whatever else is. -/
theorem loud_invariant (w : World σ) : Invariant (fun _ _ => True) (Loud w) where
  extended := fun loud step => by
    obtain ⟨es, log, -⟩ := step.log
    exact loud.more log
  popped := fun loud => loud.more rfl
  pushed := fun loud => loud.more rfl
  dispatched := fun loud => loud.more rfl
  header := fun loud => loud.more rfl
  payload := fun loud => loud.more rfl
  written := fun loud => loud.more rfl

theorem loud_works {α : Type} (w : World σ) {m : M σ α} (works : Works (fun _ _ => True) m) :
    Invariant.Kept (Loud w) m := (loud_invariant w).works works

theorem taskEnd_loud (lib : External σ) (w : World σ) (err : ErrorCode) :
    Invariant.Kept (Loud w) (taskEnd lib err) :=
  (loud_invariant w).taskEnd lib (fun _ _ _ => trivial) (fun _ _ _ => trivial) err

/-- A program over the connection that starts with a statement. -/
theorem runQuery_loud {α : Type} (lib : External σ) (w : World σ) (call : QrCall) (text : Str)
    (rest : List ResultRow → Query α) :
    Holds (Quiet w) (runQuery lib call (Program.statement text >>= rest)) (fun _ => Loud w)
      fun _ => Loud w := by
  intro v quiet
  let r := (Program.statement text >>= rest).run lib.engine v.db
  obtain ⟨more, executed⟩ : ∃ more, r.executed = text :: more := by
    simp only [r, Program.run_bind, Program.run_statement]
    exact ⟨_, rfl⟩
  have loud : Loud w (v.ran call r) :=
    quiet.acted (rfl : _ = v.log ++ r.executed.map (.exec call)) (e := .exec call text)
      (by simp [executed]) trivial
  exact loud_works w (lift_works r.result) _ loud

/-! ## Reads on a failed socket -/

/-- Nothing is left to read but the failure. -/
def Broken (w v : World σ) : Prop :=
  Quiet w v ∧ v.self.socket.input = [] ∧ v.self.socket.fault.isSome = true

theorem read_broken {w : World σ} {dest : Dest} {asked : Int} {allocated : Nat}
    (asks : sizeT asked ≠ 0) :
    Holds (Broken w) (read dest asked allocated) (fun _ _ => False) fun _ => Quiet w := by
  rintro v ⟨quiet, empty, fault⟩
  obtain ⟨f, fault⟩ := Option.isSome_iff_exists.mp fault
  have logged : Quiet w (v.logged (.read dest asked allocated)) :=
    quiet.more [.read dest asked allocated] rfl (by simp [Event.Acts])
  rw [read_eq]
  by_cases closed : v.self.socket.opened = false
  · simpa [asks, closed] using logged
  · simpa [asks, closed, empty, fault] using logged

theorem readSource_broken {w : World σ} {size : Int} (asks : sizeT size ≠ 0) :
    Holds (Broken w) (readSource size) (fun _ _ => False) fun _ => Quiet w := by
  refine .bind (Q := fun _ => Broken w) ?_ fun _ => .bind (Q := fun _ => Broken w) ?_ fun v =>
    .bind (read_broken asks) fun _ _ => False.elim
  · exact fun v ⟨quiet, left⟩ => ⟨quiet.more [.source _] rfl (by simp [Event.Acts]), left⟩
  · exact fun _ => id

/-- A request for no bytes is answered at once. -/
theorem read_nothing {w : World σ} {dest : Dest} {asked : Int} {allocated : Nat} (nothing : asked = 0)
    {E : Stop → World σ → Prop} :
    Holds (Quiet w) (read dest asked allocated) (fun _ => Quiet w) E := by
  subst nothing
  intro v quiet
  exact quiet.more [.read dest 0 allocated] rfl (by simp [Event.Acts])

theorem readSource_nothing {w : World σ} {size : Int} (nothing : size = 0)
    {E : Stop → World σ → Prop} : Holds (Quiet w) (readSource size) (fun _ => Quiet w) E := by
  subst nothing
  intro v quiet
  let given := v.touchSource fun source => source.nsrc 0
  let asked := given.logged (.read .source 0 given.self.source.data.length)
  have ran : (readSource 0 : M σ Str) v =
      .ok [] (asked.touchSource fun source => source.receive []) := rfl
  have first : Quiet w given := quiet.more [.source _] rfl (by simp [Event.Acts])
  have second : Quiet w asked := first.more [.read _ _ _] rfl (by simp [Event.Acts])
  rw [ran]
  exact second.more [.source _] rfl (by simp [Event.Acts])

theorem readInvited_broken {w : World σ} {data : List Byte} {n : Nat} (some_ : 0 < n) :
    Holds (Broken w) (readInvited data n) (fun _ _ => False) fun _ => Quiet w := by
  obtain ⟨n, rfl⟩ := Nat.exists_eq_succ_of_ne_zero some_.ne'
  exact .bind (read_broken (by decide)) fun _ _ => False.elim

theorem readInvited_nothing {w : World σ} {data : List Byte} {n : Nat} (nothing : n = 0)
    {E : Stop → World σ → Prop} :
    Holds (Quiet w) (readInvited data n) (fun _ => Quiet w) E := by
  subst nothing
  exact .pure fun _ => id

theorem lift_ok {α : Type} {r : Except Fault α} {a : α} (value : r = .ok a) {P : World σ → Prop}
    {E : Stop → World σ → Prop} : Holds P (lift r) (fun b v => b = a ∧ P v) E := by
  subst value
  exact fun _ p => ⟨rfl, p⟩

/-! ## The handlers -/

/-- The stale bytes ask for something to be read. -/
def EAction.Spared (payload : List Byte) : EAction → Prop
  | .reqLog => True
  | .sendMsg => (MsReq.ofBytes payload).sz ≠ 0
  | .requestConnection => (ConcRequest.ofBytes payload).receiverIdSize ≠ 0
  | .requestInvite => (IvtReq.ofBytes payload).targetIdSize ≠ 0
  | .requestCreateTable => 0 < (CreateTableReq.ofBytes payload).participations

instance (payload : List Byte) (a : EAction) : Decidable (a.Spared payload) := by
  cases a <;> unfold EAction.Spared <;> infer_instance

theorem sizeT_field {record : List Byte} {off k : Nat} (small : k ≤ 4) :
    sizeT (field record off k) ≠ 0 ↔ field record off k ≠ 0 := by
  obtain ⟨low, high⟩ := field_inRange record off small
  unfold sizeT
  omega

/-- What `error_handle` changes is neither recorded nor read by the next request. -/
theorem errorHandle_silent (f : Failure) {P : World σ → Prop} {E : Stop → World σ → Prop}
    (closed : ∀ v : World σ, P v → P { v with
      self := { v.self with
        socket := { v.self.socket with opened := false },
        initialized := false } }) :
    Holds P (M.when (some f).isSome (errorHandle (some f))) (fun _ => P) E :=
  .ite (fun _ => .ite (fun _ => closed) fun _ => .pure fun _ => id) fun _ => .pure fun _ => id

theorem spared_quiet (lib : External σ) {w : World σ} {a : EAction} {payload : List Byte} {f : Failure}
    (spared : a.Spared payload) :
    Holds (fun v => Broken w v ∧ v.self.hBuf.data = payload) (actionHandler lib a (some f))
      (fun _ => Quiet w) fun _ => Quiet w := by
  have keeps := quiet_keeps w
  cases a with
  | reqLog =>
      refine .bind (Q := fun _ => Quiet w) (fun _ broken => broken.1.1) fun v => ?_
      exact keeps.works (errorHandle_works _)
  | sendMsg =>
      refine .bind get_holds fun _ => ?_
      rintro v ⟨rfl, broken, rfl⟩
      exact Holds.bind (readSource_broken ((sizeT_field (by decide)).mpr spared))
        (fun _ _ => False.elim) v broken
  | requestConnection =>
      refine .bind get_holds fun _ => ?_
      rintro v ⟨rfl, broken, rfl⟩
      exact Holds.bind (readSource_broken ((sizeT_field (by decide)).mpr spared))
        (fun _ _ => False.elim) v broken
  | requestInvite =>
      refine .bind (errorHandle_silent f fun _ => id) fun _ => .bind get_holds fun _ => ?_
      · rintro v ⟨rfl, broken, rfl⟩
        refine lift_holds (P := Broken w) (S := fun _ => Quiet w) (E := fun _ => Quiet w)
          (fun _ v broken => broken.1) (fun targetGetter _ => ?_) v broken
        exact .bind (read_broken ((sizeT_field (by decide)).mpr spared)) fun _ _ => False.elim
  | requestCreateTable =>
      refine .bind get_holds fun _ => ?_
      rintro v ⟨rfl, broken, rfl⟩
      simp only [EAction.Spared] at spared
      exact Holds.bind (readInvited_broken (by omega)) (fun _ _ => False.elim) v broken

/-- A request with nothing to read is carried out. -/
theorem unspared_loud (lib : External σ) {w : World σ} {a : EAction} {payload : List Byte} {f : Failure}
    (unspared : ¬ a.Spared payload) :
    Holds (fun v => Quiet w v ∧ v.self.hBuf.data = payload) (actionHandler lib a (some f))
      (fun _ => Loud w) fun _ => Loud w := by
  have notify : ∀ users task, Invariant.Kept (Loud w) (nmapNotifyWithList users task) :=
    fun users task => loud_works w (nmapNotifyWithList_works (fun _ _ => trivial) users)
  cases a with
  | reqLog => exact absurd trivial unspared
  | sendMsg =>
      refine .bind get_holds fun _ => ?_
      rintro v ⟨rfl, quiet, rfl⟩
      refine Holds.bind (readSource_nothing (not_not.mp unspared)) (fun text => ?_) v quiet
      refine .bind (runQuery_loud lib w _ _ _) fun _ => ?_
      refine .bind (loud_works w (runQuery_works lib (fun _ _ => trivial) _)) fun mList => ?_
      exact .bind (notify mList _) fun _ => taskEnd_loud lib w _
  | requestConnection =>
      refine .bind get_holds fun _ => ?_
      rintro v ⟨rfl, quiet, rfl⟩
      refine Holds.bind (readSource_nothing (not_not.mp unspared)) (fun receiver => ?_) v quiet
      refine .bind (runQuery_loud lib w _ _ _) fun _ => ?_
      exact .bind (loud_works w (nmapNotify_works (fun _ _ => trivial) _)) fun _ => taskEnd_loud lib w _
  | requestInvite =>
      refine .bind (errorHandle_silent f fun _ => id) fun _ => .bind get_holds fun _ => ?_
      rintro v ⟨rfl, quiet, rfl⟩
      have none_ : (IvtReq.ofBytes v.self.hBuf.data).targetIdSize = 0 := not_not.mp unspared
      have made : PBuffer.ofSize (IvtReq.ofBytes v.self.hBuf.data).targetIdSize =
          .ok ⟨Param.ofTypes [.int, .int, .int, .int], 0, 0, 0, []⟩ := by rw [none_]; rfl
      refine Holds.bind (lift_ok made) (fun targetGetter => .assume fun same => ?_) v quiet
      subst same
      refine .bind (read_nothing none_) fun bytes => .bind (lift_ok rfl) fun target => .assume fun _ => ?_
      refine .bind (runQuery_loud lib w _ _ _) fun _ => ?_
      exact .bind (loud_works w (nmapNotify_works (fun _ _ => trivial) _)) fun _ => taskEnd_loud lib w _
  | requestCreateTable =>
      refine .bind get_holds fun _ => ?_
      rintro v ⟨rfl, quiet, rfl⟩
      simp only [EAction.Spared] at unspared
      refine Holds.bind (readInvited_nothing (by omega)) (fun cont => ?_) v quiet
      refine .bind (runQuery_loud lib w _ _ _) fun key => ?_
      refine .bind (loud_works w (writeOrThrow_works (fun _ _ => trivial) _)) fun _ => ?_
      exact .bind (notify cont _) fun _ => taskEnd_loud lib w _

/-! ## Completions -/

/-- A failed payload read has no effect exactly when the stale bytes ask for something. -/
theorem failed_read_quiet_iff {lib : External σ} {w t : World σ} {c : Completion} {a : EAction}
    {ticket : Nat} (pending : w.pending[c.index]? = some ⟨.action a, ticket⟩) (failed : c.err ≠ none)
    (step : next lib w (.complete c) = some t) :
    Quiet w t ↔ a.Spared (w.self.receivePayload (w.self.socket.input.take c.got)).hBuf.data := by
  obtain ⟨f, failed⟩ := Option.ne_none_iff_exists'.mp failed
  obtain ⟨-, op, got, socket, found, moved, rfl⟩ := next_eq_some step
  cases pending.symm.trans found
  have taken : got = w.self.socket.input.take c.got ∧ socket.input = [] ∧
      socket.fault.isSome = true := by
    simp only [transfer, failed] at moved
    split at moved
    · cases moved
      exact ⟨rfl, rfl, rfl⟩
    · cases moved
  obtain ⟨rfl, empty, fault⟩ := taken
  let v := w.completing c.index ⟨.action a, ticket⟩ socket
  let u : World σ := { v with self := v.self.receivePayload (w.self.socket.input.take c.got) }
  have quiet : Quiet w u := ⟨[], by simp [u, v, World.completing], by simp⟩
  have ran : complete lib ⟨.action a, ticket⟩ c.err (w.self.socket.input.take c.got) c.ret v =
      actionHandler lib a (some f) u := by
    rw [failed]
    rfl
  have exec_ : v.exec (complete lib ⟨.action a, ticket⟩ c.err (w.self.socket.input.take c.got) c.ret) =
      u.exec (actionHandler lib a (some f)) := by
    simp only [World.exec, ran]
  show Quiet w (v.exec _) ↔ _
  rw [exec_]
  constructor
  · intro silent
    by_contra unspared
    have loud : Loud w (u.exec (actionHandler lib a (some f))) :=
      exec_of_holds (unspared_loud lib unspared) ⟨quiet, rfl⟩ (fun _ => id) fun _ _ => id
    exact loud.not_quiet silent
  · intro spared
    exact exec_of_holds (spared_quiet lib spared) ⟨⟨quiet, empty, fault⟩, rfl⟩ (fun _ => id)
      fun _ _ => id

/-- Ann's message is being read, and these bytes are left of an earlier payload. -/
def annSending (stale : List Byte) : World Memory :=
  { annWaits [] [] with
    self := { annSession [] with
      pc := ⟨List.replicate 1024 0, [{ Pchd.empty with comd := EAction.sendMsg.code }]⟩,
      hBuf := { (annSession []).hBuf with data := stale } },
    pending := [⟨.action .sendMsg, 0⟩],
    pushed := 1 }

/-- The read ends with the connection. -/
def lost : Completion := ⟨0, some .eof, 0, false⟩

/-- The bytes of a message of two letters. -/
def staleMessage : List Byte := ofInt 4 7 ++ ofInt 4 3 ++ ofInt 2 2 ++ List.replicate 22 0

theorem failed_read_quiet_stale :
    ∃ t, next memoryServer (annSending staleMessage) (.complete lost) = some t ∧
      (Quiet (annSending staleMessage) t ↔
        EAction.sendMsg.Spared ((annSending staleMessage).self.receivePayload
          ((annSending staleMessage).self.socket.input.take lost.got)).hBuf.data) := by
  obtain ⟨t, step⟩ := Option.isSome_iff_exists.mp
    (show (next memoryServer (annSending staleMessage) (.complete lost)).isSome by decide +kernel)
  have pending : (annSending staleMessage).pending[lost.index]? = some ⟨.action .sendMsg, 0⟩ := rfl
  exact ⟨t, step, failed_read_quiet_iff pending (by decide) step⟩

/-- With no payload before it, an empty message is stored. -/
theorem failed_read_stores :
    ¬ ∀ (w t : World Memory) (c : Completion) (a : EAction) (ticket : Nat),
      w.pending[c.index]? = some ⟨.action a, ticket⟩ → c.err ≠ none →
      next memoryServer w (.complete c) = some t → Quiet w t := by
  intro quiet
  have stored : (next memoryServer (annSending (List.replicate 32 0)) (.complete lost)).any
      fun t => t.log.any fun e => e.Acts := by decide +kernel
  obtain ⟨t, step, acted⟩ := (Option.any_eq_true _ _).mp stored
  obtain ⟨es, log, silent⟩ := quiet _ t lost _ _ rfl (by decide) step
  obtain ⟨e, member, acts⟩ := List.any_eq_true.mp acted
  rw [log] at member
  exact silent e member (by simpa using acts)

end NineProject
