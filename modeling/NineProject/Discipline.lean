import NineProject.Session.Rules

/-! # The discipline of a session

Between completions a session either waits for a header or works for one, with one
operation outstanding. The handler of `GetMsg` is the one that breaks this: it ends
its task at once and starts a write that ends it again.
-/

namespace NineProject

open Bytes M Effect Sql

variable {σ : Type}

/-! ## The life of headers in the record -/

def Event.isHeader : Event → Bool
  | .push _ _ | .dispatch _ _ | .pop _ _ => true
  | _ => false

def headerEvents (log : List Event) : List Event := log.filter Event.isHeader

/-- Headers taken up one after the other, each pushed, dispatched, and popped by the work
    that was done for it. -/
def served (k : Nat) : List Pchd → List Event
  | [] => []
  | h :: rest => .push k h :: .dispatch k h :: .pop k k :: served (k + 1) rest

theorem served_append (k : Nat) (hs : List Pchd) (h : Pchd) :
    served k (hs ++ [h]) =
      served k hs ++ [.push (k + hs.length) h, .dispatch (k + hs.length) h,
        .pop (k + hs.length) (k + hs.length)] := by
  induction hs generalizing k with
  | nil => rfl
  | cons g rest ih =>
      have shift : k + 1 + rest.length = k + (rest.length + 1) := by omega
      simp [served, ih, shift]

/-- The header being worked for. -/
def inWork (k : Nat) (current : Option Pchd) : List Event :=
  match current with
  | none => []
  | some h => [.push k h, .dispatch k h]

/-- There is a handler for the header. -/
def Pchd.Known (h : Pchd) : Prop :=
  if isCommand h then (ECommand.ofCode h.comd).isSome else (EAction.ofCode h.comd).isSome

/-- The one outstanding operation works for the header with this number. -/
def WorksFor (k : Nat) (w : World σ) : Prop := ∃ handler, handler ≠ .readHeader ∧ w.pending = [⟨handler, k⟩]

/-- What is promised of a session: no access to an empty queue, every header popped once
    by its own work and before the next is taken up, and not before this work is done: as
    long as a header with a handler is not popped, an operation is outstanding for it. One
    operation at a time, and `source_` left alone while it is being sent. -/
structure Disciplined (w : World σ) : Prop where
  queue : w.stopped ≠ some .emptyQueue
  headers : ∃ hs current, headerEvents w.log = served 0 hs ++ inWork hs.length current ∧
    (w.stopped = none → ∀ h ∈ current, h.Known → WorksFor hs.length w)
  operations : w.pending.length ≤ 1
  source : Event.source true ∉ w.log

/-! ## States between completions -/

/-- What the record says in each of them. -/
structure Tidy (w : World σ) (hs : List Pchd) (current : Option Pchd) : Prop where
  running : w.stopped = none
  headers : headerEvents w.log = served 0 hs ++ inWork hs.length current
  source : Event.source true ∉ w.log
  popped : w.popped = hs.length
  pushed : w.pushed = hs.length + current.toList.length
  queue : w.self.pc.hQue = current.toList

/-- No header is in work, and nothing but a header read may be outstanding. -/
def Waiting (w : World σ) : Prop :=
  ∃ hs, Tidy w hs none ∧ (w.pending = [] ∨ ∃ ticket, w.pending = [⟨.readHeader, ticket⟩])

/-- One header is in work; an outstanding operation is its own and sends nothing from
    `source_`. There is one, unless nobody knew what to do with the header. -/
def Working (w : World σ) : Prop :=
  ∃ hs h, Tidy w hs (some h) ∧ ((w.pending = [] ∧ ¬ h.Known) ∨ ∃ handler, w.pending = [⟨handler, hs.length⟩] ∧
    handler ≠ .readHeader ∧ handler ≠ .taskEnd true)

def Settled (w : World σ) : Prop := Waiting w ∨ Working w

/-- No header is in work and nothing is outstanding. -/
def Idle (hs : List Pchd) (w : World σ) : Prop := Tidy w hs none ∧ w.pending = []

/-- A handler is running for the header in front. -/
def Serving (hs : List Pchd) (h : Pchd) (w : World σ) : Prop :=
  Tidy w hs (some h) ∧ w.pending = [] ∧ w.ticket = hs.length

/-- A stop that leaves the record in order. -/
def FairStop (e : Stop) (w : World σ) : Prop :=
  e ≠ .emptyQueue ∧ (∃ hs current, Tidy w hs current) ∧ w.pending.length ≤ 1

theorem Waiting.short {w : World σ} (h : Waiting w) : w.pending.length ≤ 1 := by
  obtain ⟨hs, -, empty | ⟨ticket, one⟩⟩ := h
  · simp [empty]
  · simp [one]

theorem Working.short {w : World σ} (h : Working w) : w.pending.length ≤ 1 := by
  obtain ⟨hs, h, -, ⟨empty, -⟩ | ⟨handler, one, -⟩⟩ := h
  · simp [empty]
  · simp [one]

theorem Settled.tidy {w : World σ} (h : Settled w) : ∃ hs current, Tidy w hs current := by
  rcases h with ⟨hs, tidy, -⟩ | ⟨hs, h, tidy, -⟩
  · exact ⟨hs, none, tidy⟩
  · exact ⟨hs, some h, tidy⟩

/-- A header in work that has a handler has an operation of its own. -/
theorem Settled.works {w : World σ} (settled : Settled w) :
    ∃ hs current, Tidy w hs current ∧ ∀ h ∈ current, h.Known → WorksFor hs.length w := by
  rcases settled with ⟨hs, tidy, -⟩ | ⟨hs, h, tidy, ⟨-, unknown⟩ | ⟨handler, one, read, -⟩⟩
  · exact ⟨hs, none, tidy, by simp⟩
  · refine ⟨hs, some h, tidy, fun g is known => ?_⟩
    cases is
    exact absurd known unknown
  · exact ⟨hs, some h, tidy, fun _ _ _ => ⟨handler, read, one⟩⟩

theorem Settled.short {w : World σ} (h : Settled w) : w.pending.length ≤ 1 :=
  h.elim Waiting.short Working.short

theorem Idle.settled {hs : List Pchd} {w : World σ} (h : Idle hs w) : Settled w :=
  .inl ⟨hs, h.1, .inl h.2⟩

theorem Serving.settled {hs : List Pchd} {h : Pchd} {w : World σ} (serving : Serving hs h w)
    (unknown : ¬ h.Known) : Settled w :=
  .inr ⟨hs, h, serving.1, .inl ⟨serving.2.1, unknown⟩⟩

/-- The operations, the stop and the ticket are no part of the record. -/
theorem Tidy.congr {w t : World σ} {hs : List Pchd} {current : Option Pchd} (tidy : Tidy w hs current)
    (stopped : t.stopped = w.stopped) (log : t.log = w.log) (popped : t.popped = w.popped) (pushed : t.pushed = w.pushed)
    (queue : t.self.pc.hQue = w.self.pc.hQue) : Tidy t hs current :=
  ⟨by rw [stopped, tidy.running], by rw [log, tidy.headers], by rw [log]; exact tidy.source, by rw [popped, tidy.popped],
    by rw [pushed, tidy.pushed], by rw [queue, tidy.queue]⟩

theorem Tidy.extended {A : Bool → Event → Prop} {w t : World σ} {hs : List Pchd}
    {current : Option Pchd} (tidy : Tidy w hs current) (step : Extends A w t)
    (others : ∀ e, A w.sourceBusy e → e.isHeader = false ∧ e ≠ .source true) :
    Tidy t hs current := by
  obtain ⟨es, log, events⟩ := step.log
  have noHeader : headerEvents es = [] :=
    List.filter_eq_nil_iff.mpr fun e member => by simp [(others e (events e member)).1]
  refine ⟨by rw [step.stopped, tidy.running], ?_, ?_, by rw [step.popped, tidy.popped],
    by rw [step.pushed, tidy.pushed], by rw [step.pc, tidy.queue]⟩
  · rw [log, headerEvents, List.filter_append]
    show headerEvents w.log ++ headerEvents es = _
    rw [noHeader, List.append_nil, tidy.headers]
  · rw [log, List.mem_append, not_or]
    exact ⟨tidy.source, fun member => (others _ (events _ member)).2 rfl⟩

/-! ## Work for one header -/

/-- Events of the work for a header: `source_` is touched as busy as it is. -/
def Event.Work (busy : Bool) (e : Event) : Prop :=
  e.isHeader = false ∧ ∀ b, e = .source b → b = busy

theorem work_apart {e : Event} (h : e.Work false) : e.isHeader = false ∧ e ≠ .source true :=
  ⟨h.1, fun same => absurd (h.2 true same) (by simp)⟩

theorem calm_work : Calms Event.Work := by
  intro b e calm
  cases e with
  | source busy => exact ⟨rfl, fun _ same => by cases same; exact calm⟩
  | push | dispatch | pop | read | reply => exact calm.elim
  | exec | login | renew | wrote => exact ⟨rfl, by simp⟩

theorem read_work (b : Bool) (dest : Dest) (asked : Int) (allocated : Nat) :
    Event.Work b (.read dest asked allocated) := ⟨rfl, by simp⟩

theorem notBusy {w : World σ} (idle : w.pending = []) : w.sourceBusy = false := by
  simp [World.sourceBusy, idle]

theorem Tidy.worked {w t : World σ} {hs : List Pchd} {current : Option Pchd} (tidy : Tidy w hs current)
    (idle : w.pending = []) (step : Extends Event.Work w t) : Tidy t hs current :=
  tidy.extended step fun _ work => work_apart (notBusy idle ▸ work)

theorem idle_keeps (hs : List Pchd) : Keeps Event.Work (Idle (σ := σ) hs) FairStop where
  extended := fun ⟨tidy, idle⟩ step => ⟨tidy.worked idle step, by rw [step.pending, idle]⟩
  stop := fun other ⟨tidy, idle⟩ => ⟨other, ⟨hs, none, tidy⟩, by simp [idle]⟩

theorem serving_keeps (hs : List Pchd) (h : Pchd) :
    Keeps Event.Work (Serving (σ := σ) hs h) FairStop where
  extended := fun ⟨tidy, idle, ticket⟩ step =>
    ⟨tidy.worked idle step, by rw [step.pending, idle], by rw [step.ticket, ticket]⟩
  stop := fun other ⟨tidy, idle, _⟩ => ⟨other, ⟨hs, some h, tidy⟩, by simp [idle]⟩

theorem serving_notEmpty {hs : List Pchd} {h : Pchd} (w : World σ) (serving : Serving hs h w)
    (empty : w.self.pc.hQue = []) : FairStop .emptyQueue w := by
  rw [serving.1.queue] at empty
  cases empty

/-- An operation started while serving is the only one and works for the header. -/
theorem serving_starts {hs : List Pchd} {h : Pchd} {w : World σ} (serving : Serving hs h w)
    {e : Event} (work : e.Work false) {handler : Handler} (read : handler ≠ .readHeader)
    (write : handler ≠ .taskEnd true) : Settled ((w.logged e).started handler) := by
  obtain ⟨tidy, idle, ticket⟩ := serving
  have logged := tidy.worked idle (Extends.logged w (notBusy idle ▸ work))
  refine .inr ⟨hs, h, logged.congr rfl rfl rfl rfl rfl, .inr ⟨handler, ?_, read, write⟩⟩
  simp [World.started, World.logged, idle, ticket]

theorem written_settles (hs : List Pchd) (h : Pchd) (bytes : List Byte) :
    Holds (Serving (σ := σ) hs h) (asyncWrite bytes false) (fun _ => Settled) FairStop :=
  fun _ serving => serving_starts serving (e := .wrote bytes) (calm_work _ _ trivial) (by simp) (by simp)

/-- With no header in work the next one is read. -/
theorem idle_reads (lib : External σ) (te : ErrorCode → M σ Unit) (hs : List Pchd) (err : ErrorCode) :
    Holds (Idle hs) (sessionTask lib te err) (fun _ => Settled) FairStop := by
  refine .ite (fun _ => ?_) fun _ => .bind get_holds fun v => ?_
  · exact ((idle_keeps hs).works (errorHandle_works err)).conseq (fun _ => id)
      (fun _ _ idle => idle.settled) fun _ _ => id
  · rintro w ⟨rfl, tidy, idle⟩
    have empty : w.self.pc.hQue = [] := tidy.queue
    rw [if_pos empty]
    have logged := tidy.worked idle
      (Extends.logged w (read_work _ .header Pchd.size w.self.pc.iData.length))
    refine .inl ⟨hs, logged.congr rfl rfl rfl rfl rfl, .inr ⟨w.ticket, ?_⟩⟩
    simp [World.started, World.logged, idle]

/-- The end of its task takes the header in work off the queue. -/
theorem pop_serving (hs : List Pchd) (h : Pchd) :
    Holds (Serving (σ := σ) hs h) pop (fun _ => Idle (hs ++ [h])) FairStop := by
  refine .bind get_holds fun v => ?_
  rintro w ⟨rfl, tidy, idle, ticket⟩
  have queue : w.self.pc.hQue = [h] := tidy.queue
  rw [queue]
  refine ⟨⟨tidy.running, ?_, ?_, ?_, ?_, ?_⟩, idle⟩
  · simp only [World.pop, headerEvents, List.filter_append]
    show headerEvents w.log ++ [.pop w.popped w.ticket] = _
    rw [tidy.headers, tidy.popped, ticket, served_append]
    simp [inWork]
  · simpa [World.pop] using tidy.source
  · simp [World.pop, tidy.popped]
  · simp [World.pop, tidy.pushed]
  · simp [World.pop, queue]

theorem taskEnd_serving (lib : External σ) (hs : List Pchd) (h : Pchd) (err : ErrorCode) :
    Holds (Serving hs h) (taskEnd lib err) (fun _ => Settled) FairStop := by
  refine .bind get_holds fun v => ?_
  rintro w ⟨rfl, serving⟩
  have one : w.self.pc.hQue.length = 1 := by rw [serving.1.queue]; rfl
  rw [one]
  have ended : Holds (Serving hs h) (taskEndWithin lib 1 err) (fun _ => Settled) FairStop := by
    refine .bind (pop_serving hs h) fun _ => .bind (Q := fun _ => Idle (hs ++ [h])) ?_ fun _ =>
      idle_reads lib _ _ err
    exact (idle_keeps _).works (touchSource_works (fun b => calm_work b _ rfl) _)
  exact ended w serving

/-! ## A header arrives -/

theorem front_serving (hs : List Pchd) (h : Pchd) :
    Holds (Serving (σ := σ) hs h) front (fun got w => got = h ∧ Serving hs h w) FairStop := by
  refine (front_holds serving_notEmpty).conseq (fun _ => id) ?_ fun _ _ => id
  rintro got w ⟨serving, head⟩
  rw [serving.1.queue] at head
  exact ⟨(Option.some.inj head).symm, serving⟩

theorem command_serving (lib : External σ) {hs : List Pchd} {h : Pchd} (command_ : isCommand h)
    (other : h.commanded ≠ some .getMsg) (err : ErrorCode) :
    Holds (Serving hs h) (command lib (taskEnd lib) err) (fun _ => Settled) FairStop := by
  have keeps := serving_keeps (σ := σ) hs h
  refine .bind (front_serving hs h) fun got => .assume fun same => ?_
  subst same
  refine .bind (keeps.works (checkManagerAt_works _)) fun _ => ?_
  cases known : ECommand.ofCode got.comd with
  | none => exact .pure fun _ serving => serving.settled (by simp [Pchd.Known, command_, known])
  | some c =>
      have start : c ≠ .getMsg := by
        rintro rfl
        exact other (by rw [Pchd.commanded, if_pos command_, known])
      exact commandHandler_holds lib keeps calm_work serving_notEmpty
        (fun rows => keeps.works (emit_works fun b => ⟨rfl, by simp⟩)) (fun is => absurd is start)
        (written_settles hs got) (taskEnd_serving lib hs got)

theorem action_serving {hs : List Pchd} {h : Pchd} (action_ : ¬ isCommand h) :
    Holds (Serving (σ := σ) hs h) action (fun _ => Settled) FairStop := by
  refine .bind (front_serving hs h) fun got => .assume fun same => ?_
  subst same
  cases known : EAction.ofCode got.comd with
  | none => exact .pure fun _ serving => serving.settled (by simp [Pchd.Known, action_, known])
  | some a =>
      exact fun _ serving => serving_starts serving (read_work _ _ _ _) (by simp) (by simp)

/-- A header that was pushed on an empty queue is the one in front. -/
theorem push_serving {hs : List Pchd} {w : World σ} (idle : Idle hs w) (h : Pchd) :
    Serving hs h ((w.push h).dispatched h) := by
  obtain ⟨tidy, idle⟩ := idle
  have queue : w.self.pc.hQue = [] := tidy.queue
  refine ⟨⟨tidy.running, ?_, ?_, ?_, ?_, ?_⟩, idle, tidy.popped⟩
  · simp only [World.push, World.dispatched, headerEvents, List.filter_append]
    show headerEvents w.log ++ [.push w.pushed h] ++ [.dispatch w.popped h] = _
    rw [tidy.headers, tidy.popped, tidy.pushed]
    simp [inWork]
  · simpa [World.push, World.dispatched] using tidy.source
  · exact tidy.popped
  · simp [World.push, World.dispatched, tidy.pushed]
  · simp [World.push, World.dispatched, queue]

theorem readHandle_taken (lib : External σ) {hs : List Pchd} {h : Pchd}
    (other : h.commanded ≠ some .getMsg) (err : ErrorCode) {w : World σ} (idle : Idle hs w) :
    Holds (· = w.push h) (readHandle lib (taskEnd lib) err) (fun _ => Settled) FairStop := by
  have front_ : (front : M σ Pchd) (w.push h) = .ok h (w.push h) := by
    have queue : (w.push h).self.pc.hQue = [h] := by simp [World.push, idle.1.queue]
    simp [M.front, bind_apply, queue]
  rintro v rfl
  rw [readHandle, bind_apply, front_]
  have served : Holds (Serving hs h) (if isCommand h then command lib (taskEnd lib) err else action)
      (fun _ => Settled) FairStop :=
    .ite (fun c => command_serving lib c other err) action_serving
  exact served _ (push_serving idle h)

/-- A header read that succeeds, `h` being what stands in the bytes read. -/
theorem readHeaderHandle_idle (lib : External σ) {hs : List Pchd} {h : Pchd}
    (other : h.Accepted → h.commanded ≠ some .getMsg) (ret : Bool) {w : World σ} (idle : Idle hs w)
    (header : Pchd.ofBytes w.self.pc.iData = h) :
    Holds (· = w) (readHeaderHandle lib none ret) (fun _ => Settled) FairStop := by
  have queue : w.self.pc.hQue = [] := idle.1.queue
  rintro v rfl
  by_cases accepted : h.Accepted
  · rw [readHeaderHandle_takes lib queue header accepted ret]
    exact readHandle_taken lib (other accepted) none idle _ rfl
  · rw [readHeaderHandle_refuses lib queue header accepted ret]
    exact idle_reads lib (taskEnd lib) hs none v idle

/-! ## Runs -/

/-- A completion is one without an error. -/
def Act.Smooth : Act σ → Prop
  | .complete c => c.err = none
  | .checkMailBox | .others _ _ => True

/-- The step brings no `GetMsg`. -/
def AvoidsGetMsg (w : World σ) (act : Act σ) : Prop :=
  ∀ h ∈ w.arriving act, h.Accepted → h.commanded ≠ some .getMsg

instance (w : World σ) (act : Act σ) : Decidable (AvoidsGetMsg w act) := by
  unfold AvoidsGetMsg
  infer_instance

/-- What every step keeps: a settled session, or one that stopped fairly. -/
def Sound (t : World σ) : Prop :=
  Settled t ∨ ∃ e w, FairStop e w ∧ t = { w with stopped := some e }

theorem Sound.disciplined {w : World σ} (sound : Sound w) : Disciplined w := by
  rcases sound with settled | ⟨e, v, ⟨other, ⟨hs, current, tidy⟩, short⟩, rfl⟩
  · obtain ⟨hs, current, tidy, works⟩ := settled.works
    exact ⟨by simp [tidy.running], ⟨hs, current, tidy.headers, fun _ => works⟩, settled.short, tidy.source⟩
  · exact ⟨by simpa using other, ⟨hs, current, tidy.headers, by simp⟩, short, tidy.source⟩

theorem Settled.exec {w : World σ} {P : World σ → Prop} {m : M σ Unit} (start : P w)
    (h : Holds P m (fun _ => Settled) FairStop) : Sound (w.exec m) :=
  exec_of_holds h start (fun _ => .inl) fun e t fair => .inr ⟨e, t, fair, rfl⟩

/-- A session that waits takes up the header that arrives, or waits for the next. -/
theorem waiting_step (lib : External σ) {w : World σ} {hs : List Pchd} {ticket : Nat}
    (tidy : Tidy w hs none) (pending : w.pending = [⟨.readHeader, ticket⟩]) {c : Completion}
    (smooth : c.err = none) (other : AvoidsGetMsg w (.complete c)) {op : Op} {got : List Byte}
    {socket : Socket} (found : w.pending[c.index]? = some op)
    (moved : transfer op c w.self.socket = some (got, socket)) :
    Sound ((w.completing c.index op socket).exec (complete lib op c.err got c.ret)) := by
  obtain ⟨index, err, n, ret⟩ := c
  cases smooth
  have first : index = 0 ∧ op = ⟨.readHeader, ticket⟩ := by
    rw [pending, List.getElem?_singleton] at found
    split at found
    · next zero => exact ⟨zero, (Option.some.inj found).symm⟩
    · cases found
  obtain ⟨rfl, rfl⟩ := first
  have bytes : got = w.self.socket.input.take Pchd.size := by
    simp only [transfer] at moved
    split at moved
    · cases moved
      rfl
    · cases moved
  have arrives : w.arriving (.complete ⟨0, none, n, ret⟩) =
      some (Pchd.ofBytes (w.self.receiveHeader got).pc.iData) := by
    simp [World.arriving, pending, bytes]
  let v := w.completing 0 ⟨.readHeader, ticket⟩ socket
  let u : World σ := { v with self := v.self.receiveHeader got }
  have idle : Idle hs u := by
    refine ⟨tidy.congr rfl rfl rfl rfl rfl, ?_⟩
    simp [u, v, World.completing, pending]
  have run := readHeaderHandle_idle lib (other _ arrives) ret idle rfl
  exact Settled.exec (P := (· = v)) rfl (.bind (Q := fun _ => (· = u))
    (by rintro _ rfl; rfl) fun _ => run)

/-- A session that works goes on with the header its operation was started for. -/
theorem working_step (lib : External σ) {w : World σ} {hs : List Pchd} {h : Pchd} {handler : Handler}
    (tidy : Tidy w hs (some h)) (pending : w.pending = [⟨handler, hs.length⟩])
    (read : handler ≠ .readHeader) {c : Completion} (smooth : c.err = none) {op : Op} {got : List Byte}
    {socket : Socket} (found : w.pending[c.index]? = some op) :
    Sound ((w.completing c.index op socket).exec (complete lib op c.err got c.ret)) := by
  have first : c.index = 0 ∧ op = ⟨handler, hs.length⟩ := by
    rw [pending, List.getElem?_singleton] at found
    split at found
    · next zero => exact ⟨zero, (Option.some.inj found).symm⟩
    · cases found
  obtain ⟨zero, rfl⟩ := first
  have keeps := serving_keeps (σ := σ) hs h
  have serving : Serving hs h (w.completing c.index ⟨handler, hs.length⟩ socket) := by
    refine ⟨tidy.congr rfl rfl rfl rfl rfl, ?_, rfl⟩
    simp [World.completing, pending, zero]
  refine Settled.exec serving ?_
  cases handler with
  | readHeader => exact absurd rfl read
  | action a =>
      refine .bind (Q := fun _ => Serving hs h) ?_ fun _ => ?_
      · exact fun t serving => ⟨serving.1.congr rfl rfl rfl rfl rfl, serving.2⟩
      · exact actionHandler_holds lib keeps calm_work read_work
          (fun broken => absurd smooth broken)
          (fun _ _ _ _ serving => serving_starts serving (read_work _ _ _ _) (by simp) (by simp))
          (taskEnd_serving lib hs h)
  | login idpw idSize pwSize =>
      exact responseReqLogin_holds lib keeps (fun b _ => calm_work b _ trivial)
        (fun b _ => calm_work b _ trivial) (fun b _ => calm_work b _ trivial) (fun broken => absurd smooth broken)
        serving_notEmpty (written_settles hs h)
  | taskEnd source => exact taskEnd_serving lib hs h c.err

theorem settled_step (lib : External σ) {w t : World σ} {act : Act σ} (smooth : act.Smooth)
    (other : AvoidsGetMsg w act) (sound : Sound w) (step : next lib w act = some t) : Sound t := by
  obtain ⟨running, what⟩ := next_eq_some step
  rcases sound with settled | ⟨e, v, -, rfl⟩
  swap
  · cases running
  have apart : Keeps (σ := σ) (fun _ _ => False) Settled FairStop := by
    refine ⟨fun {w t} settled step => ?_, fun other settled => ⟨other, settled.tidy, settled.short⟩⟩
    rcases settled with ⟨hs, tidy, pending⟩ | ⟨hs, h, tidy, pending⟩
    · exact .inl ⟨hs, tidy.extended step (by simp), step.pending ▸ pending⟩
    · exact .inr ⟨hs, h, tidy.extended step (by simp), step.pending ▸ pending⟩
  cases act with
  | complete c =>
      obtain ⟨op, got, socket, found, moved, rfl⟩ := what
      rcases settled with ⟨hs, tidy, empty | ⟨ticket, one⟩⟩ |
        ⟨hs, h, tidy, ⟨empty, -⟩ | ⟨handler, one, read, -⟩⟩
      · simp [empty] at found
      · exact waiting_step lib tidy one smooth other found moved
      · simp [empty] at found
      · exact working_step lib tidy one read smooth found
  | checkMailBox =>
      rw [show t = w.exec checkMailBox from what]
      exact Settled.exec settled (apart.works checkMailBox_works)
  | others db nmap =>
      rw [show t = { w with db := db, nmap := nmap } from what]
      exact .inl (apart.extended settled (Extends.silent rfl rfl rfl rfl rfl rfl rfl id rfl))

/-- The session waits for a header and has taken none up yet. -/
def Ready (w : World σ) : Prop :=
  Tidy w [] none ∧ ∃ ticket, w.pending = [⟨.readHeader, ticket⟩]

/-- A new session is ready, whatever its constructor leaves unset. -/
theorem accepted_ready (lib : External σ) {s : Session} (new : s.New) (db : σ) (nmap : NMap) :
    Ready (World.accepted lib s db nmap) := by
  obtain ⟨socket, initialized, renewed, iData, hBuf, source, rfl⟩ := new
  refine ⟨⟨rfl, rfl, ?_, rfl, rfl, rfl⟩, 0, rfl⟩
  show Event.source true ∉ [Event.read .header _ _]
  simp

/-- The discipline is kept in every run whose operations complete without error and
    that brings no `GetMsg`, whatever else the client sends and in whatever order the
    operations complete. -/
theorem disciplined_without_getMsg {lib : External σ} {w t : World σ} {acts : List (Act σ)}
    (ready : Ready w) (smooth : ∀ act ∈ acts, act.Smooth)
    (avoids : Runs.Each (next lib) AvoidsGetMsg w acts) (run : Runs.after (next lib) w acts = some t) :
    Disciplined t := by
  have sound : Sound w := .inl (.inl ⟨[], ready.1, .inr ready.2⟩)
  have kept : Sound t := Runs.invariant
    (fun _ _ _ sound meets step => settled_step lib meets.1 meets.2 sound step) sound
    (avoids.allowed smooth) run
  exact kept.disciplined

theorem annWaits_ready (input : List Byte) (rows : List (Str × List Row)) :
    Ready (annWaits input rows) :=
  ⟨⟨rfl, rfl, by simp [annWaits], rfl, rfl, rfl⟩, 0, rfl⟩

theorem disciplined_getIvt :
    ∃ t, Runs.after (next memoryServer) (annWaits (request 1 ECommand.getIvt.code) []) [.first, .first] =
        some t ∧ Disciplined t := by
  obtain ⟨t, run⟩ := Option.isSome_iff_exists.mp
    (show (Runs.after (next memoryServer) (annWaits (request 1 ECommand.getIvt.code) [])
      [.first, .first]).isSome by decide +kernel)
  exact ⟨t, run, disciplined_without_getMsg (annWaits_ready _ _) (by simp [Act.first, Act.Smooth])
    (by decide +kernel) run⟩

/-- Ann asks for her messages: the task ends before the entries are sent, and once more
    when they are, on an empty queue. -/
theorem getMsg_breaks_discipline :
    ¬ ∀ (w t : World Memory) (acts : List (Act Memory)), Ready w → (∀ act ∈ acts, act.Smooth) →
      Runs.after (next memoryServer) w acts = some t → Disciplined t := by
  intro disciplined
  have stopped : (Runs.after (next memoryServer) (annWaits (request 1 ECommand.getMsg.code) [])
      [.first, .first]).any fun t => t.stopped = some .emptyQueue := by
    decide +kernel
  obtain ⟨t, run, empty⟩ := (Option.any_eq_true _ _).mp stopped
  have kept := disciplined _ t _ (annWaits_ready _ _) (by simp [Act.first, Act.Smooth]) run
  exact kept.queue (by simpa using empty)

end NineProject
