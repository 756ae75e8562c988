import NineProject.Session.Rules

/-! # One header at a time

A header is only pushed on an empty queue, and the next header is only read once
the queue is empty again. So whatever the order of completions, what is queued and
what is still being read make one header at most, a completed header read finds an
empty queue, and `task_end` never finds another header to handle. An invariant of
a session is carried through its steps on that ground.
-/

namespace NineProject

open Bytes M Effect

variable {σ : Type} {A : Bool → Event → Prop} {I : World σ → Prop}

/-- The header reads that are outstanding. -/
def World.headerReads (w : World σ) : Nat := w.pending.countP fun op => op.handler = .readHeader

/-- At most one header is queued or being read. -/
def Lone (I : World σ → Prop) (w : World σ) : Prop :=
  w.headerReads + w.self.pc.hQue.length ≤ 1 ∧ I w

/-- None is. -/
def Clear (I : World σ → Prop) (w : World σ) : Prop :=
  w.headerReads = 0 ∧ w.self.pc.hQue = [] ∧ I w

/-- This one is queued. -/
def Taken (I : World σ → Prop) (h : Pchd) (w : World σ) : Prop :=
  w.headerReads = 0 ∧ w.self.pc.hQue = [h] ∧ I w

theorem Clear.lone {w : World σ} (clear : Clear I w) : Lone I w :=
  ⟨by simp [clear.1, clear.2.1], clear.2.2⟩

theorem Taken.lone {h : Pchd} {w : World σ} (taken : Taken I h w) : Lone I w :=
  ⟨by simp [taken.1, taken.2.1], taken.2.2⟩

@[simp] theorem headerReads_started (w : World σ) (handler : Handler) :
    (w.started handler).headerReads = w.headerReads + if handler = .readHeader then 1 else 0 := by
  simp [World.headerReads, World.started, List.countP_append, List.countP_singleton]

/-- Steps that leave the queue and the operations alone. -/
theorem lone_keeps (extended : ∀ {w t}, I w → Extends A w t → I t) :
    Keeps A (Lone I) fun _ => Lone I where
  extended := fun ⟨one, i⟩ step =>
    ⟨by simpa only [World.headerReads, step.pending, step.pc] using one, extended i step⟩
  stop := fun _ => id

theorem clear_keeps (extended : ∀ {w t}, I w → Extends A w t → I t) :
    Keeps A (Clear I) fun _ => Lone I where
  extended := fun ⟨none_, empty, i⟩ step =>
    ⟨by simpa only [World.headerReads, step.pending] using none_, by rw [step.pc, empty],
      extended i step⟩
  stop := fun _ => Clear.lone

theorem front_taken (h : Pchd) {E : Stop → World σ → Prop} :
    Holds (Taken I h) front (fun got w => got = h ∧ Taken I h w) E := by
  intro w taken
  have run : (front : M σ Pchd) w = .ok h w := by simp [M.front, bind_apply, taken.2.1]
  rw [run]
  exact ⟨rfl, taken⟩

/-- An operation other than a header read is started. -/
theorem Lone.starts {w : World σ} (lone : Lone I w) {e : Event} {handler : Handler}
    (other : handler ≠ .readHeader) (i : I ((w.logged e).started handler)) :
    Lone I ((w.logged e).started handler) := by
  refine ⟨?_, i⟩
  rw [headerReads_started, if_neg other]
  exact lone.1

theorem countP_eraseIdx {α : Type} {p : α → Bool} {l : List α} {i : Nat} {a : α}
    (found : l[i]? = some a) : (l.eraseIdx i).countP p + (if p a then 1 else 0) = l.countP p := by
  induction l generalizing i with
  | nil => simp at found
  | cons b l ih =>
      cases i with
      | zero =>
          cases found
          simp [List.countP_cons]
      | succ i =>
          have rest := ih (by simpa using found)
          simp only [List.eraseIdx_cons_succ, List.countP_cons]
          omega

/-- `v` is `w` with the header `h` taken up. -/
structure Takes (w : World σ) (h : Pchd) (v : World σ) : Prop where
  db : v.db = w.db
  userName : v.self.userName = w.self.userName
  checkManager : v.self.checkManager = w.self.checkManager
  log : v.log = w.log ++ [.push w.pushed h]

/-! ## The turns of a session -/

/-- What `I` has to survive besides the handlers. -/
structure Turns (A : Bool → Event → Prop) (I : World σ → Prop) : Prop where
  extended : ∀ {w t}, I w → Extends A w t → I t
  source : ∀ b, A b (.source b)
  completing : ∀ {w index op socket}, I w → I (w.completing index op socket)
  received : ∀ {w got}, I w → I { w with self := w.self.receiveHeader got }
  pushed : ∀ {w h}, I w → I (w.push h)
  popped : ∀ {w}, I w → I w.pop
  header : ∀ {w}, I w →
    I ((w.logged (.read .header Pchd.size w.self.pc.iData.length)).started .readHeader)
  stopped : ∀ {w e}, I w → I { w with stopped := some e }

namespace Turns

variable (lib : External σ) {te : ErrorCode → M σ Unit}

/-- With no header queued the next one is read. -/
theorem sessionTask (turns : Turns A I) (err : ErrorCode) :
    Holds (Clear I) (sessionTask lib te err) (fun _ => Lone I) fun _ => Lone I := by
  have keeps := clear_keeps turns.extended
  refine .ite (fun _ => ?_) fun _ => .bind get_holds fun v => ?_
  · exact (keeps.works (errorHandle_works err)).conseq (fun _ => id) (fun _ _ => Clear.lone)
      fun _ _ => id
  · rintro w ⟨rfl, none_, empty, i⟩
    rw [if_pos empty]
    refine ⟨?_, turns.header i⟩
    rw [headerReads_started, if_pos rfl]
    show w.headerReads + 1 + w.self.pc.hQue.length ≤ 1
    simp [none_, empty]

theorem pop (turns : Turns A I) :
    Holds (Lone I) M.pop (fun _ => Clear I) fun _ => Lone I := by
  refine .bind get_holds fun v => ?_
  rintro w ⟨rfl, one, i⟩
  cases queue : w.self.pc.hQue with
  | nil => exact ⟨one, i⟩
  | cons h rest =>
      rw [queue, List.length_cons] at one
      have last : rest = [] := List.length_eq_zero_iff.mp (by omega)
      refine ⟨?_, ?_, turns.popped i⟩
      · show w.headerReads = 0
        omega
      · simp [World.pop, queue, last]

theorem taskEnd (turns : Turns A I) (err : ErrorCode) :
    Holds (Lone I) (taskEnd lib err) (fun _ => Lone I) fun _ => Lone I := by
  refine .bind get_holds fun v => ?_
  rintro w ⟨rfl, lone⟩
  have ended : ∀ n, Holds (Lone I) (taskEndWithin lib n err) (fun _ => Lone I) fun _ => Lone I := by
    rintro (_ | n)
    · exact .throw fun _ => id
    · refine .bind turns.pop fun _ => .bind (Q := fun _ => Clear I) ?_ fun _ =>
        turns.sessionTask lib err
      exact (clear_keeps turns.extended).works (touchSource_works turns.source _)
  exact ended _ w lone

/-- A header read that succeeds leaves `h` to be handled, or the next header to be
    read; one that fails finds no header. -/
theorem readHeaderHandle (turns : Turns A I) {err : ErrorCode} {h : Pchd} (ret : Bool) {w : World σ}
    (handle : err = none → h.Accepted → Holds (· = w.push h)
      (readHandle lib (NineProject.taskEnd lib) err) (fun _ => Lone I) fun _ => Lone I)
    (clear : Clear I w) (header : Pchd.ofBytes w.self.pc.iData = h) :
    Holds (· = w) (readHeaderHandle lib err ret) (fun _ => Lone I) fun _ => Lone I := by
  cases err with
  | some f =>
      have keeps := clear_keeps (A := A) turns.extended
      refine .bind (Q := fun _ => Clear I) ?_ fun _ => .bind (Q := fun _ => Clear I) ?_ fun accepted =>
        .ite (fun _ => ?_) fun _ => turns.sessionTask lib _
      · exact (keeps.works (when_works (errorHandle_works _))).conseq (fun _ same => same ▸ clear)
          (fun _ _ => id) fun _ _ => id
      · exact .pure fun _ => id
      · intro w clear
        have stuck : readHandle lib (NineProject.taskEnd lib) (some f) w = .error .emptyQueue w := by
          simp [readHandle, M.front, bind_apply, clear.2.1]
        rw [stuck]
        exact clear.lone
  | none =>
      obtain ⟨none_, empty, i⟩ := clear
      rintro v rfl
      by_cases accepted : h.Accepted
      · rw [readHeaderHandle_takes lib empty header accepted ret]
        exact handle rfl accepted _ rfl
      · rw [readHeaderHandle_refuses lib empty header accepted ret]
        exact turns.sessionTask lib none v ⟨none_, empty, i⟩

/-! ## Steps -/

/-- The world in which the handler of a completed operation starts. -/
theorem completing_lone (turns : Turns A I) {w : World σ} {c : Completion} {op : Op}
    (lone : Lone I w) (found : w.pending[c.index]? = some op) (socket : Socket) :
    if op.handler = .readHeader then Clear I (w.completing c.index op socket)
    else Lone I (w.completing c.index op socket) := by
  have left := countP_eraseIdx (p := fun op => op.handler = .readHeader) found
  obtain ⟨one, i⟩ := lone
  have i : I (w.completing c.index op socket) := turns.completing i
  simp only [World.headerReads, decide_eq_true_eq] at one left
  have queue : (w.completing c.index op socket).self.pc.hQue = w.self.pc.hQue := rfl
  split
  · next header =>
      rw [if_pos header] at left
      refine ⟨?_, List.length_eq_zero_iff.mp ?_, i⟩
      · simp only [World.headerReads, World.completing]
        omega
      · rw [queue]
        omega
  · next other =>
      rw [if_neg other] at left
      refine ⟨?_, i⟩
      rw [queue]
      simp only [World.headerReads, World.completing]
      omega

/-- A completed header read, if the header that arrives is handled well. -/
theorem headerRead (turns : Turns A I) {w : World σ} {c : Completion} {ticket : Nat} {got : List Byte}
    {socket : Socket} (lone : Lone I w) (found : w.pending[c.index]? = some ⟨.readHeader, ticket⟩)
    (moved : transfer ⟨.readHeader, ticket⟩ c w.self.socket = some (got, socket))
    (handle : ∀ h ∈ w.arriving (.complete c), h.Accepted →
      Holds (fun v => Taken I h v ∧ Takes w h v) (readHandle lib (NineProject.taskEnd lib) none)
        (fun _ => Lone I) fun _ => Lone I) :
    Holds (· = w.completing c.index ⟨.readHeader, ticket⟩ socket)
      (complete lib ⟨.readHeader, ticket⟩ c.err got c.ret) (fun _ => Lone I) fun _ => Lone I := by
  have started := turns.completing_lone lone found socket
  rw [if_pos rfl] at started
  let u := w.completing c.index ⟨.readHeader, ticket⟩ socket
  let v : World σ := { u with self := u.self.receiveHeader got }
  have clear : Clear I v := ⟨started.1, started.2.1, turns.received started.2.2⟩
  refine .bind (Q := fun _ => (· = v)) (by rintro _ rfl; rfl) fun _ => ?_
  refine turns.readHeaderHandle lib c.ret (fun smooth accepted => ?_) clear rfl
  obtain ⟨index, err, n, ret⟩ := c
  cases smooth
  have bytes : got = w.self.socket.input.take Pchd.size := by
    simp only [transfer] at moved
    split at moved
    · cases moved
      rfl
    · cases moved
  have arrives : w.arriving (.complete ⟨index, none, n, ret⟩) =
      some (Pchd.ofBytes (w.self.receiveHeader got).pc.iData) := by
    simp [World.arriving, found, bytes]
  refine (handle _ arrives accepted).conseq ?_ (fun _ _ => id) fun _ _ => id
  rintro _ rfl
  exact ⟨⟨clear.1, by simp [World.push, clear.2.1]; rfl, turns.pushed clear.2.2⟩, rfl, rfl, rfl, rfl⟩

/-- A step keeps the invariant if the handlers of completed operations do. -/
theorem step (turns : Turns A I) {w t : World σ} {act : Act σ} (lone : Lone I w)
    (happens : next lib w act = some t)
    (completed : ∀ c op got socket, act = .complete c → w.pending[c.index]? = some op →
      transfer op c w.self.socket = some (got, socket) →
      Holds (· = w.completing c.index op socket) (complete lib op c.err got c.ret)
        (fun _ => Lone I) fun _ => Lone I) : Lone I t :=
  step_kept lone happens
    (fun lone step => (lone_keeps turns.extended).extended lone (step.mono fun _ _ => False.elim))
    (fun ⟨one, i⟩ => ⟨one, turns.stopped i⟩) completed

end Turns

/-! ## Reachable states -/

/-- A state in a run of a new session. -/
def World.Reachable (lib : External σ) (w : World σ) : Prop :=
  ∃ (s : Session) (db : σ) (nmap : NMap) (acts : List (Act σ)), s.New ∧
    Runs.after (next lib) (World.accepted lib s db nmap) acts = some w

theorem any_turns : Turns (fun _ _ => True) fun _ : World σ => True where
  extended := fun _ _ => trivial
  source := fun _ => trivial
  completing := id
  received := id
  pushed := id
  popped := id
  header := id
  stopped := id

/-- At most one header is queued or being read. -/
abbrev Single (w : World σ) : Prop := Lone (fun _ => True) w

theorem single_keeps : Keeps (fun _ _ => True) (Single (σ := σ)) fun _ => Single :=
  lone_keeps any_turns.extended

theorem Single.starts {w : World σ} (single : Single w) {e : Event} {handler : Handler}
    (other : handler ≠ .readHeader) : Single ((w.logged e).started handler) :=
  Lone.starts single other trivial

theorem single_readHandle (lib : External σ) (h : Pchd) (err : ErrorCode) :
    Holds (Taken (fun _ => True) h) (readHandle lib (taskEnd lib) err) (fun _ => Single (σ := σ))
      fun _ => Single := by
  refine .bind (front_taken h) fun got => .assume fun _ => ?_
  refine .bind (Q := fun _ => Single) (fun w taken => Taken.lone taken) fun _ => .ite (fun _ => ?_) fun _ => ?_
  · refine .bind (Q := fun _ => Single)
      ((front_holds fun _ single _ => single).conseq (fun _ => id) (fun _ _ => And.left) fun _ _ => id)
      fun got => .bind (single_keeps.works (checkManagerAt_works _)) fun _ => ?_
    cases ECommand.ofCode got.comd with
    | none => exact .pure fun _ => id
    | some c =>
        exact commandHandler_holds lib single_keeps (fun _ _ _ => trivial) (fun _ single _ => single)
          (fun rows => single_keeps.works (emit_works fun _ => trivial))
          (fun _ _ _ single => single.starts (by simp)) (fun _ _ single => single.starts (by simp))
          (any_turns.taskEnd lib)
  · refine .bind (Q := fun _ => Single)
      ((front_holds fun _ single _ => single).conseq (fun _ => id) (fun _ _ => And.left) fun _ _ => id)
      fun got => ?_
    cases EAction.ofCode got.comd with
    | none => exact .pure fun _ => id
    | some a => exact fun _ single => single.starts (by simp)

theorem single_step (lib : External σ) {w t : World σ} {act : Act σ} (single : Single w)
    (happens : next lib w act = some t) : Single t := by
  have turns := any_turns (σ := σ)
  refine turns.step lib single happens ?_
  rintro c op got socket rfl found moved
  have started := turns.completing_lone single found socket
  obtain ⟨handler, ticket⟩ := op
  cases handler with
  | readHeader =>
      exact turns.headerRead lib single found moved fun h _ _ =>
        (single_readHandle lib h none).conseq (fun _ => And.left) (fun _ _ => id) fun _ _ => id
  | action a =>
      refine .bind (Q := fun _ => Single) (by rintro _ rfl; exact started) fun _ => ?_
      exact actionHandler_holds lib single_keeps (fun _ _ _ => trivial) (fun _ _ _ _ => trivial)
        (fun _ _ => id) (fun _ _ _ _ single => single.starts (by simp)) (turns.taskEnd lib)
  | login idpw idSize pwSize =>
      have run : Holds Single (responseReqLogin lib c.err (idpw.receive got) idSize pwSize)
          (fun _ => Single) fun _ => Single :=
        responseReqLogin_holds lib single_keeps (fun _ _ => trivial) (fun _ _ => trivial)
          (fun _ _ => trivial) (fun _ _ => id) (fun _ single _ => single)
          fun _ _ single => single.starts (by simp)
      exact run.conseq (by rintro _ rfl; exact started) (fun _ _ => id) fun _ _ => id
  | taskEnd source =>
      exact (turns.taskEnd lib c.err).conseq (by rintro _ rfl; exact started) (fun _ _ => id) fun _ _ => id

theorem accepted_single (lib : External σ) {s : Session} (new : s.New) (db : σ) (nmap : NMap) :
    Single (World.accepted lib s db nmap) := by
  obtain ⟨socket, initialized, renewed, iData, hBuf, source, rfl⟩ := new
  exact ⟨le_refl 1, trivial⟩

theorem World.Reachable.single {lib : External σ} {w : World σ} (reachable : w.Reachable lib) :
    Single w := by
  obtain ⟨s, db, nmap, acts, new, run⟩ := reachable
  exact Runs.invariant (fun _ _ _ single _ => single_step lib single) (accepted_single lib new db nmap)
    (.trivial _ _ _) run

/-- A header read completes on an empty queue. -/
theorem World.Reachable.empty {lib : External σ} {w : World σ} (reachable : w.Reachable lib)
    {i ticket : Nat} (found : w.pending[i]? = some ⟨.readHeader, ticket⟩) : w.self.pc.hQue = [] := by
  have left := countP_eraseIdx (p := fun op : Op => op.handler = .readHeader) found
  have one := reachable.single.1
  simp only [World.headerReads] at one
  simp only [decide_true, if_true] at left
  exact List.length_eq_zero_iff.mp (by omega)

/-- A new client logs in as Ann and has more to send. -/
def annArrives (input : List Byte) : Option (World Sql.Memory) :=
  Runs.after (next memoryServer)
    (World.accepted memoryServer (client (annLogin ++ input)) (annDb []) NMap.empty)
    (List.replicate 4 .first)

theorem annArrives_reachable (input : List Byte) {P : World Sql.Memory → Prop} [DecidablePred P]
    (there : (annArrives input).any fun w => P w) : ∃ w, World.Reachable memoryServer w ∧ P w := by
  obtain ⟨w, run, holds⟩ := (Option.any_eq_true _ _).mp there
  exact ⟨w, ⟨_, _, _, _, client_new _, run⟩, of_decide_eq_true holds⟩

end NineProject
