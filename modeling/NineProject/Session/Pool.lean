import NineProject.Session.Queue

/-! # The sessions of a server

The server hands a session to `async_accept`, and one more each time an accept
completes: the session that was first to be given back, or a new one. A session
object is known by its number. What is atomic here is a whole handler, or a whole check
of a mail box.
-/

namespace NineProject

open Bytes M Effect

variable {σ : Type}

/-- The memory a new session is made in, where its constructor sets nothing. -/
structure Unset where
  initialized : Bool
  renewed : Bool
  iData : Vector Byte 1024
  hBuf : Vector Byte 32
  source : Vector Byte 1024

/-- `new session_no_ssl`, with its socket on no connection. -/
def Unset.session (u : Unset) : Session :=
  .accepted ⟨false, [], none, []⟩ u.initialized u.renewed u.iData u.hBuf u.source

/-- Memory of zeros. -/
def zeros : Unset :=
  ⟨false, false, Vector.replicate 1024 0, Vector.replicate 32 0, Vector.replicate 1024 0⟩

theorem Unset.session_new (u : Unset) : u.session.New := ⟨_, _, _, _, _, _, rfl⟩

structure Pool (σ : Type) where
  db : σ
  nmap : NMap
  /-- Every session object that was made. -/
  sessions : List (World σ)
  /-- Handed to `async_accept`, which has not completed. -/
  accepting : List Nat
  /-- Each `run` that was posted, with the error of the accept. -/
  posted : List (Nat × ErrorCode)
  sessionPool : List Nat
  reusablePool : List Nat
  /-- Each session as it was when it was handed to `async_accept`. -/
  handed : List Session

inductive PoolAct (σ : Type) where
  /-- An accept completes with a connection or an error. -/
  | handleAccept (i : Nat) (accepted : Except Failure Socket) (memory : Unset)
  | run (n : Nat)
  | session (i : Nat) (act : Act σ)
  /-- With an iterator to this position of `sessionPool_`. -/
  | notifyAbortConnection (n : Nat)

namespace Pool

/-- A session with what it shares with the others. -/
def world (p : Pool σ) (i : Nat) : Option (World σ) :=
  (p.sessions[i]?).map fun w => { w with db := p.db, nmap := p.nmap }

/-- What a session leaves for the others. -/
def leave (p : Pool σ) (i : Nat) (w : World σ) : Pool σ :=
  { p with db := w.db, nmap := w.nmap, sessions := p.sessions.set i w }

def serverRun (p : Pool σ) (memory : Unset) : Pool σ :=
  match p.reusablePool with
  | i :: rest =>
      { p with reusablePool := rest,
               accepting := p.accepting ++ [i],
               handed := p.handed ++ ((p.sessions[i]?).map World.self).toList }
  | [] =>
      { p with sessions := p.sessions ++ [⟨memory.session, p.db, p.nmap, [], 0, 0, 0, [], none⟩],
               accepting := p.accepting ++ [p.sessions.length],
               handed := p.handed ++ [memory.session] }

/-- `handle_accept` as far as it does not call `server_run`. -/
def handleAccept (p : Pool σ) (i : Nat) (accepted : Except Failure Socket) : Pool σ :=
  let p := { p with accepting := p.accepting.erase i, sessionPool := p.sessionPool ++ [i] }
  match accepted with
  | .error err => { p with posted := p.posted ++ [(i, some err)] }
  | .ok socket =>
      { p with posted := p.posted ++ [(i, none)],
               sessions := p.sessions.modify i fun w => { w with self := { w.self with socket := socket } } }

def notifyAbortConnection (p : Pool σ) (n i : Nat) : Pool σ :=
  { p with reusablePool := p.reusablePool ++ [i], sessionPool := p.sessionPool.eraseIdx n }

/-- `run`; a session that stopped makes no step. -/
def run (lib : External σ) (p : Pool σ) (i : Nat) : ErrorCode → Option (Pool σ)
  | some _ => some p
  | none => (p.world i).bind fun w =>
      if w.stopped.isSome then none
      else some (p.leave i (w.exec (sessionTask lib (taskEnd lib) none)))

def next (lib : External σ) (p : Pool σ) : PoolAct σ → Option (Pool σ)
  | .handleAccept i accepted memory =>
      if i ∈ p.accepting then some ((p.handleAccept i accepted).serverRun memory) else none
  | .run n => (p.posted[n]?).bind fun post =>
      { p with posted := p.posted.eraseIdx n }.run lib post.1 post.2
  | .session i act => (p.world i).bind fun w => (NineProject.next lib w act).map (p.leave i)
  | .notifyAbortConnection n => (p.sessionPool[n]?).map (p.notifyAbortConnection n)

section
variable {lib : External σ} {p q : Pool σ} {i n : Nat}

theorem handleAccept_cases {accepted : Except Failure Socket} {memory : Unset}
    (step : p.next lib (.handleAccept i accepted memory) = some q) :
    i ∈ p.accepting ∧ q = (p.handleAccept i accepted).serverRun memory := by
  simp only [next] at step
  split at step
  · next waiting =>
      cases step
      exact ⟨waiting, rfl⟩
  · cases step

/-- A posted `run` comes with the error of its accept and does nothing, or without one and
    starts a session that has not stopped. -/
theorem run_cases (step : p.next lib (.run n) = some q) :
    ∃ i, (∃ f, p.posted[n]? = some (i, some f) ∧ q = { p with posted := p.posted.eraseIdx n }) ∨
      p.posted[n]? = some (i, none) ∧ ∃ w, p.world i = some w ∧ w.stopped = none ∧
        q = leave { p with posted := p.posted.eraseIdx n } i (w.exec (sessionTask lib (taskEnd lib) none)) := by
  obtain ⟨⟨i, err⟩, posted, step⟩ := Option.bind_eq_some_iff.mp step
  refine ⟨i, ?_⟩
  cases err with
  | some f =>
      cases step
      exact .inl ⟨f, posted, rfl⟩
  | none =>
      obtain ⟨w, found, step⟩ := Option.bind_eq_some_iff.mp step
      split at step
      · cases step
      · next running =>
          cases step
          exact .inr ⟨posted, w, found, Option.not_isSome_iff_eq_none.mp running, rfl⟩

theorem session_cases {act : Act σ} (step : p.next lib (.session i act) = some q) :
    ∃ w t, p.world i = some w ∧ NineProject.next lib w act = some t ∧ q = p.leave i t := by
  obtain ⟨w, found, step⟩ := Option.bind_eq_some_iff.mp step
  obtain ⟨t, moved, rfl⟩ := Option.map_eq_some_iff.mp step
  exact ⟨w, t, found, moved, rfl⟩

theorem notifyAbortConnection_cases (step : p.next lib (.notifyAbortConnection n) = some q) :
    ∃ i, p.sessionPool[n]? = some i ∧ q = p.notifyAbortConnection n i := by
  obtain ⟨i, there, rfl⟩ := Option.map_eq_some_iff.mp step
  exact ⟨i, there, rfl⟩

end

/-- A server whose first session was handed to `async_accept`. -/
def start (db : σ) (memory : Unset) : Pool σ := serverRun ⟨db, .empty, [], [], [], [], [], []⟩ memory

/-! ## Where a session is -/

/-- Every session is in one place: waiting for its connection, in use, or given back. -/
def Partitioned (p : Pool σ) : Prop :=
  (p.accepting ++ p.sessionPool ++ p.reusablePool).Perm (List.range p.sessions.length)

theorem Partitioned.of_count {p q : Pool σ} (partitioned : p.Partitioned)
    (sessions : q.sessions.length = p.sessions.length)
    (count : ∀ i, q.accepting.count i + q.sessionPool.count i + q.reusablePool.count i =
      p.accepting.count i + p.sessionPool.count i + p.reusablePool.count i) : q.Partitioned := by
  rw [Partitioned, sessions]
  refine List.Perm.trans (List.perm_iff_count.mpr fun i => ?_) partitioned
  simp only [List.count_append]
  exact count i

theorem Partitioned.serverRun {p : Pool σ} (partitioned : p.Partitioned) (memory : Unset) :
    (p.serverRun memory).Partitioned := by
  unfold Pool.serverRun
  cases queue : p.reusablePool with
  | cons i rest =>
      refine partitioned.of_count rfl fun j => ?_
      simp only [List.count_append, queue, List.count_cons, List.count_nil]
      omega
  | nil =>
      have old : (p.accepting ++ p.sessionPool).Perm (List.range p.sessions.length) := by
        simpa [Partitioned, queue] using partitioned
      simp only [Partitioned, List.append_nil, List.length_append, List.length_singleton, List.range_succ]
      refine List.Perm.trans (List.perm_iff_count.mpr fun j => ?_) (old.append_right [p.sessions.length])
      simp only [List.count_append]
      omega

theorem Partitioned.handleAccept {p : Pool σ} (partitioned : p.Partitioned) {i : Nat}
    (waiting : i ∈ p.accepting) (accepted : Except Failure Socket) :
    (p.handleAccept i accepted).Partitioned := by
  have moved : ∀ j, (p.accepting.erase i).count j + (p.sessionPool ++ [i]).count j =
      p.accepting.count j + p.sessionPool.count j := fun j => by
    have split := (List.perm_cons_erase waiting).count_eq j
    simp only [List.count_append, List.count_cons, List.count_nil] at split ⊢
    omega
  cases accepted with
  | error err => exact partitioned.of_count rfl fun j => by simp only [Pool.handleAccept, moved]
  | ok socket =>
      exact partitioned.of_count (List.length_modify ..) fun j => by simp only [Pool.handleAccept, moved]

theorem Partitioned.notifyAbortConnection {p : Pool σ} (partitioned : p.Partitioned) {n i : Nat}
    (there : p.sessionPool[n]? = some i) : (p.notifyAbortConnection n i).Partitioned := by
  refine partitioned.of_count rfl fun j => ?_
  obtain ⟨inside, is⟩ := List.getElem?_eq_some_iff.mp there
  have split := (List.getElem_cons_eraseIdx_perm inside).count_eq j
  rw [is] at split
  simp only [Pool.notifyAbortConnection, List.count_append, List.count_cons, List.count_nil] at split ⊢
  omega

theorem Partitioned.leave {p : Pool σ} (partitioned : p.Partitioned) (i : Nat) (w : World σ) :
    (p.leave i w).Partitioned :=
  partitioned.of_count (List.length_set ..) fun _ => rfl

theorem Partitioned.next {lib : External σ} {p q : Pool σ} {act : PoolAct σ} (partitioned : p.Partitioned)
    (step : p.next lib act = some q) : q.Partitioned := by
  cases act with
  | handleAccept i accepted memory =>
      obtain ⟨waiting, rfl⟩ := handleAccept_cases step
      exact (partitioned.handleAccept waiting accepted).serverRun memory
  | run n =>
      have partitioned : Partitioned { p with posted := p.posted.eraseIdx n } := partitioned
      obtain ⟨i, ⟨f, -, rfl⟩ | ⟨-, w, -, -, rfl⟩⟩ := run_cases step
      · exact partitioned
      · exact partitioned.leave i _
  | session i act =>
      obtain ⟨w, t, -, -, rfl⟩ := session_cases step
      exact partitioned.leave i t
  | notifyAbortConnection n =>
      obtain ⟨i, there, rfl⟩ := notifyAbortConnection_cases step
      exact partitioned.notifyAbortConnection there

theorem start_partitioned (db : σ) (memory : Unset) : (start db memory).Partitioned := by
  have empty : Partitioned (⟨db, .empty, [], [], [], [], [], []⟩ : Pool σ) := List.Perm.refl []
  exact empty.serverRun memory

/-! ## The accept that is pending -/

/-- A step is the completion of an accept, or it leaves the accepts alone and makes no session. -/
theorem next_accepting {lib : External σ} {p q : Pool σ} {act : PoolAct σ} (step : p.next lib act = some q) :
    (∃ i accepted memory, i ∈ p.accepting ∧ q = (p.handleAccept i accepted).serverRun memory) ∨
      q.accepting = p.accepting ∧ q.sessions.length = p.sessions.length := by
  cases act with
  | handleAccept i accepted memory =>
      obtain ⟨waiting, rfl⟩ := handleAccept_cases step
      exact .inl ⟨i, accepted, memory, waiting, rfl⟩
  | run n =>
      obtain ⟨i, ⟨f, -, rfl⟩ | ⟨-, w, -, -, rfl⟩⟩ := run_cases step
      · exact .inr ⟨rfl, rfl⟩
      · exact .inr ⟨rfl, List.length_set ..⟩
  | session i act =>
      obtain ⟨w, t, -, -, rfl⟩ := session_cases step
      exact .inr ⟨rfl, List.length_set ..⟩
  | notifyAbortConnection n =>
      obtain ⟨i, -, rfl⟩ := notifyAbortConnection_cases step
      exact .inr ⟨rfl, rfl⟩

/-- What completes an accept reuses a session where there is one. -/
theorem handleAccept_accepting (p : Pool σ) (i : Nat) (accepted : Except Failure Socket) :
    (p.handleAccept i accepted).accepting = p.accepting.erase i ∧
      (p.handleAccept i accepted).reusablePool = p.reusablePool ∧
      (p.handleAccept i accepted).sessions.length = p.sessions.length := by
  cases accepted with
  | error err => exact ⟨rfl, rfl, rfl⟩
  | ok socket => exact ⟨rfl, rfl, List.length_modify ..⟩

theorem serverRun_accepting (p : Pool σ) (memory : Unset) :
    ∃ i, (p.serverRun memory).accepting = p.accepting ++ [i] := by
  unfold serverRun
  cases p.reusablePool with
  | cons i rest => exact ⟨i, rfl⟩
  | nil => exact ⟨_, rfl⟩

theorem serverRun_reuses {p : Pool σ} (memory : Unset) (some_ : p.reusablePool ≠ []) :
    (p.serverRun memory).sessions = p.sessions := by
  unfold serverRun
  cases queue : p.reusablePool with
  | cons i rest => rfl
  | nil => exact absurd queue some_

/-- One accept is pending. -/
def Pending (p : Pool σ) : Prop := ∃ i, p.accepting = [i]

theorem Pending.next {lib : External σ} {p q : Pool σ} {act : PoolAct σ} (pending : p.Pending)
    (step : p.next lib act = some q) : q.Pending := by
  obtain ⟨j, one⟩ := pending
  rcases next_accepting step with ⟨i, accepted, memory, waiting, rfl⟩ | ⟨same, -⟩
  · obtain rfl : i = j := by simpa [one] using waiting
    obtain ⟨k, grown⟩ := (p.handleAccept i accepted).serverRun_accepting memory
    exact ⟨k, by rw [grown, (p.handleAccept_accepting i accepted).1, one]; simp⟩
  · exact ⟨j, same.trans one⟩

/-- A session is only made where none is left to be used again. -/
theorem next_makes {lib : External σ} {p q : Pool σ} {act : PoolAct σ} (step : p.next lib act = some q)
    (made : p.sessions.length < q.sessions.length) : p.reusablePool = [] := by
  by_contra some_
  rcases next_accepting step with ⟨i, accepted, memory, -, rfl⟩ | ⟨-, same⟩
  · obtain ⟨-, queue, length⟩ := p.handleAccept_accepting i accepted
    rw [serverRun_reuses memory (queue ▸ some_), length] at made
    exact lt_irrefl _ made
  · omega

/-- After every history each session is in one place, one accept is pending, its session
    is none of those that serve a connection and these are all different, and the next
    event makes a session only where none is left to be used again. -/
theorem pool_partition {lib : External σ} {db : σ} {memory : Unset} {acts : List (PoolAct σ)} {p : Pool σ}
    (ran : Runs.after (Pool.next lib) (start db memory) acts = some p) :
    p.Partitioned ∧ p.Pending ∧ (p.accepting ++ p.sessionPool).Nodup ∧
      ∀ act q, p.next lib act = some q → p.sessions.length < q.sessions.length → p.reusablePool = [] := by
  have kept : p.Partitioned ∧ p.Pending :=
    Runs.invariant (I := fun p => p.Partitioned ∧ p.Pending)
      (fun _ _ _ ⟨partitioned, pending⟩ _ step => ⟨partitioned.next step, pending.next step⟩)
      ⟨start_partitioned db memory, ⟨0, rfl⟩⟩ (Runs.Each.trivial _ _ acts) ran
  obtain ⟨partitioned, pending⟩ := kept
  have apart : (p.accepting ++ p.sessionPool ++ p.reusablePool).Nodup :=
    partitioned.nodup_iff.mpr List.nodup_range
  exact ⟨partitioned, pending, (List.nodup_append.mp apart).1, fun _ _ step made => next_makes step made⟩

/-- A client connects and goes; the next accept fails, and the session of the one after
    it is the first again. -/
theorem pool_partition_reused :
    ∃ p, Runs.after (Pool.next memoryServer) (start ⟨fun _ => ⟨[], []⟩, 0⟩ zeros)
        [.handleAccept 0 (.ok ⟨true, [], none, []⟩) zeros, .notifyAbortConnection 0,
          .handleAccept 1 (.error .other) zeros] = some p ∧
      (p.Partitioned ∧ p.Pending ∧ (p.accepting ++ p.sessionPool).Nodup ∧
        ∀ act q, p.next memoryServer act = some q → p.sessions.length < q.sessions.length →
          p.reusablePool = []) := by
  obtain ⟨p, ran⟩ := Option.isSome_iff_exists.mp
    (show (Runs.after (Pool.next memoryServer) (start ⟨fun _ => ⟨[], []⟩, 0⟩ zeros)
      [.handleAccept 0 (.ok ⟨true, [], none, []⟩) zeros, .notifyAbortConnection 0,
        .handleAccept 1 (.error .other) zeros]).isSome by decide +kernel)
  exact ⟨p, ran, pool_partition ran⟩

end Pool
end NineProject
