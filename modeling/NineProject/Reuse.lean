import NineProject.Session.Pool

/-! # Sessions that are used again

Nothing resets a session that is given back, and nothing initializes `initialized` in
a new one. What a client finds in its session is then what the client before left
there: only a session on which no one logged in, with nothing queued or outstanding,
is as good as new, and a new one only if its memory was zero where it matters.
-/

namespace NineProject

open Bytes M Effect

variable {σ : Type}

/-- A session as a client should find it. -/
def Session.LoggedOut (s : Session) : Prop := s.Stranger ∧ s.pc.hQue = []

instance (s : Session) : Decidable s.LoggedOut := by
  unfold Session.LoggedOut Session.Stranger
  infer_instance

instance (log : List Event) : Decidable (ListFetched log) :=
  decidable_of_iff (log.any fun | .exec .getCheckList _ => true | _ => false) <| by
    rw [List.any_eq_true]
    constructor
    · rintro ⟨e, member, is⟩
      split at is
      · exact ⟨_, member⟩
      · cases is
    · rintro ⟨text, member⟩
      exact ⟨_, member, rfl⟩

/-! ## One session -/

/-- No one is logged in, unless a login got as far as its check list. -/
def Unclaimed (w : World σ) : Prop := w.self.Stranger ∨ ListFetched w.log

theorem Unclaimed.more {w t : World σ} (unclaimed : Unclaimed w) {es : List Event}
    (log : t.log = w.log ++ es) (stranger : w.self.Stranger → t.self.Stranger) : Unclaimed t :=
  unclaimed.imp stranger fun fetched => fetched.more log

theorem unclaimed_lasting : Lasting (Unclaimed (σ := σ)) where
  extended := fun unclaimed step => by
    obtain ⟨es, log, -⟩ := step.log
    exact unclaimed.elim step.stranger fun fetched => .inr (fetched.more log)
  popped := fun unclaimed => unclaimed.more rfl id
  pushed := fun unclaimed => unclaimed.more rfl id
  dispatched := fun unclaimed => unclaimed.more rfl id
  starts := fun unclaimed => unclaimed.more rfl id
  completing := id
  received := id
  filled := id
  stopped := id

/-- Nothing is outstanding on a session that is as good as new. -/
def GoodAsNew (w : World σ) : Prop := w.pending = [] ∧ w.self.LoggedOut

/-- Whatever the other sessions do, it stays so. -/
theorem GoodAsNew.next {lib : External σ} {w t : World σ} {act : Act σ} (good : GoodAsNew w)
    (step : next lib w act = some t) : GoodAsNew t := by
  obtain ⟨-, what⟩ := next_eq_some step
  cases act with
  | complete c =>
      obtain ⟨op, got, socket, found, -⟩ := what
      rw [good.1] at found
      cases found
  | checkMailBox =>
      have unread : checkMailBox w = .ok () w := by simp [checkMailBox, bind_apply, good.2.1.1]
      have same : t = w := by rw [show t = w.exec checkMailBox from what, World.exec, unread]
      exact same ▸ good
  | others db nmap =>
      rw [show t = { w with db := db, nmap := nmap } from what]
      exact good

/-! ## The server -/

/-- The client of this session is gone: nothing is outstanding or queued, and no login
    was accepted on it. -/
def Over (p : Pool σ) (i : Nat) : Prop :=
  i ∉ p.posted.map Prod.fst ∧
    ∀ w ∈ p.sessions[i]?, w.pending = [] ∧ w.self.pc.hQue = [] ∧ ¬ ListFetched w.log

instance (p : Pool σ) (i : Nat) : Decidable (Over p i) := by
  unfold Over
  infer_instance

/-- New sessions are made in memory with a zero where `initialized` is, and sessions are
    given back when their client is gone. -/
def PoolAct.Careful (p : Pool σ) : PoolAct σ → Prop
  | .handleAccept _ _ memory => p.reusablePool = [] → memory.initialized = false
  | .notifyAbortConnection n => ∀ i ∈ p.sessionPool[n]?, Over p i
  | .run _ | .session _ _ => True

instance (p : Pool σ) (act : PoolAct σ) : Decidable (act.Careful p) := by
  cases act <;> unfold PoolAct.Careful <;> infer_instance

/-- What careful steps keep. -/
structure Fresh (p : Pool σ) : Prop where
  partitioned : p.Partitioned
  unclaimed : ∀ w ∈ p.sessions, Unclaimed w
  reusable : ∀ i ∈ p.reusablePool, i ∉ p.posted.map Prod.fst ∧ ∀ w ∈ p.sessions[i]?, GoodAsNew w
  handed : ∀ s ∈ p.handed, s.LoggedOut

namespace Fresh

variable {p q : Pool σ} {i : Nat}

theorem serverRun {memory : Unset} (fresh : Fresh p)
    (clean : p.reusablePool = [] → memory.initialized = false) : Fresh (p.serverRun memory) := by
  have partitioned := fresh.partitioned.serverRun memory
  unfold Pool.serverRun at partitioned ⊢
  cases queue : p.reusablePool with
  | nil =>
      have new : memory.session.LoggedOut := ⟨⟨clean queue, rfl, rfl⟩, rfl⟩
      rw [queue] at partitioned
      refine ⟨partitioned, fun w member => ?_, fun i member => ?_, fun s member => ?_⟩
      · rcases List.mem_append.mp member with old | made
        · exact fresh.unclaimed w old
        · rw [List.mem_singleton.mp made]
          exact .inl new.1
      · exact absurd member List.not_mem_nil
      · rcases List.mem_append.mp member with old | made
        · exact fresh.handed s old
        · rw [List.mem_singleton.mp made]
          exact new
  | cons i rest =>
      rw [queue] at partitioned
      have reusable := fun j (member : j ∈ i :: rest) => fresh.reusable j (queue ▸ member)
      refine ⟨partitioned, fresh.unclaimed, fun j member => reusable j (List.mem_cons_of_mem _ member),
        fun s member => ?_⟩
      rcases List.mem_append.mp member with old | again
      · exact fresh.handed s old
      · obtain ⟨w, there, rfl⟩ := Option.map_eq_some_iff.mp (Option.mem_toList.mp again)
        exact ((reusable i List.mem_cons_self).2 w there).2

/-- A session waiting for its connection was not given back. -/
theorem waiting (fresh : Fresh p) (waits : i ∈ p.accepting) : i ∉ p.reusablePool := by
  have once := fresh.partitioned.nodup_iff.mpr List.nodup_range
  intro back
  exact (List.nodup_append.mp once).2.2 i (List.mem_append_left _ waits) i back rfl

theorem handleAccept (fresh : Fresh p) (waits : i ∈ p.accepting) (accepted : Except Failure Socket) :
    Fresh (p.handleAccept i accepted) := by
  have partitioned := fresh.partitioned.handleAccept waits accepted
  have apart : ∀ j ∈ p.reusablePool, j ≠ i := fun j back same => fresh.waiting waits (same ▸ back)
  have unposted : ∀ err, ∀ j ∈ p.reusablePool, j ∉ (p.posted ++ [(i, err)]).map Prod.fst :=
    fun err j back => by
      have old := (fresh.reusable j back).1
      simpa [apart j back] using old
  cases accepted with
  | error err =>
      exact ⟨partitioned, fresh.unclaimed, fun j back => ⟨unposted _ j back, (fresh.reusable j back).2⟩,
        fresh.handed⟩
  | ok socket =>
      refine ⟨partitioned, fun w member => ?_, fun j back => ⟨unposted _ j back, fun w there => ?_⟩,
        fresh.handed⟩
      · obtain ⟨j, at_⟩ := List.mem_iff_getElem?.mp member
        rw [Pool.handleAccept, List.getElem?_modify] at at_
        obtain ⟨v, old, rfl⟩ := Option.map_eq_some_iff.mp at_
        have unclaimed := fresh.unclaimed v (List.mem_of_getElem? old)
        split
        · exact unclaimed
        · exact unclaimed
      · rw [Pool.handleAccept, List.getElem?_modify] at there
        obtain ⟨v, old, rfl⟩ := Option.map_eq_some_iff.mp there
        rw [if_neg (Ne.symm (apart j back))]
        exact (fresh.reusable j back).2 v old

theorem leave (fresh : Fresh p) {w : World σ} (unclaimed : Unclaimed w)
    (good : i ∈ p.reusablePool → GoodAsNew w) : Fresh (p.leave i w) := by
  refine ⟨fresh.partitioned.leave i w, fun v member => ?_, fun j back => ⟨(fresh.reusable j back).1,
    fun v there => ?_⟩, fresh.handed⟩
  · rcases List.mem_or_eq_of_mem_set member with old | rfl
    · exact fresh.unclaimed v old
    · exact unclaimed
  · rw [Pool.leave, List.getElem?_set] at there
    split at there
    · next same =>
        split at there
        · cases there
          exact good (same ▸ back)
        · cases there
    · exact (fresh.reusable j back).2 v there

/-- The session as it is in the pool. -/
theorem world (fresh : Fresh p) {w : World σ} (there : p.world i = some w) :
    Unclaimed w ∧ (i ∈ p.reusablePool → GoodAsNew w) := by
  obtain ⟨v, found, rfl⟩ := Option.map_eq_some_iff.mp there
  exact ⟨fresh.unclaimed v (List.mem_of_getElem? found), fun back => (fresh.reusable i back).2 v found⟩

theorem next {lib : External σ} {act : PoolAct σ} (fresh : Fresh p) (careful : act.Careful p)
    (step : p.next lib act = some q) : Fresh q := by
  cases act with
  | handleAccept i accepted memory =>
      obtain ⟨waits, rfl⟩ := Pool.handleAccept_cases step
      refine (fresh.handleAccept waits accepted).serverRun fun none_ => careful ?_
      cases accepted <;> exact none_
  | run n =>
      have fresh' : Fresh { p with posted := p.posted.eraseIdx n } :=
        ⟨fresh.partitioned, fresh.unclaimed, fun j back => ⟨fun posted => (fresh.reusable j back).1 ?_,
          (fresh.reusable j back).2⟩, fresh.handed⟩
      · obtain ⟨i, ⟨f, -, rfl⟩ | ⟨posted, w, there, -, rfl⟩⟩ := Pool.run_cases step
        · exact fresh'
        · have in_use : i ∉ p.reusablePool := fun back =>
            (fresh.reusable i back).1 (List.mem_map_of_mem (List.mem_of_getElem? posted))
          refine fresh'.leave ?_ fun back => absurd back in_use
          have any : Calms fun _ _ => True := fun _ _ _ => trivial
          have inv := unclaimed_lasting (σ := σ).invariant
          exact exec_of_holds (inv.sessionTask lib any (fun _ _ _ => trivial)
            (inv.taskEnd lib any fun _ _ _ => trivial) none) (fresh'.world there).1 (fun _ => id)
            fun _ _ => id
      · obtain ⟨post, member, rfl⟩ := List.mem_map.mp posted
        exact List.mem_map_of_mem (List.mem_of_mem_eraseIdx member)
  | session i act =>
      obtain ⟨w, t, there, moved, rfl⟩ := Pool.session_cases step
      obtain ⟨unclaimed, good⟩ := fresh.world there
      exact fresh.leave (unclaimed_lasting.next lib unclaimed moved) fun back => (good back).next moved
  | notifyAbortConnection n =>
      obtain ⟨i, there, rfl⟩ := Pool.notifyAbortConnection_cases step
      obtain ⟨unposted, gone⟩ := careful i there
      refine ⟨fresh.partitioned.notifyAbortConnection there, fresh.unclaimed, fun j back => ?_, fresh.handed⟩
      rcases List.mem_append.mp back with old | again
      · exact fresh.reusable j old
      · rw [List.mem_singleton.mp again]
        refine ⟨unposted, fun w found => ?_⟩
        obtain ⟨quiet, empty, stranger⟩ := gone w found
        exact ⟨quiet, (fresh.unclaimed w (List.mem_of_getElem? found)).resolve_right stranger, empty⟩

end Fresh

end NineProject
