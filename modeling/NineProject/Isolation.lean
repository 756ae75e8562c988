import NineProject.Discipline
import NineProject.Session.System
import NineProject.Statements

/-! # One session among the others

As long as no session is given back, each session of a server goes through a run of a
session by itself: the same operations complete, and the others are seen in the shared
state alone. So what is shown of every run of one session holds of each session of a
server, whatever the other clients do.
-/

namespace NineProject

open Bytes M Effect

variable {σ : Type}

/-! ## What happens to a session -/

def Act.completion : Act σ → Option Completion
  | .complete c => some c
  | .checkMailBox | .others _ _ => none

/-- What the event is for a session. -/
def PoolAct.act (i : Nat) : PoolAct σ → Option (Act σ)
  | .session j act => if j = i then some act else none
  | .handleAccept _ _ _ | .run _ | .notifyAbortConnection _ => none

/-- The operations of a session that completed. -/
def completions (i : Nat) (acts : List (PoolAct σ)) : List Completion :=
  (acts.filterMap (PoolAct.act i)).filterMap Act.completion

/-- No session is given back. -/
def PoolAct.Stays : PoolAct σ → Prop
  | .notifyAbortConnection _ => False
  | .handleAccept _ _ _ | .run _ | .session _ _ => True

instance : (act : PoolAct σ) → Decidable act.Stays
  | .notifyAbortConnection _ => .isFalse id
  | .handleAccept _ _ _ | .run _ | .session _ _ => .isTrue trivial

/-- What is asked of the events of a session by itself is asked of a server's. -/
abbrev PoolAct.Meets (D : World σ → Act σ → Prop) (i : Nat) (p : Pool σ) (act : PoolAct σ) : Prop :=
  ∀ a ∈ act.act i, ∀ w ∈ p.world i, D w a

/-- A session that does not serve a connection yet. A check may have stopped it, where its
    constructor has set nothing. -/
structure Unused (l : World σ) : Prop where
  new : l.self.New
  unset : l.self.nf = none
  is : l = ⟨l.self, l.db, l.nmap, [], 0, 0, 0, [], l.stopped⟩
  stop : l.stopped = none ∨ l.stopped = some (.fault .wildPointer)

section
variable (lib : External σ) (D : World σ → Act σ → Prop)

/-- By itself the session gets here with these operations completing. -/
def Serves (done : List Completion) (l : World σ) : Prop :=
  ∃ (s : Session) (db : σ) (nmap : NMap) (acts : List (Act σ)), s.New ∧
    Runs.after (next lib) (World.accepted lib s db nmap) acts = some l ∧
    Runs.Each (next lib) D (World.accepted lib s db nmap) acts ∧ acts.filterMap Act.completion = done

/-- How often a session is about to start. -/
def Pool.entering (p : Pool σ) (i : Nat) : Nat := p.accepting.count i + (p.posted.map Prod.fst).count i

/-- What is known of one session. -/
structure Projects (i : Nat) (done : List Completion) (p : Pool σ) : Prop where
  fresh : p.reusablePool = []
  once : p.entering i ≤ 1
  later : p.sessions.length ≤ i → p.entering i = 0 ∧ done = []
  stage : ∀ l, p.sessions[i]? = some l → Unused l ∧ done = [] ∨ Serves lib D done l ∧ p.entering i = 0

end

section
variable {lib : External σ} {D : World σ → Act σ → Prop} {i : Nat} {done : List Completion} {p q : Pool σ}

theorem Unused.made (memory : Unset) (s : σ × NMap) : Unused (memory.world s) :=
  ⟨memory.session_new, rfl, rfl, .inl rfl⟩

theorem Unused.connected {l : World σ} (unused : Unused l) (socket : Socket) :
    Unused { l with self := { l.self with socket := socket } } := by
  obtain ⟨⟨old, initialized, renewed, iData, hBuf, source, new⟩, nf, is, stop⟩ := unused
  refine ⟨⟨socket, initialized, renewed, iData, hBuf, source, ?_⟩, nf, ?_, stop⟩
  · rw [new]
    rfl
  · rw [is]

namespace Projects

theorem start (db : σ) (memory : Unset) : Projects lib D i [] (Pool.start db memory) where
  fresh := rfl
  once := by simp [Pool.start, Pool.serverRun, Pool.entering, List.count_singleton]; split <;> omega
  later := by
    intro outside
    have apart : ¬ 0 = i := by
      simp [Pool.start, Pool.serverRun] at outside
      omega
    simp [Pool.start, Pool.serverRun, Pool.entering, apart]
  stage := by
    intro l found
    have made : l ∈ (Pool.start db memory).sessions := List.mem_of_getElem? found
    obtain rfl := List.mem_singleton.mp made
    exact .inl ⟨.made memory (db, NMap.empty), rfl⟩

/-- The session is where it was. -/
theorem frame (projects : Projects lib D i done p) (fresh : q.reusablePool = p.reusablePool)
    (entering : q.entering i ≤ p.entering i) (length : q.sessions.length = p.sessions.length)
    (same : q.sessions[i]? = p.sessions[i]?) : Projects lib D i done q where
  fresh := fresh.trans projects.fresh
  once := entering.trans projects.once
  later outside := by
    obtain ⟨none_, nothing⟩ := projects.later (length ▸ outside)
    exact ⟨by omega, nothing⟩
  stage l found := (projects.stage l (same ▸ found)).imp_right fun ⟨serves, none_⟩ => ⟨serves, by omega⟩

theorem handleAccept (projects : Projects lib D i done p) {j : Nat} (waiting : j ∈ p.accepting)
    (accepted : Except Failure Socket) : Projects lib D i done (p.handleAccept j accepted) := by
  have moved : ∀ err, (p.accepting.erase j).count i + ((p.posted ++ [(j, err)]).map Prod.fst).count i = p.entering i :=
    fun err => by
      have split := (List.perm_cons_erase waiting).count_eq i
      simp only [Pool.entering, List.map_append, List.map_cons, List.map_nil, List.count_append, List.count_cons,
        List.count_nil] at split ⊢
      omega
  cases accepted with
  | error err => exact projects.frame rfl (moved _).le rfl rfl
  | ok socket =>
      have length : (p.handleAccept j (.ok socket)).sessions.length = p.sessions.length := List.length_modify ..
      by_cases own : j = i
      · subst own
        have enters : 0 < p.entering j := Nat.add_pos_left (List.count_pos_iff.mpr waiting) _
        refine ⟨projects.fresh, (moved _).le.trans projects.once, fun outside => ?_, fun l found => ?_⟩
        · exact absurd (projects.later (length ▸ outside)).1 enters.ne'
        · simp only [Pool.handleAccept, List.getElem?_modify, if_true] at found
          obtain ⟨old, there, rfl⟩ := Option.map_eq_some_iff.mp found
          rcases projects.stage old there with ⟨unused, nothing⟩ | ⟨-, none_⟩
          · exact .inl ⟨unused.connected socket, nothing⟩
          · exact absurd none_ enters.ne'
      · exact projects.frame rfl (moved _).le length (by simp [Pool.handleAccept, own])

/-- There is nothing to use again, so the next session is a new one. -/
theorem serverRun (projects : Projects lib D i done p) (memory : Unset) :
    Projects lib D i done (p.serverRun memory) := by
  simp only [Pool.serverRun, projects.fresh]
  by_cases own : p.sessions.length = i
  · obtain ⟨none_, nothing⟩ := projects.later own.le
    refine ⟨rfl, ?_, fun outside => ?_, fun l found => ?_⟩
    · simp only [Pool.entering, List.count_append, own, List.count_singleton_self] at none_ ⊢
      omega
    · simp [own] at outside
    · rw [← own, List.getElem?_concat_length] at found
      obtain rfl := Option.some.inj found
      exact .inl ⟨.made memory (p.db, p.nmap), nothing⟩
  · have entering : ∀ q : Pool σ, q.accepting = p.accepting ++ [p.sessions.length] → q.posted = p.posted →
        q.entering i = p.entering i := fun q accepting posted => by
      simp [Pool.entering, accepting, posted, List.count_append, own]
    have same := entering { p with accepting := p.accepting ++ [p.sessions.length] } rfl rfl
    refine ⟨rfl, same.le.trans projects.once, fun outside => ?_, fun l found => ?_⟩
    · have old : p.sessions.length ≤ i := by
        simp at outside
        omega
      exact ⟨same.trans (projects.later old).1, (projects.later old).2⟩
    · rcases Sharing.found_concat found with ⟨last, -⟩ | old
      · exact absurd last.symm own
      · exact (projects.stage l old).imp_right fun ⟨serves, none_⟩ => ⟨serves, same.trans none_⟩

/-- The session comes back from work of its own. -/
theorem leave (projects : Projects lib D i done p) {l w : World σ} {more : List Completion}
    (there : p.sessions[i]? = some l)
    (stage : Unused w ∧ done ++ more = [] ∨ Serves lib D (done ++ more) w ∧ p.entering i = 0) :
    Projects lib D i (done ++ more) (p.leave i w) := by
  have inside := (List.getElem?_eq_some_iff.mp there).1
  refine ⟨projects.fresh, projects.once, fun outside => ?_, fun v found => ?_⟩
  · simp [Pool.leave] at outside
    omega
  · simp [Pool.leave, inside] at found
    exact found ▸ stage

/-- Another does. -/
theorem leave_other (projects : Projects lib D i done p) {j : Nat} (other : j ≠ i) (w : World σ) :
    Projects lib D i done (p.leave j w) :=
  projects.frame rfl le_rfl (List.length_set ..) (List.getElem?_set_ne other)

end Projects

/-! ## Steps -/

/-- Until it serves a connection, nothing completes on a session. -/
theorem Unused.step {l w : World σ} (unused : Unused l) {act : Act σ} (step : next lib l act = some w) :
    Unused w ∧ act.completion = none := by
  obtain ⟨new, nf, is, stop⟩ := unused
  cases act with
  | complete c =>
      rw [is] at step
      simp [next] at step
  | others db nmap =>
      simp only [next] at step
      split at step
      · cases step
      · cases step
        exact ⟨⟨new, nf, by rw [is], stop⟩, rfl⟩
  | checkMailBox =>
      simp only [next] at step
      split at step
      · cases step
      · cases step
        rw [World.exec, checkMailBox_unset nf]
        split
        · next failed =>
            split at failed
            · cases failed
            · cases failed
              exact ⟨⟨new, nf, is, stop⟩, rfl⟩
        · next failed =>
            split at failed
            · cases failed
              exact ⟨⟨new, nf, by rw [is], .inr rfl⟩, rfl⟩
            · cases failed

theorem Unused.seeing {l : World σ} (unused : Unused l) (s : σ × NMap) : Unused (l.seeing s) := by
  obtain ⟨new, nf, is, stop⟩ := unused
  refine ⟨new, nf, ?_, stop⟩
  rw [is]
  rfl

/-- A session that starts is a session by itself that was accepted. -/
theorem Unused.starts {l : World σ} (unused : Unused l) (running : l.stopped = none) (s : σ × NMap) :
    Serves lib D [] ((l.seeing s).exec (sessionTask lib (taskEnd lib) none)) := by
  obtain ⟨new, -, is, -⟩ := unused
  refine ⟨l.self, s.1, s.2, [], new, ?_, trivial, rfl⟩
  rw [is, running]
  rfl

/-- One that serves takes the shared state from the others, and the step. -/
theorem Serves.step {l w : World σ} {act : Act σ} (serves : Serves lib D done l)
    (shared : ∀ w db nmap, D w (.others db nmap)) {s : σ × NMap} (meets : D (l.seeing s) act)
    (step : next lib (l.seeing s) act = some w) : Serves lib D (done ++ act.completion.toList) w := by
  obtain ⟨self, db, nmap, acts, new, ran, each, rfl⟩ := serves
  have running : l.stopped = none := (next_eq_some step).1
  have taken : next lib l (.others s.1 s.2) = some (l.seeing s) := by
    simp [next, running, World.seeing]
  refine ⟨self, db, nmap, acts ++ [.others s.1 s.2, act], new, ?_, each.append fun t ran' => ?_, ?_⟩
  · rw [Runs.after_append, ran]
    simp [Runs.after_cons, taken, step]
  · obtain rfl := Option.some.inj (ran.symm.trans ran')
    refine ⟨shared _ _ _, fun v taken' => ?_⟩
    obtain rfl := Option.some.inj (taken.symm.trans taken')
    exact ⟨meets, fun _ _ => trivial⟩
  · rw [List.filterMap_append]
    cases act <;> rfl

theorem Projects.next {act : PoolAct σ} (projects : Projects lib D i done p)
    (shared : ∀ w db nmap, D w (.others db nmap)) (stays : act.Stays) (meets : act.Meets D i p)
    (step : p.next lib act = some q) :
    Projects lib D i (done ++ completions i [act]) q := by
  have quiet : act.act i = none → completions i [act] = [] := fun other => by simp [completions, other]
  cases act with
  | handleAccept j accepted memory =>
      obtain ⟨waiting, rfl⟩ := Pool.handleAccept_cases step
      simpa [quiet rfl] using (projects.handleAccept waiting accepted).serverRun memory
  | notifyAbortConnection n => exact stays.elim
  | run n =>
      have count : ∀ {j err}, p.posted[n]? = some (j, err) →
          ∀ k, Pool.entering { p with posted := p.posted.eraseIdx n } k + (if j = k then 1 else 0) = p.entering k := by
        intro j err posted k
        obtain ⟨inside, is⟩ := List.getElem?_eq_some_iff.mp posted
        have split := ((List.getElem_cons_eraseIdx_perm inside).map Prod.fst).count_eq k
        rw [is] at split
        simp only [List.map_cons, List.count_cons, beq_iff_eq] at split
        simp only [Pool.entering]
        omega
      have left : ∀ {j err}, p.posted[n]? = some (j, err) →
          Projects lib D i done { p with posted := p.posted.eraseIdx n } := fun posted =>
        projects.frame rfl (by have := count posted i; omega) rfl rfl
      rw [quiet rfl, List.append_nil]
      obtain ⟨j, ⟨f, posted, rfl⟩ | ⟨posted, w, found, running, rfl⟩⟩ := Pool.run_cases step
      · exact left posted
      · obtain ⟨l, there, rfl⟩ := Pool.world_eq_some found
        by_cases own : j = i
        · subst own
          have enters := count posted j
          have first := projects.once
          simp only [if_true] at enters
          have none_ : Pool.entering { p with posted := p.posted.eraseIdx n } j = 0 := by omega
          rcases projects.stage l there with ⟨unused, rfl⟩ | ⟨-, started⟩
          · have starts : Serves lib D [] _ := unused.starts running p.shared
            exact (left posted).leave there (.inr ⟨starts, none_⟩)
          · omega
        · exact (left posted).leave_other own _
  | session j act =>
      obtain ⟨w, t, found, moved, rfl⟩ := Pool.session_cases step
      obtain ⟨l, there, rfl⟩ := Pool.world_eq_some found
      by_cases own : j = i
      · subst own
        have same : completions j [.session j act] = act.completion.toList := by
          cases act <;> simp [completions, PoolAct.act, Act.completion]
        rw [same]
        refine projects.leave there ?_
        rcases projects.stage l there with ⟨unused, rfl⟩ | ⟨serves, none_⟩
        · obtain ⟨still, nothing⟩ := (unused.seeing p.shared).step moved
          exact .inl ⟨still, by simp [nothing]⟩
        · exact .inr ⟨serves.step shared (meets act (by simp [PoolAct.act]) _ found) moved, none_⟩
      · rw [quiet (by simp [PoolAct.act, own]), List.append_nil]
        exact projects.leave_other own _

theorem Projects.run {acts : List (PoolAct σ)} (projects : Projects lib D i done p)
    (shared : ∀ w db nmap, D w (.others db nmap)) (stays : ∀ act ∈ acts, act.Stays)
    (each : Runs.Each (Pool.next lib) (PoolAct.Meets D i) p acts) (ran : Runs.after (Pool.next lib) p acts = some q) :
    Projects lib D i (done ++ completions i acts) q := by
  induction acts generalizing p done with
  | nil =>
      cases ran
      simpa [completions] using projects
  | cons act rest ih =>
      rw [Runs.after_cons] at ran
      obtain ⟨m, step, ran⟩ := Option.bind_eq_some_iff.mp ran
      have split : completions i (act :: rest) = completions i [act] ++ completions i rest := by
        simp only [completions, ← List.filterMap_append, List.singleton_append]
      rw [split, ← List.append_assoc]
      exact ih (projects.next shared (stays act (by simp)) each.1 step) (fun act member => stays act (by simp [member]))
        (each.2 m step) ran

/-! ## Servers -/

/-- A session for which nothing has happened has kept the discipline. -/
theorem Unused.disciplined {l : World σ} (unused : Unused l) : Disciplined l := by
  obtain ⟨-, -, is, stop⟩ := unused
  refine ⟨?_, ⟨[], none, by rw [is]; rfl, by simp⟩, by rw [is]; exact Nat.zero_le _, by rw [is]; exact List.not_mem_nil⟩
  rcases stop with none_ | fault
  · simp [none_]
  · simp [fault]

variable {db : σ} {memory : Unset} {acts : List (PoolAct σ)}

/-- As long as no session is given back, each is in use for no connection yet or gets where
    it is by itself, with the same operations completing in the same order. -/
theorem session_projects (stays : ∀ act ∈ acts, act.Stays)
    (ran : Runs.after (Pool.next lib) (Pool.start db memory) acts = some p) :
    ∀ i l, p.sessions[i]? = some l →
      Unused l ∧ completions i acts = [] ∨ Serves lib (fun _ _ => True) (completions i acts) l := by
  intro i l there
  have each : Runs.Each (Pool.next lib) (PoolAct.Meets (fun _ _ => True) i) (Pool.start db memory) acts :=
    (Runs.Each.trivial _ _ acts).mono fun _ _ _ _ _ _ _ => trivial
  have start : Projects lib (fun _ _ => True) i [] (Pool.start db memory) := .start db memory
  have projects := start.run (fun _ _ _ => trivial) stays each ran
  exact (projects.stage l there).imp_right And.left

/-- As long as no session is given back, one whose operations complete without error and that
    is sent no `GetMsg` keeps the discipline, whatever happens to the other sessions. -/
theorem session_disciplined (stays : ∀ act ∈ acts, act.Stays)
    (each : Runs.Each (Pool.next lib) (PoolAct.Meets (fun w act => act.Smooth ∧ AvoidsGetMsg w act) i)
      (Pool.start db memory) acts)
    (ran : Runs.after (Pool.next lib) (Pool.start db memory) acts = some p) :
    ∀ l, p.sessions[i]? = some l → Disciplined l := by
  intro l there
  have shared : ∀ (w : World σ) db nmap, (Act.others db nmap).Smooth ∧ AvoidsGetMsg w (.others db nmap) :=
    fun w db nmap => ⟨trivial, fun h arrives => by cases arrives⟩
  rcases ((Projects.start db memory).run shared stays each ran).stage l there with ⟨unused, -⟩ | ⟨serves, -⟩
  · exact unused.disciplined
  · obtain ⟨s, db, nmap, acts, new, ran, each, -⟩ := serves
    obtain ⟨tidy, waits⟩ := accepted_ready lib new db nmap
    have sound : Sound (World.accepted lib s db nmap) := .inl (.inl ⟨[], tidy, .inr waits⟩)
    have kept : Sound l := Runs.invariant (fun _ _ _ sound meets step => settled_step lib meets.1 meets.2 sound step)
      sound each ran
    exact kept.disciplined

end

instance : (act : Act σ) → Decidable act.Smooth
  | .complete c => inferInstanceAs (Decidable (c.err = none))
  | .checkMailBox | .others _ _ => .isTrue trivial

/-- Ann asks for her messages, which ends her session, and Bob looks for requests. -/
def annBreaks : List (PoolAct Sql.Memory) :=
  let ann := loginOf (str "ann") (str "kiwi") ++ request 1 ECommand.getMsg.code
  let bob := loginOf (str "bob") (str "plum") ++ request 1 ECommand.getConnection.code
  [.handleAccept 0 (.ok ⟨true, ann, none, []⟩) zeros, .run 0, .handleAccept 1 (.ok ⟨true, bob, none, []⟩) zeros, .run 0] ++
    List.replicate 3 (.session 1 .first) ++ List.replicate 6 (.session 0 .first) ++
    List.replicate 3 (.session 1 .first)

theorem annBreaks_runs : ∃ p, Runs.after (Pool.next memoryServer) (Pool.start twoUsers zeros) annBreaks = some p :=
  Option.isSome_iff_exists.mp (by decide +kernel)

theorem session_projects_annBreaks :
    ∃ p, Runs.after (Pool.next memoryServer) (Pool.start twoUsers zeros) annBreaks = some p ∧
      ∀ i l, p.sessions[i]? = some l → Unused l ∧ completions i annBreaks = [] ∨
        Serves memoryServer (fun _ _ => True) (completions i annBreaks) l := by
  obtain ⟨p, ran⟩ := annBreaks_runs
  exact ⟨p, ran, session_projects (by decide +kernel) ran⟩

theorem session_disciplined_bob :
    ∃ p, Runs.after (Pool.next memoryServer) (Pool.start twoUsers zeros) annBreaks = some p ∧
      ∀ l, p.sessions[1]? = some l → Disciplined l := by
  obtain ⟨p, ran⟩ := annBreaks_runs
  exact ⟨p, ran, session_disciplined (by decide +kernel) (by decide +kernel) ran⟩

end NineProject
