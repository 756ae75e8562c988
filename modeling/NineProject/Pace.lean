import NineProject.Linear

/-! # How long a session takes

Each completion leaves a session less to do, and nothing the others do leaves it more. So
a client's requests take four completions each at most, in every run of the server, and
as long as some are left the next completion goes through.
-/

namespace NineProject

open Bytes

section
variable {σ : Type} {lib : External σ} {rs : Nat → List Sent} {i n : Nat} {p q : Pool σ}

/-- An operation of this session completes. -/
def PoolAct.completesAt (i : Nat) : PoolAct σ → Bool
  | .session j act => j == i && act.completes
  | _ => false

/-- The session has so many completions to go at most; one that was not started has them
    all before it. -/
def Paced (rs : Nat → List Sent) (i n : Nat) (p : Pool σ) : Prop :=
  (∃ l left, p.sessions[i]? = some l ∧ InStep (rs i) left l ∧ left ≤ n) ∨
    4 * (rs i).length ≤ n ∧ ∀ l, p.sessions[i]? = some l → Unused l

namespace Paced

/-- The session is where it was. -/
theorem frame (paced : Paced rs i n p) (same : q.sessions[i]? = p.sessions[i]?) : Paced rs i n q := by
  unfold Paced
  rw [same]
  exact paced

/-- Whoever is about to start has not been used. -/
theorem entering_unused {l : World σ} (running : Running lib rs p) (enters : 0 < p.entering i)
    (there : p.sessions[i]? = some l) : Unused l := by
  obtain ⟨done, projects⟩ := running.projects i
  rcases projects.stage l there with ⟨unused, -⟩ | ⟨-, none_⟩
  · exact unused
  · omega

theorem handleAccept {j : Nat} {accepted : Except Failure Socket} (running : Running lib rs p)
    (waiting : j ∈ p.accepting)
    (paced : Paced rs i n p) : Paced rs i n (p.handleAccept j accepted) := by
  cases accepted with
  | error err => exact paced.frame rfl
  | ok socket =>
      by_cases own : j = i
      · subst own
        have enters : 0 < p.entering j := Nat.add_pos_left (List.count_pos_iff.mpr waiting) _
        rcases paced with ⟨l, left, there, inStep, -⟩ | ⟨all, unused⟩
        · exact absurd (entering_unused running enters there) inStep.used
        · refine .inr ⟨all, fun l there => ?_⟩
          simp only [Pool.handleAccept, List.getElem?_modify, if_true] at there
          obtain ⟨old, found, rfl⟩ := Option.map_eq_some_iff.mp there
          exact (unused old found).connected socket
      · exact paced.frame (by simp [Pool.handleAccept, own])

theorem serverRun (fresh : p.reusablePool = []) (paced : Paced rs i n p) (memory : Unset) :
    Paced rs i n (p.serverRun memory) := by
  have sessions : (p.serverRun memory).sessions = p.sessions ++ [memory.world p.shared] := by
    simp [Pool.serverRun, fresh, Unset.world, Pool.shared]
  unfold Paced
  rw [sessions]
  rcases paced with ⟨l, left, there, inStep, below⟩ | ⟨all, unused⟩
  · have inside := (List.getElem?_eq_some_iff.mp there).1
    exact .inl ⟨l, left, by rw [List.getElem?_append_left inside, there], inStep, below⟩
  · refine .inr ⟨all, fun l there => ?_⟩
    rcases Sharing.found_concat there with ⟨-, rfl⟩ | old
    · exact .made memory _
    · exact unused l old

theorem run {m : Nat} (running : Running lib rs p) (paced : Paced rs i n p) (step : p.next lib (.run m) = some q) :
    Paced rs i n q := by
  obtain ⟨j, ⟨f, -, rfl⟩ | ⟨posted, w, found, alive, rfl⟩⟩ := Pool.run_cases step
  · exact paced.frame rfl
  · obtain ⟨l, there, rfl⟩ := Pool.world_eq_some found
    by_cases own : j = i
    · subst own
      obtain ⟨unused, client⟩ := running.client there (List.mem_of_getElem? posted)
      rcases paced with ⟨l', left, there', inStep, -⟩ | ⟨all, -⟩
      · obtain rfl : l = l' := Option.some.inj (there.symm.trans there')
        exact absurd unused inStep.used
      · have inside := (List.getElem?_eq_some_iff.mp there).1
        have starts : (l.seeing p.shared).exec (sessionTask lib (taskEnd lib) none) =
            World.accepted lib l.self p.db p.nmap := unused.started alive p.shared
        refine .inl ⟨_, _, List.getElem?_set_self inside, ?_, all⟩
        exact starts ▸ client.inStep p.db p.nmap
    · exact paced.frame (List.getElem?_set_ne own)

/-- A completion of the session's own leaves it less to do. -/
theorem session (wellFormed : ∀ i, ∀ r ∈ rs i, r.WellFormed)
    (login : ∀ i, ∀ r ∈ (rs i).head?, r.payload.action = some .reqLog) {j : Nat} {act : Act σ}
    (paced : Paced rs i n p)
    (orderly : p.Orderly rs lib (.session j act)) (step : p.next lib (.session j act) = some q) :
    ∃ m, Paced rs i m q ∧ m + (if PoolAct.completesAt i (.session j act) then 1 else 0) ≤ n := by
  obtain ⟨w, t, found, moved, rfl⟩ := Pool.session_cases step
  obtain ⟨l, there, rfl⟩ := Pool.world_eq_some found
  obtain ⟨unbroken, readable, -⟩ := orderly _ found
  by_cases own : j = i
  · subst own
    have inside := (List.getElem?_eq_some_iff.mp there).1
    have same : PoolAct.completesAt j (.session j act) = act.completes := by simp [PoolAct.completesAt]
    rw [same]
    rcases paced with ⟨l', left, there', inStep, below⟩ | ⟨all, unused⟩
    · obtain rfl : l = l' := Option.some.inj (there.symm.trans there')
      have seen : InStep (rs j) left (l.seeing p.shared) := inStep.same rfl
      obtain ⟨fewer, still, less⟩ := seen.stepped (wellFormed j) (login j) unbroken readable moved
      exact ⟨fewer, .inl ⟨t, fewer, List.getElem?_set_self inside, still, le_rfl⟩, less.trans below⟩
    · obtain ⟨still, nothing⟩ := ((unused l there).seeing p.shared).step moved
      have quiet : act.completes = false := by
        cases act with
        | complete c => cases nothing
        | checkMailBox => rfl
        | others db nmap => rfl
      refine ⟨n, .inr ⟨all, fun l' there' => ?_⟩, by simp [quiet]⟩
      obtain rfl : t = l' := Option.some.inj ((List.getElem?_set_self inside).symm.trans there')
      exact still
  · refine ⟨n, paced.frame (List.getElem?_set_ne own), ?_⟩
    simp [PoolAct.completesAt, own]

theorem next (wellFormed : ∀ i, ∀ r ∈ rs i, r.WellFormed)
    (login : ∀ i, ∀ r ∈ (rs i).head?, r.payload.action = some .reqLog) {act : PoolAct σ}
    (running : Running lib rs p)
    (paced : Paced rs i n p) (orderly : p.Orderly rs lib act) (step : p.next lib act = some q) :
    ∃ m, Paced rs i m q ∧ m + (if act.completesAt i then 1 else 0) ≤ n := by
  cases act with
  | handleAccept j accepted memory =>
      obtain ⟨waiting, rfl⟩ := Pool.handleAccept_cases step
      obtain ⟨done, projects⟩ := running.projects i
      have fresh := (projects.handleAccept waiting accepted).fresh
      exact ⟨n, (paced.handleAccept running waiting).serverRun fresh memory, le_rfl⟩
  | run m => exact ⟨n, paced.run running step, le_rfl⟩
  | session j act => exact paced.session wellFormed login orderly step
  | notifyAbortConnection m => exact orderly.elim

theorem start (db : σ) (memory : Unset) : Paced rs i (4 * (rs i).length) (Pool.start db memory) := by
  refine .inr ⟨le_rfl, fun l there => ?_⟩
  have made : l ∈ (Pool.start db memory).sessions := List.mem_of_getElem? there
  obtain rfl := List.mem_singleton.mp made
  exact .made memory (db, NMap.empty)

end Paced

/-- A session that was started has served all its requests, or has completions left, of
    which the next goes through. -/
theorem Paced.goes_on (lib : External σ) (wellFormed : ∀ r ∈ rs i, r.WellFormed) (paced : Paced rs i n p) {l : World σ}
    (there : p.sessions[i]? = some l) : Unused l ∨ Ended (rs i) (l.seeing p.shared) ∨
      0 < n ∧ ∀ got ret, (NineProject.next lib (l.seeing p.shared) (.complete ⟨0, none, got, ret⟩)).isSome = true := by
  rcases paced with ⟨l', left, there', inStep, below⟩ | ⟨-, unused⟩
  · obtain rfl : l = l' := Option.some.inj (there.symm.trans there')
    have seen : InStep (rs i) left (l.seeing p.shared) := inStep.same rfl
    rcases Nat.eq_zero_or_pos left with rfl | more
    · exact .inr (.inl seen.spent)
    · exact .inr ((seen.goes_on wellFormed).imp_right fun goes => ⟨more.trans_le below, goes⟩)
  · exact .inl (unused l there)

/-- In no run does a client take more than four completions for each of its requests,
    however slowly or often the others come, and until all are served its next completion
    goes through. -/
theorem server_paced {db : σ} {memory : Unset} {acts : List (PoolAct σ)}
    (wellFormed : ∀ i, ∀ r ∈ rs i, r.WellFormed)
    (login : ∀ i, ∀ r ∈ (rs i).head?, r.payload.action = some .reqLog)
    (orderly : Runs.Each (Pool.next lib) (fun p act => p.Orderly rs lib act) (Pool.start db memory) acts)
    (ran : Runs.after (Pool.next lib) (Pool.start db memory) acts = some p) :
    ∀ i, acts.countP (PoolAct.completesAt i) ≤ 4 * (rs i).length ∧
      ∀ l, p.sessions[i]? = some l → Unused l ∨ Ended (rs i) (l.seeing p.shared) ∨
        acts.countP (PoolAct.completesAt i) < 4 * (rs i).length ∧
          ∀ n ret, (next lib (l.seeing p.shared) (.complete ⟨0, none, n, ret⟩)).isSome = true := by
  intro i
  obtain ⟨m, ⟨-, paced⟩, bound⟩ := Runs.counted (I := fun n q => Running lib rs q ∧ Paced rs i n q)
    (fun n q act q' known orderly step => by
      obtain ⟨m, paced, less⟩ := known.2.next wellFormed login known.1 orderly step
      exact ⟨m, ⟨(known.1.next wellFormed login orderly step).1, paced⟩, less⟩)
    ⟨.start db memory, .start db memory⟩ orderly ran
  refine ⟨by omega, fun l there => ?_⟩
  refine (paced.goes_on lib (wellFormed i) there).imp_right fun served => ?_
  exact served.imp_right fun ⟨more, goes⟩ => ⟨by omega, goes⟩

end

theorem server_paced_annAsksBob :
    ∃ p, Runs.after (Pool.next memoryServer) (Pool.start twoUsers zeros) annAsksBob = some p ∧
      ∀ i, annAsksBob.countP (PoolAct.completesAt i) ≤ 4 * (annAndBob i).length ∧
        ∀ l, p.sessions[i]? = some l → Unused l ∨ Ended (annAndBob i) (l.seeing p.shared) ∨
          annAsksBob.countP (PoolAct.completesAt i) < 4 * (annAndBob i).length ∧
            ∀ n ret, (next memoryServer (l.seeing p.shared) (.complete ⟨0, none, n, ret⟩)).isSome = true := by
  obtain ⟨p, ran⟩ := annAsksBob_runs
  exact ⟨p, ran, server_paced annAndBob_wellFormed annAndBob_logIn (by decide +kernel) ran⟩

end NineProject
