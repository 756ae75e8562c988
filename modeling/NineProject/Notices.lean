import NineProject.Logins

/-! # What becomes of a notification

The users have each logged in once, so every array of flags belongs to one user and
is tested by one session. A flag of it is up exactly when the user was notified since
the session's last check, and that is when the next check makes a notice.
-/

namespace NineProject

open Bytes M Effect

variable {σ : Type} {i p task : Nat} {user : Str}

/-! ## Steps -/

namespace ServerAct

/-- The step notifies the user of the task. -/
def names (act : ServerAct σ) (user : Str) (task : Nat) : Bool :=
  match act with
  | .nmapNotify u k => u = user ∧ k.val = task
  | .nmapNotifyWithList users k => users.contains user && k.val = task
  | _ => false

/-- The step checks the mail box of the session. -/
def checks (act : ServerAct σ) (i : Nat) : Bool :=
  match act with
  | .checkMailBox j => j = i
  | _ => false

/-- A step that logs no one in. -/
def Mails : ServerAct σ → Prop
  | .sessionInit _ _ => False
  | _ => True

/-- A step that names no one but others, and is no check of the session. -/
def ForOthers (act : ServerAct σ) (user : Str) (i : Nat) : Prop :=
  act.checks i = false ∧ ∀ task, act.names user task = false

end ServerAct

/-- A step since the session's last check notified the user of the task. -/
def notifiedSince (i : Nat) (user : Str) (task : Nat) (acts : List (ServerAct σ)) : Bool :=
  (acts.rtakeWhile fun act => !act.checks i).any fun act => act.names user task

/-- The checks of the session that such a notification precedes. -/
def noticesDue (i : Nat) (user : Str) (task : Nat) (acts : List (ServerAct σ)) : Nat :=
  (List.range acts.length).countP fun n =>
    (acts[n]?).any (fun act => act.checks i) && notifiedSince i user task (acts.take n)

theorem notifiedSince_concat (acts : List (ServerAct σ)) (act : ServerAct σ) :
    notifiedSince i user task (acts ++ [act]) =
      (!act.checks i && (notifiedSince i user task acts || act.names user task)) := by
  unfold notifiedSince
  rw [List.rtakeWhile_concat]
  cases act.checks i with
  | true => rfl
  | false => simp

theorem noticesDue_concat (acts : List (ServerAct σ)) (act : ServerAct σ) :
    noticesDue i user task (acts ++ [act]) =
      noticesDue i user task acts + if act.checks i && notifiedSince i user task acts then 1 else 0 := by
  have before : (List.range acts.length).countP (fun n => ((acts ++ [act])[n]?).any (fun act => act.checks i) &&
      notifiedSince i user task ((acts ++ [act]).take n)) = noticesDue i user task acts := by
    refine List.countP_congr fun n inside => ?_
    have inside := List.mem_range.mp inside
    rw [List.getElem?_append_left inside, List.take_append_of_le_length inside.le]
  rw [noticesDue, List.length_append, List.length_singleton, List.range_succ, List.countP_append, before]
  simp

/-! ## Flags that belong together -/

namespace NMap

@[simp] theorem getNotifier_notify (m : NMap) (u v : Str) (k : Nat) :
    (m.notify u k).getNotifier v = m.getNotifier v := by
  unfold notify
  split <;> rfl

theorem getNotifier_notifyWithList (m : NMap) (users : List Str) (k : Nat) (v : Str) :
    (m.notifyWithList users k).getNotifier v = m.getNotifier v := by
  induction users generalizing m with
  | nil => rfl
  | cons u rest ih => exact (ih (m.notify u k)).trans (getNotifier_notify m u v k)

theorem notify_at (m : NMap) (u : Str) (k : Nat) :
    (m.notify u k).at_ p = if m.getNotifier u = some p then (m.at_ p).map fun a => a.renew k else m.at_ p := by
  unfold notify
  cases found : m.getNotifier u with
  | none => simp
  | some q => simp [at_modify]

/-- Only the names that the map has this array for raise a flag of it. -/
theorem notifyWithList_at {m : NMap} {flags : NotificationArr} (only : ∀ u, m.getNotifier u = some p ↔ u = user)
    (at_ : m.at_ p = some flags) (users : List Str) (k : Fin 10) :
    ∃ raised, (m.notifyWithList users k).at_ p = some raised ∧
      (∀ j, raised.getNew j = (flags.getNew j || decide (user ∈ users ∧ k.val = j))) ∧
      (user ∉ users → raised = flags) := by
  induction users generalizing m flags with
  | nil => exact ⟨flags, at_, by simp, fun _ => rfl⟩
  | cons u rest ih =>
      have kept : ∀ v, (m.notify u k).getNotifier v = some p ↔ v = user := by simpa using only
      by_cases same : u = user
      · have here : (m.notify u k).at_ p = some (flags.renew k) := by
          rw [notify_at, if_pos ((only u).mpr same), at_]
          rfl
        obtain ⟨raised, there, is, -⟩ := ih kept here
        refine ⟨raised, there, fun j => ?_, fun absent => absurd (by simp [same]) absent⟩
        rw [is, NotificationArr.renew_getNew flags k.val j k.isLt]
        by_cases up : k.val = j
        · simp [up, same]
        · simp [up, Ne.symm up]
      · have here : (m.notify u k).at_ p = some flags := by
          rw [notify_at, if_neg fun found => same ((only u).mp found), at_]
        obtain ⟨raised, there, is, rest_⟩ := ih kept here
        have apart : ¬ user = u := fun is => same is.symm
        refine ⟨raised, there, fun j => ?_, fun absent => rest_ fun member => absent (by simp [member])⟩
        rw [is]
        simp [apart]

end NMap

/-- The array is tested by this session alone, and the map has it for this user alone. -/
structure Server.Owns (s : Server σ) (i : Nat) (user : Str) (p : Nat) : Prop where
  map : ∀ u, s.nmap.getNotifier u = some p ↔ u = user
  tests : ∀ j, (s.sessions j).nf = some p ↔ j = i
  on : (s.sessions i).initialized = true

/-- So it is after logins of different users. -/
theorem Wired.owns {logins before after : List (Nat × Str)} {s : Server σ} (wired : Wired logins s)
    (once : (logins.map Prod.snd).Nodup) (split : logins = before ++ (i, user) :: after)
    (own : i ∉ after.map Prod.fst) : s.Owns i user before.length := by
  have here : logins[before.length]? = some (i, user) := by simp [split]
  obtain ⟨nf, on⟩ := wired.last before i user after split own
  refine ⟨fun u => ?_, fun j => ⟨fun tested => ?_, fun same => same ▸ nf⟩, on⟩
  · rw [wired.first]
    constructor
    · intro found
      obtain ⟨inside, is, -⟩ := List.findIdx?_eq_some_iff_getElem.mp found
      rw [List.getElem?_eq_getElem inside] at here
      rw [Option.some.inj here] at is
      exact (of_decide_eq_true is).symm
    · rintro rfl
      obtain ⟨first, found, -, is⟩ := findIdx?_split split
      have new : u ∉ before.map Prod.snd := by
        rw [split, List.map_append, List.map_cons, List.nodup_append] at once
        exact fun there => once.2.2 u there u (List.mem_cons_self) rfl
      rw [found, is.mpr new]
  · by_cases there : j ∈ logins.map Prod.fst
    · obtain ⟨earlier, other, rest, again, last⟩ := last_split there
      have index := Option.some.inj ((wired.last earlier j other rest again last).1.symm.trans tested)
      have same : logins[before.length]? = some (j, other) := by simp [again, ← index]
      rw [here] at same
      cases same
      rfl
    · rw [wired.strangers j there] at tested
      cases tested

/-- A check that returns leaves everything alone, or has looked at an array of flags. -/
theorem checkMailBox_cases {w t : World σ} (ran : checkMailBox w = .ok () t) :
    t = w ∨ ∃ q flags renewed, w.self.nf = some q ∧ w.nmap.at_ q = some flags ∧
      t = w.checked q flags renewed mailKinds := by
  cases on : w.self.initialized with
  | false =>
      have idle : checkMailBox w = .ok () w := by simp [checkMailBox, bind_apply, on]
      exact .inl (EStateM.Result.ok.inj (ran.symm.trans idle)).2
  | true =>
      cases found : w.self.nf.bind w.nmap.at_ with
      | none =>
          have stuck : checkMailBox w = .error (.fault .wildPointer) w := by
            simp [checkMailBox, bind_apply, on, mailKinds, checkMail, found]
          cases ran.symm.trans stuck
      | some flags =>
          obtain ⟨q, nf, at_⟩ := Option.bind_eq_some_iff.mp found
          obtain ⟨renewed, made⟩ := checkMailBox_eq on nf at_
          exact .inr ⟨q, flags, renewed, nf, at_, (EStateM.Result.ok.inj (ran.symm.trans made)).2⟩

/-- What a step does to the array of a user and to the session that tests it. -/
structure Server.Stepped (s : Server σ) (i : Nat) (user : Str) (p : Nat) (flags : NotificationArr)
    (act : ServerAct σ) (t : Server σ) : Prop where
  owns : t.Owns i user p
  array : ∃ new, t.nmap.at_ p = some new ∧ (∀ kind ∈ mailKinds,
    new.getNew kind.1 = (!act.checks i && (flags.getNew kind.1 || act.names user kind.1))) ∧
    (act.ForOthers user i → new = flags)
  notice : (t.sessions i).notice =
    (s.sessions i).notice ++ if act.checks i then noticesOf flags mailKinds else []

namespace Server.Owns

variable {s t : Server σ} {flags : NotificationArr}

theorem notified (owns : s.Owns i user p) (at_ : s.nmap.at_ p = some flags) (users : List Str) (k : Fin 10)
    {act : ServerAct σ} (quiet : act.checks i = false)
    (names : ∀ j, act.names user j = decide (user ∈ users ∧ k.val = j)) :
    s.Stepped i user p flags act { s with nmap := s.nmap.notifyWithList users k } := by
  obtain ⟨raised, there, is, same⟩ := NMap.notifyWithList_at owns.map at_ users k
  refine ⟨⟨fun u => ?_, owns.tests, owns.on⟩, ⟨raised, there, fun kind _ => ?_, fun others => same fun member => ?_⟩, ?_⟩
  · rw [NMap.getNotifier_notifyWithList]
    exact owns.map u
  · rw [is, quiet, names]
    rfl
  · have named := others.2 k.val
    rw [names] at named
    exact of_decide_eq_false named ⟨member, rfl⟩
  · simp [quiet]

theorem checked (owns : s.Owns i user p) (at_ : s.nmap.at_ p = some flags) {j : Nat}
    (called : s.call j checkMailBox = some t) :
    s.Stepped i user p flags (.checkMailBox j) t := by
  obtain ⟨w, ran, rfl⟩ := Server.call_eq_some called
  by_cases own : j = i
  · obtain ⟨renewed, made⟩ := checkMailBox_eq (w := s.world i) owns.on ((owns.tests i).mpr rfl) at_
    rw [own] at ran ⊢
    obtain rfl : w = _ := (EStateM.Result.ok.inj (ran.symm.trans made)).2
    have low : ∀ kind ∈ mailKinds, (lowered flags mailKinds).getNew kind.1 = false := fun kind member => by
      rw [lowered_getNew]
      simp [List.mem_map_of_mem member]
    refine ⟨⟨owns.map, fun j => ?_, ?_⟩, ⟨lowered flags mailKinds, ?_, fun kind member => ?_, fun others => ?_⟩, ?_⟩
    · by_cases here : j = i
      · simp [Server.leave, World.checked, here, Server.world, (owns.tests i).mpr rfl]
      · simp [Server.leave, here, owns.tests]
    · simp [Server.leave, World.checked, Server.world, owns.on]
    · simp [Server.leave, World.checked, Server.world, NMap.at_modify, at_]
    · simp [low kind member, ServerAct.checks]
    · simp [ServerAct.ForOthers, ServerAct.checks] at others
    · simp [Server.leave, World.checked, Server.world, ServerAct.checks]
  · have apart : i ≠ j := Ne.symm own
    have untouched : w.self.nf = (s.sessions j).nf ∧ (∀ u, w.nmap.getNotifier u = s.nmap.getNotifier u) ∧
        w.nmap.at_ p = s.nmap.at_ p := by
      rcases checkMailBox_cases ran with rfl | ⟨q, found, renewed, nf, -, rfl⟩
      · exact ⟨rfl, fun _ => rfl, rfl⟩
      · have other : q ≠ p := fun same => own ((owns.tests j).mp (same ▸ nf))
        exact ⟨rfl, fun _ => rfl, by simp [World.checked, Server.world, NMap.at_modify, other]⟩
    obtain ⟨nf, map, array⟩ := untouched
    have quiet : (ServerAct.checkMailBox j : ServerAct σ).checks i = false := by simp [ServerAct.checks, own]
    have same : (s.leave j w).sessions i = s.sessions i := by simp [Server.leave, apart]
    refine ⟨⟨fun u => ?_, fun k => ?_, ?_⟩, ⟨flags, array.trans at_, fun kind _ => ?_, fun _ => rfl⟩, ?_⟩
    · show w.nmap.getNotifier u = some p ↔ u = user
      rw [map, owns.map]
    · by_cases here : k = j
      · simp [Server.leave, here, nf, owns.tests]
      · simp [Server.leave, here, owns.tests]
    · rw [same]
      exact owns.on
    · simp [quiet, ServerAct.names]
    · simp [same, quiet]

/-- Anything but a login. -/
theorem step {lib : External σ} {act : ServerAct σ} (owns : s.Owns i user p)
    (at_ : s.nmap.at_ p = some flags) (mails : act.Mails) (step : Server.next lib s act = some t) :
    s.Stepped i user p flags act t := by
  cases act with
  | sessionInit j u => exact mails.elim
  | nmapNotify u k =>
      cases step
      refine owns.notified at_ [u] k rfl fun j => ?_
      simp [ServerAct.names, eq_comm]
  | nmapNotifyWithList users k =>
      cases step
      refine owns.notified at_ users k rfl fun j => ?_
      simp [ServerAct.names]
  | checkMailBox j => exact owns.checked at_ step
  | database db =>
      cases step
      exact ⟨⟨owns.map, owns.tests, owns.on⟩, ⟨flags, at_, by simp [ServerAct.checks, ServerAct.names],
        fun _ => rfl⟩, by simp [ServerAct.checks]⟩

end Server.Owns

/-! ## Runs -/

/-- What is up and what was made after some steps. -/
structure Tallied (i : Nat) (user : Str) (p : Nat) (s : Server σ) (acts : List (ServerAct σ))
    (t : Server σ) : Prop where
  owns : t.Owns i user p
  flags : ∃ flags, t.nmap.at_ p = some flags ∧
    ∀ kind ∈ mailKinds, flags.getNew kind.1 = notifiedSince i user kind.1 acts
  notices : ∃ new, (t.sessions i).notice = (s.sessions i).notice ++ new ∧
    ∀ kind ∈ mailKinds, new.count (noticeOf kind) = noticesDue i user kind.1 acts

/-- A check makes one notice of every kind that is up. -/
theorem noticesOf_count {flags : NotificationArr} {kind : Nat × Nat × ECommand} (member : kind ∈ mailKinds) :
    (noticesOf flags mailKinds).count (noticeOf kind) = if flags.getNew kind.1 then 1 else 0 := by
  have all : (mailKinds.map noticeOf).Nodup := by decide
  have once : (noticesOf flags mailKinds).Nodup := (List.filter_sublist.map noticeOf).nodup all
  rw [once.count]
  simp only [mem_noticesOf member]

namespace Tallied

variable {lib : External σ} {s t u : Server σ} {acts : List (ServerAct σ)} {act : ServerAct σ}

theorem step (tallied : Tallied i user p s acts t) (mails : act.Mails)
    (step : Server.next lib t act = some u) : Tallied i user p s (acts ++ [act]) u := by
  obtain ⟨flags, at_, up⟩ := tallied.flags
  obtain ⟨new, made, count⟩ := tallied.notices
  have stepped := tallied.owns.step at_ mails step
  obtain ⟨later, there, is, -⟩ := stepped.array
  refine ⟨stepped.owns, ⟨later, there, fun kind member => ?_⟩,
    new ++ if act.checks i then noticesOf flags mailKinds else [], ?_, fun kind member => ?_⟩
  · rw [is kind member, up kind member, notifiedSince_concat]
  · rw [stepped.notice, made, List.append_assoc]
  · rw [noticesDue_concat, ← count kind member]
    cases act.checks i with
    | true => simp [List.count_append, noticesOf_count member, up kind member]
    | false => simp

theorem run (start : Tallied i user p s [] s) (mails : ∀ act ∈ acts, act.Mails)
    (ran : Runs.after (Server.next lib) s acts = some t) : Tallied i user p s acts t := by
  induction acts using List.reverseRecOn generalizing t with
  | nil =>
      cases ran
      exact start
  | append_singleton acts act ih =>
      obtain ⟨u, before, step⟩ := Runs.after_concat.mp ran
      have earlier := ih (fun act member => mails act (List.mem_append_left _ member)) before
      exact earlier.step (mails act (by simp)) step

end Tallied

/-- The notices of a user's session are accounted for. -/
structure Accounted (lib : External σ) (i : Nat) (user : Str) (s : Server σ) (acts : List (ServerAct σ))
    (t : Server σ) : Prop where
  /-- As many notices of each kind as checks that a notification precedes. -/
  counted : ∃ new, (t.sessions i).notice = (s.sessions i).notice ++ new ∧
    ∀ kind ∈ mailKinds, new.count (noticeOf kind) = noticesDue i user kind.1 acts
  /-- A check appends its notices behind the earlier ones, in the order of the kinds. -/
  ordered : ∀ early late m m', acts = early ++ .checkMailBox i :: late →
    Runs.after (Server.next lib) s early = some m → Server.next lib m (.checkMailBox i) = some m' →
    (m'.sessions i).notice = (m.sessions i).notice ++
      (mailKinds.filter fun kind => notifiedSince i user kind.1 early).map noticeOf
  /-- Steps for others change neither the user's flags nor the session's notices. -/
  framed : ∀ early act late m m', acts = early ++ act :: late →
    Runs.after (Server.next lib) s early = some m → Server.next lib m act = some m' →
    act.ForOthers user i → (m'.nmap.getNotifier user).bind m'.nmap.at_ =
      (m.nmap.getNotifier user).bind m.nmap.at_ ∧ (m'.sessions i).notice = (m.sessions i).notice
  /-- The session's next check returns. -/
  returns : (Server.next lib t (.checkMailBox i)).isSome

theorem Tallied.accounted {lib : External σ} {s t : Server σ} {acts : List (ServerAct σ)}
    (start : Tallied i user p s [] s) (mails : ∀ act ∈ acts, act.Mails)
    (ran : Runs.after (Server.next lib) s acts = some t) : Accounted lib i user s acts t where
  counted := (start.run mails ran).notices
  ordered early late m m' split before step := by
    have tallied := start.run (fun act member => mails act (by simp [split, member])) before
    obtain ⟨flags, at_, up⟩ := tallied.flags
    have mails : (ServerAct.checkMailBox i : ServerAct σ).Mails := trivial
    have stepped := tallied.owns.step at_ mails step
    rw [stepped.notice]
    simp only [ServerAct.checks, decide_true, if_true, noticesOf]
    congr 2
    exact List.filter_congr up
  framed early act late m m' split before step others := by
    have tallied := start.run (fun act member => mails act (by simp [split, member])) before
    obtain ⟨flags, at_, up⟩ := tallied.flags
    have stepped := tallied.owns.step at_ (mails act (by simp [split])) step
    obtain ⟨later, there, -, same⟩ := stepped.array
    rw [(tallied.owns.map user).mpr rfl, (stepped.owns.map user).mpr rfl]
    refine ⟨?_, by rw [stepped.notice, others.1]; simp⟩
    rw [same others] at there
    exact there.trans at_.symm
  returns := by
    have tallied := start.run mails ran
    obtain ⟨flags, at_, -⟩ := tallied.flags
    obtain ⟨renewed, made⟩ := checkMailBox_eq (w := t.world i) tallied.owns.on
      ((tallied.owns.tests i).mpr rfl) at_
    simp [Server.next, Server.call, made]

/-- After logins of different users, whatever is notified and checked in whatever order. -/
theorem notices_accounted {lib : External σ} {s t u : Server σ} {history acts : List (ServerAct σ)}
    {before after : List (Nat × Str)} (new : s.New) (only : ∀ act ∈ history, act.LogsIn)
    (logged : Runs.after (Server.next lib) s history = some t)
    (once : ((loginsOf history).map Prod.snd).Nodup)
    (login : loginsOf history = before ++ (i, user) :: after) (own : i ∉ after.map Prod.fst)
    (mails : ∀ act ∈ acts, act.Mails) (ran : Runs.after (Server.next lib) t acts = some u) :
    Accounted lib i user t acts u := by
  have wired := new.wired.run only logged
  simp only [List.nil_append] at wired
  have fresh : t.nmap.at_ before.length = some NotificationArr.fresh := by
    simp [NMap.at_, wired.arrays, login]
  have start : Tallied i user before.length t [] t :=
    ⟨wired.owns once login own, ⟨_, fresh, by simp [notifiedSince]⟩, [], by simp, by simp [noticesDue]⟩
  exact start.accounted mails ran

/-- A message, a list with Ann in it twice and a stranger, and two checks of her mail box. -/
def annNotified : List (ServerAct Sql.Memory) :=
  [.nmapNotify (str "ann") 0, .nmapNotifyWithList [str "ann", str "bob", str "ann"] 0, .checkMailBox 0,
    .checkMailBox 0]

theorem notices_accounted_ann : ∃ t u, Accounted memoryServer 0 (str "ann") t annNotified u := by
  obtain ⟨u, ran⟩ := Option.isSome_iff_exists.mp (show (Runs.after (Server.next memoryServer) annServer
    (annLogsIn [0] ++ annNotified)).isSome by decide +kernel)
  rw [Runs.after_append] at ran
  obtain ⟨t, logged, ran⟩ := Option.bind_eq_some_iff.mp ran
  have login : loginsOf (annLogsIn [0]) = [] ++ (0, str "ann") :: [] := rfl
  exact ⟨t, u, notices_accounted annServer_new (annLogsIn_only [0]) logged (by decide) login (by simp)
    (by simp [annNotified, ServerAct.Mails]) ran⟩

end NineProject
