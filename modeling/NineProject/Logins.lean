import NineProject.Session.Server

/-! # Which session a notification reaches

A login allocates a new array of flags and has its session test that one, but the
map keeps the array of the user's first login. A notification raises a flag of the
array in the map, so it reaches a session as long as its user has logged in once.
-/

namespace NineProject

open Bytes M Effect

variable {σ : Type} {logins before after : List (Nat × Str)} {i : Nat} {user : Str}

/-! ## Notices -/

theorem noticeOf_injective {k kind : Nat × Nat × ECommand} (there : k ∈ mailKinds)
    (member : kind ∈ mailKinds) (same : noticeOf k = noticeOf kind) : k = kind := by
  have apart : ∀ k ∈ mailKinds, ∀ kind ∈ mailKinds, noticeOf k = noticeOf kind → k = kind := by decide
  exact apart k there kind member same

theorem mem_noticesOf {flags : NotificationArr} {kind : Nat × Nat × ECommand}
    (member : kind ∈ mailKinds) :
    noticeOf kind ∈ noticesOf flags mailKinds ↔ flags.getNew kind.1 = true := by
  constructor
  · intro made
    obtain ⟨k, raised, same⟩ := List.mem_map.mp made
    obtain ⟨there, raised⟩ := List.mem_filter.mp raised
    rwa [← noticeOf_injective there member same]
  · intro raised
    exact List.mem_map_of_mem (List.mem_filter.mpr ⟨member, raised⟩)

/-! ## First and last logins -/

theorem last_split (there : i ∈ logins.map Prod.fst) :
    ∃ before user after, logins = before ++ (i, user) :: after ∧ i ∉ after.map Prod.fst := by
  induction logins with
  | nil => simp at there
  | cons login rest ih =>
      by_cases later : i ∈ rest.map Prod.fst
      · obtain ⟨before, user, after, split, last⟩ := ih later
        exact ⟨login :: before, user, after, by rw [split]; rfl, last⟩
      · rcases List.mem_cons.mp there with here | there
        · exact ⟨[], login.2, rest, by rw [here]; rfl, later⟩
        · exact absurd there later

theorem findIdx?_split (split : logins = before ++ (i, user) :: after) :
    ∃ first, (logins.findIdx? fun l => l.2 = user) = some first ∧ first ≤ before.length ∧
      (first = before.length ↔ user ∉ before.map Prod.snd) := by
  rw [split, List.findIdx?_append]
  cases found : before.findIdx? fun l => l.2 = user with
  | some first =>
      obtain ⟨inside, is, -⟩ := List.findIdx?_eq_some_iff_getElem.mp found
      have earlier : user ∈ before.map Prod.snd :=
        of_decide_eq_true is ▸ List.mem_map_of_mem (List.getElem_mem inside)
      exact ⟨first, rfl, inside.le, iff_of_false inside.ne (not_not_intro earlier)⟩
  | none =>
      have none_ : user ∉ before.map Prod.snd := by
        have others := List.findIdx?_eq_none_iff.mp found
        intro there
        obtain ⟨login, member, is⟩ := List.mem_map.mp there
        exact absurd is (of_decide_eq_false (others login member))
      exact ⟨before.length, by simp [List.findIdx?_cons], le_rfl, iff_of_true rfl none_⟩

namespace Wired

variable {s : Server σ}

/-- The array a session tests is that of its own last login. -/
theorem tested (wired : Wired logins s) (split : logins = before ++ (i, user) :: after) :
    ∃ last, (s.sessions i).nf = some last ∧ (s.sessions i).initialized = true ∧
      last < logins.length ∧ before.length ≤ last ∧ (last = before.length ↔ i ∉ after.map Prod.fst) := by
  by_cases later : i ∈ after.map Prod.fst
  · obtain ⟨between, other, rest, again, last⟩ := last_split later
    have whole : logins = (before ++ (i, user) :: between) ++ (i, other) :: rest := by
      simp [split, again]
    obtain ⟨nf, on⟩ := wired.last _ i other rest whole last
    have longer : (before ++ (i, user) :: between).length = before.length + 1 + between.length := by
      simp only [List.length_append, List.length_cons]
      omega
    have all : logins.length = before.length + 1 + between.length + (rest.length + 1) := by
      rw [whole, List.length_append, longer, List.length_cons]
    refine ⟨_, nf, on, ?_, ?_, iff_of_false ?_ (not_not_intro later)⟩ <;> omega
  · obtain ⟨nf, on⟩ := wired.last before i user after split later
    exact ⟨_, nf, on, by simp [split], le_rfl, iff_of_true rfl later⟩

end Wired

/-! ## Notifications -/

/-- A notification reaches a session: the flag the session tests is raised, and its next
    check of the mail box makes a notice of it. -/
structure Server.Reaches (s : Server σ) (user : Str) (i : Nat) (kind : Nat × Nat × ECommand) : Prop where
  raised : ∃ flags, (s.sessions i).nf.bind (s.nmap.notify user kind.1).at_ = some flags ∧
    flags.getNew kind.1 = true
  noticed : noticeOf kind ∈ (({ s with nmap := s.nmap.notify user kind.1 }.world i).exec
    checkMailBox).self.notice.drop (s.sessions i).notice.length

/-- It does where the map has the array that the session tests. -/
theorem Wired.reaches_iff {s : Server σ} {first last : Nat} {kind : Nat × Nat × ECommand}
    (wired : Wired logins s) (member : kind ∈ mailKinds) (on : (s.sessions i).initialized = true)
    (nf : (s.sessions i).nf = some last) (inside : last < logins.length)
    (map : s.nmap.getNotifier user = some first) : s.Reaches user i kind ↔ first = last := by
  have fresh : s.nmap.at_ last = some NotificationArr.fresh := by
    simp [NMap.at_, wired.arrays, inside]
  have small : kind.1 < 10 := by
    have all : ∀ kind ∈ mailKinds, kind.1 < 10 := by decide
    exact all kind member
  obtain ⟨flags, at_, flag⟩ : ∃ flags, (s.nmap.notify user kind.1).at_ last = some flags ∧
      flags.getNew kind.1 = decide (first = last) := by
    simp only [NMap.notify, map, NMap.at_modify, fresh]
    split
    · next same => exact ⟨_, rfl, by simp [NotificationArr.renew_getNew, small, same]⟩
    · next apart => exact ⟨_, rfl, by simp [apart]⟩
  obtain ⟨renewed, ran⟩ := checkMailBox_eq
    (w := { s with nmap := s.nmap.notify user kind.1 }.world i) on nf at_
  have notice : (({ s with nmap := s.nmap.notify user kind.1 }.world i).exec
      checkMailBox).self.notice.drop (s.sessions i).notice.length = noticesOf flags mailKinds := by
    rw [World.exec, ran]
    exact List.drop_left
  constructor
  · intro reaches
    have made := reaches.noticed
    rw [notice, mem_noticesOf member, flag] at made
    exact of_decide_eq_true made
  · intro same
    have raised : flags.getNew kind.1 = true := flag.trans (decide_eq_true same)
    refine ⟨⟨flags, by rw [nf]; exact at_, raised⟩, ?_⟩
    rw [notice, mem_noticesOf member]
    exact raised

/-- After a history of logins, a notification reaches the session of one of them, the
    user's last in particular, exactly when it was the user's first and no one has logged
    in on the session since. -/
theorem notification_reaches_iff {lib : External σ} {s t : Server σ} {acts : List (ServerAct σ)}
    {kind : Nat × Nat × ECommand} (new : s.New) (only : ∀ act ∈ acts, act.LogsIn)
    (ran : Runs.after (Server.next lib) s acts = some t)
    (login : loginsOf acts = before ++ (i, user) :: after) (member : kind ∈ mailKinds) :
    t.Reaches user i kind ↔ user ∉ before.map Prod.snd ∧ i ∉ after.map Prod.fst := by
  have wired := new.wired.run only ran
  simp only [List.nil_append] at wired
  obtain ⟨tested, nf, on, inside, above, own⟩ := wired.tested login
  obtain ⟨first, found, below, once⟩ := findIdx?_split login
  rw [wired.reaches_iff member on nf inside ((wired.first user).trans found), ← once, ← own]
  omega

/-- A server with Ann among its users. -/
def annServer : Server Sql.Memory := ⟨annDb [], NMap.empty, fun _ => client []⟩

theorem annServer_new : annServer.New := ⟨rfl, fun _ => client_new []⟩

/-- Ann logs in on these sessions, one after the other. -/
def annLogsIn (sessions : List Nat) : List (ServerAct Sql.Memory) :=
  sessions.map fun i => .sessionInit i (str "ann")

theorem annLogsIn_only (sessions : List Nat) : ∀ act ∈ annLogsIn sessions, act.LogsIn := by
  intro act member
  obtain ⟨i, -, rfl⟩ := List.mem_map.mp member
  exact trivial

theorem notification_reaches_ann : ∃ t : Server Sql.Memory,
    Runs.after (Server.next memoryServer) annServer (annLogsIn [0]) = some t ∧
      (t.Reaches (str "ann") 0 (CheckListIndex.messageArr, MsReq.size, .getMsg) ↔
        str "ann" ∉ ([] : List (Nat × Str)).map Prod.snd ∧ 0 ∉ ([] : List (Nat × Str)).map Prod.fst) := by
  obtain ⟨t, ran⟩ := Option.isSome_iff_exists.mp
    (show (Runs.after (Server.next memoryServer) annServer (annLogsIn [0])).isSome by decide +kernel)
  have member : (CheckListIndex.messageArr, MsReq.size, ECommand.getMsg) ∈ mailKinds := by decide
  exact ⟨t, ran, notification_reaches_iff annServer_new (annLogsIn_only [0]) ran rfl member⟩

/-- Ann logs in again on another session. -/
theorem notification_missed :
    ¬ ∀ (s t : Server Sql.Memory) (acts : List (ServerAct Sql.Memory)) (before after : List (Nat × Str))
      (i : Nat) (user : Str), s.New → (∀ act ∈ acts, act.LogsIn) →
      Runs.after (Server.next memoryServer) s acts = some t →
      loginsOf acts = before ++ (i, user) :: after → user ∉ after.map Prod.snd →
      ∀ kind ∈ mailKinds, t.Reaches user i kind := by
  intro reaches
  obtain ⟨t, ran⟩ := Option.isSome_iff_exists.mp
    (show (Runs.after (Server.next memoryServer) annServer (annLogsIn [0, 1])).isSome by decide +kernel)
  have wired := annServer_new.wired.run (annLogsIn_only [0, 1]) ran
  obtain ⟨nf, on⟩ := wired.last [(0, str "ann")] 1 (str "ann") [] rfl (by simp)
  have member : (CheckListIndex.messageArr, MsReq.size, ECommand.getMsg) ∈ mailKinds := by decide
  have reached := reaches annServer t _ [(0, str "ann")] [] 1 (str "ann") annServer_new
    (annLogsIn_only [0, 1]) ran rfl (by simp) _ member
  have same := (wired.reaches_iff member on nf (by decide) (wired.first (str "ann"))).mp reached
  cases same

end NineProject
