import ProductivityApp.System.Device

/-!
# What a step of the device can do

Closed forms of the fields after a list of commands. Each field is touched by few commands, so
after a step it is what the event left there, followed by what the issued commands add. The laws are
proved from these and from what the app issues.
-/

namespace ProductivityApp

variable (device : Device) (origin : Origin) (commands : List Command)

namespace Device

@[simp]
theorem execAll_nil : device.execAll origin [] = device := rfl

@[simp]
theorem execAll_cons (command : Command) :
    device.execAll origin (command :: commands)
      = (device.exec origin command).execAll origin commands := rfl

theorem execAll_append (before after : List Command) :
    device.execAll origin (before ++ after)
      = (device.execAll origin before).execAll origin after :=
  List.foldl_append

theorem execAll_field {α : Type} (field : Device → α)
    (h : ∀ (device : Device) (command : Command), command ∈ commands →
      field (device.exec origin command) = field device) :
    field (device.execAll origin commands) = field device := by
  induction commands generalizing device with
  | nil => rfl
  | cons command commands ih =>
      have hlater := ih (device.exec origin command) fun device later hmem =>
        h device later (List.mem_cons_of_mem _ hmem)
      rw [execAll_cons, hlater, h device command List.mem_cons_self]

theorem execAll_list {α : Type} (field : Device → List α) (added : Command → Option α)
    (h : ∀ (device : Device) (command : Command),
      field (device.exec origin command) = field device ++ (added command).toList) :
    field (device.execAll origin commands) = field device ++ commands.filterMap added := by
  induction commands generalizing device with
  | nil => simp
  | cons command commands ih =>
      rw [execAll_cons, ih, h, List.append_assoc]
      congr 1
      cases hadded : added command with
      | none => simp [hadded]
      | some value => simp [hadded]

variable {commands}

theorem execAll_invariant {P : Device → Prop}
    (h : ∀ device command, P device → P (exec origin device command)) (hdevice : P device) :
    P (device.execAll origin commands) := by
  induction commands generalizing device with
  | nil => exact hdevice
  | cons command commands ih => exact ih _ (h device command hdevice)

/-- What holds after a list of commands held before it, or was brought about by one of them. -/
theorem execAll_cases {P : Device → Prop} {Q : Command → Prop}
    (h : ∀ device command, P (exec origin device command) → P device ∨ Q command)
    (hafter : P (device.execAll origin commands)) :
    P device ∨ ∃ command ∈ commands, Q command := by
  induction commands generalizing device with
  | nil => exact Or.inl hafter
  | cons command commands ih =>
      obtain hafter | ⟨later, hmem, hlater⟩ := ih _ hafter
      · exact (h device command hafter).imp_right fun hcommand =>
          ⟨command, List.mem_cons_self, hcommand⟩
      · exact Or.inr ⟨later, List.mem_cons_of_mem _ hmem, hlater⟩

variable (commands)

theorem signOut_field {α : Type} (field : Device → α)
    (h : ∀ (device : Device) (history : History),
      field { device with currentUser := none, history := history } = field device) :
    field device.signOut = field device := by
  unfold signOut
  split
  · exact h device _
  · rfl

@[simp]
theorem exec_keychain (command : Command) :
    (device.exec origin command).keychain = device.keychain := by
  cases command <;> first | rfl | exact signOut_field device Device.keychain fun _ _ => rfl

theorem exec_pending (command : Command) :
    (device.exec origin command).pending
      = device.pending ++ (command.pending origin).toList := by
  cases command <;>
    first
    | rfl
    | exact (List.append_nil _).symm
    | exact (signOut_field device Device.pending fun _ _ => rfl).trans (List.append_nil _).symm

theorem exec_writes (command : Command) :
    (device.exec origin command).writes = device.writes ++ (command.write origin).toList := by
  cases command <;>
    first
    | rfl
    | exact (List.append_nil _).symm
    | exact (signOut_field device Device.writes fun _ _ => rfl).trans (List.append_nil _).symm

theorem exec_listeners (command : Command) :
    (device.exec origin command).listeners = device.listeners ++ command.listener.toList := by
  cases command <;>
    first
    | rfl
    | exact (List.append_nil _).symm
    | exact (signOut_field device Device.listeners fun _ _ => rfl).trans (List.append_nil _).symm

@[simp]
theorem execAll_keychain : (device.execAll origin commands).keychain = device.keychain :=
  execAll_field device origin commands Device.keychain fun device command _ =>
    exec_keychain device origin command

@[simp]
theorem execAll_pending :
    (device.execAll origin commands).pending
      = device.pending ++ commands.filterMap (Command.pending origin) :=
  execAll_list device origin commands Device.pending _ fun device command =>
    exec_pending device origin command

@[simp]
theorem execAll_writes :
    (device.execAll origin commands).writes
      = device.writes ++ commands.filterMap (Command.write origin) :=
  execAll_list device origin commands Device.writes _ fun device command =>
    exec_writes device origin command

@[simp]
theorem execAll_listeners :
    (device.execAll origin commands).listeners
      = device.listeners ++ commands.filterMap Command.listener :=
  execAll_list device origin commands Device.listeners _ fun device command =>
    exec_listeners device origin command

/-! ### The session

`signOut` is the only command that changes who is signed in. -/

theorem exec_currentUser_of_ne {command : Command} (h : command ≠ .signOut) :
    (device.exec origin command).currentUser = device.currentUser := by
  cases command with
  | signOut => exact absurd rfl h
  | _ => rfl

theorem exec_history_of_ne {command : Command} (h : command ≠ .signOut) :
    (device.exec origin command).history = device.history := by
  cases command with
  | signOut => exact absurd rfl h
  | _ => rfl

variable {commands}

/-- `after` has the session of `before`. -/
def SameSession (before after : Device) : Prop :=
  after.currentUser = before.currentUser ∧ after.history = before.history

/-- `after` is `before` with its session ended by `logout`. -/
def LoggedOut (before after : Device) : Prop :=
  after.currentUser = none
    ∧ after.history
      = { before.history with lastLogout := some before.history.clock, reopened := false }

theorem signOut_session :
    device.SameSession device.signOut
      ∨ (device.LoggedOut device.signOut ∧ device.keychain = true) := by
  unfold signOut
  split
  · rename_i h
    exact Or.inr ⟨⟨rfl, rfl⟩, h.1⟩
  · exact Or.inl ⟨rfl, rfl⟩

theorem exec_session (command : Command) :
    device.SameSession (device.exec origin command)
      ∨ (device.LoggedOut (device.exec origin command) ∧ device.keychain = true
        ∧ command = .signOut) := by
  by_cases hcommand : command = .signOut
  · subst hcommand
    exact device.signOut_session.imp_right fun h => ⟨h.1, h.2, rfl⟩
  · exact Or.inl ⟨exec_currentUser_of_ne device origin hcommand,
      exec_history_of_ne device origin hcommand⟩

theorem exec_session_of_none (command : Command) (h : device.currentUser = none) :
    device.SameSession (device.exec origin command) := by
  by_cases hcommand : command = .signOut
  · subst hcommand
    have hsame : device.exec origin .signOut = device := by simp [exec, signOut, h]
    rw [hsame]
    exact ⟨rfl, rfl⟩
  · exact ⟨exec_currentUser_of_ne device origin hcommand,
      exec_history_of_ne device origin hcommand⟩

theorem execAll_session_of_none (commands : List Command) (h : device.currentUser = none) :
    device.SameSession (device.execAll origin commands) := by
  refine (@execAll_invariant device origin commands
    (fun after => device.SameSession after ∧ after.currentUser = none) ?_ ⟨⟨rfl, rfl⟩, h⟩).1
  rintro after command ⟨⟨huser, hhistory⟩, hnone⟩
  obtain ⟨huser', hhistory'⟩ := after.exec_session_of_none origin command hnone
  exact ⟨⟨huser'.trans huser, hhistory'.trans hhistory⟩, huser'.trans hnone⟩

theorem execAll_emailScreens {screen : Screen} {user : Uid}
    (h : ((device.execAll origin commands).emailScreens screen).user = some user) :
    (device.emailScreens screen).user = some user ∨ Command.openUpdateEmail user ∈ commands := by
  refine (@execAll_cases device origin commands
    (fun after => (after.emailScreens screen).user = some user) (· = .openUpdateEmail user)
    (fun after command hexec => ?_) h).imp_right fun ⟨_, hmem, heq⟩ => heq ▸ hmem
  cases command with
  | openUpdateEmail opened =>
      by_cases hscreen : screen = after.emailScreenCount
      · simp only [exec, hscreen, Function.update_self, Option.some.injEq] at hexec
        exact Or.inr (by rw [hexec])
      · left
        simpa only [exec, Function.update_of_ne hscreen] using hexec
  | signOut =>
      left
      have hsame : after.signOut.emailScreens = after.emailScreens :=
        signOut_field after Device.emailScreens fun _ _ => rfl
      rwa [exec, hsame] at hexec
  | _ => exact Or.inl hexec

theorem execAll_files {uid : Uid} {data : Data}
    (h : (device.execAll origin commands).files uid = some data) :
    device.files uid = some data ∨ Command.writeFile uid data ∈ commands := by
  refine (@execAll_cases device origin commands (·.files uid = some data) (· = .writeFile uid data)
    (fun after command hexec => ?_) h).imp_right fun ⟨_, hmem, heq⟩ => heq ▸ hmem
  cases command with
  | writeFile name written =>
      by_cases hname : uid = name
      · subst hname
        simp only [exec, Function.update_self, Option.some.injEq] at hexec
        exact Or.inr (by rw [hexec])
      · left
        simpa only [exec, Function.update_of_ne hname] using hexec
  | signOut =>
      left
      have hsame : after.signOut.files = after.files :=
        signOut_field after Device.files fun _ _ => rfl
      rwa [exec, hsame] at hexec
  | _ => exact Or.inl hexec

theorem execAll_emailScreens_of_lt {screen : Screen} (h : screen < device.emailScreenCount) :
    (device.execAll origin commands).emailScreens screen = device.emailScreens screen
      ∧ screen < (device.execAll origin commands).emailScreenCount := by
  refine @execAll_invariant device origin commands
    (fun after => after.emailScreens screen = device.emailScreens screen
      ∧ screen < after.emailScreenCount) (fun after command ⟨hscreen, hlt⟩ => ?_) ⟨rfl, h⟩
  cases command with
  | openUpdateEmail user =>
      exact ⟨(Function.update_of_ne (Nat.ne_of_lt hlt) _ _).trans hscreen, Nat.lt_succ_of_lt hlt⟩
  | signOut =>
      rw [exec, signOut_field after (fun device => device.emailScreens) fun _ _ => rfl,
        signOut_field after Device.emailScreenCount fun _ _ => rfl]
      exact ⟨hscreen, hlt⟩
  | _ => exact ⟨hscreen, hlt⟩

theorem execAll_opened
    (h : ∀ screen user, (device.emailScreens screen).user = some user →
      screen < device.emailScreenCount) :
    ∀ screen user, ((device.execAll origin commands).emailScreens screen).user = some user →
      screen < (device.execAll origin commands).emailScreenCount := by
  refine @execAll_invariant device origin commands
    (fun after => ∀ screen user, (after.emailScreens screen).user = some user →
      screen < after.emailScreenCount) (fun after command hopened screen user hscreen => ?_) h
  cases command with
  | openUpdateEmail opened =>
      by_cases hnew : screen = after.emailScreenCount
      · exact hnew ▸ Nat.lt_succ_self _
      · simp only [exec, Function.update_of_ne hnew] at hscreen
        exact Nat.lt_succ_of_lt (hopened screen user hscreen)
  | signOut =>
      rw [exec, signOut_field after (fun device => device.emailScreens) fun _ _ => rfl] at hscreen
      rw [exec, signOut_field after Device.emailScreenCount fun _ _ => rfl]
      exact hopened screen user hscreen
  | _ => exact hopened screen user hscreen

/-- A list of commands leaves the session alone or logs it out, once. -/
theorem execAll_session (commands : List Command) :
    device.SameSession (device.execAll origin commands)
      ∨ (device.LoggedOut (device.execAll origin commands) ∧ device.keychain = true
        ∧ Command.signOut ∈ commands) := by
  induction commands generalizing device with
  | nil => exact Or.inl ⟨rfl, rfl⟩
  | cons command commands ih =>
      rw [execAll_cons]
      obtain ⟨huser, hhistory⟩ | ⟨⟨hnone, hhistory⟩, hkeychain, rfl⟩ :=
        device.exec_session origin command
      · obtain ⟨huser', hhistory'⟩ | ⟨⟨hnone, hhistory'⟩, hkeychain, hmem⟩ :=
          ih (device.exec origin command)
        · exact Or.inl ⟨huser'.trans huser, hhistory'.trans hhistory⟩
        · rw [exec_keychain] at hkeychain
          exact Or.inr ⟨⟨hnone, by rw [hhistory', hhistory]⟩, hkeychain,
            List.mem_cons_of_mem _ hmem⟩
      · obtain ⟨huser', hhistory'⟩ :=
          (device.exec origin .signOut).execAll_session_of_none origin commands hnone
        exact Or.inr ⟨⟨huser'.trans hnone, hhistory'.trans hhistory⟩, hkeychain,
          List.mem_cons_self⟩

theorem execAll_currentUser_of_mem (hkeychain : device.keychain = true)
    (h : Command.signOut ∈ commands) : (device.execAll origin commands).currentUser = none := by
  induction commands generalizing device with
  | nil => cases h
  | cons command commands ih =>
      rw [execAll_cons]
      by_cases hnone : (device.exec origin command).currentUser = none
      · exact (Device.execAll_session_of_none _ origin commands hnone).1.trans hnone
      · refine ih _ (by rwa [exec_keychain]) ((List.mem_cons.mp h).resolve_left ?_)
        rintro rfl
        apply hnone
        cases huser : device.currentUser <;> simp [exec, signOut, hkeychain, huser]

end Device

/-! ### What an event leaves before the app reacts -/

/-- What an answer does to the session: nothing, a sign-in, or a refresh of the cached profile. -/
theorem Device.receive_cases {server after : Server} {pending : Pending} {answer : Answer}
    (h : server.respond pending.request answer = some after) :
    device.receive after pending answer = device
      ∨ (∃ uid, answer = .user uid ∧ (after.user uid).isSome
          ∧ device.receive after pending answer = device.signIn after uid pending)
      ∨ ∃ uid, (after.user uid).isSome
          ∧ device.receive after pending answer
              = device.refresh after uid pending.origin.object := by
  cases answer with
  | user uid =>
      have huser := Server.user_of_respond_user h
      cases hrequest : pending.request with
      | createUser _ _ | signIn _ _ =>
          exact Or.inr (Or.inl ⟨uid, rfl, huser, by simp [receive, hrequest]⟩)
      | _ => exact Or.inl (by simp [receive, hrequest])
  | success =>
      cases hrequest : pending.request with
      | updateEmail uid _ | updatePassword uid _ | commitChanges uid _ =>
          rw [hrequest] at h
          exact Or.inr (Or.inr ⟨uid, Server.user_of_changeAccount h, by simp [receive, hrequest]⟩)
      | reload uid =>
          simp only [hrequest, Server.respond, Option.ite_none_right_eq_some,
            Option.some.injEq] at h
          obtain ⟨haccount, rfl⟩ := h
          exact Or.inr (Or.inr ⟨uid, by simpa [Server.user] using haccount,
            by simp [receive, hrequest]⟩)
      | _ => exact Or.inl (by simp [receive, hrequest])
  | _ => exact Or.inl (by simp [receive])

theorem Device.uid_refresh (device : Device) {server : Server} {uid user : Uid} (object : ℕ)
    (hcurrent : device.currentUser.map User.uid = some user) (huser : (server.user uid).isSome) :
    (device.refresh server uid object).currentUser.map User.uid = some user := by
  by_cases hinPlace : device.currentUser.map User.uid = some uid ∧ device.userObject = object
  · obtain ⟨refreshed, hrefreshed⟩ := Option.isSome_iff_exists.mp huser
    rw [Device.refresh, if_pos hinPlace, ← hcurrent, hinPlace.1]
    simp [hrefreshed, Server.user_uid hrefreshed]
  · rw [Device.refresh, if_neg hinPlace, hcurrent]

theorem Device.receive_field {α : Type} (field : Device → α) {server after : Server}
    {pending : Pending} {answer : Answer}
    (hrespond : server.respond pending.request answer = some after)
    (h : ∀ (device : Device) (user : Option User) (object : ℕ) (history : History),
      field { device with currentUser := user, userObject := object, history := history }
        = field device) :
    field (device.receive after pending answer) = field device := by
  obtain hsame | ⟨uid, -, -, hsignIn⟩ | ⟨uid, -, hrefresh⟩ := device.receive_cases hrespond
  · rw [hsame]
  · rw [hsignIn]
    exact h device _ _ _
  · rw [hrefresh, refresh]
    split
    · exact h device _ device.userObject device.history
    · rfl

/-- The two are one call, at possibly different stages. -/
def Pending.SameCall (before after : Pending) : Prop :=
  after.request = before.request ∧ after.completion = before.completion
    ∧ after.origin = before.origin

/-- A pending `createUser` or `signIn` succeeds, with this account. -/
def World.SignsIn (w : World) (e : Event) (pending : Pending) (uid : Uid) : Prop :=
  w.device.crashed = false ∧ ∃ index, e = .answer index (.user uid)
    ∧ w.device.pending[index]? = some pending ∧ pending.answer = none
    ∧ (w.server.respond pending.request (.user uid)).isSome

theorem Command.origin_of_pending {command : Command} {pending : Pending}
    (h : command.pending origin = some pending) : pending.origin = origin := by
  cases command <;> first | cases h; rfl | cases h

theorem Command.origin_of_write {command : Command} {write : Write}
    (h : command.write origin = some write) : write.origin = origin := by
  cases command <;> first | cases h; rfl | cases h

namespace World

variable {w : World} {e : Event}

theorem SignsIn.mem {pending : Pending} {uid : Uid} (h : w.SignsIn e pending uid) :
    pending ∈ w.device.pending := by
  obtain ⟨-, index, -, hpending, -⟩ := h
  exact List.mem_of_getElem? hpending

theorem SignsIn.signsIn {pending : Pending} {uid : Uid} (h : w.SignsIn e pending uid) :
    pending.request.signsIn = true := by
  obtain ⟨-, index, -, -, -, hrespond⟩ := h
  obtain ⟨after, hafter⟩ := Option.isSome_iff_exists.mp hrespond
  exact Server.signsIn_of_respond_user hafter

theorem answered_eq_some {index : ℕ} {pending : Pending} {answer : Answer} :
    w.answered index = some (pending, answer)
      ↔ w.device.pending[index]? = some pending ∧ pending.answer = some answer := by
  constructor
  · intro h
    obtain ⟨before, hbefore, hanswer⟩ := Option.bind_eq_some_iff.mp h
    obtain ⟨before', hbefore', heq⟩ := Option.map_eq_some_iff.mp hanswer
    obtain ⟨rfl, rfl⟩ := Prod.mk.inj heq
    exact ⟨hbefore, hbefore'⟩
  · rintro ⟨hpending, hanswer⟩
    simp [answered, hpending, hanswer]

theorem mem_of_answered {index : ℕ} {pending : Pending} {answer : Answer}
    (h : w.answered index = some (pending, answer)) :
    pending ∈ w.device.pending ∧ pending.answer = some answer :=
  (answered_eq_some.mp h).imp_left List.mem_of_getElem?

theorem origin_startedAt_le
    (h : ∀ pending ∈ w.device.pending, pending.origin.startedAt < w.device.history.clock) :
    (w.origin e).startedAt ≤ w.device.history.clock := by
  cases e with
  | complete index =>
      simp only [origin]
      split
      · exact le_rfl
      · rename_i pending answer hanswered
        exact (h pending (mem_of_answered hanswered).1).le
  | _ => exact le_rfl

theorem step_of_crashed (h : w.device.crashed = true) : w.step e = w := if_pos h

theorem step_of_running (h : w.device.crashed = false) :
    w.step e = { server := (w.arrive e).server, device := w.react e } :=
  if_neg (by simp [h])

theorem commands_of_crashed (h : w.device.crashed = true) : w.commands e = [] := if_pos h

theorem commands_of_running (h : w.device.crashed = false) : w.commands e = w.handle e :=
  if_neg (by simp [h])

theorem running_of_mem_commands {command : Command} (h : command ∈ w.commands e) :
    w.device.crashed = false := by
  by_contra hcrashed
  rw [commands_of_crashed (by simpa using hcrashed)] at h
  cases h

/-- What an answer that can be given changes: the servers, the session and the request's own
entry. -/
structure Answers (w : World) (index : ℕ) (answer : Answer) (pending : Pending) (after : Server) :
    Prop where
  pending_eq : w.device.pending[index]? = some pending
  unanswered : pending.answer = none
  respond_eq : w.server.respond pending.request answer = some after
  arrive_eq : w.arrive (.answer index answer)
    = { server := after
        device := { w.device.receive after pending answer with
          pending := w.device.pending.set index { pending with answer := some answer } } }

theorem arrive_answer_eq {index : ℕ} {answer : Answer} :
    w.arrive (.answer index answer) = w.answer index answer := rfl

theorem arrive_answer {index : ℕ} {answer : Answer} {pending : Pending} {after : Server}
    (hpending : w.device.pending[index]? = some pending) (hunanswered : pending.answer = none)
    (hrespond : w.server.respond pending.request answer = some after) :
    w.arrive (.answer index answer)
      = { server := after
          device := { w.device.receive after pending answer with
            pending := w.device.pending.set index { pending with answer := some answer } } } := by
  simp [arrive_answer_eq, World.answer, hpending, hunanswered, hrespond]

theorem arrive_answer_cases (w : World) (index : ℕ) (answer : Answer) :
    w.arrive (.answer index answer) = w
      ∨ ∃ pending after, w.Answers index answer pending after := by
  cases hpending : w.device.pending[index]? with
  | none => exact Or.inl (by simp [arrive_answer_eq, World.answer, hpending])
  | some pending =>
      by_cases hunanswered : pending.answer = none
      · cases hrespond : w.server.respond pending.request answer with
        | none => exact Or.inl (by simp [arrive_answer_eq, World.answer, hpending, hrespond])
        | some after =>
            exact Or.inr ⟨pending, after, hpending, hunanswered, hrespond,
              arrive_answer hpending hunanswered hrespond⟩
      · have hanswered : pending.answer.isSome := Option.isSome_iff_ne_none.mpr hunanswered
        exact Or.inl (by simp [arrive_answer_eq, World.answer, hpending, hanswered])

theorem arrive_answer_field {α : Type} (field : Device → α) (index : ℕ) (answer : Answer)
    (h : ∀ (device : Device) (user : Option User) (object : ℕ) (history : History)
      (pending : List Pending), field { device with
        currentUser := user, userObject := object, history := history, pending := pending }
      = field device) :
    field (w.arrive (.answer index answer)).device = field w.device := by
  obtain hsame | ⟨pending, after, hanswers⟩ := w.arrive_answer_cases index answer
  · rw [hsame]
  · have hpending (device : Device) (pending : List Pending) :
        field { device with pending := pending } = field device :=
      h device device.currentUser device.userObject device.history pending
    rw [hanswers.arrive_eq, hpending]
    exact w.device.receive_field field hanswers.respond_eq fun device user object history =>
      h device user object history device.pending

theorem arrive_complete {index : ℕ} {call : Pending × Answer} (h : w.answered index = some call) :
    w.arrive (.complete index)
      = { w with device := { w.device with pending := w.device.pending.eraseIdx index } } := by
  simp [arrive, h]

theorem arrive_complete_of_none {index : ℕ} (h : w.answered index = none) :
    w.arrive (.complete index) = w := by
  simp [arrive, h]

theorem arrive_complete_eq (w : World) (index : ℕ) :
    ∃ pending, pending.Sublist w.device.pending
      ∧ w.arrive (.complete index) = { w with device := { w.device with pending } } := by
  cases hanswered : w.answered index with
  | none => exact ⟨_, List.Sublist.refl _, arrive_complete_of_none hanswered⟩
  | some call => exact ⟨_, List.eraseIdx_sublist _ index, arrive_complete hanswered⟩

theorem arrive_complete_field {α : Type} (field : Device → α) (index : ℕ)
    (h : ∀ (device : Device) (pending : List Pending),
      field { device with pending := pending } = field device) :
    field (w.arrive (.complete index)).device = field w.device := by
  obtain ⟨pending, -, harrive⟩ := w.arrive_complete_eq index
  rw [harrive]
  exact h _ _

/-- A write that lands leaves the queue, and leaves Auth alone. -/
theorem arrive_writeLands_eq (w : World) (accepted : Bool) :
    ∃ server writes, server.accounts = w.server.accounts ∧ writes.Sublist w.device.writes
      ∧ w.arrive (.writeLands accepted) = { server, device := { w.device with writes } } := by
  cases hwrites : w.device.writes with
  | nil =>
      have harrive : w.arrive (.writeLands accepted) = w := by simp [arrive, hwrites]
      exact ⟨w.server, w.device.writes, rfl, by rw [hwrites], harrive⟩
  | cons write writes =>
      refine ⟨_, writes, ?_, List.sublist_cons_self _ _, by simp only [arrive, hwrites]; rfl⟩
      split <;> rfl

theorem arrive_writeLands_field {α : Type} (field : Device → α) (accepted : Bool)
    (h : ∀ (device : Device) (writes : List Write),
      field { device with writes := writes } = field device) :
    field (w.arrive (.writeLands accepted)).device = field w.device := by
  obtain ⟨server, writes, -, -, harrive⟩ := w.arrive_writeLands_eq accepted
  rw [harrive]
  exact h _ _

theorem arrive_listeners : (w.arrive e).device.listeners = w.device.listeners := by
  cases e with
  | answer index answer =>
      exact arrive_answer_field Device.listeners index answer fun _ _ _ _ _ => rfl
  | complete index => exact arrive_complete_field Device.listeners index fun _ _ => rfl
  | writeLands accepted => exact arrive_writeLands_field Device.listeners accepted fun _ _ => rfl
  | _ => rfl

theorem mem_listeners_step {listener : Listener} (h : listener ∈ (w.step e).device.listeners) :
    listener ∈ w.device.listeners ∨ ∃ c ∈ w.commands e, c.listener = some listener := by
  cases hcrashed : w.device.crashed with
  | true => exact Or.inl (by rwa [step_of_crashed hcrashed] at h)
  | false =>
      rw [step_of_running hcrashed] at h
      simpa [react, arrive_listeners] using h

theorem commands_of_handle (h : w.handle e = []) : w.commands e = [] := by
  cases hcrashed : w.device.crashed with
  | true => exact commands_of_crashed hcrashed
  | false => rw [commands_of_running hcrashed, h]

theorem commands_answer {index : ℕ} {answer : Answer} : w.commands (.answer index answer) = [] :=
  commands_of_handle rfl

theorem commands_writeLands {accepted : Bool} : w.commands (.writeLands accepted) = [] :=
  commands_of_handle rfl

theorem commands_complete {index : ℕ} {pending : Pending} {answer : Answer}
    (hrunning : w.device.crashed = false) (h : w.answered index = some (pending, answer)) :
    w.commands (.complete index) = completed w.device answer pending.completion := by
  rw [commands_of_running hrunning]
  simp [handle, h]

theorem complete_eq_of_answered_none {index : ℕ} (h : w.answered index = none) :
    w.arrive (.complete index) = w ∧ w.commands (.complete index) = [] :=
  ⟨arrive_complete_of_none h, commands_of_handle (by simp [handle, h])⟩

theorem step_complete {index : ℕ} {pending : Pending} {answer : Answer}
    (hrunning : w.device.crashed = false) (h : w.answered index = some (pending, answer)) :
    ∃ origin history, w.step (.complete index) = { w with device :=
      { ({ w.device with pending := w.device.pending.eraseIdx index } : Device).execAll origin
          (completed w.device answer pending.completion) with
        history := history } } := by
  rw [step_of_running hrunning, react, commands_complete hrunning h, arrive_complete h]
  exact ⟨_, _, rfl⟩

/-- A step that issues nothing leaves what the event left, and takes time. -/
theorem step_of_no_commands (hrunning : w.device.crashed = false) (hcommands : w.commands e = []) :
    ∃ history, w.step e
      = { server := (w.arrive e).server, device := { (w.arrive e).device with history } } := by
  rw [step_of_running hrunning, react, hcommands]
  exact ⟨_, rfl⟩

theorem step_complete_none {index : ℕ} (hrunning : w.device.crashed = false)
    (h : w.answered index = none) :
    ∃ history, w.step (.complete index) = { w with device := { w.device with history } } := by
  obtain ⟨harrive, hcommands⟩ := complete_eq_of_answered_none h
  obtain ⟨history, hstep⟩ := step_of_no_commands hrunning hcommands
  rw [harrive] at hstep
  exact ⟨history, hstep⟩

theorem step_pending (hrunning : w.device.crashed = false) :
    (w.step e).device.pending
      = (w.arrive e).device.pending
        ++ (w.commands e).filterMap (Command.pending (w.origin e)) := by
  rw [step_of_running hrunning]
  simp [react]

theorem step_writes (hrunning : w.device.crashed = false) :
    (w.step e).device.writes
      = (w.arrive e).device.writes
        ++ (w.commands e).filterMap (Command.write (w.origin e)) := by
  rw [step_of_running hrunning]
  simp [react]

theorem emailScreens_step {screen : Screen} {user : Uid}
    (h : ((w.step e).device.emailScreens screen).user = some user) :
    (w.device.emailScreens screen).user = some user
      ∨ Command.openUpdateEmail user ∈ w.commands e := by
  cases hcrashed : w.device.crashed with
  | true => exact Or.inl (by rwa [step_of_crashed hcrashed] at h)
  | false =>
      rw [step_of_running hcrashed] at h
      obtain h | hmem := Device.execAll_emailScreens _ _ h
      · left
        cases e with
        | answer index answer =>
            rwa [arrive_answer_field Device.emailScreens index answer fun _ _ _ _ _ => rfl] at h
        | complete index =>
            rwa [arrive_complete_field Device.emailScreens index fun _ _ => rfl] at h
        | writeLands accepted =>
            rwa [arrive_writeLands_field Device.emailScreens accepted fun _ _ => rfl] at h
        | editNewEmail edited text =>
            by_cases hedited : screen = edited
            · subst hedited
              simpa [arrive] using h
            · simpa [arrive, Function.update_of_ne hedited] using h
        | _ => exact h
      · exact Or.inr hmem

theorem mem_writes_step {write : Write} (h : write ∈ (w.step e).device.writes) :
    write ∈ w.device.writes ∨ ∃ c ∈ w.commands e, c.write (w.origin e) = some write := by
  cases hcrashed : w.device.crashed with
  | true => exact Or.inl (by rwa [step_of_crashed hcrashed] at h)
  | false =>
      rw [step_writes hcrashed, List.mem_append, List.mem_filterMap] at h
      refine h.imp_left fun h => ?_
      cases e with
      | answer index answer =>
          rwa [arrive_answer_field Device.writes index answer fun _ _ _ _ _ => rfl] at h
      | complete index =>
          rwa [arrive_complete_field Device.writes index fun _ _ => rfl] at h
      | writeLands accepted =>
          obtain ⟨server, writes, -, hwrites, harrive⟩ := w.arrive_writeLands_eq accepted
          rw [harrive] at h
          exact hwrites.subset h
      | _ => exact h

theorem pending_step_cases {pending : Pending} (h : pending ∈ (w.step e).device.pending) :
    pending ∈ w.device.pending
      ∨ (∃ index answer before after, e = .answer index answer
          ∧ w.Answers index answer before after ∧ pending = { before with answer := some answer })
      ∨ ∃ c ∈ w.commands e, c.pending (w.origin e) = some pending := by
  cases hcrashed : w.device.crashed with
  | true => exact Or.inl (by rwa [step_of_crashed hcrashed] at h)
  | false =>
      rw [step_pending hcrashed, List.mem_append, List.mem_filterMap] at h
      obtain h | h := h
      · cases e with
        | answer index answer =>
            obtain hsame | ⟨before, after, hanswers⟩ := w.arrive_answer_cases index answer
            · exact Or.inl (by rwa [hsame] at h)
            · rw [hanswers.arrive_eq] at h
              obtain hmem | rfl := List.mem_or_eq_of_mem_set h
              · exact Or.inl hmem
              · exact Or.inr (Or.inl ⟨index, answer, before, after, rfl, hanswers, rfl⟩)
        | complete index =>
            obtain ⟨calls, hcalls, harrive⟩ := w.arrive_complete_eq index
            rw [harrive] at h
            exact Or.inl (hcalls.subset h)
        | writeLands accepted =>
            rw [arrive_writeLands_field Device.pending accepted fun _ _ => rfl] at h
            exact Or.inl h
        | _ => exact Or.inl h
      · exact Or.inr (Or.inr h)

theorem mem_pending_step {pending : Pending} (h : pending ∈ (w.step e).device.pending) :
    (∃ before ∈ w.device.pending, before.SameCall pending)
      ∨ ∃ c ∈ w.commands e, c.pending (w.origin e) = some pending := by
  obtain hmem | ⟨index, answer, before, after, -, hanswers, rfl⟩ | hissued := pending_step_cases h
  · exact Or.inl ⟨pending, hmem, rfl, rfl, rfl⟩
  · exact Or.inl ⟨before, List.mem_of_getElem? hanswers.pending_eq, rfl, rfl, rfl⟩
  · exact Or.inr hissued

theorem SignsIn.arrive {pending : Pending} {uid : Uid} (h : w.SignsIn e pending uid) :
    (w.arrive e).device.currentUser = (w.arrive e).server.user uid
      ∧ (w.arrive e).device.currentUser.isSome
      ∧ (w.arrive e).device.history = { w.device.history with
          reopened := w.device.history.reopened
            || (pending.completion.opensSession
              && w.device.history.startedSince pending.origin) } := by
  have hsignsIn := h.signsIn
  obtain ⟨-, index, rfl, hpending, hunanswered, hrespond⟩ := h
  obtain ⟨after, hafter⟩ := Option.isSome_iff_exists.mp hrespond
  have huser := Server.user_of_respond_user hafter
  rw [arrive_answer hpending hunanswered hafter]
  cases hrequest : pending.request with
  | createUser _ _ | signIn _ _ => simp [Device.receive, hrequest, Device.signIn, huser]
  | _ => rw [hrequest] at hsignsIn; cases hsignsIn

/-- What an event does to the session before the app reacts: nothing, a sign-in, a refresh of the
cached profile, or the end of the session by Auth. -/
inductive ArrivedSession (w : World) : Event → Prop
  | same {e : Event} : w.device.SameSession (w.arrive e).device → ArrivedSession w e
  | signedIn {e : Event} {pending : Pending} {uid : Uid} :
      w.SignsIn e pending uid → ArrivedSession w e
  | refreshed {e : Event} {user refreshed : User} :
      w.device.currentUser = some user → (w.arrive e).device.currentUser = some refreshed →
      (w.arrive e).server.user user.uid = some refreshed → refreshed.uid = user.uid →
      (w.arrive e).device.history = w.device.history → ArrivedSession w e
  | revoked : ArrivedSession w .tokenRevoked

theorem arrivedSession (w : World) (e : Event) (hrunning : w.device.crashed = false) :
    w.ArrivedSession e := by
  cases e with
  | answer index answer =>
      obtain hsame | ⟨pending, after, hanswers⟩ := w.arrive_answer_cases index answer
      · exact .same (by simp [hsame, Device.SameSession])
      · have harrive := hanswers.arrive_eq
        obtain hsame | ⟨uid, rfl, -, -⟩ | ⟨uid, huser, hreceive⟩ :=
          w.device.receive_cases hanswers.respond_eq
        · exact .same (by simp [harrive, hsame, Device.SameSession])
        · exact .signedIn ⟨hrunning, index, rfl, hanswers.pending_eq, hanswers.unanswered,
            by simp [hanswers.respond_eq]⟩
        · obtain ⟨refreshed, hrefreshed⟩ := Option.isSome_iff_exists.mp huser
          by_cases hsame : w.device.currentUser.map User.uid = some uid
              ∧ w.device.userObject = pending.origin.object
          · obtain ⟨user, hcurrent, rfl⟩ := Option.map_eq_some_iff.mp hsame.1
            refine @ArrivedSession.refreshed w _ user refreshed hcurrent ?_ ?_ ?_ ?_
            · simp [harrive, hreceive, Device.refresh, hsame, hrefreshed]
            · simp [harrive, hrefreshed]
            · exact Server.user_uid hrefreshed
            · simp [harrive, hreceive, Device.refresh, hsame]
          · have hkept : w.device.refresh after uid pending.origin.object = w.device := if_neg hsame
            exact .same (by simp [harrive, hreceive, hkept, Device.SameSession])
  | tokenRevoked => exact .revoked
  | complete index =>
      exact .same ⟨arrive_complete_field Device.currentUser index fun _ _ => rfl,
        arrive_complete_field Device.history index fun _ _ => rfl⟩
  | writeLands accepted =>
      exact .same ⟨arrive_writeLands_field Device.currentUser accepted fun _ _ => rfl,
        arrive_writeLands_field Device.history accepted fun _ _ => rfl⟩
  | _ => exact .same ⟨rfl, rfl⟩

theorem session_step (hrunning : w.device.crashed = false) :
    ((w.step e).device.currentUser = (w.arrive e).device.currentUser
        ∧ (w.step e).device.history = { (w.arrive e).device.history with
            clock := (w.arrive e).device.history.clock + 1 })
      ∨ ((w.step e).device.currentUser = none
        ∧ (w.step e).device.history =
          { clock := (w.arrive e).device.history.clock + 1
            lastLogout := some (w.arrive e).device.history.clock
            reopened := false }
        ∧ (w.arrive e).device.keychain = true ∧ Command.signOut ∈ w.commands e) := by
  rw [step_of_running hrunning]
  obtain ⟨huser, hhistory⟩ | ⟨⟨hnone, hhistory⟩, hkeychain, hmem⟩ :=
    (w.arrive e).device.execAll_session (w.origin e) (w.commands e)
  · exact Or.inl ⟨huser, by simp [react, hhistory]⟩
  · exact Or.inr ⟨hnone, by simp [react, hhistory], hkeychain, hmem⟩

theorem SignsIn.currentUser_step {pending : Pending} {uid : Uid} (h : w.SignsIn e pending uid) :
    (w.step e).device.currentUser.map User.uid = some uid
      ∧ ((w.step e).server.user uid).isSome := by
  have hrunning := h.1
  obtain ⟨huser, hsome, -⟩ := h.arrive
  obtain ⟨-, index, rfl, -⟩ := h
  rw [step_of_running hrunning]
  simp only [react, commands_answer, Device.execAll_nil]
  obtain ⟨user, hcurrent⟩ := Option.isSome_iff_exists.mp hsome
  rw [hcurrent] at huser ⊢
  exact ⟨by rw [Option.map_some, Server.user_uid huser.symm], by simp [← huser]⟩

theorem mem_pending_step_of_answered {pending : Pending} (h : pending ∈ w.device.pending)
    (hanswered : pending.answer.isSome)
    (hcomplete : ∀ index answer, e = .complete index → w.device.crashed = false →
      w.answered index ≠ some (pending, answer)) :
    pending ∈ (w.step e).device.pending := by
  cases hcrashed : w.device.crashed with
  | true => rwa [step_of_crashed hcrashed]
  | false =>
      rw [step_pending hcrashed, List.mem_append]
      left
      cases e with
      | answer index answer =>
          obtain hsame | ⟨before, after, hanswers⟩ := w.arrive_answer_cases index answer
          · rwa [hsame]
          · rw [hanswers.arrive_eq]
            obtain ⟨i, hi⟩ := List.mem_iff_getElem?.mp h
            refine List.mem_iff_getElem?.mpr ⟨i, ?_⟩
            by_cases hindex : index = i
            · subst hindex
              rw [hanswers.pending_eq, Option.some.injEq] at hi
              subst hi
              simp [hanswers.unanswered] at hanswered
            · rwa [List.getElem?_set_ne hindex]
      | complete index =>
          cases hcall : w.answered index with
          | none => rwa [arrive_complete_of_none hcall]
          | some call =>
              rw [arrive_complete hcall]
              obtain ⟨i, hi⟩ := List.mem_iff_getElem?.mp h
              obtain ⟨answer, hanswer⟩ := Option.isSome_iff_exists.mp hanswered
              have hne : i ≠ index := by
                rintro rfl
                exact hcomplete i answer rfl hcrashed (answered_eq_some.mpr ⟨hi, hanswer⟩)
              exact List.mem_eraseIdx_iff_getElem?.mpr ⟨i, hne, hi⟩
      | writeLands accepted =>
          rwa [arrive_writeLands_field Device.pending accepted fun _ _ => rfl]
      | _ => exact h

theorem newEmail_step {screen : Screen} (hopened : screen < w.device.emailScreenCount)
    (he : ∀ text, e ≠ .editNewEmail screen text) :
    ((w.step e).device.emailScreens screen).newEmail = (w.device.emailScreens screen).newEmail
      ∧ screen < (w.step e).device.emailScreenCount := by
  cases hcrashed : w.device.crashed with
  | true =>
      rw [step_of_crashed hcrashed]
      exact ⟨rfl, hopened⟩
  | false =>
      rw [step_of_running hcrashed]
      have harrive : ((w.arrive e).device.emailScreens screen).newEmail
            = (w.device.emailScreens screen).newEmail
          ∧ (w.arrive e).device.emailScreenCount = w.device.emailScreenCount := by
        cases e with
        | answer index answer =>
            rw [arrive_answer_field (fun device => device.emailScreens) index answer
              fun _ _ _ _ _ => rfl]
            exact ⟨rfl, arrive_answer_field Device.emailScreenCount index answer
              fun _ _ _ _ _ => rfl⟩
        | complete index =>
            obtain ⟨pending, -, harrive⟩ := w.arrive_complete_eq index
            rw [harrive]
            exact ⟨rfl, rfl⟩
        | writeLands accepted =>
            obtain ⟨server, writes, -, -, harrive⟩ := w.arrive_writeLands_eq accepted
            rw [harrive]
            exact ⟨rfl, rfl⟩
        | editNewEmail edited text =>
            have hne : screen ≠ edited := by
              rintro rfl
              exact he text rfl
            exact ⟨by simp [arrive, Function.update_of_ne hne], rfl⟩
        | _ => exact ⟨rfl, rfl⟩
      obtain ⟨hscreen, hlt⟩ := @Device.execAll_emailScreens_of_lt (w.arrive e).device (w.origin e)
        (w.commands e) screen (harrive.2 ▸ hopened)
      exact ⟨by rw [← harrive.1, ← hscreen]; rfl, hlt⟩

/-- An email screen with a user has been opened. -/
def Opened (device : Device) : Prop :=
  ∀ screen user, (device.emailScreens screen).user = some user → screen < device.emailScreenCount

theorem opened_step (h : Opened w.device) : Opened (w.step e).device := by
  intro screen user hscreen
  cases hcrashed : w.device.crashed with
  | true =>
      rw [step_of_crashed hcrashed] at hscreen ⊢
      exact h screen user hscreen
  | false =>
      rw [step_of_running hcrashed] at hscreen ⊢
      refine Device.execAll_opened _ _ ?_ screen user hscreen
      intro screen user hscreen
      cases e with
      | answer index answer =>
          rw [arrive_answer_field (fun device => device.emailScreens) index answer
            fun _ _ _ _ _ => rfl] at hscreen
          rw [arrive_answer_field Device.emailScreenCount index answer fun _ _ _ _ _ => rfl]
          exact h screen user hscreen
      | complete index =>
          obtain ⟨pending, -, harrive⟩ := w.arrive_complete_eq index
          rw [harrive] at hscreen ⊢
          exact h screen user hscreen
      | writeLands accepted =>
          obtain ⟨server, writes, -, -, harrive⟩ := w.arrive_writeLands_eq accepted
          rw [harrive] at hscreen ⊢
          exact h screen user hscreen
      | editNewEmail edited text =>
          by_cases hedited : screen = edited
          · subst hedited
            exact h screen user (by simpa [arrive] using hscreen)
          · exact h screen user (by simpa [arrive, Function.update_of_ne hedited] using hscreen)
      | _ => exact h screen user hscreen

theorem clock_arrive (hrunning : w.device.crashed = false) :
    (w.arrive e).device.history.clock = w.device.history.clock := by
  cases w.arrivedSession e hrunning with
  | same hsame => rw [hsame.2]
  | signedIn hsignsIn => rw [hsignsIn.arrive.2.2]
  | refreshed _ _ _ _ hhistory => rw [hhistory]
  | revoked => rfl

theorem clock_step (hrunning : w.device.crashed = false) :
    (w.step e).device.history.clock = w.device.history.clock + 1 := by
  obtain ⟨-, hhistory⟩ | ⟨-, hhistory, -⟩ := session_step (e := e) hrunning
  · rw [hhistory, clock_arrive hrunning]
  · rw [hhistory, clock_arrive hrunning]

end World

end ProductivityApp
