import ProductivityApp.System.Issued

/-!
# Sessions

Two laws about who is signed in. A settings listener is never removed and asks who is signed in only
when a snapshot comes, so the first law, that a snapshot signs out nobody but the account it is of,
holds exactly while no snapshot of another account's document carries an unexpected address. A
password check is a full sign-in, so the second law, that a logout is final, holds exactly while no
sign-in started before a logout succeeds after it.
-/

namespace ProductivityApp

open EventSystem

/-! ### Forced logout -/

/-- When the snapshot handler logs out, the account signed in is the one whose document came. -/
def LogsOutOwner (w : World) : Event → Prop
  | .snapshot index snapshot =>
      match w.device.listeners[index]? with
      | none => True
      | some listener =>
          Command.signOut ∈ w.commands (.snapshot index snapshot) →
            w.device.currentUser.map User.uid = some listener.uid
  | _ => True

/-- A snapshot of another account's document than the one signed in names no address, or the very
address of the user signed in. -/
def ExpectedSnapshot (w : World) : Event → Prop
  | .snapshot index (.data document) =>
      match w.device.listeners[index]? with
      | none => True
      | some listener =>
          w.device.crashed = false →
          w.device.currentUser.map User.uid ≠ some listener.uid →
            document.string "email" = none
              ∨ document.string "email" = w.device.currentUser.map User.email
  | _ => True

theorem signOut_mem_commands_snapshot {w : World} {index : ℕ} {listener : Listener}
    {document : Document} (hlistener : w.device.listeners[index]? = some listener) :
    Command.signOut ∈ w.commands (.snapshot index (.data document))
      ↔ w.device.crashed = false ∧ document.string "email" ≠ none
        ∧ document.string "email" ≠ w.device.currentUser.map User.email := by
  constructor
  · intro h
    cases issued_of_mem h with
    | forcedLogout hlistener' hemail hne =>
        exact ⟨World.running_of_mem_commands h, by simp [hemail], by rw [hemail]; exact hne.symm⟩
  · rintro ⟨hrunning, hemail, hne⟩
    obtain ⟨currentEmail, hcurrent⟩ := Option.ne_none_iff_exists'.mp hemail
    rw [hcurrent] at hne
    simp [World.commands_of_running hrunning, World.handle, hlistener,
      SettingsTableViewController.documentChanged, hcurrent, hne, ProfileUpdate.logout]

theorem logsOutOwner_iff (w : World) (e : Event) : LogsOutOwner w e ↔ ExpectedSnapshot w e := by
  cases e with
  | snapshot index snapshot =>
      cases hlistener : w.device.listeners[index]? with
      | none => cases snapshot <;> simp [LogsOutOwner, ExpectedSnapshot, hlistener]
      | some listener =>
          cases snapshot with
          | data document =>
              simp only [LogsOutOwner, ExpectedSnapshot, hlistener,
                signOut_mem_commands_snapshot hlistener]
              tauto
          | error description =>
              have hnone : Command.signOut ∉ w.commands (.snapshot index (.error description)) := by
                intro h
                cases issued_of_mem h
              simp [LogsOutOwner, ExpectedSnapshot, hlistener, hnone]
          | missing =>
              have hnone : Command.signOut ∉ w.commands (.snapshot index .missing) := by
                intro h
                cases issued_of_mem h
              simp [LogsOutOwner, ExpectedSnapshot, hlistener, hnone]
  | _ => simp [LogsOutOwner, ExpectedSnapshot]

/-- **A snapshot signs out its own account only**, in exactly the runs in which every snapshot of
another account's document is an expected one. -/
theorem always_logsOutOwner_iff (server : Server) (events : List Event) :
    Always World.step LogsOutOwner (World.installed server) events
      ↔ Always World.step ExpectedSnapshot (World.installed server) events :=
  always_congr logsOutOwner_iff

/-- Every listener, and whoever is signed in, belongs to one account. -/
structure OneAccount (uid : Uid) (w : World) : Prop where
  session : ∀ user, w.device.currentUser = some user → user.uid = uid
  listeners : ∀ listener ∈ w.device.listeners, listener.uid = uid

theorem oneAccount_step {uid : Uid} {w : World} {e : Event} (h : OneAccount uid w)
    (hsession : ∀ user, (w.step e).device.currentUser = some user → user.uid = uid) :
    OneAccount uid (w.step e) where
  session := hsession
  listeners := by
    intro listener hmem
    obtain hmem | ⟨c, hc, hlistener⟩ := World.mem_listeners_step hmem
    · exact h.listeners listener hmem
    · cases issued_of_mem hc with
      | listen huser =>
          cases hlistener
          exact h.session _ huser
      | _ => cases hlistener

/-- A device that only one account is ever signed in to keeps the law, as long as snapshots come
while it is signed in. -/
theorem always_logsOutOwner_of_oneAccount (uid : Uid) (server : Server) (events : List Event)
    (h : Always World.step
      (fun w e => (∀ user, (w.step e).device.currentUser = some user → user.uid = uid)
        ∧ ∀ index snapshot, e = .snapshot index snapshot → w.device.currentUser.isSome)
      (World.installed server) events) :
    Always World.step LogsOutOwner (World.installed server) events := by
  have hinitial : OneAccount uid (World.installed server) :=
    { session := by simp [World.installed, Device.initial]
      listeners := by simp [World.installed, Device.initial] }
  refine always_of_invariant (fun w e hw h => oneAccount_step hw h.1) ?_ hinitial h
  intro w e hw h
  cases e with
  | snapshot index snapshot =>
      cases hlistener : w.device.listeners[index]? with
      | none => simp [LogsOutOwner, hlistener]
      | some listener =>
          obtain ⟨user, huser⟩ := Option.isSome_iff_exists.mp (h.2 index snapshot rfl)
          have howner := hw.listeners listener (List.mem_of_getElem? hlistener)
          simp [LogsOutOwner, hlistener, huser, hw.session user huser, howner]
  | _ => trivial

/-! Two accounts share a device. The first opens the settings and logs out, the second logs in, and
then the first account's document is changed from elsewhere. -/

def sharedServer : Server :=
  { accounts := fun uid =>
      if uid = "first" then
        some { email := "first@example.org", password := "one", displayName := none,
               photoURL := none }
      else if uid = "second" then
        some { email := "second@example.org", password := "two", displayName := none,
               photoURL := none }
      else none
    users := fun uid =>
      if uid = "first" then
        some (Document.empty.merge [("email", .string "first@example.org")])
      else if uid = "second" then
        some (Document.empty.merge [("email", .string "second@example.org")])
      else none
    storage := fun _ => none }

/-- The first account's document after its name was set on another device. -/
def renamedDocument : Document :=
  Document.empty.merge [("displayName", .string "First"), ("email", .string "first@example.org")]

def sharedDevice : List Event :=
  [.editLogin ⟨"first@example.org", "one"⟩, .loginButtonPressed, .answer 0 (.user "first"),
    .complete 0, .openSettings, .logoutPressed,
    .editLogin ⟨"second@example.org", "two"⟩, .loginButtonPressed, .answer 2 (.user "second"),
    .complete 2, .documentChanged "first" (some renamedDocument),
    .snapshot 0 (.data renamedDocument)]

instance (w : World) (e : Event) : Decidable (LogsOutOwner w e) := by
  unfold LogsOutOwner
  apply @Event.casesOn _ e
  case snapshot =>
    intro index _
    dsimp only
    refine Option.casesOn w.device.listeners[index]? ?_ fun _ => ?_ <;> infer_instance
  all_goals
    intros
    infer_instance

theorem sharedDevice_logs_out_second :
    ¬ Always World.step LogsOutOwner (World.installed sharedServer) sharedDevice := by
  decide

/-! ### Logout is final -/

/-- After a step the device is signed out, or nobody logged out before, or a login or sign-up
started since the logout has succeeded; and a password check that succeeds was started since. -/
def KeepsLogout (w : World) (e : Event) : Prop :=
  ((w.step e).device.history.lastLogout ≠ none → (w.step e).device.currentUser ≠ none →
      (w.step e).device.history.reopened = true)
    ∧ ∀ pending uid, w.SignsIn e pending uid → pending.completion.opensSession = false →
      w.device.history.startedSince pending.origin = true

/-- A sign-in that succeeds was started after the last logout, or is a login or sign-up and comes
after one that was. -/
def FreshSignIn (w : World) (e : Event) : Prop :=
  ∀ pending uid, w.SignsIn e pending uid →
    w.device.history.startedSince pending.origin = true
      ∨ (pending.completion.opensSession = true ∧ w.device.history.reopened = true)

/-- What a run keeps while its sign-ins are fresh. A password check needs someone signed in, so a
check started since the last logout was started after a login or sign-up had succeeded. -/
structure SessionInv (w : World) : Prop where
  started : ∀ pending ∈ w.device.pending, pending.origin.startedAt < w.device.history.clock
  loggedOut : ∀ logout, w.device.history.lastLogout = some logout → logout < w.device.history.clock
  reopened : w.device.history.lastLogout ≠ none → w.device.currentUser ≠ none →
    w.device.history.reopened = true
  checks : ∀ pending ∈ w.device.pending, pending.request.signsIn = true →
    pending.completion.opensSession = false → w.device.history.lastLogout ≠ none →
      w.device.history.startedSince pending.origin = true → w.device.history.reopened = true

theorem sessionInv_installed (server : Server) : SessionInv (World.installed server) where
  started := by simp [World.installed, Device.initial]
  loggedOut := by simp [World.installed, Device.initial]
  reopened := by simp [World.installed, Device.initial]
  checks := by simp [World.installed, Device.initial]

theorem Device.SameSession.startedSince {before after : Device} (h : before.SameSession after)
    (origin : Origin) : after.history.startedSince origin = before.history.startedSince origin := by
  rw [h.2]

theorem reopened_arrive {w : World} {e : Event} (hrunning : w.device.crashed = false)
    (h : SessionInv w) (hfresh : FreshSignIn w e) :
    (w.arrive e).device.history.clock = w.device.history.clock
      ∧ (w.arrive e).device.history.lastLogout = w.device.history.lastLogout
      ∧ (w.device.history.reopened = true → (w.arrive e).device.history.reopened = true)
      ∧ (w.device.history.lastLogout ≠ none → (w.arrive e).device.currentUser ≠ none →
        (w.arrive e).device.history.reopened = true) := by
  cases World.arrivedSession w e hrunning with
  | same hsame =>
      obtain ⟨huser, hhistory⟩ := hsame
      rw [huser, hhistory]
      exact ⟨rfl, rfl, id, h.reopened⟩
  | @signedIn _ pending uid hsignsIn =>
      rw [hsignsIn.arrive.2.2]
      refine ⟨rfl, rfl, fun hopen => by simp [hopen], fun hlogout _ => ?_⟩
      have hchecks := h.checks pending hsignsIn.mem hsignsIn.signsIn
      cases hopens : pending.completion.opensSession with
      | true => cases hfresh pending uid hsignsIn <;> simp_all
      | false =>
          have hstarted : w.device.history.startedSince pending.origin = true := by
            simpa [hopens] using hfresh pending uid hsignsIn
          simp [hchecks hopens hlogout hstarted]
  | refreshed hbefore _ _ _ hhistory =>
      rw [hhistory]
      exact ⟨rfl, rfl, id, fun hlogout _ => h.reopened hlogout (by simp [hbefore])⟩
  | revoked => exact ⟨rfl, rfl, id, fun _ hsome => absurd rfl hsome⟩

/-- A password check is started while someone is signed in, and by no event that logs out. -/
theorem signedIn_of_check {w : World} {e : Event} {c : Command} {pending : Pending}
    (hc : c ∈ w.commands e) (hpending : c.pending (w.origin e) = some pending)
    (hsignsIn : pending.request.signsIn = true)
    (hopens : pending.completion.opensSession = false) :
    w.device.currentUser ≠ none ∧ (w.origin e).startedAt = w.device.history.clock := by
  cases issued_of_mem hc with
  | emailRow huser => cases hpending; exact ⟨by simp [huser], rfl⟩
  | checkPassword huser => cases hpending; exact ⟨by simp [huser], rfl⟩
  | createUser => cases hpending; cases hopens
  | login => cases hpending; cases hopens
  | _ => cases hpending <;> cases hsignsIn

theorem sessionInv_step {w : World} {e : Event} (h : SessionInv w) (hfresh : FreshSignIn w e) :
    SessionInv (w.step e) := by
  cases hcrashed : w.device.crashed with
  | true => rwa [World.step_of_crashed hcrashed]
  | false =>
      obtain ⟨hclock, hlogout, hkeep, hopen⟩ := reopened_arrive hcrashed h hfresh
      have hstarted : ∀ pending ∈ (w.step e).device.pending,
          pending.origin.startedAt ≤ w.device.history.clock := by
        intro pending hmem
        obtain ⟨before, hbefore, -, -, horigin⟩ | ⟨c, -, hpending⟩ := World.mem_pending_step hmem
        · exact horigin ▸ (h.started before hbefore).le
        · rw [Command.origin_of_pending _ hpending]
          exact World.origin_startedAt_le h.started
      obtain ⟨huser, hhistory⟩ | ⟨hnone, hhistory, -⟩ := World.session_step (e := e) hcrashed
      · refine ⟨?_, ?_, ?_, ?_⟩
        · intro pending hmem
          have := hstarted pending hmem
          simp only [hhistory, hclock]
          omega
        · intro logout heq
          simp only [hhistory, hlogout] at heq
          have := h.loggedOut logout heq
          simp only [hhistory, hclock]
          omega
        · rw [huser, hhistory]
          simpa [hlogout] using hopen
        · intro pending hmem hsignsIn hopens hlast hsince
          simp only [hhistory, hlogout] at hlast ⊢
          apply hkeep
          have hsince : w.device.history.startedSince pending.origin = true := by
            simpa [hhistory, History.startedSince, hlogout] using hsince
          obtain ⟨before, hbefore, hrequest, hcompletion, horigin⟩ | ⟨c, hc, hpending⟩ :=
            World.mem_pending_step hmem
          · rw [hrequest] at hsignsIn
            rw [hcompletion] at hopens
            rw [horigin] at hsince
            exact h.checks before hbefore hsignsIn hopens hlast hsince
          · exact h.reopened hlast (signedIn_of_check hc hpending hsignsIn hopens).1
      · refine ⟨?_, ?_, ?_, ?_⟩
        · intro pending hmem
          have := hstarted pending hmem
          simp only [hhistory, hclock]
          omega
        · intro logout heq
          simp only [hhistory, Option.some.injEq] at heq ⊢
          omega
        · exact fun _ hsome => absurd hnone hsome
        · -- everything pending was started no later than this logout
          intro pending hmem _ _ _ hsince
          have := hstarted pending hmem
          simp only [hhistory, History.startedSince, hclock, decide_eq_true_eq] at hsince
          omega

/-- A stale sign-in breaks the law when it succeeds. -/
theorem freshSignIn_of_keepsLogout {w : World} {e : Event} (h : KeepsLogout w e) :
    FreshSignIn w e := by
  intro pending uid hsignsIn
  cases hopens : pending.completion.opensSession with
  | false => exact Or.inl (h.2 pending uid hsignsIn hopens)
  | true =>
      by_contra hstale
      simp only [true_and, not_or, Bool.not_eq_true] at hstale
      obtain ⟨hstarted, hclosed⟩ := hstale
      have hlast : w.device.history.lastLogout ≠ none := by
        intro hnone
        simp [History.startedSince, hnone] at hstarted
      obtain ⟨-, hsome, hhistory⟩ := hsignsIn.arrive
      -- an answer makes the app issue nothing, so nobody logs out in this step
      obtain ⟨hrunning, index, rfl, -⟩ := hsignsIn
      have hreopened := h.1
      rw [World.step_of_running hrunning] at hreopened
      simp only [World.react, World.commands_answer, Device.execAll_nil, hhistory] at hreopened
      have := hreopened hlast (Option.isSome_iff_ne_none.mp hsome)
      simp [hstarted, hclosed] at this

theorem keepsLogout_iff {w : World} (h : SessionInv w) (e : Event) :
    KeepsLogout w e ↔ FreshSignIn w e := by
  refine ⟨freshSignIn_of_keepsLogout, fun hfresh => ⟨(sessionInv_step h hfresh).reopened, ?_⟩⟩
  intro pending uid hsignsIn hopens
  simpa [hopens] using hfresh pending uid hsignsIn

/-- **Logout is final**, in exactly the runs in which no sign-in started before a logout succeeds
after it. -/
theorem always_keepsLogout_iff (server : Server) (events : List Event) :
    Always World.step KeepsLogout (World.installed server) events
      ↔ Always World.step FreshSignIn (World.installed server) events :=
  always_iff_of_invariant (fun _ _ => sessionInv_step) (fun _ e h => keepsLogout_iff h e)
    (sessionInv_installed server)

/-! The owner of the first account asks to change the email, submits the password, and logs out
before Auth has checked it. -/

def checkedTooLate : List Event :=
  [.editLogin ⟨"first@example.org", "one"⟩, .loginButtonPressed, .answer 0 (.user "first"),
    .complete 0, .openSettings, .emailRowPressed "one", .logoutPressed,
    .answer 2 (.user "first")]

theorem checkedTooLate_signs_back_in :
    ¬ Always World.step KeepsLogout (World.installed sharedServer) checkedTooLate := by
  intro h
  have hsplit : Always World.step KeepsLogout (World.installed sharedServer)
      (checkedTooLate.dropLast ++ [.answer 2 (.user "first")]) := h
  have hlast := ((always_append World.step).mp hsplit).2.1.1
  revert hlast
  decide

end ProductivityApp
