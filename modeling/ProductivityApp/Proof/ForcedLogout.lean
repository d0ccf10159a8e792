import ProductivityApp.Proof.Email
import ProductivityApp.Proof.Session

/-!
# An email change under the settings listener

The settings listener logs out when the address in the document is not the one cached in the current
`FIRUser`, and an email change updates the cache one callback before it updates the document. So the
change goes through, with the session and without a trap, exactly when every snapshot that is
delivered carries the address the current object has at the time.

As long as the change is accepted on the object that is in place, the object has the address Auth
has, and it is the snapshots with the old address after the acceptance that end the session. When
the password is checked again before the acceptance, an object that never learns the new address is
in place, and the document's new address ends the session.
-/

namespace ProductivityApp

open EventSystem

def Request.changesEmail : Request → Bool
  | .updateEmail _ _ => true
  | _ => false

/-- The user `uid`, known to Auth and to the device by the old address, has typed the new one into
an email screen, and no other email change is pending. -/
structure ReadyToSubmit (uid : Uid) (screen : Screen) (old new : String) (w : World) : Prop where
  running : w.device.crashed = false
  session : w.session = some uid
  cached : w.device.currentUser.map User.email = some old
  auth : w.authEmail uid = some old
  user : (w.device.emailScreens screen).user = some uid
  typed : (w.device.emailScreens screen).newEmail = new
  opened : screen < w.device.emailScreenCount
  nonempty : new ≠ ""
  alone : ∀ pending ∈ w.device.pending, pending.request.changesEmail = false

/-- The user leaves the field and the session alone and submits nothing else, no other account signs
in, no other device changes the email, and a snapshot of the document carries the old address, or
the new one once Auth has accepted it. -/
def EmailChangeScope (uid : Uid) (screen : Screen) (old new : String) (w : World) : Event → Prop
  | .logoutPressed | .tokenRevoked | .updateEmailPressed _ => False
  | .editNewEmail edited _ => edited ≠ screen
  | .answer _ (.user user) => user = uid
  | .accountChanged account change =>
      account = uid → change.map Account.email = w.authEmail uid
  | .snapshot index (.data document) =>
      match w.device.listeners[index]? with
      | none => True
      | some listener =>
          listener.uid = uid ∧ (document.string "email" = some old
            ∨ (document.string "email" = some new ∧ w.authEmail uid = some new))
  | _ => True

/-- The completion of the accepted change writes the address and does nothing else; in particular it
does not trap. -/
def WritesEmail (uid : Uid) (screen : Screen) (new : String) (w : World) : Event → Prop
  | .complete index =>
      match w.answered index with
      | some (pending, .success) =>
          pending.completion = .updateEmail screen → w.device.crashed = false →
            w.commands (.complete index) = [.updateData uid [("email", .string new)]]
      | _ => True
  | _ => True

/-- The session goes on, and the accepted change is written. -/
def SurvivesEmailChange (uid : Uid) (screen : Screen) (new : String) (w : World) (e : Event) :
    Prop :=
  (w.step e).session = some uid ∧ WritesEmail uid screen new w e

/-- A snapshot does not carry the old address once the current object has the new one, nor the new
address while the object has the old one, unless the addresses are the same or the keychain refuses
to log out. -/
def NoStaleSnapshot (old new : String) (w : World) : Event → Prop
  | .snapshot index (.data document) =>
      w.device.crashed = false → w.device.keychain = true → w.device.listeners[index]? ≠ none →
        (document.string "email" = some old →
          w.device.currentUser.map User.email = some new → old = new)
        ∧ (document.string "email" = some new →
          w.device.currentUser.map User.email = some old → old = new)
  | _ => True

/-- When Auth accepts a change of the email, the object the change was submitted on is in place. -/
def AcceptedInPlace (uid : Uid) (w : World) : Event → Prop
  | .answer index answer =>
      match w.device.pending[index]? with
      | none => True
      | some pending =>
          (pending.request.setsEmail uid answer).isSome →
            w.device.userObject = pending.origin.object
  | _ => True

/-- No snapshot with the old address comes after Auth has accepted the new one, unless the addresses
are the same or the keychain refuses to log out. -/
def NoOldSnapshot (uid : Uid) (old new : String) (w : World) : Event → Prop
  | .snapshot index (.data document) =>
      w.device.crashed = false → w.device.keychain = true → w.device.listeners[index]? ≠ none →
        document.string "email" = some old → w.authEmail uid = some new → old = new
  | _ => True

/-- What a run keeps while the change is under way: Auth holds one of the two addresses, and the
device has one of them cached. -/
structure EmailChange (uid : Uid) (screen : Screen) (old new : String) (w : World) : Prop where
  sound : ∀ pending ∈ w.device.pending, pending.Sound
  current : ∃ user, w.device.currentUser = some user ∧ user.uid = uid
    ∧ (user.email = old ∨ user.email = new)
  auth : w.authEmail uid = some old ∨ w.authEmail uid = some new
  newEmail : (w.device.emailScreens screen).newEmail = new
  opened : screen < w.device.emailScreenCount
  updates : ∀ pending ∈ w.device.pending, ∀ user email, pending.request = .updateEmail user email →
    email = new

/-- The device has cached the address Auth has. -/
def UpToDate (uid : Uid) (w : World) : Prop :=
  w.device.currentUser.map User.email = w.authEmail uid

section Step

variable {uid : Uid} {screen : Screen} {old new : String} {w : World} {e : Event}

theorem refresh_currentUser {device : Device} {server : Server} {user : Uid} (object : ℕ)
    (hsession : device.currentUser.map User.uid = some uid) (huser : (server.user user).isSome) :
    ((device.refresh server user object).currentUser = server.user uid ∧ (server.user uid).isSome)
      ∨ ((device.refresh server user object).currentUser = device.currentUser
        ∧ (user = uid → device.userObject ≠ object)) := by
  by_cases hinPlace : device.currentUser.map User.uid = some user ∧ device.userObject = object
  · obtain rfl : uid = user := Option.some.inj (hsession.symm.trans hinPlace.1)
    exact Or.inl ⟨by rw [Device.refresh, if_pos hinPlace], huser⟩
  · refine Or.inr ⟨by rw [Device.refresh, if_neg hinPlace], ?_⟩
    rintro rfl hobject
    exact hinPlace ⟨hsession, hobject⟩

theorem receive_currentUser {device : Device} {server after : Server} {pending : Pending}
    {answer : Answer} (h : server.respond pending.request answer = some after)
    (hsession : device.currentUser.map User.uid = some uid)
    (hanswer : ∀ user, answer = .user user → user = uid) :
    ((device.receive after pending answer).currentUser = after.user uid ∧ (after.user uid).isSome)
      ∨ ((device.receive after pending answer).currentUser = device.currentUser
        ∧ ((pending.request.setsEmail uid answer).isSome →
          device.userObject ≠ pending.origin.object)) := by
  cases answer with
  | user user =>
      obtain rfl := hanswer user rfl
      have huser := Server.user_of_respond_user h
      have hsignsIn := Server.signsIn_of_respond_user h
      left
      cases hrequest : pending.request <;>
        simp_all [Device.receive, Device.signIn, Request.signsIn]
  | success =>
      cases hrequest : pending.request with
      | updateEmail user email =>
          rw [hrequest] at h
          obtain hfresh | ⟨hsame, hobject⟩ := refresh_currentUser pending.origin.object hsession
            (Server.user_of_changeAccount h)
          · exact Or.inl (by simpa [Device.receive, hrequest] using hfresh)
          · refine Or.inr ⟨by simpa [Device.receive, hrequest] using hsame, fun hsets => hobject ?_⟩
            by_contra hne
            simp [Request.setsEmail, hne] at hsets
      | updatePassword user _ | commitChanges user _ =>
          rw [hrequest] at h
          exact (refresh_currentUser pending.origin.object hsession
            (Server.user_of_changeAccount h)).imp
              (by simp [Device.receive, hrequest]) fun hsame =>
                ⟨by simpa [Device.receive, hrequest] using hsame.1, by simp [Request.setsEmail]⟩
      | reload user =>
          simp only [hrequest, Server.respond, Option.ite_none_right_eq_some,
            Option.some.injEq] at h
          obtain ⟨haccount, rfl⟩ := h
          have huser : (server.user user).isSome := by simpa [Server.user] using haccount
          exact (refresh_currentUser pending.origin.object hsession huser).imp
            (by simp [Device.receive, hrequest]) fun hsame =>
              ⟨by simpa [Device.receive, hrequest] using hsame.1, by simp [Request.setsEmail]⟩
      | _ => exact Or.inr ⟨by simp [Device.receive, hrequest], by simp [Request.setsEmail]⟩
  | _ =>
      refine Or.inr ⟨by simp [Device.receive], fun hsets => ?_⟩
      cases hrequest : pending.request <;> simp [hrequest, Request.setsEmail] at hsets

/-- An answer can only give Auth the new address. -/
theorem setsEmail_eq_new (h : EmailChange uid screen old new w)
    (hanswers : w.Answers index answer pending after)
    (hanswer : ∀ user, answer = .user user → user = uid) {email : String}
    (hsets : pending.request.setsEmail uid answer = some email) : email = new := by
  have hmem := List.mem_of_getElem? hanswers.pending_eq
  cases hrequest : pending.request with
  | createUser sent password =>
      have hrespond := hanswers.respond_eq
      cases answer with
      | user created =>
          obtain rfl := hanswer created rfl
          rw [hrequest, Server.respond, Option.ite_none_right_eq_some] at hrespond
          have hauth := h.auth
          simp [World.authEmail, hrespond.1] at hauth
      | _ => rw [hrequest] at hsets; cases hsets
  | updateEmail account sent =>
      obtain rfl := h.updates pending hmem account sent hrequest
      cases answer with
      | success =>
          rw [hrequest, Request.setsEmail, Option.ite_none_right_eq_some] at hsets
          exact (Option.some.inj hsets.2).symm
      | _ => rw [hrequest] at hsets; cases hsets
  | _ => rw [hrequest] at hsets; cases hsets

theorem authEmail_arrive_answer (hanswers : w.Answers index answer pending after) :
    (w.arrive (.answer index answer)).authEmail uid
      = (pending.request.setsEmail uid answer).or (w.authEmail uid) := by
  rw [World.authEmail, hanswers.arrive_eq, (accounts_respond hanswers.respond_eq).1]
  rfl

theorem authEmail_arrive (h : EmailChange uid screen old new w)
    (hscope : EmailChangeScope uid screen old new w e) :
    (w.arrive e).authEmail uid = w.authEmail uid ∨ (w.arrive e).authEmail uid = some new := by
  cases e with
  | answer index answer =>
      obtain hsame | ⟨pending, after, hanswers⟩ := w.arrive_answer_cases index answer
      · exact Or.inl (by rw [hsame])
      · rw [authEmail_arrive_answer hanswers]
        cases hsets : pending.request.setsEmail uid answer with
        | none => exact Or.inl rfl
        | some email =>
            have hanswer : ∀ user, answer = .user user → user = uid := by
              rintro user rfl
              exact hscope
            exact Or.inr (by rw [setsEmail_eq_new h hanswers hanswer hsets, Option.some_or])
  | complete index =>
      obtain ⟨pending, -, harrive⟩ := w.arrive_complete_eq index
      exact Or.inl (by rw [harrive]; rfl)
  | writeLands accepted =>
      obtain ⟨server, writes, haccounts, -, harrive⟩ := w.arrive_writeLands_eq accepted
      exact Or.inl (by rw [harrive, World.authEmail, World.authEmail, haccounts])
  | accountChanged account change =>
      left
      by_cases haccount : account = uid
      · simpa [World.authEmail, World.arrive, haccount] using hscope haccount
      · simp [World.authEmail, World.arrive, Function.update_of_ne (Ne.symm haccount)]
  | _ => exact Or.inl rfl

/-- What arrives leaves the cached profile alone, or brings it up to date. It leaves it alone when
Auth gets an address, only if the object that submitted it is no longer in place. -/
theorem currentUser_arrive (h : EmailChange uid screen old new w)
    (hscope : EmailChangeScope uid screen old new w e) :
    (∃ user, (w.arrive e).device.currentUser = some user ∧ user.uid = uid
        ∧ (w.arrive e).authEmail uid = some user.email)
      ∨ ((w.arrive e).device.currentUser = w.device.currentUser
        ∧ (AcceptedInPlace uid w e → (w.arrive e).authEmail uid = w.authEmail uid)) := by
  cases e with
  | answer index answer =>
      obtain hsame | ⟨pending, after, hanswers⟩ := w.arrive_answer_cases index answer
      · exact Or.inr (by rw [hsame]; exact ⟨rfl, fun _ => rfl⟩)
      · have hanswer : ∀ user, answer = .user user → user = uid := by
          rintro user rfl
          exact hscope
        obtain ⟨user, hcurrent, huid, -⟩ := h.current
        have hsession : w.device.currentUser.map User.uid = some uid := by simp [hcurrent, huid]
        have hauth := @authEmail_arrive_answer uid _ _ _ _ _ hanswers
        have haccounts := (@accounts_respond _ _ _ _ uid hanswers.respond_eq).1
        rw [hauth, hanswers.arrive_eq]
        obtain ⟨hfresh, hsome⟩ | ⟨hsame, hobject⟩ :=
          receive_currentUser hanswers.respond_eq hsession hanswer
        · obtain ⟨fresh, huser⟩ := Option.isSome_iff_exists.mp hsome
          obtain ⟨account, haccount, rfl⟩ := Option.map_eq_some_iff.mp huser
          rw [haccount] at haccounts
          exact Or.inl ⟨account.user uid, hfresh.trans huser, rfl, haccounts.symm⟩
        · refine Or.inr ⟨hsame, fun hinPlace => ?_⟩
          simp only [AcceptedInPlace, hanswers.pending_eq] at hinPlace
          cases hsets : pending.request.setsEmail uid answer with
          | none => rfl
          | some email => exact absurd (hinPlace (by simp [hsets])) (hobject (by simp [hsets]))
  | complete index =>
      obtain ⟨pending, -, harrive⟩ := w.arrive_complete_eq index
      exact Or.inr (by rw [harrive]; exact ⟨rfl, fun _ => rfl⟩)
  | writeLands accepted =>
      obtain ⟨server, writes, haccounts, -, harrive⟩ := w.arrive_writeLands_eq accepted
      have hauth : (w.arrive (.writeLands accepted)).authEmail uid = w.authEmail uid := by
        rw [harrive, World.authEmail, World.authEmail, haccounts]
      exact Or.inr ⟨by rw [harrive], fun _ => hauth⟩
  | accountChanged account change =>
      refine Or.inr ⟨rfl, fun _ => ?_⟩
      by_cases haccount : account = uid
      · simpa [World.authEmail, World.arrive, haccount] using hscope haccount
      · simp [World.authEmail, World.arrive, Function.update_of_ne (Ne.symm haccount)]
  | tokenRevoked => cases hscope
  | _ => exact Or.inr ⟨rfl, fun _ => rfl⟩

/-- A forced logout needs a snapshot with the address the current object does not have. -/
theorem signOut_notMem (h : EmailChange uid screen old new w)
    (hscope : EmailChangeScope uid screen old new w e) (hfresh : NoStaleSnapshot old new w e)
    (hrunning : w.device.crashed = false) (hkeychain : (w.arrive e).device.keychain = true) :
    Command.signOut ∉ w.commands e := by
  intro hmem
  obtain ⟨user, hcurrent, -, hcached⟩ := h.current
  cases issued_of_mem hmem with
  | logoutPressed => exact hscope
  | @forcedLogout index listener document email hlistener hdocument hne =>
      obtain ⟨hold, hnew⟩ := hfresh hrunning hkeychain (by simp [hlistener])
      rw [hcurrent, Option.map_some] at hne hold hnew
      simp only [EmailChangeScope, hlistener] at hscope
      refine hne (congrArg some ?_)
      obtain ⟨-, hsent | ⟨hsent, -⟩⟩ := hscope
      · obtain rfl : old = email := Option.some.inj (hsent.symm.trans hdocument)
        obtain hemail | hemail := hcached
        · exact hemail
        · rw [hemail, hold hdocument (by rw [hemail])]
      · obtain rfl : new = email := Option.some.inj (hsent.symm.trans hdocument)
        obtain hemail | hemail := hcached
        · rw [hemail, hnew hdocument (by rw [hemail])]
        · exact hemail

theorem session_step_of_emailChange (h : EmailChange uid screen old new w)
    (hscope : EmailChangeScope uid screen old new w e) (hfresh : NoStaleSnapshot old new w e)
    (hrunning : w.device.crashed = false) :
    (w.step e).device.currentUser = (w.arrive e).device.currentUser := by
  obtain ⟨huser, -⟩ | ⟨-, -, hkeychain, hmem⟩ := World.session_step (e := e) hrunning
  · exact huser
  · exact absurd hmem (signOut_notMem h hscope hfresh hrunning hkeychain)

theorem emailChange_step (h : EmailChange uid screen old new w)
    (hscope : EmailChangeScope uid screen old new w e) (hfresh : NoStaleSnapshot old new w e) :
    EmailChange uid screen old new (w.step e) := by
  cases hcrashed : w.device.crashed with
  | true => rwa [World.step_of_crashed hcrashed]
  | false =>
      have huser := session_step_of_emailChange h hscope hfresh hcrashed
      have hserver : (w.step e).authEmail uid = (w.arrive e).authEmail uid := by
        rw [World.step_of_running hcrashed]
        rfl
      have hscreen : ∀ text, e ≠ .editNewEmail screen text := by
        rintro text rfl
        exact hscope rfl
      have hauth : (w.step e).authEmail uid = some old ∨ (w.step e).authEmail uid = some new := by
        rw [hserver]
        obtain hsame | hnew := authEmail_arrive h hscope
        · rw [hsame]
          exact h.auth
        · exact Or.inr hnew
      obtain ⟨hnewEmail, hopened⟩ := World.newEmail_step h.opened hscreen
      refine ⟨World.sound_step h.sound e, ?_, hauth, hnewEmail.trans h.newEmail, hopened, ?_⟩
      · rw [huser]
        obtain ⟨user, hcurrent, huid, hfreshEmail⟩ | ⟨hsame, -⟩ := currentUser_arrive h hscope
        · rw [hserver, hfreshEmail, Option.some.injEq, Option.some.injEq] at hauth
          exact ⟨user, hcurrent, huid, hauth⟩
        · rw [hsame]
          exact h.current
      · intro pending hmem user email hrequest
        obtain ⟨before, hbefore, hsame, -⟩ | ⟨c, hc, hpending⟩ := World.mem_pending_step hmem
        · exact h.updates before hbefore user email (hsame ▸ hrequest)
        · cases issued_of_mem hc with
          | updateEmail => cases hscope
          | _ => cases hpending <;> cases hrequest

theorem upToDate_step (h : EmailChange uid screen old new w) (hupToDate : UpToDate uid w)
    (hscope : EmailChangeScope uid screen old new w e) (hinPlace : AcceptedInPlace uid w e)
    (hfresh : NoStaleSnapshot old new w e) : UpToDate uid (w.step e) := by
  cases hcrashed : w.device.crashed with
  | true => rwa [World.step_of_crashed hcrashed]
  | false =>
      have hserver : (w.step e).authEmail uid = (w.arrive e).authEmail uid := by
        rw [World.step_of_running hcrashed]
        rfl
      rw [UpToDate, session_step_of_emailChange h hscope hfresh hcrashed, hserver]
      obtain ⟨user, hcurrent, -, hemail⟩ | ⟨hsame, hauth⟩ := currentUser_arrive h hscope
      · rw [hcurrent, hemail, Option.map_some]
      · rw [hsame, hauth hinPlace]
        exact hupToDate

/-- On a device that is up to date, only a snapshot with the old address can be stale. -/
theorem noOldSnapshot_iff (hupToDate : UpToDate uid w)
    (hscope : EmailChangeScope uid screen old new w e) :
    NoOldSnapshot uid old new w e ↔ NoStaleSnapshot old new w e := by
  cases e with
  | snapshot index snapshot =>
      cases snapshot with
      | data document =>
          refine forall₃_congr fun _ _ hlistener => ?_
          obtain ⟨listener, hlistener⟩ := Option.ne_none_iff_exists'.mp hlistener
          simp only [EmailChangeScope, hlistener] at hscope
          rw [hupToDate]
          refine ⟨fun hold => ⟨hold, fun hsent hauth => ?_⟩, fun hstale => hstale.1⟩
          obtain ⟨-, hsent' | ⟨-, hauth'⟩⟩ := hscope
          · exact Option.some.inj (hsent'.symm.trans hsent)
          · exact Option.some.inj (hauth.symm.trans hauth')
      | _ => exact Iff.rfl
  | _ => exact Iff.rfl

theorem session_eq_none_of_stale {index : ℕ} {document : Document} {user : User} {email : String}
    (hcurrent : w.device.currentUser = some user) (hrunning : w.device.crashed = false)
    (hkeychain : w.device.keychain = true) (hlistener : w.device.listeners[index]? ≠ none)
    (hdocument : document.string "email" = some email) (hne : email ≠ user.email) :
    (w.step (.snapshot index (.data document))).session = none := by
  obtain ⟨listener, hlistener⟩ := Option.ne_none_iff_exists'.mp hlistener
  have hmem : Command.signOut ∈ w.commands (.snapshot index (.data document)) := by
    simp [World.commands_of_running hrunning, World.handle, hlistener,
      SettingsTableViewController.documentChanged, hdocument, hcurrent, hne,
      ProfileUpdate.logout]
  have hnone := Device.execAll_currentUser_of_mem w.device
    (w.origin (.snapshot index (.data document))) hkeychain hmem
  rw [World.step_of_running hrunning, World.session, World.react]
  exact congrArg (Option.map User.uid) hnone

/-- The change survives a step unless the step is a stale snapshot. -/
theorem survivesEmailChange_iff (h : EmailChange uid screen old new w)
    (hscope : EmailChangeScope uid screen old new w e) :
    SurvivesEmailChange uid screen new w e ↔ NoStaleSnapshot old new w e := by
  obtain ⟨user, hcurrent, huid, -⟩ := h.current
  constructor
  · rintro ⟨hsession, -⟩
    cases e with
    | snapshot index snapshot =>
        cases snapshot with
        | data document =>
            intro hrunning hkeychain hlistener
            have hsame {email : String} (hdocument : document.string "email" = some email) :
                email = user.email := by
              by_contra hne
              rw [session_eq_none_of_stale hcurrent hrunning hkeychain hlistener hdocument hne]
                at hsession
              cases hsession
            rw [hcurrent, Option.map_some, Option.some.injEq, Option.some.injEq]
            exact ⟨fun hdocument hemail => (hsame hdocument).trans hemail,
              fun hdocument hemail => hemail.symm.trans (hsame hdocument).symm⟩
        | _ => trivial
    | _ => trivial
  · intro hfresh
    obtain ⟨after, hafter, hsame, -⟩ := (emailChange_step h hscope hfresh).current
    refine ⟨by rw [World.session, hafter, Option.map_some, hsame], ?_⟩
    cases e with
    | complete index =>
        simp only [WritesEmail]
        split
        · rename_i pending hanswered
          intro hcompletion hrunning
          simp [World.commands_of_running hrunning, World.handle, hanswered, hcompletion,
            World.completed, UpdateEmailViewController.emailUpdated, ProfileUpdate.updateEmail,
            hcurrent, huid, h.newEmail]
        · trivial
    | _ => trivial

theorem emailChange_submitted (h : ReadyToSubmit uid screen old new w)
    (hsound : ∀ pending ∈ w.device.pending, pending.Sound) :
    EmailChange uid screen old new (w.step (.updateEmailPressed screen)) := by
  have hstep := World.step_of_running (e := .updateEmailPressed screen) h.running
  have hcommands : w.commands (.updateEmailPressed screen)
      = [.call (.updateEmail uid new) (.updateEmail screen)] := by
    simp [World.commands_of_running h.running, World.handle,
      UpdateEmailViewController.updateEmailPressed, h.user, h.typed, h.nonempty]
  obtain ⟨user, hcurrent, huid⟩ := Option.map_eq_some_iff.mp h.session
  have hcached := h.cached
  rw [hcurrent, Option.map_some, Option.some.injEq] at hcached
  have hauth : (w.step (.updateEmailPressed screen)).authEmail uid = some old := by
    rw [hstep]
    exact h.auth
  refine ⟨World.sound_step hsound _, ⟨user, ?_, huid, Or.inl hcached⟩, Or.inl hauth, ?_, ?_, ?_⟩
  · rw [hstep, World.react, hcommands]
    exact hcurrent
  · rw [hstep, World.react, hcommands]
    exact h.typed
  · rw [hstep, World.react, hcommands]
    exact h.opened
  · intro pending hmem account email hrequest
    rw [World.step_pending h.running, hcommands] at hmem
    obtain hmem | hmem := List.mem_append.mp hmem
    · have halone := h.alone pending hmem
      rw [hrequest] at halone
      cases halone
    · cases List.mem_singleton.mp hmem
      cases hrequest
      rfl

theorem upToDate_submitted (h : ReadyToSubmit uid screen old new w) :
    UpToDate uid (w.step (.updateEmailPressed screen)) := by
  have hcommands : w.commands (.updateEmailPressed screen)
      = [.call (.updateEmail uid new) (.updateEmail screen)] := by
    simp [World.commands_of_running h.running, World.handle,
      UpdateEmailViewController.updateEmailPressed, h.user, h.typed, h.nonempty]
  rw [World.step_of_running h.running, World.react, hcommands]
  exact h.cached.trans h.auth.symm

end Step

instance (uid : Uid) (screen : Screen) (old new : String) (w : World) (e : Event) :
    Decidable (EmailChangeScope uid screen old new w e) := by
  unfold EmailChangeScope
  apply @Event.casesOn _ e
  case answer =>
    intro _ answer
    apply @Answer.casesOn _ answer
    all_goals
      intros
      infer_instance
  case snapshot =>
    intro index snapshot
    apply @Snapshot.casesOn _ snapshot
    case data =>
      intro _
      dsimp only
      refine Option.casesOn w.device.listeners[index]? ?_ fun _ => ?_ <;> infer_instance
    all_goals
      intros
      infer_instance
  all_goals
    intros
    infer_instance

instance (uid : Uid) (screen : Screen) (new : String) (w : World) (e : Event) :
    Decidable (SurvivesEmailChange uid screen new w e) := by
  unfold SurvivesEmailChange WritesEmail
  apply @Event.casesOn _ e
  case complete =>
    intro index
    dsimp only
    refine Option.casesOn (w.answered index) ?_ fun call => ?_
    · infer_instance
    · refine Prod.casesOn call fun _ answer => ?_
      apply @Answer.casesOn _ answer
      all_goals
        intros
        infer_instance
  all_goals
    intros
    infer_instance

instance (uid : Uid) (w : World) (e : Event) : Decidable (AcceptedInPlace uid w e) := by
  unfold AcceptedInPlace
  apply @Event.casesOn _ e
  case answer =>
    intro index _
    dsimp only
    refine Option.casesOn w.device.pending[index]? ?_ fun _ => ?_ <;> infer_instance
  all_goals
    intros
    infer_instance

instance (uid : Uid) (old new : String) (w : World) (e : Event) :
    Decidable (NoOldSnapshot uid old new w e) := by
  unfold NoOldSnapshot
  apply @Event.casesOn _ e
  case snapshot =>
    intro _ snapshot
    apply @Snapshot.casesOn _ snapshot
    all_goals
      intros
      infer_instance
  all_goals
    intros
    infer_instance

instance (uid : Uid) (screen : Screen) (old new : String) (w : World) :
    Decidable (ReadyToSubmit uid screen old new w) :=
  decidable_of_iff
    (w.device.crashed = false ∧ w.session = some uid
      ∧ w.device.currentUser.map User.email = some old ∧ w.authEmail uid = some old
      ∧ (w.device.emailScreens screen).user = some uid
      ∧ (w.device.emailScreens screen).newEmail = new ∧ screen < w.device.emailScreenCount
      ∧ new ≠ ""
      ∧ ∀ pending ∈ w.device.pending, pending.request.changesEmail = false)
    ⟨fun ⟨h₁, h₂, h₃, h₄, h₅, h₆, h₇, h₈, h₉⟩ => ⟨h₁, h₂, h₃, h₄, h₅, h₆, h₇, h₈, h₉⟩,
      fun h => ⟨h.1, h.2, h.3, h.4, h.5, h.6, h.7, h.8, h.9⟩⟩

/-! The owner of the first account has typed a new address with the settings open, and the document
gets a display name from another device while the change is under way. -/

def readyToSubmit : List Event :=
  [.editLogin ⟨"first@example.org", "one"⟩, .loginButtonPressed, .answer 0 (.user "first"),
    .complete 0, .openSettings, .emailRowPressed "one", .answer 2 (.user "first"), .complete 2,
    .editNewEmail 0 "new@example.org"]

/-- The password is checked again before Auth accepts the change, and the new address in the
document ends the session. -/
example :
    let submitted :=
      (run World.step (World.installed sharedServer) readyToSubmit).step (.updateEmailPressed 0)
    let events := [.emailRowPressed "one", .answer 3 (.user "first"), .answer 2 .success,
      .complete 2, .writeLands true,
      .snapshot 0 (.data (renamedDocument.merge [("email", .string "new@example.org")]))]
    Always World.step (EmailChangeScope "first" 0 "first@example.org" "new@example.org")
        submitted events
      ∧ ¬ Always World.step (AcceptedInPlace "first") submitted events
      ∧ (run World.step submitted events).session = none := by
  decide

end ProductivityApp
