import ProductivityApp.Proof.Window
import ProductivityApp.System.DeviceLemmas

/-!
# The screen of a device

A device of `World` only says who is signed in. Here it is put together with the Auth client that
keeps the session and the scenes that follow it: an event of the device is carried out on both, each
answer, command or revocation as the work Auth does for it, while scenes connect and blocks of the
main queue run in between. The client keeps the session the device has, so the window is the home
screen exactly while somebody is signed in on the device.
-/

namespace ProductivityApp

open EventSystem

namespace Phone

/-- The object of the current user. -/
def currentObject (phone : Phone) : ℕ :=
  (phone.auth.bind FIRAuth.currentUser).elim 0 FIRUser.object

/-- Auth has read the keychain, is between two tasks, and has this account signed in. -/
def Holds (phone : Phone) (uid : Option Uid) : Prop :=
  ∃ auth, phone.auth = some auth ∧ auth.idle = true ∧ auth.currentUser.map FIRUser.uid = uid
    ∧ ∀ user, auth.currentUser = some user → user.object < auth.nextObject

/-- What Auth does when a request is answered, as `Device.receive` has it: an object that is no
longer in place is saved nowhere. -/
def received (phone : Phone) (device : Device) (pending : Pending) (answer : Answer) :
    List AuthEvent :=
  match pending.request, answer with
  | .createUser _ _, .user uid | .signIn _ _, .user uid =>
      [.signedIn { account := uid, serial := device.history.clock } true, .post]
  | .updateEmail uid _, .success | .updatePassword uid _, .success
  | .commitChanges uid _, .success | .reload uid, .success =>
      if device.currentUser.map User.uid = some uid ∧ device.userObject = pending.origin.object then
        [.userUpdated phone.currentObject device.history.clock true, .post]
      else []
  | _, _ => []

end Phone

/-- What an event is to Auth before the app reacts. -/
def World.authArrives (w : World) (phone : Phone) : Event → List AuthEvent
  | .answer index answer =>
      match w.device.pending[index]? with
      | none => []
      | some pending =>
          if pending.answer = none ∧ (w.server.respond pending.request answer).isSome then
            phone.received w.device pending answer
          else []
  | .tokenRevoked => [.tokenInvalid phone.currentObject w.device.keychain, .post]
  | _ => []

/-- The work of Auth when an event happens on the device. An app that stops takes Auth with it. -/
def World.authEvents (w : World) (phone : Phone) (e : Event) : List AuthEvent :=
  w.authArrives phone e
    ++ (if .signOut ∈ w.commands e then [.signOut (w.arrive e).device.keychain, .post] else [])
    ++ if (w.step e).device.crashed then [.terminate] else []

namespace Phone

variable {phone : Phone} {uid : Option Uid}

theorem possiblyPost_holds (auth : FIRAuth) :
    auth.possiblyPost.loaded = auth.loaded ∧ auth.possiblyPost.posting = false
      ∧ auth.possiblyPost.currentUser = auth.currentUser
      ∧ auth.possiblyPost.nextObject = auth.nextObject := by
  dsimp only [FIRAuth.possiblyPost]
  split <;> exact ⟨rfl, rfl, rfl, rfl⟩

theorem holds_post {keychain : Option IDToken} {auth : FIRAuth} (hloaded : auth.loaded = true)
    (huid : auth.currentUser.map FIRUser.uid = uid)
    (hobjects : ∀ user, auth.currentUser = some user → user.object < auth.nextObject) :
    (step { keychain, auth := some auth } .post).Holds uid := by
  refine ⟨if auth.posting then auth.possiblyPost else auth, rfl, ?_⟩
  obtain ⟨hloaded', hposting, huser, hobject⟩ := possiblyPost_holds auth
  split
  · exact ⟨by simp [FIRAuth.idle, hloaded', hloaded, hposting], by rw [huser, huid],
      by rw [huser, hobject]; exact hobjects⟩
  · rename_i hidle
    exact ⟨by simpa [FIRAuth.idle, hloaded] using hidle, huid, hobjects⟩

/-- A task of Auth's queue is taken up, and posts in the end. -/
theorem Holds.of_task (h : phone.Holds uid) {e : AuthEvent} {run : FIRAuth → Phone}
    {after : Option Uid} (hstep : phone.step e = phone.task run)
    (hrun : ∀ auth, auth.loaded = true → phone.auth = some auth →
      auth.currentUser.map FIRUser.uid = uid →
      (∀ user, auth.currentUser = some user → user.object < auth.nextObject) →
      ((run auth).step .post).Holds after) :
    (EventSystem.run step phone [e, .post]).Holds after := by
  obtain ⟨auth, hauth, hidle, huid, hobjects⟩ := h
  have hloaded : auth.loaded = true := by
    simp only [FIRAuth.idle, Bool.and_eq_true] at hidle
    exact hidle.1
  have htask : phone.step e = run auth := by simp [hstep, task, hauth, hidle]
  rw [run_cons, run_cons, run_nil, htask]
  exact hrun auth hloaded hauth huid hobjects

theorem Holds.signedIn (h : phone.Holds uid) (token : IDToken) :
    (run step phone [.signedIn token true, .post]).Holds (some token.account) := by
  refine h.of_task rfl fun auth hloaded _ _ hobjects => ?_
  have hne : (some (auth.newUser token)).map FIRUser.object
      ≠ auth.currentUser.map FIRUser.object := by
    intro heq
    obtain ⟨user, huser, hobject⟩ := Option.map_eq_some_iff.mp heq.symm
    exact absurd hobject (hobjects user huser).ne
  simp only [Phone.signedIn, updateCurrentUser]
  rw [if_neg hne]
  refine holds_post hloaded rfl ?_
  rintro _ ⟨⟩
  exact Nat.lt_succ_self _

theorem Holds.signOut (h : phone.Holds uid) (saved : Bool) :
    (run step phone [.signOut saved, .post]).Holds (if saved then none else uid) := by
  refine h.of_task rfl fun auth hloaded _ huid hobjects => ?_
  cases huser : auth.currentUser with
  | none =>
      obtain rfl : uid = none := by simpa [huser] using huid.symm
      simpa [Phone.signOut, huser] using holds_post hloaded huid hobjects
  | some user =>
      simp only [Phone.signOut, huser, updateCurrentUser, Option.map_none, Option.map_some,
        reduceCtorEq, if_false]
      cases saved with
      | true => exact holds_post hloaded rfl (by simp [FIRAuth.setCurrentUser])
      | false => exact holds_post hloaded huid hobjects

theorem Holds.tokenInvalid (h : phone.Holds uid) (saved : Bool) :
    (run step phone [.tokenInvalid phone.currentObject saved, .post]).Holds none := by
  refine h.of_task rfl fun auth hloaded hauth huid hobjects => ?_
  cases huser : auth.currentUser with
  | none =>
      obtain rfl : uid = none := by simpa [huser] using huid.symm
      simpa [signOutByForce, huser] using holds_post hloaded huid hobjects
  | some user =>
      have hobject : phone.currentObject = user.object := by simp [currentObject, hauth, huser]
      simp only [signOutByForce, huser, hobject, updateCurrentUser, Option.map_none,
        Option.map_some, reduceCtorEq, if_false, if_true, Bool.or_true]
      exact holds_post hloaded rfl (by simp [FIRAuth.setCurrentUser])

theorem Holds.userUpdated (h : phone.Holds uid) (object serial : ℕ) :
    (run step phone [.userUpdated object serial true, .post]).Holds uid := by
  refine h.of_task rfl fun auth hloaded _ huid hobjects => ?_
  cases huser : auth.currentUser with
  | none => simpa [updateKeychain, huser] using holds_post hloaded huid hobjects
  | some user =>
      by_cases hobject : user.object = object
      · simp only [updateKeychain, huser, if_pos hobject, if_true]
        refine holds_post hloaded ?_ ?_
        · rw [← huid, huser]
          rfl
        · rintro _ ⟨⟩
          exact hobjects user huser
      · simp only [updateKeychain, huser, if_neg hobject]
        exact holds_post hloaded huid hobjects

theorem Holds.within (h : phone.Holds uid) {f : FIRAuth → FIRAuth}
    (hf : ∀ auth, (f auth).idle = auth.idle ∧ (f auth).currentUser = auth.currentUser
      ∧ (f auth).nextObject = auth.nextObject) : (phone.within f).Holds uid := by
  obtain ⟨auth, hauth, hidle, huid, hobjects⟩ := h
  obtain ⟨hidle', huser, hobject⟩ := hf auth
  exact ⟨f auth, by simp [Phone.within, hauth], by rw [hidle', hidle], by rw [huser, huid],
    by rw [huser, hobject]; exact hobjects⟩

theorem Holds.sceneWillConnect (h : phone.Holds uid) : (phone.step .sceneWillConnect).Holds uid :=
  h.within fun _ => ⟨rfl, rfl, rfl⟩

theorem Holds.mainBlock (h : phone.Holds uid) : (phone.step .mainBlock).Holds uid := by
  refine h.within fun auth => ?_
  unfold FIRAuth.runMainBlock
  split <;> exact ⟨rfl, rfl, rfl⟩

theorem Holds.refreshed {device : Device} {after : Server} {user : Uid}
    (h : phone.Holds (device.currentUser.map User.uid)) (huser : (after.user user).isSome)
    (object serial : ℕ) :
    (run step phone (if device.currentUser.map User.uid = some user ∧ device.userObject = object
      then [.userUpdated phone.currentObject serial true, .post] else [])).Holds
        ((device.refresh after user object).currentUser.map User.uid) := by
  by_cases hinPlace : device.currentUser.map User.uid = some user ∧ device.userObject = object
  · rw [if_pos hinPlace, device.uid_refresh object hinPlace.1 huser, ← hinPlace.1]
    exact h.userUpdated phone.currentObject serial
  · rw [if_neg hinPlace, Device.refresh, if_neg hinPlace]
    exact h

/-- The client keeps up with what an answer does to the session of the device. -/
theorem Holds.received {device : Device} {pending : Pending} {server after : Server}
    {answer : Answer} (h : phone.Holds (device.currentUser.map User.uid))
    (hrespond : server.respond pending.request answer = some after) :
    (run step phone (phone.received device pending answer)).Holds
      ((device.receive after pending answer).currentUser.map User.uid) := by
  cases answer with
  | user uid =>
      obtain ⟨user, huser⟩ := Option.isSome_iff_exists.mp (Server.user_of_respond_user hrespond)
      have hsignedIn := h.signedIn { account := uid, serial := device.history.clock }
      cases hrequest : pending.request with
      | createUser _ _ | signIn _ _ =>
          simpa [Phone.received, Device.receive, hrequest, Device.signIn, huser,
            Server.user_uid huser] using hsignedIn
      | _ => simpa [Phone.received, Device.receive, hrequest] using h
  | success =>
      cases hrequest : pending.request with
      | updateEmail uid _ | updatePassword uid _ | commitChanges uid _ =>
          rw [hrequest] at hrespond
          have hrefreshed := h.refreshed (Server.user_of_changeAccount hrespond)
            pending.origin.object device.history.clock
          simpa only [Phone.received, Device.receive, hrequest] using hrefreshed
      | reload uid =>
          simp only [hrequest, Server.respond, Option.ite_none_right_eq_some,
            Option.some.injEq] at hrespond
          obtain ⟨haccount, rfl⟩ := hrespond
          have huser : (server.user uid).isSome := by simpa [Server.user] using haccount
          have hrefreshed := h.refreshed huser pending.origin.object device.history.clock
          simpa only [Phone.received, Device.receive, hrequest] using hrefreshed
      | _ => simpa [Phone.received, Device.receive, hrequest] using h
  | _ => simpa [Phone.received, Device.receive] using h

/-- What arrives of an event leaves the client with the session of the device. -/
theorem Holds.authArrives {w : World} (h : phone.Holds (w.device.currentUser.map User.uid))
    (e : Event) : (run step phone (w.authArrives phone e)).Holds
      ((w.arrive e).device.currentUser.map User.uid) := by
  cases e with
  | answer index answer =>
      cases hpending : w.device.pending[index]? with
      | none =>
          simpa [World.authArrives, hpending, World.arrive_answer_eq, World.answer] using h
      | some pending =>
          by_cases hunanswered : pending.answer = none
          · cases hrespond : w.server.respond pending.request answer with
            | none =>
                simpa [World.authArrives, hpending, hunanswered, hrespond, World.arrive_answer_eq,
                  World.answer] using h
            | some after =>
                have hreceived := h.received hrespond
                rw [World.arrive_answer hpending hunanswered hrespond]
                simpa [World.authArrives, hpending, hunanswered, hrespond] using hreceived
          · have hanswered : pending.answer.isSome := Option.isSome_iff_ne_none.mpr hunanswered
            simpa [World.authArrives, hpending, hunanswered, hanswered, World.arrive_answer_eq,
              World.answer] using h
  | tokenRevoked => exact h.tokenInvalid w.device.keychain
  | complete index =>
      have huser := w.arrive_complete_field Device.currentUser index fun _ _ => rfl
      simpa [World.authArrives, huser] using h
  | writeLands accepted =>
      have huser := w.arrive_writeLands_field Device.currentUser accepted fun _ _ => rfl
      simpa [World.authArrives, huser] using h
  | _ => exact h

end Phone

/-- A device and the Auth client on it. -/
structure Installation where
  world : World
  phone : Phone

inductive InstallationEvent where
  | device (e : Event)
  | sceneWillConnect
  | mainBlock

namespace Installation

def step (s : Installation) : InstallationEvent → Installation
  | .device e =>
      { world := s.world.step e
        phone := run Phone.step s.phone (s.world.authEvents s.phone e) }
  | .sceneWillConnect => { s with phone := s.phone.step .sceneWillConnect }
  | .mainBlock => { s with phone := s.phone.step .mainBlock }

/-- The app as installed, once Auth has found that nobody is signed in. -/
def started (server : Server) : Installation :=
  { world := World.installed server
    phone := run Phone.step (Phone.installed none) [.launch, .loadUser true, .post] }

/-- The client has the session of a device that runs, and is gone with an app that stopped. -/
structure Agree (s : Installation) : Prop where
  coherent : s.phone.Coherent
  holds : s.world.device.crashed = false →
    s.phone.Holds (s.world.device.currentUser.map User.uid)
  stopped : s.world.device.crashed = true → s.phone.auth = none

theorem agree_started (server : Server) : (started server).Agree where
  coherent := Phone.coherent_run none [.launch, .loadUser true, .post]
  holds _ := ⟨_, rfl, rfl, rfl, by rintro _ ⟨⟩⟩
  stopped h := by cases h

theorem coherent_run_of_coherent {phone : Phone} (h : phone.Coherent) (events : List AuthEvent) :
    (run Phone.step phone events).Coherent :=
  have hstep : ∀ phone e, Phone.Coherent phone → True → Phone.Coherent (Phone.step phone e) :=
    fun _ e h _ => Phone.coherent_step h e
  run_invariant hstep h (always_of_forall Phone.step (fun _ _ => trivial) _ events)

/-- What the app does about an event is at most a logout, which Auth carries out as well. -/
theorem holds_reacted {w : World} {phone : Phone} {e : Event} (hrunning : w.device.crashed = false)
    (h : phone.Holds ((w.arrive e).device.currentUser.map User.uid)) :
    (run Phone.step phone (if .signOut ∈ w.commands e then
      [.signOut (w.arrive e).device.keychain, .post] else [])).Holds
        ((w.step e).device.currentUser.map User.uid) := by
  by_cases hmem : .signOut ∈ w.commands e
  · rw [if_pos hmem]
    have hsignOut := h.signOut (w.arrive e).device.keychain
    cases hkeychain : (w.arrive e).device.keychain with
    | true =>
        rw [hkeychain] at hsignOut
        have hnone : (w.step e).device.currentUser = none := by
          rw [World.step_of_running hrunning]
          exact Device.execAll_currentUser_of_mem _ _ hkeychain hmem
        simpa [hnone] using hsignOut
    | false =>
        rw [hkeychain] at hsignOut
        obtain ⟨huser, -⟩ | ⟨-, -, hobeys, -⟩ := @World.session_step w e hrunning
        · simpa [huser] using hsignOut
        · simp [hkeychain] at hobeys
  · rw [if_neg hmem]
    obtain ⟨huser, -⟩ | ⟨-, -, -, hissued⟩ := @World.session_step w e hrunning
    · simpa [huser] using h
    · exact absurd hissued hmem

theorem running_of_step {w : World} {e : Event} (h : (w.step e).device.crashed = false) :
    w.device.crashed = false := by
  by_contra hcrashed
  rw [World.step_of_crashed (by simpa using hcrashed)] at h
  exact hcrashed h

theorem agree_device {s : Installation} (h : s.Agree) (e : Event) :
    (s.step (.device e)).Agree where
  coherent := coherent_run_of_coherent h.coherent (s.world.authEvents s.phone e)
  holds hrunning := by
    have hbefore := running_of_step hrunning
    have hreacted := holds_reacted hbefore ((h.holds hbefore).authArrives e)
    have hstep : (s.world.step e).device.crashed = false := hrunning
    simpa [step, World.authEvents, run, hstep] using hreacted
  stopped hcrashed := by
    have hstep : (s.world.step e).device.crashed = true := hcrashed
    simp [step, World.authEvents, run, hstep, Phone.step]

theorem agree_step {s : Installation} (h : s.Agree) (e : InstallationEvent) : (s.step e).Agree := by
  cases e with
  | device e => exact agree_device h e
  | sceneWillConnect =>
      exact ⟨Phone.coherent_step h.coherent .sceneWillConnect,
        fun hrunning => (h.holds hrunning).sceneWillConnect,
        fun hcrashed => by simp [step, Phone.step, Phone.within, h.stopped hcrashed]⟩
  | mainBlock =>
      exact ⟨Phone.coherent_step h.coherent .mainBlock,
        fun hrunning => (h.holds hrunning).mainBlock,
        fun hcrashed => by simp [step, Phone.step, Phone.within, h.stopped hcrashed]⟩

theorem agree_run (server : Server) (events : List InstallationEvent) :
    (run step (started server) events).Agree :=
  have hstep : ∀ s e, Agree s → True → Agree (step s e) := fun _ e h _ => agree_step h e
  run_invariant hstep (agree_started server)
    (always_of_forall step (fun _ _ => trivial) _ events)

end Installation

end ProductivityApp
