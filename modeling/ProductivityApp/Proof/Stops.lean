import ProductivityApp.System.Calls

/-!
# When the app stops

The app unwraps optionals in four completions. Each holds a value in every run where the session and
the form are still as they were when the call was made, and none is checked again when the
completion runs. The law lists what has to be there at that moment: nothing else, in whatever order
events come, stops the app.
-/

namespace ProductivityApp

open EventSystem ProfileUpdate

/-- What the closure of a call unwraps without a check is there. -/
def Completion.Safe (device : Device) : Completion → Answer → Prop
  | .signUp, .user _ => device.currentUser.isSome → device.signUpForm.profilePicture.isSome
  | .emailRow, .user _ | .updateEmail _, .success => device.currentUser.isSome
  | .pictureDownloaded _ _, answer => ∃ data, answer = .download Option.none (some data)
  | _, _ => True

/-- A completion that runs at this event finds what it unwraps: the picture of the sign-up form, the
user signed in after a password check or a change of address, the bytes of a download. -/
def RunsSafely (w : World) : Event → Prop
  | .complete index =>
      ∀ pending answer, w.device.crashed = false → w.answered index = some (pending, answer) →
        pending.completion.Safe w.device answer
  | _ => True

/-- The app goes on after the event. -/
def GoesOn (w : World) (e : Event) : Prop := (w.step e).device.crashed = false

/-- The calls of the device are sound, and a download knows whose picture it is. -/
structure Pending.Known (pending : Pending) : Prop extends pending.Sound where
  user : ∀ user screen, pending.completion = .pictureDownloaded user screen → user.isSome

theorem Pending.known_of_issued {w : World} {e : Event} {c : Command} {origin : Origin}
    {pending : Pending} (h : Issued w e c) (hpending : c.pending origin = some pending) :
    pending.Known where
  toSound := Pending.sound_of_issued h hpending
  user := by
    cases h with
    | dataTask hanswered hcompletion huser hurl =>
        cases hpending
        rintro _ _ ⟨⟩
        rfl
    | _ => cases hpending <;> simp

namespace World

variable {w : World} {e : Event}

theorem known_step (h : ∀ pending ∈ w.device.pending, pending.Known) (e : Event) :
    ∀ pending ∈ (w.step e).device.pending, pending.Known := by
  have hsound := sound_step (fun pending hmem => (h pending hmem).toSound) e
  intro pending hmem
  refine ⟨hsound pending hmem, ?_⟩
  obtain hmem | ⟨index, answer, before, after, -, hanswers, rfl⟩ | ⟨c, hc, hpending⟩ :=
    pending_step_cases hmem
  · exact (h pending hmem).user
  · exact (h before (List.mem_of_getElem? hanswers.pending_eq)).user
  · exact (Pending.known_of_issued (issued_of_mem hc) hpending).user

theorem crashed_arrive : (w.arrive e).device.crashed = w.device.crashed := by
  cases e with
  | answer index answer =>
      exact arrive_answer_field Device.crashed index answer fun _ _ _ _ _ => rfl
  | complete index => exact arrive_complete_field Device.crashed index fun _ _ => rfl
  | writeLands accepted => exact arrive_writeLands_field Device.crashed accepted fun _ _ => rfl
  | _ => rfl

end World

theorem Device.execAll_crashed (device : Device) (origin : Origin) (commands : List Command) :
    (device.execAll origin commands).crashed = true
      ↔ device.crashed = true ∨ Command.trap ∈ commands := by
  induction commands generalizing device with
  | nil => simp
  | cons command commands ih =>
      rw [execAll_cons, ih, List.mem_cons]
      cases command with
      | trap => simp [exec]
      | signOut =>
          have hsame : (device.exec origin .signOut).crashed = device.crashed := by
            simp only [exec, signOut]
            split <;> rfl
          simp [hsame]
      | _ => simp [exec, setScreen]

theorem goesOn_iff {w : World} {e : Event} (hrunning : w.device.crashed = false) :
    GoesOn w e ↔ Command.trap ∉ w.commands e := by
  have hreact : (w.react e).crashed
      = ((w.arrive e).device.execAll (w.origin e) (w.commands e)).crashed := rfl
  have hcrashed := (w.arrive e).device.execAll_crashed (w.origin e) (w.commands e)
  rw [World.crashed_arrive, hrunning] at hcrashed
  rw [GoesOn, World.step_of_running hrunning, hreact, ← Bool.not_eq_true, hcrashed]
  simp

theorem trap_notMem_updateDisplayName (currentUser : Option User) (name : String) :
    Command.trap ∉ updateDisplayName currentUser name := by
  cases currentUser <;> simp [updateDisplayName]

theorem trap_mem_updateProfilePicture_iff (currentUser : Option User) (picture : Option Image) :
    Command.trap ∈ updateProfilePicture currentUser picture
      ↔ currentUser.isSome ∧ picture = none := by
  cases currentUser with
  | none => simp [updateProfilePicture]
  | some user =>
      cases picture with
      | none => simp [updateProfilePicture]
      | some image =>
          cases hdata : image.jpegData <;> simp [updateProfilePicture, hdata, saveLocalImage]

/-- A completion traps exactly where something it unwraps is missing. -/
theorem trap_mem_completed_iff {device : Device} {pending : Pending} {answer : Answer}
    (hknown : pending.Known) (hanswer : pending.answer = some answer) :
    Command.trap ∈ World.completed device answer pending.completion
      ↔ ¬ pending.completion.Safe device answer := by
  have hfits := hknown.fits
  have hanswered := hknown.answered answer hanswer
  cases hcompletion : pending.completion with
  | signUp =>
      rw [hcompletion] at hfits
      obtain ⟨email, password, hrequest⟩ := Request.fits_signUp.mp hfits
      rw [hrequest] at hanswered
      cases answer with
      | user uid =>
          simp [World.completed, SignUpViewController.userCreated, Completion.Safe,
            trap_notMem_updateDisplayName, trap_mem_updateProfilePicture_iff]
      | error description =>
          simp [World.completed, SignUpViewController.userCreated, Completion.Safe]
      | _ => cases hanswered
  | emailRow =>
      have hsignIn : ∃ email password, pending.request = .signIn email password := by
        rw [hcompletion] at hfits
        cases hrequest : pending.request <;> simp_all [Request.fits]
      obtain ⟨email, password, hrequest⟩ := hsignIn
      rw [hrequest] at hanswered
      obtain ⟨uid, rfl⟩ | ⟨description, rfl⟩ := Request.answeredBy_signIn hanswered
      · cases huser : device.currentUser <;>
          simp [World.completed, SettingsTableViewController.passwordChecked,
            UpdateEmailViewController.viewDidLoad, Completion.Safe, huser]
      · simp [World.completed, SettingsTableViewController.passwordChecked, Completion.Safe]
  | updateEmail screen =>
      rw [hcompletion] at hfits
      obtain ⟨user, email, hrequest⟩ := Request.fits_updateEmail.mp hfits
      rw [hrequest] at hanswered
      cases answer with
      | success =>
          cases huser : device.currentUser <;>
            simp [World.completed, UpdateEmailViewController.emailUpdated,
              ProfileUpdate.updateEmail,
              Completion.Safe, huser]
      | error description =>
          simp only [World.completed, UpdateEmailViewController.emailUpdated, Completion.Safe,
            not_true_eq_false, iff_false]
          split_ifs <;> simp
      | _ => cases hanswered
  | pictureDownloaded user screen =>
      obtain ⟨uid, rfl⟩ := Option.isSome_iff_exists.mp (hknown.user user screen hcompletion)
      simp only [World.completed, pictureDownloaded, Completion.Safe]
      split
      · simp [saveLocalImage]
      · rename_i hfailed
        simpa using hfailed
  | checkCurrentPassword screen =>
      simp only [World.completed, PasswordResetViewController.passwordChecked,
        PasswordResetViewController.updatePassword, Completion.Safe]
      split
      · simp
      · split_ifs
        · split
          · simp
          · simp only [User.updatePassword]
            split_ifs <;> simp
        · simp
  | updatePassword screen =>
      simp only [World.completed, PasswordResetViewController.passwordUpdated, Completion.Safe]
      split
      · split_ifs <;> simp
      · simp
  | pictureURL =>
      simp only [World.completed, ProfileUpdate.pictureURL, Completion.Safe]
      split
      · split <;> simp
      · simp
  | pictureReloaded screen =>
      simp only [World.completed, SettingsTableViewController.pictureReloaded, Completion.Safe]
      split
      · simp
      · split <;> simp [downloadProfilePicture]
  | firebaseAuth =>
      simp only [World.completed, LoginViewController.signedIn, Completion.Safe]
      split <;> simp
  | pictureUploaded profileRef =>
      simp only [World.completed, ProfileUpdate.pictureUploaded, Completion.Safe]
      split <;> simp
  | pictureShown screen =>
      simp only [World.completed, SettingsTableViewController.pictureShown, Completion.Safe]
      split <;> simp
  | nameReloaded screen =>
      simp [World.completed, SettingsTableViewController.nameReloaded, Completion.Safe]
  | displayNameCommitted | photoCommitted | none => simp [World.completed, Completion.Safe]

/-- Only a completion can stop the app. -/
theorem goesOn_iff_runsSafely {w : World} {e : Event} (hrunning : w.device.crashed = false)
    (hknown : ∀ pending ∈ w.device.pending, pending.Known) : GoesOn w e ↔ RunsSafely w e := by
  rw [goesOn_iff hrunning]
  cases e with
  | complete index =>
      cases hanswered : w.answered index with
      | none =>
          rw [(World.complete_eq_of_answered_none hanswered).2]
          simp [RunsSafely, hanswered]
      | some call =>
          obtain ⟨pending, answer⟩ := call
          obtain ⟨hmem, hanswer⟩ := World.mem_of_answered hanswered
          rw [World.commands_complete hrunning hanswered,
            trap_mem_completed_iff (hknown pending hmem) hanswer, not_not]
          simp [RunsSafely, hanswered, hrunning]
  | _ =>
      simp only [RunsSafely, iff_true]
      intro hmem
      cases issued_of_mem hmem

/-- **What stops the app**: a run of the app as installed goes on after every event in exactly the
runs in which each completion finds what it unwraps. -/
theorem always_goesOn_iff (server : Server) (events : List Event) :
    Always World.step GoesOn (World.installed server) events
      ↔ Always World.step RunsSafely (World.installed server) events := by
  have hstep : ∀ w e, (w.device.crashed = false ∧ ∀ pending ∈ w.device.pending, pending.Known) →
      RunsSafely w e →
      (w.step e).device.crashed = false ∧ ∀ pending ∈ (w.step e).device.pending, pending.Known :=
    fun w e hw hsafe => ⟨(goesOn_iff_runsSafely hw.1 hw.2).mpr hsafe, World.known_step hw.2 e⟩
  refine always_iff_of_invariant hstep (fun w e hw => goesOn_iff_runsSafely hw.1 hw.2) ?_
  exact ⟨rfl, by simp [World.installed, Device.initial]⟩

end ProductivityApp
