import ProductivityApp.Proof.Session

/-!
# Whose account an operation acts on

A sign-up, an email change and a picture upload are chains of asynchronous steps. The uploaded
object and the sign-up document are named by a captured uid, but the steps that write the display
name, the email and the picture URL take whoever is signed in when they run. So an operation acts on
its own account exactly as long as no such step runs while another account is signed in.
-/

namespace ProductivityApp

open EventSystem ProfileUpdate

/-- The account a command acts on: the document written, the Auth profile whose name or picture is
changed, the Storage folder written to, or the local picture file written. -/
def Command.target : Command → Option Uid
  | .setData uid _ | .updateData uid _ => some uid
  | .call (.commitChanges user _) _ => some user
  | .call (.putData ref _) _ => ref.path.head?
  | .writeFile name _ => some name
  | _ => none

/-- The completion of a picture download, which is part of opening the settings and of no profile
operation. -/
def Completion.downloads : Completion → Bool
  | .pictureDownloaded _ _ => true
  | _ => false

/-- Whether an event runs the completion of a picture download. -/
def World.downloads (w : World) : Event → Bool
  | .complete index => (w.answered index).any fun call => call.1.completion.downloads
  | _ => false

/-- Whatever an operation acts on is the account it belongs to. -/
def ActsOnOwner (w : World) (e : Event) : Prop :=
  w.downloads e = true ∨ ∀ c ∈ w.commands e,
    c.target = none ∨ (w.origin e).account = none ∨ c.target = (w.origin e).account

/-- The completions that look up the signed-in user to write to it. -/
def Completion.looksUpUser : Completion → Answer → Bool
  | .signUp, .user _ => true
  | .updateEmail _, .error _ => false
  | .updateEmail _, _ => true
  | .pictureURL, .url _ => true
  | _, _ => false

/-- A completion that looks up the signed-in user finds nobody, or the account its operation belongs
to. -/
def FindsOwner (w : World) : Event → Prop
  | .complete index =>
      match w.answered index with
      | none => True
      | some (pending, answer) =>
          pending.completion.looksUpUser answer = true → w.device.crashed = false →
            w.device.currentUser = none ∨ pending.owner = none
              ∨ w.device.currentUser.map User.uid = pending.owner
  | _ => True

variable {w : World} {e : Event}

theorem origin_complete {index : ℕ} {pending : Pending} {answer : Answer}
    (h : w.answered index = some (pending, answer)) :
    (w.origin (.complete index)).account = pending.owner := by
  simp [World.origin, h]

theorem origin_of_currentUser {user : User} (h : w.device.currentUser = some user)
    (he : ∀ index, e ≠ .complete index) : (w.origin e).account = some user.uid := by
  cases e with
  | complete index => exact absurd rfl (he index)
  | _ => simp [World.origin, h]

/-- What a looking-up completion writes to is the account its operation belongs to. -/
theorem FindsOwner.owner {index : ℕ} {pending : Pending} {answer : Answer} {user : User}
    (h : FindsOwner w (.complete index)) (hrunning : w.device.crashed = false)
    (hanswered : w.answered index = some (pending, answer))
    (hlooksUp : pending.completion.looksUpUser answer = true)
    (huser : w.device.currentUser = some user) :
    pending.owner = none ∨ some user.uid = pending.owner := by
  simp only [FindsOwner, hanswered] at h
  simpa [huser] using h hlooksUp hrunning

theorem NamesAccount.owner {name : String} {user : User} (hsite : NamesAccount w e name)
    (h : FindsOwner w e) (hrunning : w.device.crashed = false)
    (huser : w.device.currentUser = some user) :
    (w.origin e).account = none ∨ some user.uid = (w.origin e).account := by
  cases hsite with
  | typed _ => exact Or.inr (origin_of_currentUser huser (by simp)).symm
  | signUp hanswered hcompletion =>
      rw [origin_complete hanswered]
      exact h.owner hrunning hanswered (by simp [Completion.looksUpUser, hcompletion]) huser

theorem PicksPicture.owner {image : Image} {user : User} (hsite : PicksPicture w e image)
    (h : FindsOwner w e) (hrunning : w.device.crashed = false)
    (huser : w.device.currentUser = some user) :
    (w.origin e).account = none ∨ some user.uid = (w.origin e).account := by
  cases hsite with
  | settings => exact Or.inr (origin_of_currentUser huser (by simp)).symm
  | signUp hanswered hcompletion _ =>
      rw [origin_complete hanswered]
      exact h.owner hrunning hanswered (by simp [Completion.looksUpUser, hcompletion]) huser

theorem actsOnOwner_of_findsOwner (h : FindsOwner w e) : ActsOnOwner w e := by
  by_cases hdownload : w.downloads e = true
  · exact Or.inl hdownload
  refine Or.inr fun c hc => ?_
  have hrunning := World.running_of_mem_commands hc
  cases issued_of_mem hc with
  | accountDocument hanswered hcompletion =>
      rw [origin_complete hanswered]
      simp [Command.target, Pending.owner, hcompletion, (World.mem_of_answered hanswered).2]
  | nameWrite hsite huser => exact Or.inr (hsite.owner h hrunning huser)
  | nameCommit hsite huser => exact Or.inr (hsite.owner h hrunning huser)
  | pictureFile hsite _ huser => exact Or.inr (hsite.owner h hrunning huser)
  | pictureUpload hsite _ huser => exact Or.inr (hsite.owner h hrunning huser)
  | emailWrite hanswered hcompletion hsuccess huser =>
      rw [origin_complete hanswered]
      refine Or.inr (h.owner hrunning hanswered ?_ huser)
      rw [hcompletion, Completion.looksUpUser]
      simpa using hsuccess
  | photoCommit hanswered hcompletion huser =>
      rw [origin_complete hanswered]
      refine Or.inr (h.owner hrunning hanswered ?_ huser)
      simp [Completion.looksUpUser, hcompletion]
  | downloadedFile hanswered hcompletion =>
      exact absurd (by simp [World.downloads, hanswered, hcompletion, Completion.downloads])
        hdownload
  | _ => exact Or.inl rfl

theorem exists_command_of_looksUpUser {index : ℕ} {pending : Pending} {answer : Answer}
    {user : User} (hrunning : w.device.crashed = false)
    (hanswered : w.answered index = some (pending, answer))
    (hlooksUp : pending.completion.looksUpUser answer = true)
    (huser : w.device.currentUser = some user) :
    ∃ c ∈ w.commands (.complete index), c.target = some user.uid := by
  rw [World.commands_of_running hrunning]
  simp only [World.handle, hanswered]
  cases hcompletion : pending.completion with
  | signUp =>
      cases answer with
      | user uid =>
          refine ⟨.updateData user.uid [("displayName", .string w.device.signUpForm.displayName)],
            ?_, rfl⟩
          simp [World.completed, SignUpViewController.userCreated, updateDisplayName, huser]
      | _ => rw [hcompletion] at hlooksUp; cases hlooksUp
  | updateEmail screen =>
      refine ⟨.updateData user.uid
        [("email", .string (w.device.emailScreens screen).newEmail)], ?_, rfl⟩
      cases answer with
      | error description => rw [hcompletion] at hlooksUp; cases hlooksUp
      | _ =>
          simp [World.completed, UpdateEmailViewController.emailUpdated, ProfileUpdate.updateEmail,
            huser]
  | pictureURL =>
      cases answer with
      | url url =>
          refine ⟨.call (.commitChanges user.uid { photoURL := some url }) .photoCommitted, ?_, rfl⟩
          simp [World.completed, ProfileUpdate.pictureURL, huser]
      | _ => rw [hcompletion] at hlooksUp; cases hlooksUp
  | _ => rw [hcompletion] at hlooksUp; cases hlooksUp

theorem findsOwner_of_actsOnOwner (h : ActsOnOwner w e) : FindsOwner w e := by
  cases e with
  | complete index =>
      cases hanswered : w.answered index with
      | none => simp [FindsOwner, hanswered]
      | some call =>
          obtain ⟨pending, answer⟩ := call
          simp only [FindsOwner, hanswered]
          intro hlooksUp hrunning
          cases huser : w.device.currentUser with
          | none => exact Or.inl rfl
          | some user =>
              right
              have hdownload : w.downloads (.complete index) = false := by
                cases hcompletion : pending.completion <;>
                  simp_all [World.downloads, Completion.downloads, Completion.looksUpUser]
              obtain ⟨c, hc, htarget⟩ :=
                exists_command_of_looksUpUser hrunning hanswered hlooksUp huser
              have hacts := h.resolve_left (by simp [hdownload]) c hc
              rw [htarget, origin_complete hanswered] at hacts
              simpa using hacts
  | _ => trivial

/-- **An operation acts on its own account only**, in exactly the runs in which no completion that
looks up the signed-in user finds another account's. -/
theorem always_actsOnOwner_iff (server : Server) (events : List Event) :
    Always World.step ActsOnOwner (World.installed server) events
      ↔ Always World.step FindsOwner (World.installed server) events :=
  always_congr fun _ _ => ⟨findsOwner_of_actsOnOwner, actsOnOwner_of_findsOwner⟩

/-! The owner of the first account changes the email and logs out before the app has heard that Auth
accepted it; the second account logs in, and then the completion runs. -/

def emailedWhileAway : List Event :=
  [.editLogin ⟨"first@example.org", "one"⟩, .loginButtonPressed, .answer 0 (.user "first"),
    .complete 0, .emailRowPressed "one", .answer 0 (.user "first"), .complete 0,
    .editNewEmail 0 "new@example.org", .updateEmailPressed 0, .answer 0 .success, .logoutPressed,
    .editLogin ⟨"second@example.org", "two"⟩, .loginButtonPressed, .answer 1 (.user "second"),
    .complete 0]

instance (w : World) (e : Event) : Decidable (ActsOnOwner w e) :=
  inferInstanceAs (Decidable (_ ∨ ∀ c ∈ w.commands e, _))

theorem emailedWhileAway_writes_second :
    ¬ Always World.step ActsOnOwner (World.installed sharedServer) emailedWhileAway := by
  decide

end ProductivityApp
