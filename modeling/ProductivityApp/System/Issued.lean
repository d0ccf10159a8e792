import ProductivityApp.System.DeviceLemmas

/-!
# Where each command comes from

One constructor for each place in the source that issues a command, with the event it answers and
what the code has checked by then. Every command of a step comes from one of these places
(`issued_of_mem`), so a law about one kind of command has only the places of that kind to look at.
-/

namespace ProductivityApp

open ProfileUpdate

/-- The completion run by an event is the one of `updateDisplayName`'s callers that hands it this
name. -/
inductive NamesAccount (w : World) : Event → String → Prop
  | typed {screen : Screen} :
      (w.device.settings screen).displayName ≠ "" →
        NamesAccount w (.textFieldShouldReturn screen) (w.device.settings screen).displayName
  | signUp {index : ℕ} {pending : Pending} {uid : Uid} :
      w.answered index = some (pending, .user uid) → pending.completion = .signUp →
        NamesAccount w (.complete index) w.device.signUpForm.displayName

/-- The event hands this picture to `updateProfilePicture`. -/
inductive PicksPicture (w : World) : Event → Image → Prop
  | settings {screen : Screen} {image : Image} :
      PicksPicture w (.imagePicked screen (some image)) image
  | signUp {index : ℕ} {pending : Pending} {uid : Uid} {image : Image} :
      w.answered index = some (pending, .user uid) → pending.completion = .signUp →
        w.device.signUpForm.profilePicture = some image →
          PicksPicture w (.complete index) image

inductive Issued (w : World) : Event → Command → Prop
  | present {e : Event} {notice : Notice} : Issued w e (.present notice)
  | setTitle {e : Event} {screen : Screen} {title : String} : Issued w e (.setTitle screen title)
  | setDisplayName {e : Event} {screen : Screen} {text : Option String} :
      Issued w e (.setDisplayName screen text)
  | setEmail {e : Event} {screen : Screen} {text : Option String} :
      Issued w e (.setEmail screen text)
  | createUser :
      Issued w .signUpButtonPressed
        (.call (.createUser (removeExtraSpaces w.device.signUpForm.email)
          w.device.signUpForm.password) .signUp)
  | login :
      Issued w .loginButtonPressed
        (.call (.signIn w.device.loginForm.email w.device.loginForm.password) .firebaseAuth)
  | emailRow {password : String} {user : User} :
      w.device.currentUser = some user →
        Issued w (.emailRowPressed password) (.call (.signIn user.email password) .emailRow)
  | checkPassword {screen : Screen} {user : User} :
      w.device.currentUser = some user →
        Issued w (.passowrdUpdateButtonPressed screen)
          (.call (.signIn user.email (w.device.passwordForms screen).currentPassword)
            (.checkCurrentPassword screen))
  | updateEmail {screen : Screen} {user : Uid} :
      (w.device.emailScreens screen).user = some user →
        Issued w (.updateEmailPressed screen)
          (.call (.updateEmail user (w.device.emailScreens screen).newEmail) (.updateEmail screen))
  | updatePassword {index : ℕ} {pending : Pending} {answer : Answer} {screen : Screen}
      {user : User} :
      w.answered index = some (pending, answer) →
        pending.completion = .checkCurrentPassword screen →
        w.device.currentUser = some user →
        (w.device.passwordForms screen).newPassword ≠ "" →
        Issued w (.complete index)
          (.call (.updatePassword user.uid (w.device.passwordForms screen).newPassword)
            (.updatePassword screen))
  | refusePassword {index : ℕ} {pending : Pending} {answer : Answer} {screen : Screen} :
      w.answered index = some (pending, answer) →
        pending.completion = .checkCurrentPassword screen →
        (w.device.passwordForms screen).newPassword = "" →
        Issued w (.complete index) (.mainAsync (.updatePassword screen)
          (.error "The password must be 6 characters long or more."))
  | accountDocument {index : ℕ} {pending : Pending} {uid : Uid} :
      w.answered index = some (pending, .user uid) → pending.completion = .signUp →
        Issued w (.complete index) (.setData uid
          [("accountCreatedOn", .double w.device.now),
            ("email", .string w.device.signUpForm.email), ("emailIsVerified", .boolean false)])
  | nameWrite {e : Event} {name : String} {user : User} :
      NamesAccount w e name → w.device.currentUser = some user →
        Issued w e (.updateData user.uid [("displayName", .string name)])
  | nameCommit {e : Event} {name : String} {user : User} :
      NamesAccount w e name → w.device.currentUser = some user →
        Issued w e
          (.call (.commitChanges user.uid { displayName := some name }) .displayNameCommitted)
  | emailWrite {index : ℕ} {pending : Pending} {answer : Answer} {screen : Screen} {user : User} :
      w.answered index = some (pending, answer) →
        pending.completion = .updateEmail screen → (∀ description, answer ≠ .error description) →
        w.device.currentUser = some user →
        Issued w (.complete index)
          (.updateData user.uid [("email", .string (w.device.emailScreens screen).newEmail)])
  | pictureFile {e : Event} {image : Image} {data : Data} {user : User} :
      PicksPicture w e image → image.jpegData = some data → w.device.currentUser = some user →
        Issued w e (.writeFile user.uid data)
  | pictureUpload {e : Event} {image : Image} {data : Data} {user : User} :
      PicksPicture w e image → image.jpegData = some data → w.device.currentUser = some user →
        Issued w e
          (.call (.putData (profileRef user.uid) data) (.pictureUploaded (profileRef user.uid)))
  | downloadURL {index : ℕ} {pending : Pending} {answer : Answer} {ref : StorageRef} :
      w.answered index = some (pending, answer) → pending.completion = .pictureUploaded ref →
        Issued w (.complete index) (.call (.downloadURL ref) .pictureURL)
  | photoCommit {index : ℕ} {pending : Pending} {url : Url} {user : User} :
      w.answered index = some (pending, .url url) → pending.completion = .pictureURL →
        w.device.currentUser = some user →
        Issued w (.complete index)
          (.call (.commitChanges user.uid { photoURL := some url }) .photoCommitted)
  | dataTask {index : ℕ} {pending : Pending} {answer : Answer} {screen : Screen} {user : User}
      {url : Url} :
      w.answered index = some (pending, answer) → pending.completion = .pictureReloaded screen →
        w.device.currentUser = some user → user.photoURL = some url →
        Issued w (.complete index)
          (.call (.dataTask url) (.pictureDownloaded (some user.uid) screen))
  | downloadedFile {index : ℕ} {pending : Pending} {data : Data} {screen : Screen} {user : Uid} :
      w.answered index = some (pending, .download none (some data)) →
        pending.completion = .pictureDownloaded (some user) screen →
        Issued w (.complete index) (.writeFile user data)
  | showPicture {index : ℕ} {pending : Pending} {data : Data} {screen : Screen} {user : Uid} :
      w.answered index = some (pending, .download none (some data)) →
        pending.completion = .pictureDownloaded (some user) screen →
        Issued w (.complete index) (.mainAsync (.pictureShown screen) (.image data.image))
  | reloadName {user : User} :
      w.device.currentUser = some user →
        Issued w .openSettings
          (.call (.reload user.uid) (.nameReloaded w.device.settingsCount))
  | reloadPicture {user : User} :
      w.device.currentUser = some user →
        Issued w .openSettings
          (.call (.reload user.uid) (.pictureReloaded w.device.settingsCount))
  | reloadForeground {user : User} :
      w.device.currentUser = some user →
        Issued w .willEnterForeground (.call (.reload user.uid) .none)
  | listen {user : User} :
      w.device.currentUser = some user →
        Issued w .openSettings (.addSnapshotListener user.uid w.device.settingsCount)
  | openedPicture {user : User} :
      w.device.currentUser = some user →
        Issued w .openSettings (.setPicture w.device.settingsCount
          (match w.device.files user.uid with
          | some data => data.image
          | none => some .systemPerson))
  | pickedPicture {screen : Screen} {image : Image} :
      Issued w (.imagePicked screen (some image)) (.setPicture screen (some image))
  | shownPicture {index : ℕ} {pending : Pending} {result : Option Image} {screen : Screen} :
      w.answered index = some (pending, .image result) →
        pending.completion = .pictureShown screen →
        Issued w (.complete index) (.setPicture screen result)
  | openUpdateEmail {index : ℕ} {pending : Pending} {answer : Answer} {user : User} :
      w.answered index = some (pending, answer) → pending.completion = .emailRow →
        w.device.currentUser = some user →
        Issued w (.complete index) (.openUpdateEmail user.uid)
  | logoutPressed : Issued w .logoutPressed .signOut
  | forcedLogout {index : ℕ} {listener : Listener} {document : Document} {currentEmail : String} :
      w.device.listeners[index]? = some listener →
        document.string "email" = some currentEmail →
        w.device.currentUser.map User.email ≠ some currentEmail →
        Issued w (.snapshot index (.data document)) .signOut
  | trap {index : ℕ} : Issued w (.complete index) .trap

variable {w : World} {e : Event} {c : Command}

theorem issued_of_mem_updateDisplayName {name : String} (hsite : NamesAccount w e name)
    (h : c ∈ updateDisplayName w.device.currentUser name) : Issued w e c := by
  cases huser : w.device.currentUser with
  | none => simp [updateDisplayName, huser] at h
  | some user =>
      simp only [updateDisplayName, huser, List.mem_cons, List.not_mem_nil, or_false] at h
      obtain rfl | rfl := h
      · exact .nameWrite hsite huser
      · exact .nameCommit hsite huser

theorem issued_of_mem_updateProfilePicture {image : Image} (hsite : PicksPicture w e image)
    (h : c ∈ updateProfilePicture w.device.currentUser (some image)) : Issued w e c := by
  cases huser : w.device.currentUser with
  | none => simp [updateProfilePicture, huser] at h
  | some user =>
      cases hdata : image.jpegData with
      | none => simp [updateProfilePicture, huser, hdata] at h
      | some data =>
          simp only [updateProfilePicture, saveLocalImage, huser, hdata, List.cons_append,
            List.nil_append, List.mem_cons, List.not_mem_nil, or_false] at h
          obtain rfl | rfl := h
          · exact .pictureFile hsite hdata huser
          · exact .pictureUpload hsite hdata huser

theorem issued_of_mem_userCreated {index : ℕ} {pending : Pending} {answer : Answer}
    (hanswered : w.answered index = some (pending, answer))
    (hcompletion : pending.completion = .signUp)
    (h : c ∈ SignUpViewController.userCreated w.device.currentUser w.device.signUpForm w.device.now
      answer) : Issued w (.complete index) c := by
  cases answer with
  | user uid =>
      simp only [SignUpViewController.userCreated, List.mem_append, List.mem_singleton] at h
      obtain (rfl | hname) | hpicture := h
      · exact .accountDocument hanswered hcompletion
      · exact issued_of_mem_updateDisplayName (.signUp hanswered hcompletion) hname
      · cases himage : w.device.signUpForm.profilePicture with
        | none =>
            rw [himage] at hpicture
            cases huser : w.device.currentUser with
            | none => simp [updateProfilePicture, huser] at hpicture
            | some user =>
                simp only [updateProfilePicture, huser, List.mem_singleton] at hpicture
                exact hpicture ▸ .trap
        | some image =>
            rw [himage] at hpicture
            exact issued_of_mem_updateProfilePicture (.signUp hanswered hcompletion himage) hpicture
  | error description =>
      simp only [SignUpViewController.userCreated, List.mem_singleton] at h
      exact h ▸ .present
  | _ => simp [SignUpViewController.userCreated] at h

theorem issued_of_mem_pictureDownloaded {index : ℕ} {pending : Pending} {answer : Answer}
    {user : Option Uid} {screen : Screen} (hanswered : w.answered index = some (pending, answer))
    (hcompletion : pending.completion = .pictureDownloaded user screen)
    (h : c ∈ pictureDownloaded user screen answer) : Issued w (.complete index) c := by
  unfold pictureDownloaded at h
  split at h
  · rename_i data
    cases user with
    | none =>
        rw [List.mem_singleton] at h
        exact h ▸ .trap
    | some user =>
        simp only [saveLocalImage, List.cons_append, List.nil_append, List.mem_cons,
          List.not_mem_nil, or_false] at h
        obtain rfl | rfl := h
        · exact .downloadedFile hanswered hcompletion
        · exact .showPicture hanswered hcompletion
  · rw [List.mem_singleton] at h
    exact h ▸ .trap

theorem issued_of_mem_emailUpdated {index : ℕ} {pending : Pending} {answer : Answer}
    {screen : Screen} (hanswered : w.answered index = some (pending, answer))
    (hcompletion : pending.completion = .updateEmail screen)
    (h : c ∈ UpdateEmailViewController.emailUpdated w.device.currentUser
      (w.device.emailScreens screen).newEmail answer) : Issued w (.complete index) c := by
  have hsuccess (hne : ∀ description, answer ≠ .error description)
      (h : c ∈ ProfileUpdate.updateEmail w.device.currentUser
        (w.device.emailScreens screen).newEmail) : Issued w (.complete index) c := by
    cases huser : w.device.currentUser with
    | none =>
        rw [huser, ProfileUpdate.updateEmail, List.mem_singleton] at h
        exact h ▸ .trap
    | some user =>
        rw [huser, ProfileUpdate.updateEmail, List.mem_singleton] at h
        exact h ▸ .emailWrite hanswered hcompletion hne huser
  cases answer with
  | error description =>
      simp only [UpdateEmailViewController.emailUpdated] at h
      split_ifs at h <;> exact List.mem_singleton.mp h ▸ .present
  | _ => exact hsuccess (by simp) h

theorem issued_of_mem_completed {index : ℕ} {pending : Pending} {answer : Answer}
    (hanswered : w.answered index = some (pending, answer))
    (h : c ∈ World.completed w.device answer pending.completion) :
    Issued w (.complete index) c := by
  cases hcompletion : pending.completion with
  | signUp =>
      rw [hcompletion] at h
      exact issued_of_mem_userCreated hanswered hcompletion h
  | firebaseAuth =>
      simp only [World.completed, hcompletion, LoginViewController.signedIn] at h
      split at h
      · exact List.mem_singleton.mp h ▸ .present
      · cases h
  | emailRow =>
      simp only [World.completed, hcompletion, SettingsTableViewController.passwordChecked] at h
      split at h
      · exact List.mem_singleton.mp h ▸ .present
      · unfold UpdateEmailViewController.viewDidLoad at h
        split at h
        · exact List.mem_singleton.mp h ▸ .trap
        · rename_i huser
          exact List.mem_singleton.mp h ▸ .openUpdateEmail hanswered hcompletion huser
  | checkCurrentPassword screen =>
      simp only [World.completed, hcompletion, PasswordResetViewController.passwordChecked] at h
      split at h
      · exact List.mem_singleton.mp h ▸ .present
      · unfold PasswordResetViewController.updatePassword at h
        split_ifs at h
        · split at h
          · cases h
          · rename_i huser
            rw [List.mem_singleton.mp h, User.updatePassword]
            split
            · rename_i hempty
              exact .refusePassword hanswered hcompletion hempty
            · rename_i hfilled
              exact .updatePassword hanswered hcompletion huser hfilled
        · exact List.mem_singleton.mp h ▸ .present
  | updateEmail screen =>
      rw [hcompletion] at h
      exact issued_of_mem_emailUpdated hanswered hcompletion h
  | updatePassword screen =>
      simp only [World.completed, hcompletion, PasswordResetViewController.passwordUpdated] at h
      split at h
      · split_ifs at h <;> exact List.mem_singleton.mp h ▸ .present
      · cases h
  | displayNameCommitted => simp [World.completed, hcompletion] at h
  | pictureUploaded profileRef =>
      simp only [World.completed, hcompletion, ProfileUpdate.pictureUploaded] at h
      split at h
      · cases h
      · exact List.mem_singleton.mp h ▸ .downloadURL hanswered hcompletion
  | pictureURL =>
      simp only [World.completed, hcompletion, ProfileUpdate.pictureURL] at h
      split at h
      · split at h
        · cases h
        · rename_i huser
          exact List.mem_singleton.mp h ▸ .photoCommit hanswered hcompletion huser
      · cases h
  | photoCommitted => simp [World.completed, hcompletion] at h
  | nameReloaded screen =>
      simp only [World.completed, hcompletion, SettingsTableViewController.nameReloaded] at h
      exact List.mem_singleton.mp h ▸ .setDisplayName
  | pictureReloaded screen =>
      simp only [World.completed, hcompletion, SettingsTableViewController.pictureReloaded] at h
      split at h
      · cases h
      · split at h
        · cases h
        · rename_i imageUrl hurl
          obtain ⟨user, huser, hphoto⟩ := Option.bind_eq_some_iff.mp hurl
          simp only [downloadProfilePicture, huser, List.mem_singleton, Option.map_some] at h
          exact h ▸ .dataTask hanswered hcompletion huser hphoto
  | pictureDownloaded user screen =>
      rw [hcompletion] at h
      exact issued_of_mem_pictureDownloaded hanswered hcompletion h
  | pictureShown screen =>
      simp only [World.completed, hcompletion, SettingsTableViewController.pictureShown] at h
      split at h
      · exact List.mem_singleton.mp h ▸ .shownPicture hanswered hcompletion
      · cases h
  | none => simp [World.completed, hcompletion] at h

theorem issued_of_mem_viewDidLoad
    (h : c ∈ SettingsTableViewController.viewDidLoad w.device.settingsCount w.device.currentUser
      (w.device.currentUser.bind fun user => w.device.files user.uid)) :
    Issued w .openSettings c := by
  simp only [SettingsTableViewController.viewDidLoad, List.mem_append] at h
  obtain (((htitle | hlisten) | hpicture) | hfields) | hreload := h
  · unfold SettingsTableViewController.updateSettingsTitle at htitle
    split at htitle <;> exact List.mem_singleton.mp htitle ▸ .setTitle
  · unfold SettingsTableViewController.checkForEmailUpdate at hlisten
    split at hlisten
    · cases hlisten
    · rename_i huser
      exact List.mem_singleton.mp hlisten ▸ .listen huser
  · unfold SettingsTableViewController.getProfilePicture at hpicture
    split at hpicture
    · cases hpicture
    · rename_i huser
      simp only [huser, Option.bind_some, List.mem_cons, List.not_mem_nil, or_false] at hpicture
      obtain rfl | rfl := hpicture
      · exact .openedPicture huser
      · exact .reloadPicture huser
  · simp only [List.mem_cons, List.not_mem_nil, or_false] at hfields
    obtain rfl | rfl := hfields
    · exact .setDisplayName
    · exact .setEmail
  · split at hreload
    · cases hreload
    · rename_i huser
      exact List.mem_singleton.mp hreload ▸ .reloadName huser

theorem issued_of_mem_documentChanged {index : ℕ} {listener : Listener} {snapshot : Snapshot}
    (hlistener : w.device.listeners[index]? = some listener)
    (h : c ∈ SettingsTableViewController.documentChanged listener.screen w.device.currentUser
      snapshot) : Issued w (.snapshot index snapshot) c := by
  unfold SettingsTableViewController.documentChanged at h
  split at h
  · cases h
  · cases h
  · split at h
    · cases h
    · rename_i currentEmail hemail
      rw [List.mem_append, List.mem_singleton] at h
      obtain rfl | h := h
      · exact .setEmail
      · split_ifs at h with hcurrent
        · split at h
          · simp only [List.mem_cons, List.not_mem_nil, or_false] at h
            obtain rfl | rfl := h
            · exact .setDisplayName
            · exact .setTitle
          · exact List.mem_singleton.mp h ▸ .setTitle
        · exact List.mem_singleton.mp h ▸ .forcedLogout hlistener hemail (Ne.symm hcurrent)

/-- **Every command has its place.** -/
theorem issued_of_mem (h : c ∈ w.commands e) : Issued w e c := by
  have h : c ∈ w.handle e := by
    unfold World.commands at h
    split at h
    · cases h
    · exact h
  cases e with
  | signUpButtonPressed =>
      simp only [World.handle, SignUpViewController.signUpButtonPressed] at h
      split_ifs at h <;> rw [List.mem_singleton] at h <;> subst h
      case neg => exact .createUser
      all_goals exact .present
  | loginButtonPressed => exact List.mem_singleton.mp h ▸ .login
  | openSettings => exact issued_of_mem_viewDidLoad h
  | textFieldShouldReturn screen =>
      simp only [World.handle, SettingsTableViewController.textFieldShouldReturn] at h
      split at h
      · rename_i htext
        exact issued_of_mem_updateDisplayName (.typed htext) h
      · cases h
  | imagePicked screen image =>
      cases image with
      | none => simp [World.handle, SettingsTableViewController.imagePicked] at h
      | some image =>
          simp only [World.handle, SettingsTableViewController.imagePicked, List.mem_append,
            List.mem_singleton] at h
          obtain rfl | h := h
          · exact .pickedPicture
          · exact issued_of_mem_updateProfilePicture .settings h
  | emailRowPressed password =>
      simp only [World.handle, SettingsTableViewController.emailRowPressed] at h
      split_ifs at h
      · split at h
        · cases h
        · rename_i huser
          exact List.mem_singleton.mp h ▸ .emailRow huser
      · exact List.mem_singleton.mp h ▸ .present
  | updateEmailPressed screen =>
      simp only [World.handle, UpdateEmailViewController.updateEmailPressed] at h
      split at h
      · split at h
        · cases h
        · rename_i huser
          exact List.mem_singleton.mp h ▸ .updateEmail huser
      · cases h
  | passowrdUpdateButtonPressed screen =>
      simp only [World.handle, PasswordResetViewController.passowrdUpdateButtonPressed] at h
      split_ifs at h
      · unfold PasswordResetViewController.checkCurrentPassword at h
        split at h
        · cases h
        · rename_i huser
          exact List.mem_singleton.mp h ▸ .checkPassword huser
      · exact List.mem_singleton.mp h ▸ .present
  | logoutPressed => exact List.mem_singleton.mp h ▸ .logoutPressed
  | willEnterForeground =>
      simp only [World.handle, applicationWillEnterForeground] at h
      split at h
      · cases h
      · rename_i huser
        exact List.mem_singleton.mp h ▸ .reloadForeground huser
  | complete index =>
      simp only [World.handle] at h
      split at h
      · cases h
      · rename_i hanswered
        exact issued_of_mem_completed hanswered h
  | snapshot index snapshot =>
      simp only [World.handle] at h
      split at h
      · cases h
      · rename_i hlistener
        exact issued_of_mem_documentChanged hlistener h
  | _ => simp [World.handle] at h

end ProductivityApp
