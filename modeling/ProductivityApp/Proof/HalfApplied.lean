import ProductivityApp.System.Prospect

/-!
# Half-applied operations

Sign-up, email change and display-name change each update both stores, by requests and writes that
fail independently. Sign-up and email change first make one request and wait for it; from then on,
as in a display-name change from the start, everything under way is quiet. So an operation leaves a
prospect that depends only on what it started from and on which requests and writes fail, and it is
judged by that prospect.
-/

namespace ProductivityApp

open EventSystem

/-! ### Operations -/

/-- The operations that update both stores, by the screen they are started on. -/
inductive ProfileOperation where
  | signUp
  | email (screen : Screen)
  | displayName (screen : Screen)

def ProfileOperation.event : ProfileOperation → Event
  | signUp => .signUpButtonPressed
  | email screen => .updateEmailPressed screen
  | displayName screen => .textFieldShouldReturn screen

/-- The values an operation gives the account, read when it is started. -/
def ProfileOperation.newValue (w : World) : ProfileOperation → ProfileField → Option String
  | signUp, .email => some (removeExtraSpaces w.device.signUpForm.email)
  | signUp, .displayName => some w.device.signUpForm.displayName
  | email screen, .email => some (w.device.emailScreens screen).newEmail
  | displayName screen, .displayName => some (w.device.settings screen).displayName
  | _, _ => none

def BothNew (new : ProfileField → Option String) (after : Standing) : Prop :=
  ∀ field, new field = none ∨ (after.auth field = new field ∧ after.document field = new field)

def BothOld (before after : Standing) : Prop :=
  ∀ field, after.auth field = before.auth field ∧ after.document field = before.document field

/-- Both stores hold the new values, or both what they held before, or the user has been told. -/
def ProfileOperation.Whole (op : ProfileOperation) (uid : Uid) (before after : World) : Prop :=
  BothNew (op.newValue before) (after.standing uid)
    ∨ BothOld (before.standing uid) (after.standing uid)
    ∨ after.device.notices ≠ before.device.notices

/-- Nothing is under way. For a sign-up, `uid` is new; the other operations are the signed-in
user's. -/
def ProfileOperation.Ready (op : ProfileOperation) (uid : Uid) (w : World) : Prop :=
  w.device.crashed = false ∧ Settled w ∧
    match op with
    | signUp => w.server.accounts uid = none
    | email screen =>
        w.device.currentUser.map User.uid = some uid
          ∧ (w.device.emailScreens screen).user = some uid
    | displayName _ => w.device.currentUser.map User.uid = some uid

/-! ### The three operations -/

/-- The fields of an update of one value. -/
def ProfileField.fields (field : ProfileField) (text : String) : Fields :=
  [(field.key, .string text)]

/-- The change committed by `updateDisplayName`. -/
def nameCommit (uid : Uid) (name : String) : Request :=
  .commitChanges uid { displayName := some name }

/-- The document made by the completion of a sign-up. -/
def accountFields (now : Double) (email : String) : Fields :=
  [("accountCreatedOn", .double now), ("email", .string email), ("emailIsVerified", .boolean false)]

def SignUpForm.createUser (form : SignUpForm) : Request :=
  .createUser (removeExtraSpaces form.email) form.password

/-- The form does not pass the checks of `signUpButtonPressed`. -/
def SignUpForm.Rejected (form : SignUpForm) : Prop :=
  form.email = "" ∨ form.displayName = "" ∨ form.password = ""
    ∨ form.password ≠ form.passwordConfirmation

instance (form : SignUpForm) : Decidable form.Rejected := by
  unfold SignUpForm.Rejected
  infer_instance

def Prospect.renamed (failures : Failures) (uid : Uid) (name : String) (prospect : Prospect) :
    Prospect :=
  { prospect with
    auth := failures.granted uid (nameCommit uid name) prospect.auth
    document := failures.landed .update (ProfileField.displayName.fields name) prospect.document }

/-- What a sign-up leaves, apart from the display name. -/
def World.created (failures : Failures) (uid : Uid) (w : World) : Prospect :=
  { auth := ProfileField.ofAccount
      { email := removeExtraSpaces w.device.signUpForm.email
        password := w.device.signUpForm.password
        displayName := none
        photoURL := none }
    document := failures.landed .set (accountFields w.device.now w.device.signUpForm.email)
      (w.server.users uid)
    told := false }

/-- What an operation leaves, given what becomes of its requests and writes. -/
def ProfileOperation.prospect (failures : Failures) (uid : Uid) (w : World) :
    ProfileOperation → Prospect
  | signUp =>
      let form := w.device.signUpForm
      if form.Rejected ∨ failures.request form.createUser ≠ none then
        { w.present uid with told := true }
      else
        (w.created failures uid).renamed failures uid form.displayName
  | email screen =>
      let text := (w.device.emailScreens screen).newEmail
      if text = "" then w.present uid
      else if failures.request (.updateEmail uid text) ≠ none then
        { w.present uid with told := true }
      else
        { auth := failures.granted uid (.updateEmail uid text) (w.server.authValue uid)
          document := failures.landed .update (ProfileField.email.fields text) (w.server.users uid)
          told := false }
  | displayName screen =>
      let text := (w.device.settings screen).displayName
      if text = "" then w.present uid else (w.present uid).renamed failures uid text

/-- The request an operation starts with and waits for, if it has one and its input is accepted. -/
def ProfileOperation.first (uid : Uid) (w : World) :
    ProfileOperation → Option (Request × Completion)
  | signUp =>
      if w.device.signUpForm.Rejected then none else some (w.device.signUpForm.createUser, .signUp)
  | email screen =>
      if (w.device.emailScreens screen).newEmail = "" then none
      else some (.updateEmail uid (w.device.emailScreens screen).newEmail, .updateEmail screen)
  | displayName _ => none

section Operations

variable {failures : Failures} {uid : Uid} {w : World} {notices : List Notice}
  {prospect : Prospect} {origin : Origin}

theorem Settling.renamed {user : User} {name : String}
    (h : Settling failures uid notices prospect w) (hidle : w.device.pending = [])
    (huid : user.uid = uid) :
    Settling failures uid notices (prospect.renamed failures uid name)
      { w with
        device := w.device.execAll origin (ProfileUpdate.updateDisplayName (some user) name) } := by
  subst huid
  have hwrite : Settling failures user.uid notices _
      { w with
        device := w.device.exec origin
          (.updateData user.uid (ProfileField.displayName.fields name)) } :=
    h.write rfl rfl
  refine hwrite.call rfl rfl fun field _ => ?_
  simp [Device.exec, hidle]

/-- The app has stopped, and a call will never complete. -/
def Stopped (w : World) : Prop := w.device.crashed = true ∧ w.device.pending ≠ []

/-- `updateProfilePicture` asks for nothing that a prospect depends on, and stops the app when there
is no picture. -/
theorem Settling.pictured {user : User} {picture : Option Image}
    (h : Settling failures uid notices prospect w) (hpending : w.device.pending ≠ []) :
    Settling failures uid notices prospect
        { w with
          device := w.device.execAll origin
            (ProfileUpdate.updateProfilePicture (some user) picture) }
      ∨ Stopped
        { w with
          device :=
            w.device.execAll origin (ProfileUpdate.updateProfilePicture (some user) picture) } := by
  cases picture with
  | none => exact Or.inr ⟨rfl, hpending⟩
  | some image =>
      left
      rw [ProfileUpdate.updateProfilePicture]
      cases image.jpegData with
      | none => exact h
      | some data =>
          have hfile : Settling failures uid notices prospect
              { w with device := w.device.exec origin (.writeFile user.uid data) } := { h with }
          exact hfile.call_of_change_none rfl (by simp [Request.fits]) fun field => rfl

theorem settling_concluding {after : Server} {call : Pending} {answer : Answer}
    (history : History) (hrunning : w.device.crashed = false) (hsettled : Settled w)
    (hrespond : w.server.respond call.request answer = some after) :
    Settling failures uid w.device.notices ((w.received after call answer).present uid)
      ((w.received after call answer).concluding history) := by
  have hfield {α : Type} (field : Device → α)
      (h : ∀ (device : Device) (user : Option User) (object : ℕ) (history : History),
        field { device with currentUser := user, userObject := object, history := history }
          = field device) :
      field (w.received after call answer).device = field w.device :=
    w.device.receive_field field hrespond h
  have hidle := @settling_of_idle failures uid ((w.received after call answer).concluding history)
    ((hfield Device.crashed fun _ _ _ _ => rfl).trans hrunning)
    ⟨rfl, (hfield Device.writes fun _ _ _ _ => rfl).trans hsettled.2⟩
  rwa [World.concluding, hfield Device.notices fun _ _ _ _ => rfl] at hidle

theorem emailUpdated_error {currentUser : Option User} {newEmail description : String} :
    ∃ notice, UpdateEmailViewController.emailUpdated currentUser newEmail (.error description)
      = [.present notice] := by
  simp only [UpdateEmailViewController.emailUpdated]
  split
  · exact ⟨_, rfl⟩
  · split <;> exact ⟨_, rfl⟩

theorem email_concludes {screen : Screen} {after : Server} {call : Pending} {answer : Answer}
    {history history' : History} (hready : (ProfileOperation.email screen).Ready uid w)
    (htext : (w.device.emailScreens screen).newEmail ≠ "")
    (hrequest : call.request = .updateEmail uid (w.device.emailScreens screen).newEmail)
    (hallows : failures.allows uid call.request answer = true)
    (hrespond : w.server.respond call.request answer = some after) :
    Settling failures uid w.device.notices ((ProfileOperation.email screen).prospect failures uid w)
      ((w.received after call answer).concluded answer (.updateEmail screen) origin history
        history') := by
  obtain ⟨hrunning, hsettled, hsession, -⟩ := hready
  have hconcluding :=
    @settling_concluding failures uid w after call answer history hrunning hsettled hrespond
  have hscreens : (w.received after call answer).device.emailScreens = w.device.emailScreens :=
    w.device.receive_field Device.emailScreens hrespond fun _ _ _ _ => rfl
  have hanswered := answeredBy_of_respond hrespond
  rw [hrequest] at hallows hrespond hanswered
  cases answer with
  | error description =>
      cases hrespond
      obtain ⟨notice, hnotice⟩ := @emailUpdated_error
        (w.received w.server call (.error description)).device.currentUser
        ((w.received w.server call (.error description)).device.emailScreens screen).newEmail
        description
      have hfailing : failures.request (.updateEmail uid (w.device.emailScreens screen).newEmail)
          ≠ none := by
        rw [of_decide_eq_true hallows]
        simp
      rw [World.concluded, World.completed, hnotice, ProfileOperation.prospect, if_neg htext,
        if_pos hfailing]
      exact (@Settling.present _ _ _ _ _ origin _ hconcluding rfl).history history'
  | success =>
      have hgranted : failures.request (.updateEmail uid (w.device.emailScreens screen).newEmail)
          = none := of_decide_eq_true hallows
      obtain ⟨user, hcurrent, huid⟩ : ∃ user,
          (w.received after call .success).device.currentUser = some user ∧ user.uid = uid := by
        have hrefresh := w.device.uid_refresh call.origin.object hsession
          (Server.user_of_changeAccount hrespond)
        simpa [World.received, Device.receive, hrequest] using Option.map_eq_some_iff.mp hrefresh
      have hcompleted : World.completed (w.received after call .success).device .success
            (.updateEmail screen)
          = [.updateData user.uid
            (ProfileField.email.fields (w.device.emailScreens screen).newEmail)] := by
        simp [World.completed, UpdateEmailViewController.emailUpdated, ProfileUpdate.updateEmail,
          hcurrent, hscreens, ProfileField.fields, ProfileField.key]
      have hauth : (w.received after call .success).server.authValue uid
          = failures.granted uid (.updateEmail uid (w.device.emailScreens screen).newEmail)
            (w.server.authValue uid) := by
        funext field
        rw [Failures.granted, if_pos hgranted]
        exact authValue_respond hrespond fun _ => by simp
      have hdocument : (w.received after call .success).server.users = w.server.users :=
        (Server.accountsAfter_of_respond hrespond).2
      rw [World.concluded, hcompleted, ProfileOperation.prospect, if_neg htext,
        if_neg (not_not.mpr hgranted), ← hauth, ← hdocument]
      exact (@Settling.write failures uid _ _ _ origin (.updateData user.uid _) _ hconcluding rfl
        huid).history history'
  | _ => cases hanswered

theorem signUp_concludes {after : Server} {call : Pending} {answer : Answer}
    {history history' : History} (hready : ProfileOperation.signUp.Ready uid w)
    (hform : ¬ w.device.signUpForm.Rejected)
    (hrequest : call.request = w.device.signUpForm.createUser)
    (hallows : failures.allows uid call.request answer = true)
    (hrespond : w.server.respond call.request answer = some after) :
    Settling failures uid w.device.notices (ProfileOperation.signUp.prospect failures uid w)
        ((w.received after call answer).concluded answer .signUp origin history history')
      ∨ Stopped
        ((w.received after call answer).concluded answer .signUp origin history history') := by
  obtain ⟨hrunning, hsettled, -⟩ := hready
  have hconcluding :=
    @settling_concluding failures uid w after call answer history hrunning hsettled hrespond
  have hsignUpForm : (w.received after call answer).device.signUpForm = w.device.signUpForm :=
    w.device.receive_field Device.signUpForm hrespond fun _ _ _ _ => rfl
  have hnow : (w.received after call answer).device.now = w.device.now :=
    w.device.receive_field Device.now hrespond fun _ _ _ _ => rfl
  have hanswered := answeredBy_of_respond hrespond
  rw [hrequest] at hallows hrespond hanswered
  cases answer with
  | error description =>
      left
      cases hrespond
      have hfailing : failures.request w.device.signUpForm.createUser ≠ none := by
        rw [of_decide_eq_true hallows]
        simp
      rw [World.concluded, ProfileOperation.prospect, if_pos (Or.inr hfailing)]
      exact (@Settling.present _ _ _ _ _ origin _ hconcluding rfl).history history'
  | user account =>
      obtain ⟨hgranted, rfl⟩ : failures.request w.device.signUpForm.createUser = none
          ∧ account = uid := of_decide_eq_true hallows
      have huser := Server.user_of_respond_user hrespond
      obtain ⟨user, huser⟩ := Option.isSome_iff_exists.mp huser
      have hcurrent : (w.received after call (.user account)).device.currentUser = some user := by
        simp [World.received, Device.receive, hrequest, SignUpForm.createUser, Device.signIn, huser]
      have hcompleted : World.completed (w.received after call (.user account)).device
            (.user account) .signUp
          = [.setData account (accountFields w.device.now w.device.signUpForm.email)]
            ++ ProfileUpdate.updateDisplayName (some user) w.device.signUpForm.displayName
            ++ ProfileUpdate.updateProfilePicture (some user)
              w.device.signUpForm.profilePicture := by
        rw [World.completed, hcurrent, hsignUpForm, hnow]
        rfl
      have hauth : (w.received after call (.user account)).server.authValue account
          = ProfileField.ofAccount
            { email := removeExtraSpaces w.device.signUpForm.email
              password := w.device.signUpForm.password
              displayName := none
              photoURL := none } := by
        obtain ⟨-, hafter⟩ := Option.ite_none_right_eq_some.mp hrespond
        funext field
        cases hafter
        simp [World.received, Server.authValue]
      have hdocument : (w.received after call (.user account)).server.users = w.server.users :=
        (Server.accountsAfter_of_respond hrespond).2
      have hset := @Settling.write failures account _ _ _ origin (.setData account
        (accountFields w.device.now w.device.signUpForm.email)) _ hconcluding rfl rfl
      have hname := @Settling.renamed _ _ _ _ _ origin user w.device.signUpForm.displayName hset rfl
        (Server.user_uid huser)
      rw [World.concluded, hcompleted, ProfileOperation.prospect,
        if_neg (not_or.mpr ⟨hform, not_not.mpr hgranted⟩), World.created, ← hauth, ← hdocument,
        Device.execAll_append, Device.execAll_append]
      exact (@Settling.pictured _ _ _ _ _ origin user w.device.signUpForm.profilePicture hname
        (by simp [ProfileUpdate.updateDisplayName, Device.exec, Command.pending])).imp
        (·.history history') id
  | _ => cases hanswered

/-- How far an operation has come: its first request is asked or answered, or what is left is quiet,
or the app has stopped. -/
inductive Progress (failures : Failures) (uid : Uid) (w : World) (op : ProfileOperation) :
    World → Prop
  | asked {call : Pending} {history : History} :
      op.first uid w = some (call.request, call.completion) → call.answer = none →
        Progress failures uid w op (w.awaiting call history)
  | answered {call : Pending} {answer : Answer} {after : Server} {history : History} :
      op.first uid w = some (call.request, call.completion) →
        failures.allows uid call.request answer = true →
        w.server.respond call.request answer = some after →
        Progress failures uid w op
          ((w.received after call answer).awaiting { call with answer := some answer } history)
  | settling {s : World} :
      Settling failures uid w.device.notices (op.prospect failures uid w) s →
        Progress failures uid w op s
  | stopped {s : World} : Stopped s → Progress failures uid w op s

theorem rejected_or (form : SignUpForm) :
    (form.Rejected ∧ ∃ notice, SignUpViewController.signUpButtonPressed form = [.present notice])
      ∨ (¬ form.Rejected
        ∧ SignUpViewController.signUpButtonPressed form = [.call form.createUser .signUp]) := by
  unfold SignUpViewController.signUpButtonPressed SignUpForm.Rejected
  by_cases hemail : form.email = ""
  · simp [hemail]
  by_cases hname : form.displayName = ""
  · simp [hemail, hname]
  by_cases hpassword : form.password = ""
  · simp [hemail, hname, hpassword]
  by_cases hconfirm : form.password = form.passwordConfirmation
  · simp [hemail, hname, hpassword, ← hconfirm, SignUpForm.createUser]
  · simp [hemail, hname, hpassword, hconfirm]

theorem step_start {op : ProfileOperation} (hrunning : w.device.crashed = false) :
    ∃ origin history, w.step op.event
      = { w with device := { w.device.execAll origin (w.handle op.event) with history } } := by
  have harrive : w.arrive op.event = w := by cases op <;> rfl
  rw [World.step_of_running hrunning, World.react, World.commands_of_running hrunning, harrive]
  exact ⟨_, _, rfl⟩

theorem awaiting_of_call {request : Request} {completion : Completion} {history : History}
    (hpending : w.device.pending = []) :
    { w with device := { w.device.execAll origin [.call request completion] with history } }
      = w.awaiting { request, completion, answer := none, origin } history := by
  simp [World.awaiting, Device.exec, Command.pending, hpending]

theorem progress_start {op : ProfileOperation} (hready : op.Ready uid w) :
    Progress failures uid w op (w.step op.event) := by
  obtain ⟨hrunning, hsettled, hstart⟩ := hready
  have hidle := @settling_of_idle failures uid w hrunning hsettled
  obtain ⟨origin, history, hstep⟩ := @step_start w op hrunning
  rw [hstep]
  cases op with
  | signUp =>
      obtain ⟨hform, notice, hcommands⟩ | ⟨hform, hcommands⟩ := rejected_or w.device.signUpForm
      · refine .settling ?_
        rw [ProfileOperation.event, World.handle, hcommands, ProfileOperation.prospect,
          if_pos (Or.inl hform)]
        exact (@Settling.present _ _ _ _ _ origin notice hidle rfl).history history
      · rw [ProfileOperation.event, World.handle, hcommands, awaiting_of_call hsettled.1]
        exact .asked (by rw [ProfileOperation.first, if_neg hform]) rfl
  | email screen =>
      obtain ⟨-, hscreen⟩ := hstart
      by_cases htext : (w.device.emailScreens screen).newEmail = ""
      · refine .settling ?_
        have hcommands : w.handle (.updateEmailPressed screen) = [] := by
          simp [World.handle, UpdateEmailViewController.updateEmailPressed, htext]
        rw [ProfileOperation.event, hcommands, ProfileOperation.prospect, if_pos htext]
        exact hidle.history history
      · have hcommands : w.handle (.updateEmailPressed screen)
            = [.call (.updateEmail uid (w.device.emailScreens screen).newEmail)
              (.updateEmail screen)] := by
          simp [World.handle, UpdateEmailViewController.updateEmailPressed, htext, hscreen]
        rw [ProfileOperation.event, hcommands, awaiting_of_call hsettled.1]
        exact .asked (by rw [ProfileOperation.first, if_neg htext]) rfl
  | displayName screen =>
      refine .settling ?_
      obtain ⟨user, huser, huid⟩ := Option.map_eq_some_iff.mp hstart
      rw [ProfileOperation.event, World.handle, SettingsTableViewController.textFieldShouldReturn,
        huser, ProfileOperation.prospect]
      by_cases htext : (w.device.settings screen).displayName = ""
      · rw [if_pos htext, if_neg (not_not.mpr htext)]
        exact hidle.history history
      · rw [if_neg htext, if_pos htext]
        exact (hidle.renamed hsettled.1 huid).history history

theorem concludes {op : ProfileOperation} {after : Server} {call : Pending} {answer : Answer}
    {history history' : History} (hready : op.Ready uid w)
    (hfirst : op.first uid w = some (call.request, call.completion))
    (hallows : failures.allows uid call.request answer = true)
    (hrespond : w.server.respond call.request answer = some after) :
    Progress failures uid w op
      ((w.received after call answer).concluded answer call.completion origin history
        history') := by
  cases op with
  | signUp =>
      obtain ⟨hform, hcall⟩ := Option.ite_none_left_eq_some.mp hfirst
      obtain ⟨hrequest, hcompletion⟩ := Prod.mk.inj (Option.some.inj hcall)
      rw [← hcompletion]
      obtain hsettling | hstopped := signUp_concludes hready hform hrequest.symm hallows hrespond
      · exact .settling hsettling
      · exact .stopped hstopped
  | email screen =>
      obtain ⟨htext, hcall⟩ := Option.ite_none_left_eq_some.mp hfirst
      obtain ⟨hrequest, hcompletion⟩ := Prod.mk.inj (Option.some.inj hcall)
      rw [← hcompletion]
      exact .settling (email_concludes hready htext hrequest.symm hallows hrespond)
  | displayName screen => cases hfirst

theorem progress_step {op : ProfileOperation} {s : World} {e : Event} (hready : op.Ready uid w)
    (h : Progress failures uid w op s) (hservices : Services failures uid s e) :
    Progress failures uid w op (s.step e) := by
  obtain ⟨hrunning, ⟨hpending, hwrites⟩, -⟩ := id hready
  cases h with
  | @asked call history hfirst hcall =>
      obtain ⟨history', hstep⟩ | ⟨answer, after, hallows, hrespond, history', hstep⟩ :=
        step_asked hwrites hrunning hcall hservices
      · rw [hstep]
        exact .asked hfirst hcall
      · rw [hstep]
        exact .answered hfirst hallows hrespond
  | @answered call answer after history hfirst hallows hrespond =>
      have hwrites : (w.received after call answer).device.writes = [] :=
        (w.device.receive_field Device.writes hrespond fun _ _ _ _ => rfl).trans hwrites
      have hrunning : (w.received after call answer).device.crashed = false :=
        (w.device.receive_field Device.crashed hrespond fun _ _ _ _ => rfl).trans hrunning
      obtain ⟨history', hstep⟩ | ⟨origin, history', hstep⟩ :=
        step_answered hwrites hrunning rfl hservices
      · rw [hstep]
        exact .answered hfirst hallows hrespond
      · rw [hstep]
        exact concludes hready hfirst hallows hrespond
  | settling hsettling => exact .settling (hsettling.step hservices)
  | stopped hstopped =>
      rw [World.step_of_crashed hstopped.1]
      exact .stopped hstopped

/-- An operation on its own leaves its prospect, whatever becomes of its requests and writes and in
whatever order the services act. -/
theorem standing_of_settled {op : ProfileOperation} {events : List Event} (hready : op.Ready uid w)
    (hservices : Always World.step (Services failures uid) (w.step op.event) events)
    (hsettled : Settled (run World.step (w.step op.event) events)) :
    (run World.step (w.step op.event) events).standing uid
        = (op.prospect failures uid w).standing
      ∧ ((run World.step (w.step op.event) events).device.notices ≠ w.device.notices
        ↔ (op.prospect failures uid w).told = true) := by
  have hstep : ∀ s e, Progress failures uid w op s → Services failures uid s e →
      Progress failures uid w op (s.step e) := fun _ _ h hservices =>
    progress_step hready h hservices
  have hprogress := run_invariant hstep (progress_start hready) hservices
  generalize run World.step (w.step op.event) events = s at hsettled hprogress
  cases hprogress with
  | asked => cases hsettled.1
  | answered => cases hsettled.1
  | settling hsettling => exact ⟨hsettling.standing hsettled, hsettling.told⟩
  | stopped hstopped => exact absurd hsettled.1 hstopped.2

end Operations

/-! ### When no operation is half-applied -/

/-- An update of the document is neither refused nor aimed at a document that does not exist. -/
def Failures.TakesEffect (failures : Failures) (fields : Fields) (document : Option Document) :
    Prop :=
  failures.write fields = false ∧ document.isSome

instance (failures : Failures) (fields : Fields) (document : Option Document) :
    Decidable (failures.TakesEffect fields document) := by
  unfold Failures.TakesEffect
  infer_instance

/-- The failures that leave no operation half-applied. -/
def ProfileOperation.Safe (failures : Failures) (uid : Uid) (w : World) : ProfileOperation → Prop
  | signUp =>
      let form := w.device.signUpForm
      form.Rejected ∨ failures.request form.createUser ≠ none
        ∨ (failures.request (nameCommit uid form.displayName) = none
          ∧ if failures.write (accountFields w.device.now form.email) then
              w.server.documentValue uid .email = some (removeExtraSpaces form.email)
                ∧ (failures.write (ProfileField.displayName.fields form.displayName) = false
                  ∨ w.server.documentValue uid .displayName = some form.displayName)
            else
              form.email = removeExtraSpaces form.email
                ∧ failures.write (ProfileField.displayName.fields form.displayName) = false)
  | email screen =>
      let text := (w.device.emailScreens screen).newEmail
      text = "" ∨ failures.request (.updateEmail uid text) ≠ none
        ∨ failures.TakesEffect (ProfileField.email.fields text) (w.server.users uid)
        ∨ w.server.authValue uid .email = some text
        ∨ w.server.documentValue uid .email = some text
  | displayName screen =>
      let text := (w.device.settings screen).displayName
      text = "" ∨ (failures.request (nameCommit uid text) = none
          ↔ failures.TakesEffect (ProfileField.displayName.fields text) (w.server.users uid))
        ∨ w.server.authValue uid .displayName = some text
        ∨ w.server.documentValue uid .displayName = some text

section Safe

variable {failures : Failures} {uid : Uid} {w : World} {field : ProfileField}

theorem ProfileField.forall_iff {P : ProfileField → Prop} :
    (∀ field, P field) ↔ P .displayName ∧ P .email :=
  ⟨fun h => ⟨h _, h _⟩, fun h field => by cases field <;> simp [h]⟩

theorem string_landed_update {own : ProfileField} {text : String} {document : Option Document} :
    (failures.landed .update (own.fields text) document).bind (·.string field.key)
      = if failures.TakesEffect (own.fields text) document ∧ own = field then some text
        else document.bind (·.string field.key) := by
  simp only [Failures.landed, Failures.TakesEffect]
  by_cases hrefused : failures.write (own.fields text) = true
  · simp [hrefused]
  · cases document with
    | none => simp [WriteKind.apply]
    | some document =>
        obtain ⟨after, hafter, hstring⟩ :=
          @string_apply field (own.fields text) own text document rfl
        rw [if_neg hrefused, hafter, Option.bind_some, hstring]
        by_cases hown : own = field
        · subst hown
          simp [hrefused]
        · simp [hown]

theorem granted_nameCommit {name : String} {auth : ProfileField → Option String} :
    failures.granted uid (nameCommit uid name) auth field
      = if failures.request (nameCommit uid name) = none ∧ .displayName = field then some name
        else auth field := by
  by_cases hgranted : failures.request (nameCommit uid name) = none
  · simp only [Failures.granted, hgranted, if_true, true_and]
    cases field <;> simp [nameCommit, Request.change]
  · simp [Failures.granted, hgranted]

theorem granted_updateEmail {email : String} {auth : ProfileField → Option String} :
    failures.granted uid (.updateEmail uid email) auth field
      = if failures.request (.updateEmail uid email) = none ∧ .email = field then some email
        else auth field := by
  by_cases hgranted : failures.request (.updateEmail uid email) = none
  · cases field <;> simp [Failures.granted, hgranted, Request.change]
  · simp [Failures.granted, hgranted]

/-- An operation on one value is whole when both stores take it or neither does, or when one of them
has had it before. -/
theorem whole_iff_of_field {new : ProfileField → Option String} {before after : Standing}
    {own : ProfileField} {text : String} {auth document : Prop} [Decidable auth]
    [Decidable document] (hnew : ∀ field, new field = if own = field then some text else none)
    (hauth : ∀ field, after.auth field
      = if auth ∧ own = field then some text else before.auth field)
    (hdocument : ∀ field, after.document field
      = if document ∧ own = field then some text else before.document field) :
    BothNew new after ∨ BothOld before after
      ↔ (auth ↔ document) ∨ before.auth own = some text ∨ before.document own = some text := by
  have hboth : BothNew new after
      ↔ after.auth own = some text ∧ after.document own = some text := by
    constructor
    · intro h
      simpa [hnew] using h own
    · intro h field
      by_cases hown : own = field
      · subst hown
        exact Or.inr (by simpa [hnew] using h)
      · exact Or.inl (by simp [hnew, hown])
  have hold : BothOld before after
      ↔ after.auth own = before.auth own ∧ after.document own = before.document own := by
    refine ⟨fun h => h own, fun h field => ?_⟩
    by_cases hown : own = field
    · exact hown ▸ h
    · simp [hauth, hdocument, hown]
  rw [hboth, hold, hauth, hdocument]
  by_cases hgranted : auth
  · by_cases heffect : document
    · simp [hgranted, heffect]
    · simp [hgranted, heffect, eq_comm, or_comm]
  · by_cases heffect : document
    · simp [hgranted, heffect, eq_comm]
    · simp [hgranted, heffect]

theorem whole_present {new : ProfileField → Option String} :
    BothNew new (w.present uid).standing
      ∨ BothOld (w.standing uid) (w.present uid).standing
      ∨ (w.present uid).told = true :=
  Or.inr (Or.inl fun _ => ⟨rfl, rfl⟩)

theorem created_document_of_refused
    (h : failures.write (accountFields w.device.now w.device.signUpForm.email) = true) :
    (w.created failures uid).document = w.server.users uid := by
  rw [World.created, Failures.landed, if_pos h]

theorem created_document
    (h : ¬ failures.write (accountFields w.device.now w.device.signUpForm.email) = true) :
    ∃ document, (w.created failures uid).document = some document
      ∧ document.string ProfileField.email.key = some w.device.signUpForm.email
      ∧ document.string ProfileField.displayName.key = none := by
  rw [World.created, Failures.landed, if_neg h]
  exact ⟨_, rfl, rfl, rfl⟩

/-- A sign-up cannot leave the new account as it was, so it is whole when both stores have both
values. -/
theorem whole_signUp_iff (hnew : w.server.accounts uid = none)
    (hform : ¬ w.device.signUpForm.Rejected)
    (hgranted : failures.request w.device.signUpForm.createUser = none) :
    (BothNew (ProfileOperation.signUp.newValue w)
        (ProfileOperation.signUp.prospect failures uid w).standing
        ∨ BothOld (w.standing uid) (ProfileOperation.signUp.prospect failures uid w).standing
        ∨ (ProfileOperation.signUp.prospect failures uid w).told = true)
      ↔ ProfileOperation.signUp.Safe failures uid w := by
  rw [ProfileOperation.prospect, if_neg (not_or.mpr ⟨hform, not_not.mpr hgranted⟩),
    ProfileOperation.Safe, or_iff_right hform, or_iff_right (not_not.mpr hgranted)]
  have hauth (field : ProfileField) := @granted_nameCommit failures uid field
    w.device.signUpForm.displayName (w.created failures uid).auth
  have hdocument (field : ProfileField) := @string_landed_update failures field .displayName
    w.device.signUpForm.displayName (w.created failures uid).document
  have hold : ¬ BothOld (w.standing uid) ((w.created failures uid).renamed failures uid
      w.device.signUpForm.displayName).standing := by
    intro h
    have hemail := (hauth .email).symm.trans (h .email).1
    simp [World.created, World.standing, Server.authValue, hnew, ProfileField.ofAccount] at hemail
  have hnone : ¬ (BothOld (w.standing uid) ((w.created failures uid).renamed failures uid
      w.device.signUpForm.displayName).standing ∨ false = true) :=
    not_or.mpr ⟨hold, Bool.false_ne_true⟩
  refine (or_iff_left hnone).trans ?_
  simp only [BothNew, ProfileField.forall_iff, ProfileOperation.newValue, reduceCtorEq, false_or,
    Prospect.standing, Prospect.renamed, hauth, hdocument]
  by_cases hrefused : failures.write
      (accountFields w.device.now w.device.signUpForm.email) = true
  · rw [created_document_of_refused hrefused]
    cases hbefore : w.server.users uid with
    | none => simp [Server.documentValue, hbefore, hrefused]
    | some document =>
        cases hname : failures.write
            (ProfileField.displayName.fields w.device.signUpForm.displayName) with
        | false =>
            simp [World.created, ProfileField.ofAccount, Failures.TakesEffect,
              Server.documentValue, hbefore, hrefused, hname]
        | true =>
            simp [World.created, ProfileField.ofAccount, Failures.TakesEffect,
              Server.documentValue, hbefore, hrefused, hname]
            tauto
  · obtain ⟨document, hcreated, hemail, hname⟩ := created_document hrefused
    rw [hcreated]
    simp [World.created, ProfileField.ofAccount, Failures.TakesEffect, hrefused, hemail, hname]
    tauto

theorem whole_prospect_iff {op : ProfileOperation} (hready : op.Ready uid w) :
    (BothNew (op.newValue w) (op.prospect failures uid w).standing
        ∨ BothOld (w.standing uid) (op.prospect failures uid w).standing
        ∨ (op.prospect failures uid w).told = true)
      ↔ op.Safe failures uid w := by
  obtain ⟨-, -, hstart⟩ := hready
  cases op with
  | signUp =>
      by_cases hform : w.device.signUpForm.Rejected
      · simp [ProfileOperation.prospect, ProfileOperation.Safe, hform]
      · by_cases hgranted : failures.request w.device.signUpForm.createUser = none
        · exact whole_signUp_iff hstart hform hgranted
        · simp [ProfileOperation.prospect, ProfileOperation.Safe, hgranted]
  | email screen =>
      rw [ProfileOperation.prospect, ProfileOperation.Safe]
      by_cases htext : (w.device.emailScreens screen).newEmail = ""
      · rw [if_pos htext]
        exact iff_of_true whole_present (Or.inl htext)
      rw [if_neg htext]
      by_cases hgranted : failures.request
          (.updateEmail uid (w.device.emailScreens screen).newEmail) = none
      · rw [if_neg (not_not.mpr hgranted)]
        have hfield := @whole_iff_of_field ((ProfileOperation.email screen).newValue w)
          (w.standing uid)
          { auth := failures.granted uid (.updateEmail uid (w.device.emailScreens screen).newEmail)
              (w.server.authValue uid)
            document := fun field => (failures.landed .update
              (ProfileField.email.fields (w.device.emailScreens screen).newEmail)
              (w.server.users uid)).bind (·.string field.key) }
          .email (w.device.emailScreens screen).newEmail _ _ _ _
          (fun field => by cases field <;> rfl) (fun field => granted_updateEmail)
          (fun field => string_landed_update)
        rw [← or_assoc]
        exact (or_iff_left Bool.false_ne_true).trans
          (hfield.trans (by simp [htext, hgranted, World.standing]))
      · rw [if_pos hgranted]
        simp [hgranted]
  | displayName screen =>
      rw [ProfileOperation.prospect, ProfileOperation.Safe]
      by_cases htext : (w.device.settings screen).displayName = ""
      · rw [if_pos htext]
        exact iff_of_true whole_present (Or.inl htext)
      rw [if_neg htext]
      have hfield := @whole_iff_of_field ((ProfileOperation.displayName screen).newValue w)
        (w.standing uid)
        ((w.present uid).renamed failures uid (w.device.settings screen).displayName).standing
        .displayName (w.device.settings screen).displayName _ _ _ _
        (fun field => by cases field <;> rfl) (fun field => granted_nameCommit)
        (fun field => string_landed_update)
      rw [← or_assoc]
      exact (or_iff_left Bool.false_ne_true).trans
        (hfield.trans (by simp [htext, World.standing, World.present]))

/-- **An operation is not silently half-applied** exactly when its failures are safe: from every
state of the two stores, for every input, and in whatever order the services act. -/
theorem whole_iff_safe (op : ProfileOperation) (uid : Uid) (failures : Failures) (w : World)
    (events : List Event) (hready : op.Ready uid w)
    (hservices : Always World.step (Services failures uid) (w.step op.event) events)
    (hsettled : Settled (run World.step (w.step op.event) events)) :
    op.Whole uid w (run World.step (w.step op.event) events) ↔ op.Safe failures uid w := by
  obtain ⟨hstanding, htold⟩ := standing_of_settled hready hservices hsettled
  rw [ProfileOperation.Whole, hstanding, htold]
  exact whole_prospect_iff hready

end Safe

instance (failures : Failures) (uid : Uid) (w : World) (e : Event) :
    Decidable (Services failures uid w e) := by
  unfold Services
  apply @Event.casesOn _ e
  case answer =>
    intro index _
    dsimp only
    refine Option.casesOn w.device.pending[index]? ?_ fun _ => ?_ <;> infer_instance
  case writeLands =>
    intro _
    dsimp only
    refine List.casesOn w.device.writes ?_ fun _ _ => ?_ <;> infer_instance
  all_goals
    intros
    infer_instance

instance (w : World) : Decidable (Settled w) := by
  unfold Settled
  infer_instance

instance {P : ProfileField → Prop} [DecidablePred P] : Decidable (∀ field, P field) :=
  decidable_of_iff _ ProfileField.forall_iff.symm

instance (op : ProfileOperation) (uid : Uid) (before after : World) :
    Decidable (op.Whole uid before after) := by
  unfold ProfileOperation.Whole BothNew BothOld
  infer_instance

/-! A first account is made, and Firestore refuses its document. -/

def formFilled : World :=
  run World.step (World.installed Server.initial)
    [.editSignUp
      { email := "ann@example.org", displayName := "Ann", password := "secret",
        passwordConfirmation := "secret", profilePicture := some .systemPerson }]

/-- Firestore answers both writes of a sign-up in this way. -/
def signedUpThen (accepted : Bool) : List Event :=
  [.answer 0 (.user "ann"), .complete 0, .answer 0 .success, .complete 0, .answer 0 .success,
    .complete 0, .answer 0 (.url ⟨ProfileUpdate.profileRef "ann"⟩), .complete 0,
    .answer 0 .success, .complete 0, .writeLands accepted, .writeLands accepted]

def onlyWrites (refused : Bool) : Failures :=
  { request := fun _ => none, write := fun _ => refused }

theorem acceptedSignUp_whole :
    ProfileOperation.signUp.Whole "ann" formFilled
      (run World.step (formFilled.step .signUpButtonPressed) (signedUpThen true)) :=
  (whole_iff_safe .signUp "ann" (onlyWrites false) formFilled (signedUpThen true)
    ⟨by decide, by decide, by decide⟩ (by decide) (by decide)).mpr
    (Or.inr (Or.inr ⟨by decide, by decide⟩))

/-- The account is there, its document is not, and nobody has been told. -/
theorem refusedSignUp_half_applied :
    ProfileOperation.signUp.Ready "ann" formFilled
      ∧ Always World.step (Services (onlyWrites true) "ann") (formFilled.step .signUpButtonPressed)
        (signedUpThen false)
      ∧ Settled (run World.step (formFilled.step .signUpButtonPressed) (signedUpThen false))
      ∧ ¬ ProfileOperation.signUp.Whole "ann" formFilled
        (run World.step (formFilled.step .signUpButtonPressed) (signedUpThen false)) :=
  ⟨⟨by decide, by decide, by decide⟩, by decide, by decide, by decide⟩

end ProductivityApp
