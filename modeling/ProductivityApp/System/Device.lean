import ProductivityApp.App.Settings
import ProductivityApp.Lib.Run

/-!
# One device and the services it talks to

The device runs the app's functions one at a time. An event is something the user does, an answer
of a service, a completion put on the main queue, a queued Firestore write reaching the server, a
snapshot delivered to a listener, or a change made elsewhere. What the event itself does to the
world is `arrive`; what the app does about it is the list of commands `commands`, which `exec`
carries out. Requests are answered, and completions run, in any order.

Requests and writes carry the account and the moment their operation was started at, and the device
keeps the moment of its last logout. No function of the app reads these; the laws are about them.

Auth puts a new `FIRUser` in place at every sign-in, also of the account that is signed in already.
Objects are numbered, a call on a user carries the number of the object it was made on, and its
answer changes the cached profile only if that is still the object in place.

The Firestore client is kept simple here. Its writes wait in one queue, in the order they were made,
where the client keeps a queue for each account; and a snapshot may hold any document, in particular
one without the writes that are still queued.
-/

namespace ProductivityApp

/-- The account signed in when an operation was started, and the moment of the start. For a sign-up
the account is, once it exists, the one it created. `object` is the `FIRUser` the calls are made
on. -/
structure Origin where
  account : Option Uid
  startedAt : ℕ
  object : ℕ
  deriving DecidableEq

/-- An asynchronous call whose completion has not run. -/
structure Pending where
  request : Request
  completion : Completion
  answer : Option Answer
  origin : Origin
  deriving DecidableEq

/-- A write in the queue of the device's Firestore client. -/
structure Write where
  uid : Uid
  kind : WriteKind
  fields : Fields
  origin : Origin
  deriving DecidableEq

/-- A registered snapshot listener of `users/{uid}`. -/
structure Listener where
  uid : Uid
  screen : Screen
  deriving DecidableEq

structure SettingsScreen where
  title : String
  displayName : String
  email : Option String
  picture : Option Image
  deriving DecidableEq

/-- `user` is a `FIRUser`: the account, and the number of the object. -/
structure EmailScreen where
  user : Option Uid
  object : ℕ
  newEmail : String
  deriving DecidableEq

/-- `clock` counts events; `lastLogout` is the moment `logout` last ended a session, and `reopened`
says that a login or sign-up started since then has succeeded. -/
structure History where
  clock : ℕ
  lastLogout : Option ℕ
  reopened : Bool
  deriving DecidableEq

structure Device where
  /-- What `Date()` reads. -/
  now : Double
  /-- Whether Auth can update its keychain entry, on which `signOut` depends. -/
  keychain : Bool
  currentUser : Option User
  /-- How many `FIRUser` objects Auth has put in place; the last one is `currentUser`. -/
  userObject : ℕ
  pending : List Pending
  writes : List Write
  listeners : List Listener
  /-- The files of the documents directory. -/
  files : Uid → Option Data
  signUpForm : SignUpForm
  loginForm : LoginForm
  settings : Screen → SettingsScreen
  settingsCount : ℕ
  emailScreens : Screen → EmailScreen
  emailScreenCount : ℕ
  passwordForms : Screen → PasswordForm
  notices : List Notice
  crashed : Bool
  history : History

structure World where
  server : Server
  device : Device

inductive Event where
  | clock (now : Double)
  | keychain (available : Bool)
  | editSignUp (form : SignUpForm)
  | signUpButtonPressed
  | editLogin (form : LoginForm)
  | loginButtonPressed
  | openSettings
  | editDisplayName (screen : Screen) (text : String)
  | textFieldShouldReturn (screen : Screen)
  | imagePicked (screen : Screen) (image : Option Image)
  | emailRowPressed (password : String)
  | editNewEmail (screen : Screen) (text : String)
  | updateEmailPressed (screen : Screen)
  | editPasswords (screen : Screen) (form : PasswordForm)
  | passowrdUpdateButtonPressed (screen : Screen)
  | logoutPressed
  | willEnterForeground
  /-- A service answers the pending request at this index. -/
  | answer (index : ℕ) (answer : Answer)
  /-- The completion of the answered request at this index runs. -/
  | complete (index : ℕ)
  /-- The oldest queued write reaches Firestore, and is accepted or refused. -/
  | writeLands (accepted : Bool)
  /-- The listener at this index is called. -/
  | snapshot (listener : ℕ) (snapshot : Snapshot)
  /-- A document is changed from elsewhere. -/
  | documentChanged (uid : Uid) (document : Option Document)
  /-- An account is changed from elsewhere. -/
  | accountChanged (uid : Uid) (account : Option Account)
  /-- Auth ends the session because the server no longer accepts its token. -/
  | tokenRevoked

/-! ### Carrying out commands -/

namespace Command

def pending (origin : Origin) : Command → Option Pending
  | .call request completion => some { request, completion, answer := none, origin }
  | .mainAsync completion answer =>
      some { request := .mainAsync, completion, answer := some answer, origin }
  | _ => none

def write (origin : Origin) : Command → Option Write
  | .setData uid fields => some { uid, kind := .set, fields, origin }
  | .updateData uid fields => some { uid, kind := .update, fields, origin }
  | _ => none

def listener : Command → Option Listener
  | .addSnapshotListener uid screen => some { uid, screen }
  | _ => none

end Command

namespace Device

/-- `FIRAuth.signOut`: nothing happens when nobody is signed in or the keychain refuses. -/
def signOut (device : Device) : Device :=
  if device.keychain ∧ device.currentUser.isSome then
    { device with
      currentUser := none
      history := { device.history with
        lastLogout := some device.history.clock
        reopened := false } }
  else device

def setScreen (device : Device) (screen : Screen) (change : SettingsScreen → SettingsScreen) :
    Device :=
  { device with
    settings := Function.update device.settings screen (change (device.settings screen)) }

def exec (origin : Origin) (device : Device) (command : Command) : Device :=
  match command with
  | .call _ _ | .mainAsync _ _ =>
      { device with pending := device.pending ++ (command.pending origin).toList }
  | .setData _ _ | .updateData _ _ =>
      { device with writes := device.writes ++ (command.write origin).toList }
  | .addSnapshotListener _ _ =>
      { device with listeners := device.listeners ++ command.listener.toList }
  | .signOut => device.signOut
  | .writeFile name data => { device with files := Function.update device.files name (some data) }
  | .setDisplayName screen text => device.setScreen screen ({ · with displayName := text.getD "" })
  | .setTitle screen title => device.setScreen screen ({ · with title })
  | .setEmail screen text => device.setScreen screen ({ · with email := text })
  | .setPicture screen image => device.setScreen screen ({ · with picture := image })
  | .openUpdateEmail user =>
      { device with
        emailScreens := Function.update device.emailScreens device.emailScreenCount
          { user := some user, object := origin.object, newEmail := "" }
        emailScreenCount := device.emailScreenCount + 1 }
  | .present notice => { device with notices := device.notices ++ [notice] }
  | .trap => { device with crashed := true }

def execAll (device : Device) (origin : Origin) (commands : List Command) : Device :=
  commands.foldl (exec origin) device

end Device

/-! ### Answers -/

/-- The completion of a login or a sign-up, as opposed to a password check. -/
def Completion.opensSession : Completion → Bool
  | .signUp | .firebaseAuth => true
  | _ => false

/-- Whether an operation was started after the last logout. -/
def History.startedSince (history : History) (origin : Origin) : Bool :=
  match history.lastLogout with
  | none => true
  | some logout => logout < origin.startedAt

/-- The account an operation belongs to. A sign-up belongs to the account it created. -/
def Pending.owner (pending : Pending) : Option Uid :=
  match pending.completion, pending.answer with
  | .signUp, some (.user uid) => some uid
  | _, _ => pending.origin.account

namespace Device

/-- A successful `createUser` or `signIn`: the account becomes the current one, whoever was signed
in before, as a new object. -/
def signIn (device : Device) (server : Server) (uid : Uid) (pending : Pending) : Device :=
  { device with
    currentUser := server.user uid
    userObject := device.userObject + 1
    history := { device.history with
      reopened := device.history.reopened
        || (pending.completion.opensSession && device.history.startedSince pending.origin) } }

/-- The profile cached in an object is refreshed from the server. An object that is no longer in
place is not `currentUser`, and neither does it reach the keychain. -/
def refresh (device : Device) (server : Server) (uid : Uid) (object : ℕ) : Device :=
  if device.currentUser.map User.uid = some uid ∧ device.userObject = object then
    { device with currentUser := server.user uid }
  else device

/-- What Auth keeps on the device when a request is answered, before the completion runs. -/
def receive (device : Device) (server : Server) (pending : Pending) (answer : Answer) : Device :=
  match pending.request, answer with
  | .createUser _ _, .user uid | .signIn _ _, .user uid => device.signIn server uid pending
  | .updateEmail uid _, .success | .updatePassword uid _, .success
  | .commitChanges uid _, .success | .reload uid, .success =>
      device.refresh server uid pending.origin.object
  | _, _ => device

end Device

namespace World

/-- The request at `index` is answered, if it is pending and can be answered so. -/
def answer (w : World) (index : ℕ) (answer : Answer) : World :=
  match w.device.pending[index]? with
  | none => w
  | some pending =>
      if pending.answer.isSome then w
      else
        match w.server.respond pending.request answer with
        | none => w
        | some server =>
            { server
              device := { w.device.receive server pending answer with
                pending := w.device.pending.set index { pending with answer := some answer } } }

/-- The request at `index`, with its answer, if its completion can run. -/
def answered (w : World) (index : ℕ) : Option (Pending × Answer) :=
  w.device.pending[index]?.bind fun pending => pending.answer.map fun answer => (pending, answer)

/-- What an event does before the app reacts. -/
def arrive (w : World) : Event → World
  | .clock now => { w with device := { w.device with now } }
  | .keychain available => { w with device := { w.device with keychain := available } }
  | .editSignUp form => { w with device := { w.device with signUpForm := form } }
  | .editLogin form => { w with device := { w.device with loginForm := form } }
  | .openSettings =>
      { w with device := { w.device with settingsCount := w.device.settingsCount + 1 } }
  | .editDisplayName screen text =>
      { w with device := w.device.setScreen screen ({ · with displayName := text }) }
  | .editNewEmail screen text =>
      { w with device := { w.device with
          emailScreens := Function.update w.device.emailScreens screen
            { w.device.emailScreens screen with newEmail := text } } }
  | .editPasswords screen form =>
      { w with device := { w.device with
          passwordForms := Function.update w.device.passwordForms screen form } }
  | .answer index answer => w.answer index answer
  | .complete index =>
      match w.answered index with
      | none => w
      | some _ =>
          { w with device := { w.device with pending := w.device.pending.eraseIdx index } }
  | .writeLands accepted =>
      match w.device.writes with
      | [] => w
      | write :: writes =>
          { server :=
              if accepted then w.server.applyWrite write.uid write.kind write.fields else w.server
            device := { w.device with writes } }
  | .documentChanged uid document =>
      { w with server := { w.server with users := Function.update w.server.users uid document } }
  | .accountChanged uid account =>
      { w with server :=
          { w.server with accounts := Function.update w.server.accounts uid account } }
  | .tokenRevoked => { w with device := { w.device with currentUser := none } }
  | _ => w

/-- The closure of a completion, run with the answer. -/
def completed (device : Device) (answer : Answer) : Completion → List Command
  | .signUp =>
      SignUpViewController.userCreated device.currentUser device.signUpForm device.now answer
  | .firebaseAuth => LoginViewController.signedIn answer
  | .emailRow => SettingsTableViewController.passwordChecked device.currentUser answer
  | .checkCurrentPassword screen =>
      PasswordResetViewController.passwordChecked screen device.currentUser
        (device.passwordForms screen) answer
  | .updateEmail screen =>
      UpdateEmailViewController.emailUpdated device.currentUser
        (device.emailScreens screen).newEmail answer
  | .updatePassword _ => PasswordResetViewController.passwordUpdated answer
  | .displayNameCommitted => []
  | .pictureUploaded profileRef => ProfileUpdate.pictureUploaded profileRef answer
  | .pictureURL => ProfileUpdate.pictureURL device.currentUser answer
  | .photoCommitted => []
  | .nameReloaded screen => SettingsTableViewController.nameReloaded screen device.currentUser
  | .pictureReloaded screen =>
      SettingsTableViewController.pictureReloaded screen device.currentUser answer
  | .pictureDownloaded user screen => ProfileUpdate.pictureDownloaded user screen answer
  | .pictureShown screen => SettingsTableViewController.pictureShown screen answer
  | .none => []

/-- What the app does about an event. -/
def handle (w : World) : Event → List Command
  | .signUpButtonPressed => SignUpViewController.signUpButtonPressed w.device.signUpForm
  | .loginButtonPressed => LoginViewController.firebaseAuth w.device.loginForm
  | .openSettings =>
      SettingsTableViewController.viewDidLoad w.device.settingsCount w.device.currentUser
        (w.device.currentUser.bind fun user => w.device.files user.uid)
  | .textFieldShouldReturn screen =>
      SettingsTableViewController.textFieldShouldReturn w.device.currentUser
        (w.device.settings screen).displayName
  | .imagePicked screen image =>
      SettingsTableViewController.imagePicked screen w.device.currentUser image
  | .emailRowPressed password =>
      SettingsTableViewController.emailRowPressed w.device.currentUser password
  | .updateEmailPressed screen =>
      UpdateEmailViewController.updateEmailPressed screen (w.device.emailScreens screen).user
        (w.device.emailScreens screen).newEmail
  | .passowrdUpdateButtonPressed screen =>
      PasswordResetViewController.passowrdUpdateButtonPressed screen w.device.currentUser
        (w.device.passwordForms screen)
  | .logoutPressed => SettingsTableViewController.logoutPressed
  | .willEnterForeground => applicationWillEnterForeground w.device.currentUser
  | .complete index =>
      match w.answered index with
      | none => []
      | some (pending, answer) => completed w.device answer pending.completion
  | .snapshot listener snapshot =>
      match w.device.listeners[listener]? with
      | none => []
      | some listener =>
          SettingsTableViewController.documentChanged listener.screen w.device.currentUser snapshot
  | _ => []

/-- The commands the app issues when an event happens. An app that has stopped issues none. -/
def commands (w : World) (e : Event) : List Command := if w.device.crashed then [] else w.handle e

/-- The object the app makes its calls on: the one an email screen has kept, or else the one in
place. -/
def object (w : World) : Event → ℕ
  | .updateEmailPressed screen => (w.device.emailScreens screen).object
  | _ => w.device.userObject

/-- The operation the commands of an event belong to: a completion carries on the operation that
made the request, and anything else starts one. -/
def origin (w : World) (e : Event) : Origin :=
  match e with
  | .complete index =>
      match w.answered index with
      | none => { account := none, startedAt := w.device.history.clock, object := w.object e }
      | some (pending, _) =>
          { account := pending.owner, startedAt := pending.origin.startedAt, object := w.object e }
  | _ =>
      { account := w.device.currentUser.map User.uid
        startedAt := w.device.history.clock
        object := w.object e }

/-- The device after the app has reacted to an event, and the clock has moved on. -/
def react (w : World) (e : Event) : Device :=
  let device := (w.arrive e).device.execAll (w.origin e) (w.commands e)
  { device with history := { device.history with clock := device.history.clock + 1 } }

def step (w : World) (e : Event) : World :=
  if w.device.crashed then w else { server := (w.arrive e).server, device := w.react e }

end World

/-! ### A fresh installation -/

def SettingsScreen.initial : SettingsScreen :=
  { title := "", displayName := "", email := none, picture := none }

def Device.initial : Device :=
  { now := Double.ofRat 0
    keychain := true
    currentUser := none
    userObject := 0
    pending := []
    writes := []
    listeners := []
    files := fun _ => none
    signUpForm :=
      { email := "", displayName := "", password := "", passwordConfirmation := "",
        profilePicture := some .systemPerson }
    loginForm := { email := "", password := "" }
    settings := fun _ => SettingsScreen.initial
    settingsCount := 0
    emailScreens := fun _ => { user := none, object := 0, newEmail := "" }
    emailScreenCount := 0
    passwordForms := fun _ =>
      { currentPassword := "", newPassword := "", newPasswordConfirm := "" }
    notices := []
    crashed := false
    history := { clock := 0, lastLogout := none, reopened := false } }

def Server.initial : Server :=
  { accounts := fun _ => none, users := fun _ => none, storage := fun _ => none }

/-- The device as installed, with servers in any state. -/
def World.installed (server : Server) : World := { server, device := Device.initial }

end ProductivityApp
