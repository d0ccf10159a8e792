import ProductivityApp.Platform.Firestore
import Mathlib.Logic.Function.Basic

/-!
# The services behind the app

The server side of Auth, the documents `users/{uid}` and the Storage objects, the asynchronous
requests the app sends there, and how a request that is answered changes them. Which answer comes,
and when, is left to the run: `respond` only says what an answer means.
-/

namespace ProductivityApp

abbrev Uid := String

/-- A Storage object, by its path. -/
structure StorageRef where
  path : List String
  deriving DecidableEq

/-- A download URL, by the object it leads to. -/
structure Url where
  object : StorageRef
  deriving DecidableEq

/-- An account as Auth keeps it. Every account of this app has an email and a password. -/
structure Account where
  email : String
  password : String
  displayName : Option String
  photoURL : Option Url
  deriving DecidableEq

/-- A `FIRUser`: the device's cached copy of an account. -/
structure User where
  uid : Uid
  email : String
  displayName : Option String
  photoURL : Option Url
  deriving DecidableEq

def Account.user (account : Account) (uid : Uid) : User :=
  { uid, email := account.email, displayName := account.displayName, photoURL := account.photoURL }

/-- The fields set on a `UserProfileChangeRequest`. -/
structure ProfileChange where
  displayName : Option String := none
  photoURL : Option Url := none
  deriving DecidableEq

def Account.commit (account : Account) (change : ProfileChange) : Account :=
  { account with
    displayName := change.displayName.or account.displayName
    photoURL := change.photoURL.or account.photoURL }

/-- The asynchronous calls of the app. `mainAsync` is a block put on the main queue, by the app or
by Auth when it refuses a call on the device. -/
inductive Request where
  | createUser (email password : String)
  | signIn (email password : String)
  | updateEmail (user : Uid) (email : String)
  | updatePassword (user : Uid) (password : String)
  | commitChanges (user : Uid) (change : ProfileChange)
  | reload (user : Uid)
  | putData (ref : StorageRef) (data : Data)
  | downloadURL (ref : StorageRef)
  | dataTask (url : Url)
  | mainAsync
  deriving DecidableEq

/-- The requests that end with a session. -/
def Request.signsIn : Request → Bool
  | .createUser _ _ | .signIn _ _ => true
  | _ => false

/-- What Auth does to an account when it grants this request. -/
def Request.accountChange : Request → Option (Uid × (Account → Account))
  | .updateEmail user email => some (user, ({ · with email }))
  | .updatePassword user password => some (user, ({ · with password }))
  | .commitChanges user change => some (user, (·.commit change))
  | _ => none

/-- The arguments a completion is called with. -/
inductive Answer where
  | error (description : String)
  | success
  | user (uid : Uid)
  | url (url : Url)
  | download (error : Option String) (data : Option Data)
  | image (result : Option Image)
  deriving DecidableEq

structure Server where
  accounts : Uid → Option Account
  users : Uid → Option Document
  storage : StorageRef → Option Data

namespace Server

/-- The account `uid` after a change, if there is such an account. -/
def changeAccount (server : Server) (uid : Uid) (change : Account → Account) : Option Server :=
  (server.accounts uid).map fun account =>
    { server with accounts := Function.update server.accounts uid (some (change account)) }

/-- The servers after a request got this answer; `none` if the request cannot be answered so. A
refused request changes nothing. -/
def respond (server : Server) : Request → Answer → Option Server
  | .createUser email password, .user uid =>
      if server.accounts uid = none then
        some { server with
          accounts := Function.update server.accounts uid
            (some { email, password, displayName := none, photoURL := none }) }
      else none
  | .signIn email password, .user uid =>
      match server.accounts uid with
      | some account =>
          if account.email = email ∧ account.password = password then some server else none
      | none => none
  | .updateEmail uid email, .success => server.changeAccount uid ({ · with email })
  | .updatePassword uid password, .success => server.changeAccount uid ({ · with password })
  | .commitChanges uid change, .success => server.changeAccount uid (·.commit change)
  | .reload uid, .success => if (server.accounts uid).isSome then some server else none
  | .putData ref data, .success =>
      some { server with storage := Function.update server.storage ref (some data) }
  | .downloadURL ref, .url url => if url.object = ref then some server else none
  | .dataTask _, .download _ _ => some server
  | .dataTask _, .error _ => none
  | .mainAsync, _ => none
  | _, .error _ => some server
  | _, _ => none

/-- The cached copy a device gets of an account. -/
def user (server : Server) (uid : Uid) : Option User :=
  (server.accounts uid).map (·.user uid)

/-- A write of `users/{uid}` reaching the server. -/
def applyWrite (server : Server) (uid : Uid) (kind : WriteKind) (fields : Fields) : Server :=
  { server with
    users := Function.update server.users uid (kind.apply fields (server.users uid)) }

section

variable {server after : Server} {request : Request} {uid : Uid}

theorem user_uid {user : User} (h : server.user uid = some user) : user.uid = uid := by
  obtain ⟨account, -, rfl⟩ := Option.map_eq_some_iff.mp h
  rfl

theorem user_of_changeAccount {change : Account → Account}
    (h : server.changeAccount uid change = some after) : (after.user uid).isSome := by
  obtain ⟨account, -, rfl⟩ := Option.map_eq_some_iff.mp h
  simp [user]

/-- What an answer does to the accounts: it creates one, changes one, or leaves all as they are. -/
inductive AccountsAfter (server after : Server) : Request → Answer → Prop
  | created {email password : String} {uid : Uid} :
      server.accounts uid = none →
      after.accounts = Function.update server.accounts uid
        (some { email, password, displayName := none, photoURL := none }) →
      AccountsAfter server after (.createUser email password) (.user uid)
  | changed {request : Request} {uid : Uid} {change : Account → Account} {account : Account} :
      request.accountChange = some (uid, change) → server.accounts uid = some account →
      after.accounts = Function.update server.accounts uid (some (change account)) →
      AccountsAfter server after request .success
  | kept {request : Request} {answer : Answer} :
      after.accounts = server.accounts →
      (∀ email password uid, request = .createUser email password → answer ≠ .user uid) →
      (answer = .success → request.accountChange = none) → AccountsAfter server after request answer

theorem accountsAfter_of_respond {answer : Answer}
    (h : server.respond request answer = some after) :
    AccountsAfter server after request answer ∧ after.users = server.users := by
  have hchanged {uid : Uid} {change : Account → Account}
      (h : server.changeAccount uid change = some after)
      (hrequest : request.accountChange = some (uid, change)) :
      AccountsAfter server after request .success ∧ after.users = server.users := by
    obtain ⟨account, haccount, rfl⟩ := Option.map_eq_some_iff.mp h
    exact ⟨.changed hrequest haccount rfl, rfl⟩
  cases answer with
  | success =>
      cases request with
      | updateEmail user email => exact hchanged h rfl
      | updatePassword user password => exact hchanged h rfl
      | commitChanges user change => exact hchanged h rfl
      | reload user =>
          cases (Option.ite_none_right_eq_some.mp h).2
          exact ⟨.kept rfl (by simp) fun _ => rfl, rfl⟩
      | putData ref data =>
          cases h
          exact ⟨.kept rfl (by simp) fun _ => rfl, rfl⟩
      | _ => cases h
  | user user =>
      cases request with
      | createUser email password =>
          obtain ⟨hnew, h⟩ := Option.ite_none_right_eq_some.mp h
          cases h
          exact ⟨.created hnew rfl, rfl⟩
      | signIn email password =>
          simp only [respond] at h
          split at h
          · cases (Option.ite_none_right_eq_some.mp h).2
            exact ⟨.kept rfl (by simp) (by simp), rfl⟩
          · cases h
      | _ => cases h
  | url url =>
      cases request with
      | downloadURL ref =>
          cases (Option.ite_none_right_eq_some.mp h).2
          exact ⟨.kept rfl (by simp) (by simp), rfl⟩
      | _ => cases h
  | _ =>
      cases request <;> cases h <;> exact ⟨.kept rfl (by simp) (by simp), rfl⟩

theorem signsIn_of_respond_user (h : server.respond request (.user uid) = some after) :
    request.signsIn = true := by
  cases request <;> first | rfl | cases h

theorem user_of_respond_user (h : server.respond request (.user uid) = some after) :
    (after.user uid).isSome := by
  cases request with
  | createUser email password =>
      simp only [respond, Option.ite_none_right_eq_some, Option.some.injEq] at h
      obtain ⟨-, rfl⟩ := h
      simp [user]
  | signIn email password =>
      simp only [respond] at h
      split at h
      · rename_i account haccount
        simp only [Option.ite_none_right_eq_some, Option.some.injEq] at h
        obtain ⟨-, rfl⟩ := h
        simp [user, haccount]
      · cases h
  | _ => cases h

end

end Server

end ProductivityApp
