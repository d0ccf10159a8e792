import ProductivityApp.System.Device

/-!
# The two stores of a profile

The display name and the email of an account are kept by Auth and in the document `users/{uid}`.
This is what either store holds, which requests and writes change it, and what a queue of writes
leaves when it has landed.
-/

namespace ProductivityApp

/-- The values that an account has in both stores. -/
inductive ProfileField where
  | displayName
  | email
  deriving DecidableEq

namespace ProfileField

/-- The name of the field in the document. -/
def key : ProfileField → String
  | displayName => "displayName"
  | email => "email"

def ofAccount (account : Account) : ProfileField → Option String
  | displayName => account.displayName
  | email => some account.email

end ProfileField

/-- What Auth holds. -/
def Server.authValue (server : Server) (uid : Uid) (field : ProfileField) : Option String :=
  (server.accounts uid).bind fun account => field.ofAccount account

/-- What the document holds. -/
def Server.documentValue (server : Server) (uid : Uid) (field : ProfileField) : Option String :=
  (server.users uid).bind fun document => document.string field.key

/-- The value that this request gives the account. -/
def Request.change (uid : Uid) (field : ProfileField) : Request → Option String
  | .updateEmail user email => if user = uid ∧ field = .email then some email else none
  | .commitChanges user change =>
      if user = uid ∧ field = .displayName then change.displayName else none
  | _ => none

/-- The value that this write gives the document. -/
def Write.change (uid : Uid) (field : ProfileField) (write : Write) : Option String :=
  if write.uid = uid then (write.fields.lookup field.key).bind Value.asString else none

/-- The document `users/{uid}` after these writes. -/
def landed (uid : Uid) (document : Option Document) (writes : List Write) : Option Document :=
  writes.foldl
    (fun document write =>
      if write.uid = uid then write.kind.apply write.fields document else document)
    document

section

variable {uid : Uid} {document : Option Document} {write : Write} {writes more : List Write}

@[simp]
theorem landed_nil : landed uid document [] = document := rfl

theorem landed_cons :
    landed uid document (write :: writes)
      = landed uid
          (if write.uid = uid then write.kind.apply write.fields document else document) writes :=
  rfl

theorem landed_append :
    landed uid document (writes ++ more) = landed uid (landed uid document writes) more :=
  List.foldl_append

end

section

variable {uid : Uid} {field : ProfileField}

theorem change_of_fields {write : Write} {own : ProfileField} {text : String}
    (hfields : write.fields = [(own.key, .string text)]) :
    write.change uid field = if write.uid = uid ∧ own = field then some text else none := by
  rw [Write.change, hfields]
  by_cases huid : write.uid = uid
  · cases own <;> cases field <;>
      simp [huid, ProfileField.key, List.lookup_cons, Value.asString]
  · simp [huid]

theorem write_change {write : Write} (own : ProfileField) {text value : String}
    (hfields : write.fields = [(own.key, .string text)])
    (hchange : write.change uid field = some value) :
    write.uid = uid ∧ own = field ∧ text = value := by
  rw [change_of_fields hfields, Option.ite_none_right_eq_some, Option.some.injEq] at hchange
  exact ⟨hchange.1.1, hchange.1.2, hchange.2⟩

theorem string_apply {fields : Fields} {own : ProfileField} {text : String} {document : Document}
    (hfields : fields = [(own.key, .string text)]) :
    ∃ after, WriteKind.update.apply fields (some document) = some after
      ∧ after.string field.key
        = (if own = field then some text else none).or (document.string field.key) := by
  refine ⟨document.merge fields, rfl, ?_⟩
  rw [hfields]
  cases own <;> cases field <;>
    simp [ProfileField.key, Document.string, List.lookup_cons, Value.asString]

theorem accounts_isSome_respond {server after : Server} {request : Request} {answer : Answer}
    (h : server.respond request answer = some after) (haccount : (server.accounts uid).isSome) :
    (after.accounts uid).isSome := by
  cases (Server.accountsAfter_of_respond h).1 with
  | created _ hafter =>
      rw [hafter, Function.update_apply]
      split
      · rfl
      · exact haccount
  | changed _ _ hafter =>
      rw [hafter, Function.update_apply]
      split
      · rfl
      · exact haccount
  | kept hafter => rwa [hafter]

theorem authValue_respond {server after : Server} {request : Request} {answer : Answer}
    (h : server.respond request answer = some after)
    (hnew : server.accounts uid = none → ∀ email password, request ≠ .createUser email password) :
    after.authValue uid field
      = (if answer = .success then request.change uid field else none).or
        (server.authValue uid field) := by
  cases (Server.accountsAfter_of_respond h).1 with
  | @created email password user hnone hafter =>
      have huser : uid ≠ user := by
        rintro rfl
        exact hnew hnone email password rfl
      simp [Server.authValue, hafter, Function.update_of_ne huser]
  | @changed _ user change account hchange hbefore hafter =>
      by_cases huser : uid = user
      · subst huser
        cases request with
        | updateEmail _ _ | updatePassword _ _ | commitChanges _ _ =>
            cases hchange
            cases field <;>
              simp [Server.authValue, hafter, hbefore, Request.change, ProfileField.ofAccount,
                Account.commit]
        | _ => cases hchange
      · have hnone : request.change uid field = none := by
          cases request with
          | updateEmail _ _ | commitChanges _ _ =>
              cases hchange
              simp [Request.change, Ne.symm huser]
          | _ => rfl
        simp [Server.authValue, hafter, Function.update_of_ne huser, hnone]
  | kept hafter _ hchange =>
      have hnone : (if answer = .success then request.change uid field else none) = none := by
        split
        · rename_i hsuccess
          have hrequest := hchange hsuccess
          cases request <;> first | rfl | cases hrequest
        · rfl
      rw [hnone, Option.none_or, Server.authValue, hafter, Server.authValue]

end

end ProductivityApp
