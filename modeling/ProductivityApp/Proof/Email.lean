import ProductivityApp.Lib.Relay
import ProductivityApp.System.Calls
import ProductivityApp.System.Stores

/-!
# The email in the two stores

Auth stores an address when it accepts a request, the document gets one from the write that the
completion of the request issues. Between the two the address is carried by the answered call, and
then by the queued write, so the email of an account is a relay: Auth is its first store, the
accepted calls are its queue, and the document, with the queued writes taken as arrived, is its
second store. Every step of the device is a step of that relay as long as each completion reads the
address that its request sent.
-/

namespace ProductivityApp

open EventSystem

/-! ### The relay of an account -/

/-- The address this call gives the account when it is answered so. -/
def Request.setsEmail (uid : Uid) : Request → Answer → Option String
  | .createUser email _, .user user => if user = uid then some email else none
  | .updateEmail user email, .success => if user = uid then some email else none
  | _, _ => none

/-- The address that Auth has accepted in this call, whose completion is still to run. -/
def Pending.acceptedEmail (uid : Uid) (pending : Pending) : Option String :=
  pending.answer.bind (pending.request.setsEmail uid)

namespace World

/-- The uid of the user signed in. -/
def session (w : World) : Option Uid := w.device.currentUser.map User.uid

/-- The email Auth holds for an account. -/
def authEmail (uid : Uid) (w : World) : Option String := (w.server.accounts uid).map Account.email

/-- The document `users/{uid}` once the queued writes have arrived. -/
def settledDocument (uid : Uid) (w : World) : Option Document :=
  landed uid (w.server.users uid) w.device.writes

def emailRelay (uid : Uid) (w : World) : Relay String :=
  { primary := w.authEmail uid
    queue := w.device.pending.filterMap (Pending.acceptedEmail uid)
    secondary := (w.settledDocument uid).bind (·.string "email") }

end World

section KeepsEmail

variable {uid : Uid} {document : Option Document} {writes : List Write}

/-- A write that leaves the email of the document it names alone. -/
def Write.KeepsEmail (write : Write) : Prop :=
  write.kind = .update ∧ write.fields.lookup "email" = none

theorem landed_of_keepsEmail (h : ∀ write ∈ writes, write.uid = uid → write.KeepsEmail) :
    (landed uid document writes).isSome = document.isSome
      ∧ (landed uid document writes).bind (·.string "email")
        = document.bind (·.string "email") := by
  induction writes generalizing document with
  | nil => exact ⟨rfl, rfl⟩
  | cons write writes ih =>
      have hrest := fun document : Option Document =>
        @ih document fun write hmem => h write (List.mem_cons_of_mem _ hmem)
      rw [landed_cons]
      split
      · rename_i huid
        obtain ⟨hkind, hfields⟩ := h write List.mem_cons_self huid
        rw [(hrest _).1, (hrest _).2, hkind]
        cases document with
        | none => exact ⟨rfl, rfl⟩
        | some document => simp [WriteKind.apply, Document.string, hfields]
      · exact hrest document

end KeepsEmail

/-! ### The runs the law is about -/

/-- The account is signed in for good once it is signed in, and no other account is. -/
def StaysSignedIn (uid : Uid) (w : World) (e : Event) : Prop :=
  (w.step e).session = some uid ∨ (w.session = none ∧ (w.step e).session = none)

/-- Auth completes the requests that set one account's email in the order they were made. -/
def InOrder (uid : Uid) (w : World) : Event → Prop
  | .answer index answer =>
      match w.device.pending[index]? with
      | none => True
      | some pending =>
          pending.answer = none → pending.request.setsEmail uid answer ≠ none →
            (w.device.pending.drop (index + 1)).filterMap (Pending.acceptedEmail uid) = []
  | .complete index =>
      match w.device.pending[index]? with
      | none => True
      | some pending =>
          pending.acceptedEmail uid ≠ none →
            (w.device.pending.take index).filterMap (Pending.acceptedEmail uid) = []
  | _ => True

/-- Nothing of the account is changed from elsewhere, and Firestore accepts every write. -/
def OneDevice (uid : Uid) : Event → Prop
  | .accountChanged account _ | .documentChanged account _ => account ≠ uid
  | .writeLands accepted => accepted = true
  | _ => True

structure EmailScope (uid : Uid) (w : World) (e : Event) : Prop where
  staysSignedIn : StaysSignedIn uid w e
  inOrder : InOrder uid w e
  oneDevice : OneDevice uid e

/-- The text that a completion writes into the document as the email. -/
def World.emailRead (w : World) : Completion → Option String
  | .signUp => some w.device.signUpForm.email
  | .updateEmail screen => some (w.device.emailScreens screen).newEmail
  | _ => none

/-- The completion of an accepted sign-up or email change finds in the text field the address that
was sent. -/
def ReadsSentAddress (uid : Uid) (w : World) : Event → Prop
  | .complete index =>
      match w.device.pending[index]? with
      | none => True
      | some pending =>
          pending.acceptedEmail uid ≠ none →
            w.emailRead pending.completion = pending.acceptedEmail uid
  | _ => True

/-- Once nothing is pending, the document has the email that Auth has. -/
def EmailsAgree (uid : Uid) (w : World) : Prop :=
  w.device.pending = [] → w.device.writes = [] → w.authEmail uid ≠ none →
    (w.server.users uid).bind (·.string "email") = w.authEmail uid

/-! ### What a step changes -/

/-- The sign-up that created the account, until its completion has run. -/
def Pending.Creates (uid : Uid) (pending : Pending) : Prop :=
  (∃ email password, pending.request = .createUser email password)
    ∧ pending.answer = some (.user uid)

/-- A call that asks Auth for a new email of the account. -/
def Pending.Updates (uid : Uid) (pending : Pending) : Prop :=
  ∃ email, pending.request = .updateEmail uid email

/-- What a run keeps. The account and its session begin together, the email screens and the email
changes are the account's and come after its sign-up, and the document exists or will be made by the
sign-up's completion. -/
structure EmailInv (uid : Uid) (w : World) : Prop where
  sound : ∀ pending ∈ w.device.pending, pending.Sound
  session : w.session = if (w.authEmail uid).isSome then some uid else none
  users : ∀ pending ∈ w.device.pending, ∀ user, pending.answer = some (.user user) → user = uid
  screens : ∀ screen user, (w.device.emailScreens screen).user = some user →
    user = uid ∧ (w.authEmail uid).isSome
  updates : ∀ pending ∈ w.device.pending, ∀ user email,
    pending.request = .updateEmail user email → user = uid ∧ (w.authEmail uid).isSome
  signUpFirst : w.device.pending.Pairwise fun update signUp =>
    update.Updates uid → ¬ signUp.Creates uid
  document : (w.authEmail uid).isSome →
    (w.settledDocument uid).isSome ∨ ∃ pending ∈ w.device.pending, pending.Creates uid
  relay : (w.emailRelay uid).Consistent

theorem EmailInv.exists_currentUser {uid : Uid} {w : World} (h : EmailInv uid w)
    (haccount : (w.authEmail uid).isSome) :
    ∃ user, w.device.currentUser = some user ∧ user.uid = uid := by
  have hsession := h.session
  rw [if_pos haccount] at hsession
  exact Option.map_eq_some_iff.mp hsession

section Answer

variable {server after : Server} {request : Request} {answer : Answer} {uid : Uid}

theorem accounts_respond (h : server.respond request answer = some after) :
    (after.accounts uid).map Account.email
        = (request.setsEmail uid answer).or ((server.accounts uid).map Account.email)
      ∧ after.users = server.users := by
  obtain ⟨haccounts, husers⟩ := Server.accountsAfter_of_respond h
  refine ⟨?_, husers⟩
  cases haccounts with
  | @created email password user hnew hafter =>
      rw [hafter]
      by_cases huser : user = uid
      · simp [Request.setsEmail, huser]
      · simp [Request.setsEmail, huser, Function.update_of_ne (Ne.symm huser)]
  | @changed _ user change account hchange haccount hafter =>
      rw [hafter]
      by_cases huser : user = uid
      · subst huser
        cases request with
        | updateEmail _ _ | updatePassword _ _ | commitChanges _ _ =>
            cases hchange
            simp [Request.setsEmail, haccount, Account.commit]
        | _ => cases hchange
      · have hsets : request.setsEmail uid .success = none := by
          cases request with
          | updateEmail _ _ =>
              cases hchange
              simp [Request.setsEmail, huser]
          | _ => rfl
        rw [hsets, Function.update_of_ne (Ne.symm huser), Option.none_or]
  | kept hafter hcreate hchange =>
      have hsets : request.setsEmail uid answer = none := by
        cases request with
        | createUser email password =>
            cases answer with
            | user user => exact absurd rfl (hcreate email password user rfl)
            | _ => rfl
        | updateEmail user email =>
            cases answer with
            | success => cases hchange rfl
            | _ => rfl
        | _ => rfl
      rw [hafter, hsets, Option.none_or]

end Answer

section Step

variable {uid : Uid} {w : World} {e : Event}

theorem settledDocument_arrive (h : OneDevice uid e) :
    (w.arrive e).settledDocument uid = w.settledDocument uid := by
  cases e with
  | answer index answer =>
      obtain hsame | ⟨pending, after, hanswers⟩ := w.arrive_answer_cases index answer
      · rw [hsame]
      · have hwrites : (w.arrive (.answer index answer)).device.writes = w.device.writes :=
          World.arrive_answer_field Device.writes index answer fun _ _ _ _ _ => rfl
        have husers : (w.arrive (.answer index answer)).server.users = w.server.users := by
          rw [hanswers.arrive_eq]
          exact (@accounts_respond _ _ _ _ uid hanswers.respond_eq).2
        rw [World.settledDocument, hwrites, husers, World.settledDocument]
  | complete index =>
      obtain ⟨pending, -, harrive⟩ := w.arrive_complete_eq index
      rw [harrive]
      rfl
  | writeLands accepted =>
      have haccepted : accepted = true := h
      cases hwrites : w.device.writes with
      | nil => simp [World.arrive, hwrites]
      | cons write writes =>
          simp only [World.settledDocument, World.arrive, hwrites, haccepted, if_true, landed_cons,
            Server.applyWrite]
          congr 1
          by_cases huid : write.uid = uid
          · simp [huid]
          · simp [huid, Function.update_of_ne (Ne.symm huid)]
  | documentChanged account document =>
      simp [World.settledDocument, World.arrive, Function.update_of_ne (Ne.symm h)]
  | _ => rfl

theorem settledDocument_step (h : OneDevice uid e) :
    (w.step e).settledDocument uid
      = landed uid (w.settledDocument uid)
          ((w.commands e).filterMap (Command.write (w.origin e))) := by
  cases hcrashed : w.device.crashed with
  | true => simp [World.step_of_crashed hcrashed, World.commands_of_crashed hcrashed]
  | false =>
      have hserver : (w.step e).server = (w.arrive e).server := by
        rw [World.step_of_running hcrashed]
      calc (w.step e).settledDocument uid
          = landed uid ((w.arrive e).settledDocument uid)
              ((w.commands e).filterMap (Command.write (w.origin e))) := by
            rw [World.settledDocument, World.step_writes hcrashed, landed_append, hserver,
              World.settledDocument]
        _ = landed uid (w.settledDocument uid)
              ((w.commands e).filterMap (Command.write (w.origin e))) := by
            rw [settledDocument_arrive h]

/-- The event by which Auth accepts this address. -/
def Accepts (uid : Uid) (w : World) (e : Event) (email : String) : Prop :=
  w.device.crashed = false ∧ ∃ index answer pending after, e = .answer index answer
    ∧ w.Answers index answer pending after ∧ pending.request.setsEmail uid answer = some email

theorem setsEmail_eq_none {index : ℕ} {answer : Answer} {pending : Pending} {after : Server}
    (haccepts : ∀ email, ¬ Accepts uid w (.answer index answer) email)
    (hrunning : w.device.crashed = false) (hanswers : w.Answers index answer pending after) :
    pending.request.setsEmail uid answer = none :=
  Option.eq_none_iff_forall_ne_some.mpr fun email hsets =>
    haccepts email ⟨hrunning, index, answer, pending, after, rfl, hanswers, hsets⟩

theorem authEmail_step_accepts {email : String} (h : Accepts uid w e email) :
    (w.step e).authEmail uid = some email := by
  obtain ⟨hrunning, index, answer, pending, after, rfl, hanswers, hsets⟩ := h
  rw [World.step_of_running hrunning, World.authEmail, hanswers.arrive_eq]
  simp [(accounts_respond hanswers.respond_eq).1, hsets]

theorem OneDevice.ne_of_accountChanged (h : OneDevice uid e) {account : Uid}
    {change : Option Account} (he : e = .accountChanged account change) : account ≠ uid := by
  subst he
  exact h

theorem authEmail_step_idle
    (h : ∀ {account change}, e = .accountChanged account change → account ≠ uid)
    (haccepts : ∀ email, ¬ Accepts uid w e email) :
    (w.step e).authEmail uid = w.authEmail uid := by
  cases hcrashed : w.device.crashed with
  | true => rw [World.step_of_crashed hcrashed]
  | false =>
      rw [World.step_of_running hcrashed, World.authEmail, World.authEmail]
      cases e with
      | answer index answer =>
          obtain hsame | ⟨pending, after, hanswers⟩ := w.arrive_answer_cases index answer
          · rw [hsame]
          · have hsets := setsEmail_eq_none haccepts hcrashed hanswers
            rw [hanswers.arrive_eq]
            simp only [(accounts_respond hanswers.respond_eq).1, hsets, Option.none_or]
      | complete index =>
          obtain ⟨pending, -, harrive⟩ := w.arrive_complete_eq index
          rw [harrive]
      | writeLands accepted =>
          obtain ⟨server, writes, haccounts, -, harrive⟩ := w.arrive_writeLands_eq accepted
          rw [harrive, haccounts]
      | accountChanged account change =>
          simp [World.arrive, Function.update_of_ne (h rfl).symm]
      | _ => rfl

/-- A completion that carries an accepted address. -/
def Runs (uid : Uid) (w : World) (e : Event) (email : String) : Prop :=
  w.device.crashed = false ∧ ∃ index pending answer, e = .complete index
    ∧ w.answered index = some (pending, answer) ∧ pending.acceptedEmail uid = some email

theorem keepsEmail_of_profile {currentUser : Option User} {name : String} {picture : Option Image}
    {origin : Origin} {c : Command} {write : Write}
    (hc : c ∈ ProfileUpdate.updateDisplayName currentUser name
      ++ ProfileUpdate.updateProfilePicture currentUser picture)
    (hwrite : c.write origin = some write) : write.KeepsEmail := by
  rw [List.mem_append] at hc
  obtain hc | hc := hc
  · cases currentUser with
    | none => cases hc
    | some user =>
        simp only [ProfileUpdate.updateDisplayName, List.mem_cons, List.not_mem_nil, or_false] at hc
        obtain rfl | rfl := hc <;> cases hwrite
        exact ⟨rfl, rfl⟩
  · unfold ProfileUpdate.updateProfilePicture at hc
    split at hc
    · cases hc
    · split at hc
      · cases List.mem_singleton.mp hc
        cases hwrite
      · split at hc
        · cases hc
        · simp only [ProfileUpdate.saveLocalImage, List.cons_append, List.nil_append,
            List.mem_cons, List.not_mem_nil, or_false] at hc
          obtain rfl | rfl := hc <;> cases hwrite

theorem keepsEmail_of_issued (h : EmailInv uid w) (hruns : ∀ email, ¬ Runs uid w e email)
    {c : Command} {write : Write} (hc : c ∈ w.commands e)
    (hwrite : c.write (w.origin e) = some write) (huid : write.uid = uid) : write.KeepsEmail := by
  have hrunning := World.running_of_mem_commands hc
  cases issued_of_mem hc with
  | @accountDocument index pending user hanswered hcompletion =>
      obtain ⟨hmem, hanswer⟩ := World.mem_of_answered hanswered
      obtain rfl := h.users pending hmem user hanswer
      obtain ⟨email, password, hrequest⟩ :=
        Request.fits_signUp.mp (hcompletion ▸ (h.sound pending hmem).fits)
      refine absurd ⟨hrunning, index, pending, .user user, rfl, hanswered, ?_⟩ (hruns email)
      simp [Pending.acceptedEmail, hanswer, hrequest, Request.setsEmail]
  | @emailWrite index pending answer screen user hanswered hcompletion hsuccess huser =>
      obtain ⟨hmem, hanswer⟩ := World.mem_of_answered hanswered
      obtain ⟨account, email, hrequest⟩ :=
        Request.fits_updateEmail.mp (hcompletion ▸ (h.sound pending hmem).fits)
      obtain ⟨rfl, -⟩ := h.updates pending hmem account email hrequest
      have hanswered' := (h.sound pending hmem).answered answer hanswer
      refine absurd ⟨hrunning, index, pending, answer, rfl, hanswered, ?_⟩ (hruns email)
      cases answer <;> simp_all [Request.answeredBy, Pending.acceptedEmail, Request.setsEmail]
  | nameWrite hsite huser =>
      cases hwrite
      exact ⟨rfl, rfl⟩
  | _ => cases hwrite

theorem acceptedEmail_of_pending {origin : Origin} {c : Command} {pending : Pending}
    (h : c.pending origin = some pending) : pending.acceptedEmail uid = none := by
  cases c <;> cases h <;> rfl

theorem queue_step (hrunning : w.device.crashed = false) :
    (w.step e).device.pending.filterMap (Pending.acceptedEmail uid)
      = (w.arrive e).device.pending.filterMap (Pending.acceptedEmail uid) := by
  rw [World.step_pending hrunning, List.filterMap_append]
  have hnew : ((w.commands e).filterMap (Command.pending (w.origin e))).filterMap
      (Pending.acceptedEmail uid) = [] := by
    rw [List.filterMap_eq_nil_iff]
    intro pending hmem
    obtain ⟨c, -, hpending⟩ := List.mem_filterMap.mp hmem
    exact acceptedEmail_of_pending hpending
  rw [hnew, List.append_nil]

/-- The queue of accepted addresses gains the one that is accepted, loses the one whose completion
runs, and is otherwise as it was. -/
theorem queue_step_accepts {email : String} (h : Accepts uid w e email) (horder : InOrder uid w e) :
    (w.step e).device.pending.filterMap (Pending.acceptedEmail uid)
      = w.device.pending.filterMap (Pending.acceptedEmail uid) ++ [email] := by
  obtain ⟨hrunning, index, answer, pending, after, rfl, hanswers, hsets⟩ := h
  rw [queue_step hrunning, hanswers.arrive_eq]
  have hlast : (w.device.pending.drop (index + 1)).filterMap (Pending.acceptedEmail uid) = [] := by
    simp only [InOrder, hanswers.pending_eq] at horder
    exact horder hanswers.unanswered (by simp [hsets])
  rw [filterMap_set_append hanswers.pending_eq
    (by simp [Pending.acceptedEmail, hanswers.unanswered]) hlast]
  simp [Pending.acceptedEmail, hsets]

theorem queue_step_runs {email : String} (h : Runs uid w e email) (horder : InOrder uid w e) :
    w.device.pending.filterMap (Pending.acceptedEmail uid)
      = email :: (w.step e).device.pending.filterMap (Pending.acceptedEmail uid) := by
  obtain ⟨hrunning, index, pending, answer, rfl, hanswered, haccepted⟩ := h
  have hpending := (World.answered_eq_some.mp hanswered).1
  rw [queue_step hrunning, World.arrive_complete hanswered]
  have hfirst : (w.device.pending.take index).filterMap (Pending.acceptedEmail uid) = [] := by
    simp only [InOrder, hpending] at horder
    exact horder (by simp [haccepted])
  rw [filterMap_eraseIdx_head hpending hfirst, haccepted]
  rfl

theorem queue_step_idle (haccepts : ∀ email, ¬ Accepts uid w e email)
    (hruns : ∀ email, ¬ Runs uid w e email) :
    (w.step e).device.pending.filterMap (Pending.acceptedEmail uid)
      = w.device.pending.filterMap (Pending.acceptedEmail uid) := by
  cases hcrashed : w.device.crashed with
  | true => rw [World.step_of_crashed hcrashed]
  | false =>
      rw [queue_step hcrashed]
      cases e with
      | answer index answer =>
          obtain hsame | ⟨pending, after, hanswers⟩ := w.arrive_answer_cases index answer
          · rw [hsame]
          · have hsets := setsEmail_eq_none haccepts hcrashed hanswers
            rw [hanswers.arrive_eq, filterMap_set_eq hanswers.pending_eq]
            simp [Pending.acceptedEmail, hanswers.unanswered, hsets]
      | complete index =>
          cases hanswered : w.answered index with
          | none => rw [World.arrive_complete_of_none hanswered]
          | some call =>
              obtain ⟨pending, answer⟩ := call
              have hnone : pending.acceptedEmail uid = none :=
                Option.eq_none_iff_forall_ne_some.mpr fun email haccepted =>
                  hruns email ⟨hcrashed, index, pending, answer, rfl, hanswered, haccepted⟩
              rw [World.arrive_complete hanswered]
              exact filterMap_eraseIdx_eq (World.answered_eq_some.mp hanswered).1 hnone
      | writeLands accepted =>
          rw [World.arrive_writeLands_field Device.pending accepted fun _ _ => rfl]
      | _ => rfl

theorem document_step_idle (h : EmailInv uid w) (hdevice : OneDevice uid e)
    (hruns : ∀ email, ¬ Runs uid w e email) :
    ((w.step e).settledDocument uid).isSome = (w.settledDocument uid).isSome
      ∧ ((w.step e).settledDocument uid).bind (·.string "email")
        = (w.settledDocument uid).bind (·.string "email") := by
  rw [settledDocument_step hdevice]
  refine landed_of_keepsEmail fun write hmem => ?_
  obtain ⟨c, hc, hwrite⟩ := List.mem_filterMap.mp hmem
  exact keepsEmail_of_issued h hruns hc hwrite

/-- By the time an email change completes, the sign-up has, so the document is there. -/
theorem document_isSome_of_updates (h : EmailInv uid w) {index : ℕ} {pending : Pending}
    (hpending : w.device.pending[index]? = some pending) (hupdates : pending.Updates uid)
    (haccepted : pending.acceptedEmail uid ≠ none) (horder : InOrder uid w (.complete index)) :
    (w.settledDocument uid).isSome := by
  obtain ⟨email, hrequest⟩ := hupdates
  have haccount := (h.updates pending (List.mem_of_getElem? hpending) uid email hrequest).2
  obtain hdocument | ⟨signUp, hmem, hcreates⟩ := h.document haccount
  · exact hdocument
  · exfalso
    obtain ⟨i, hi⟩ := List.mem_iff_getElem?.mp hmem
    have hupdates : pending.Updates uid := ⟨email, hrequest⟩
    have hfirst : ¬ index < i := fun hlt =>
      rel_of_pairwise h.signUpFirst hpending hi hlt hupdates hcreates
    have hne : i ≠ index := by
      rintro rfl
      rw [hpending, Option.some.injEq] at hi
      obtain ⟨⟨email', password, hrequest'⟩, -⟩ := hcreates
      rw [← hi, hrequest] at hrequest'
      cases hrequest'
    simp only [InOrder, hpending] at horder
    have hnone := List.filterMap_eq_nil_iff.mp (horder haccepted) signUp
      (List.mem_of_getElem? (by rwa [List.getElem?_take_of_lt (show i < index by omega)]))
    obtain ⟨⟨email, password, hrequest⟩, hanswer⟩ := hcreates
    simp [Pending.acceptedEmail, hanswer, hrequest, Request.setsEmail] at hnone

theorem document_step_runs (h : EmailInv uid w) (hscope : EmailScope uid w e)
    (hreads : ReadsSentAddress uid w e) {email : String} (hruns : Runs uid w e email) :
    ((w.step e).settledDocument uid).isSome
      ∧ ((w.step e).settledDocument uid).bind (·.string "email") = some email := by
  rw [settledDocument_step hscope.oneDevice]
  obtain ⟨hrunning, index, pending, answer, rfl, hanswered, haccepted⟩ := hruns
  obtain ⟨hpending, hanswer⟩ := World.answered_eq_some.mp hanswered
  have hmem := List.mem_of_getElem? hpending
  have hfits := (h.sound pending hmem).fits
  simp only [ReadsSentAddress, hpending] at hreads
  have hreads := hreads (by simp [haccepted])
  rw [haccepted] at hreads
  rw [World.commands_of_running hrunning]
  simp only [World.handle, hanswered]
  rw [Pending.acceptedEmail, hanswer, Option.bind_some] at haccepted
  cases hrequest : pending.request with
  | createUser sent password =>
      have hcompletion := Request.fits_of_createUser (hrequest ▸ hfits)
      cases answer with
      | user user =>
          rw [hcompletion, World.emailRead, Option.some.injEq] at hreads
          have huser : user = uid := h.users pending hmem user hanswer
          rw [hcompletion, World.completed, SignUpViewController.userCreated, List.append_assoc,
            List.filterMap_append, landed_append]
          have hrest : ∀ write ∈ (ProfileUpdate.updateDisplayName w.device.currentUser
              w.device.signUpForm.displayName
              ++ ProfileUpdate.updateProfilePicture w.device.currentUser
                w.device.signUpForm.profilePicture).filterMap
                  (Command.write (w.origin (.complete index))),
              write.uid = uid → write.KeepsEmail := by
            intro write hwrite _
            obtain ⟨c, hc, hwrite⟩ := List.mem_filterMap.mp hwrite
            exact keepsEmail_of_profile hc hwrite
          rw [(landed_of_keepsEmail hrest).1, (landed_of_keepsEmail hrest).2]
          simp [Command.write, landed_cons, huser, WriteKind.apply, Document.string, hreads,
            List.lookup_cons, Value.asString]
      | _ => rw [hrequest] at haccepted; cases haccepted
  | updateEmail user sent =>
      have hdocument := document_isSome_of_updates h hpending
        ⟨sent, by rw [hrequest, (h.updates pending hmem user sent hrequest).1]⟩
        (by simp [Pending.acceptedEmail, hanswer, haccepted]) hscope.inOrder
      obtain ⟨document, hdocument⟩ := Option.isSome_iff_exists.mp hdocument
      obtain ⟨user, huser, hsame⟩ :=
        h.exists_currentUser (h.updates pending hmem user sent hrequest).2
      obtain ⟨screen, hcompletion⟩ := Request.fits_of_updateEmail (hrequest ▸ hfits)
      rw [hcompletion, World.emailRead, Option.some.injEq] at hreads
      cases answer with
      | success =>
          simp [hcompletion, World.completed, UpdateEmailViewController.emailUpdated,
            ProfileUpdate.updateEmail, huser, hsame, Command.write, landed_cons, hdocument,
            WriteKind.apply, Document.string, hreads, Value.asString]
      | _ => rw [hrequest] at haccepted; cases haccepted
  | _ => rw [hrequest] at haccepted; cases haccepted

/-- **The email of an account is a relay**: a step of the device is a step of its relay. -/
theorem emailRelay_step (h : EmailInv uid w) (hscope : EmailScope uid w e)
    (hreads : ReadsSentAddress uid w e) :
    Relay.Step (w.emailRelay uid) ((w.step e).emailRelay uid) := by
  by_cases haccepts : ∃ email, Accepts uid w e email
  · obtain ⟨email, haccepts⟩ := haccepts
    have hruns : ∀ email, ¬ Runs uid w e email := by
      rintro email ⟨-, index, pending, answer, rfl, -⟩
      obtain ⟨-, index', answer', -, -, heq, -⟩ := haccepts
      cases heq
    have hemail : (w.step e).authEmail uid = some email := authEmail_step_accepts haccepts
    have hrelay : (w.step e).emailRelay uid = (w.emailRelay uid).write email := by
      simp only [World.emailRelay, Relay.write, hemail,
        queue_step_accepts haccepts hscope.inOrder,
        (document_step_idle h hscope.oneDevice hruns).2]
    rw [hrelay]
    exact .write _ _
  · have hauth := authEmail_step_idle hscope.oneDevice.ne_of_accountChanged (not_exists.mp haccepts)
    by_cases hruns : ∃ email, Runs uid w e email
    · obtain ⟨email, hruns⟩ := hruns
      have hrelay : (w.step e).emailRelay uid = (w.emailRelay uid).deliver := by
        simp only [World.emailRelay, Relay.deliver, hauth, queue_step_runs hruns hscope.inOrder,
          (document_step_runs h hscope hreads hruns).2]
      rw [hrelay]
      exact .deliver _
    · have hrelay : (w.step e).emailRelay uid = w.emailRelay uid := by
        simp only [World.emailRelay, hauth,
          queue_step_idle (not_exists.mp haccepts) (not_exists.mp hruns),
          (document_step_idle h hscope.oneDevice (not_exists.mp hruns)).2]
      rw [hrelay]
      exact .idle _

/-! ### The invariant -/

theorem authEmail_isSome_step (h : OneDevice uid e) (haccount : (w.authEmail uid).isSome) :
    ((w.step e).authEmail uid).isSome := by
  by_cases haccepts : ∃ email, Accepts uid w e email
  · obtain ⟨email, haccepts⟩ := haccepts
    simp [authEmail_step_accepts haccepts]
  · rwa [authEmail_step_idle h.ne_of_accountChanged (not_exists.mp haccepts)]

theorem Accepts.creates {email : String} (h : Accepts uid w e email) (hinv : EmailInv uid w)
    (hnew : w.authEmail uid = none) :
    ∃ pending, w.SignsIn e pending uid ∧ ∃ signUp ∈ (w.step e).device.pending,
      signUp.Creates uid := by
  obtain ⟨hrunning, index, answer, pending, after, rfl, hanswers, hsets⟩ := h
  have hmem := List.mem_of_getElem? hanswers.pending_eq
  cases hrequest : pending.request with
  | createUser sent password =>
      cases answer with
      | user user =>
          rw [hrequest, Request.setsEmail, Option.ite_none_right_eq_some] at hsets
          obtain ⟨rfl, -⟩ := hsets
          refine ⟨pending, ⟨hrunning, index, rfl, hanswers.pending_eq, hanswers.unanswered,
            by simp [hanswers.respond_eq]⟩, { pending with answer := some (.user user) }, ?_,
            ⟨sent, password, hrequest⟩, rfl⟩
          rw [World.step_pending hrunning, hanswers.arrive_eq]
          refine List.mem_append_left _ (List.mem_iff_getElem?.mpr ⟨index, ?_⟩)
          rw [List.getElem?_set_self (List.getElem?_eq_some_iff.mp hanswers.pending_eq).1]
      | _ => rw [hrequest] at hsets; cases hsets
  | updateEmail user sent =>
      have haccount := (hinv.updates pending hmem user sent hrequest).2
      simp [hnew] at haccount
  | _ => rw [hrequest] at hsets; cases hsets

theorem session_emailInv_step (h : EmailInv uid w) (hscope : EmailScope uid w e) :
    (w.step e).session = if ((w.step e).authEmail uid).isSome then some uid else none := by
  have hsession := h.session
  have hstays := hscope.staysSignedIn
  cases hauth : w.authEmail uid with
  | some email =>
      have haccount := authEmail_isSome_step hscope.oneDevice
        (show (w.authEmail uid).isSome by simp [hauth])
      rw [if_pos haccount]
      refine hstays.resolve_right fun ⟨hnone, _⟩ => ?_
      simp [hauth, hnone] at hsession
  | none =>
      rw [hauth] at hsession
      have hnone : w.device.currentUser = none := by simpa [World.session] using hsession
      by_cases haccepts : ∃ email, Accepts uid w e email
      · obtain ⟨email, haccepts⟩ := haccepts
        obtain ⟨pending, hsignsIn, -⟩ := haccepts.creates h hauth
        rw [authEmail_step_accepts haccepts]
        exact hsignsIn.currentUser_step.1
      · have hidle := authEmail_step_idle hscope.oneDevice.ne_of_accountChanged
          (not_exists.mp haccepts)
        have hgone := hidle.trans hauth
        rw [hgone]
        cases hcrashed : w.device.crashed with
        | true => simpa [World.step_of_crashed hcrashed] using hsession
        | false =>
            -- nobody was signed in, so only a sign-in could change that, and not of this account
            cases World.arrivedSession w e hcrashed with
            | same hsame =>
                obtain ⟨huser, -⟩ | ⟨huser, -⟩ := World.session_step (e := e) hcrashed
                · simp [World.session, huser, hsame.1, hnone]
                · simp [World.session, huser]
            | @signedIn _ pending user hsignsIn =>
                obtain ⟨huser, haccount⟩ := hsignsIn.currentUser_step
                exfalso
                obtain hstep | ⟨-, hstep⟩ := hstays
                · rw [World.session, huser, Option.some.injEq] at hstep
                  subst hstep
                  rw [World.authEmail, Option.map_eq_none_iff] at hgone
                  simp [Server.user, hgone] at haccount
                · rw [World.session, huser] at hstep
                  cases hstep
            | refreshed hbefore => simp [hnone] at hbefore
            | revoked =>
                obtain ⟨huser, -⟩ | ⟨huser, -⟩ := World.session_step (e := .tokenRevoked) hcrashed
                · simp [World.session, huser, World.arrive]
                · simp [World.session, huser]

theorem users_emailInv_step (h : EmailInv uid w) (hscope : EmailScope uid w e) :
    ∀ pending ∈ (w.step e).device.pending, ∀ user, pending.answer = some (.user user) →
      user = uid := by
  intro pending hmem user hanswer
  obtain hmem | ⟨index, answer, before, after, rfl, hanswers, rfl⟩ | ⟨c, hc, hpending⟩ :=
    World.pending_step_cases hmem
  · exact h.users pending hmem user hanswer
  · cases hanswer
    cases hcrashed : w.device.crashed with
    | true =>
        rw [World.step_of_crashed hcrashed] at hmem
        exact h.users _ hmem user rfl
    | false =>
        have hsignsIn : w.SignsIn (.answer index (.user user)) before user :=
          ⟨hcrashed, index, rfl, hanswers.pending_eq, hanswers.unanswered,
            by simp [hanswers.respond_eq]⟩
        obtain hstep | ⟨-, hstep⟩ := hscope.staysSignedIn
        · rw [World.session, hsignsIn.currentUser_step.1, Option.some.injEq] at hstep
          exact hstep
        · rw [World.session, hsignsIn.currentUser_step.1] at hstep
          cases hstep
  · cases issued_of_mem hc <;> cases hpending <;> cases hanswer

theorem screens_emailInv_step (h : EmailInv uid w) (hscope : EmailScope uid w e) :
    ∀ screen user, ((w.step e).device.emailScreens screen).user = some user →
      user = uid ∧ ((w.step e).authEmail uid).isSome := by
  intro screen user hscreen
  obtain hbefore | hopen := World.emailScreens_step hscreen
  · obtain ⟨huser, haccount⟩ := h.screens screen user hbefore
    exact ⟨huser, authEmail_isSome_step hscope.oneDevice haccount⟩
  · cases issued_of_mem hopen with
    | @openUpdateEmail index pending answer user hanswered hcompletion huser =>
        have hsession := h.session
        rw [World.session, huser, Option.map_some] at hsession
        split at hsession
        · rename_i haccount
          exact ⟨Option.some.inj hsession, authEmail_isSome_step hscope.oneDevice haccount⟩
        · cases hsession

theorem updates_emailInv_step (h : EmailInv uid w) (hscope : EmailScope uid w e) :
    ∀ pending ∈ (w.step e).device.pending, ∀ user email,
      pending.request = .updateEmail user email →
        user = uid ∧ ((w.step e).authEmail uid).isSome := by
  intro pending hmem user email hrequest
  obtain ⟨before, hbefore, hsame, -⟩ | ⟨c, hc, hpending⟩ := World.mem_pending_step hmem
  · obtain ⟨huser, haccount⟩ := h.updates before hbefore user email (hsame ▸ hrequest)
    exact ⟨huser, authEmail_isSome_step hscope.oneDevice haccount⟩
  · cases issued_of_mem hc with
    | updateEmail hscreen =>
        cases hpending
        cases hrequest
        obtain ⟨huser, haccount⟩ := h.screens _ _ hscreen
        exact ⟨huser, authEmail_isSome_step hscope.oneDevice haccount⟩
    | _ => cases hpending <;> cases hrequest

theorem not_creates_of_pending {origin : Origin} {c : Command} {pending : Pending}
    (h : c.pending origin = some pending) : ¬ pending.Creates uid := by
  rintro ⟨⟨email, password, hrequest⟩, hanswer⟩
  cases c with
  | call request completion => cases h; cases hanswer
  | mainAsync completion answer => cases h; cases hrequest
  | _ => cases h

theorem signUpFirst_emailInv_step (h : EmailInv uid w) :
    (w.step e).device.pending.Pairwise fun update signUp =>
      update.Updates uid → ¬ signUp.Creates uid := by
  cases hcrashed : w.device.crashed with
  | true =>
      rw [World.step_of_crashed hcrashed]
      exact h.signUpFirst
  | false =>
      have hnew : ∀ pending ∈ (w.commands e).filterMap (Command.pending (w.origin e)),
          ¬ pending.Creates uid := by
        intro pending hmem
        obtain ⟨c, -, hpending⟩ := List.mem_filterMap.mp hmem
        exact not_creates_of_pending hpending
      rw [World.step_pending hcrashed, List.pairwise_append]
      refine ⟨?_, List.pairwise_of_forall_mem_list fun _ _ signUp hmem _ => hnew signUp hmem,
        fun _ _ signUp hmem _ => hnew signUp hmem⟩
      cases e with
      | answer index answer =>
          obtain hsame | ⟨before, after, hanswers⟩ := w.arrive_answer_cases index answer
          · rw [hsame]
            exact h.signUpFirst
          · rw [hanswers.arrive_eq]
            refine pairwise_set h.signUpFirst hanswers.pending_eq ?_ fun _ _ hbefore => hbefore
            rintro update hmem - ⟨sent, hrequest⟩ ⟨⟨email, password, hcreate⟩, hanswer⟩
            have haccount := (h.updates update hmem uid sent hrequest).2
            have hrespond := hanswers.respond_eq
            cases hanswer
            rw [show before.request = .createUser email password from hcreate, Server.respond,
              Option.ite_none_right_eq_some] at hrespond
            simp [World.authEmail, hrespond.1] at haccount
      | complete index =>
          obtain ⟨pending, hpending, harrive⟩ := w.arrive_complete_eq index
          rw [harrive]
          exact h.signUpFirst.sublist hpending
      | writeLands accepted =>
          rw [World.arrive_writeLands_field Device.pending accepted fun _ _ => rfl]
          exact h.signUpFirst
      | _ => exact h.signUpFirst

theorem document_emailInv_step (h : EmailInv uid w) (hscope : EmailScope uid w e)
    (hreads : ReadsSentAddress uid w e) (haccount : ((w.step e).authEmail uid).isSome) :
    ((w.step e).settledDocument uid).isSome
      ∨ ∃ pending ∈ (w.step e).device.pending, pending.Creates uid := by
  by_cases hruns : ∃ email, Runs uid w e email
  · obtain ⟨email, hruns⟩ := hruns
    exact Or.inl (document_step_runs h hscope hreads hruns).1
  · rw [(document_step_idle h hscope.oneDevice (not_exists.mp hruns)).1]
    cases hauth : w.authEmail uid with
    | none =>
        by_cases haccepts : ∃ email, Accepts uid w e email
        · obtain ⟨email, haccepts⟩ := haccepts
          obtain ⟨-, -, hcreates⟩ := haccepts.creates h hauth
          exact Or.inr hcreates
        · have hidle := authEmail_step_idle hscope.oneDevice.ne_of_accountChanged
            (not_exists.mp haccepts)
          rw [hidle, hauth] at haccount
          cases haccount
    | some email =>
        refine (h.document (by simp [hauth])).imp id ?_
        rintro ⟨signUp, hmem, hcreates⟩
        refine ⟨signUp, World.mem_pending_step_of_answered hmem (by simp [hcreates.2]) ?_,
          hcreates⟩
        rintro index answer rfl hrunning hanswered
        obtain ⟨⟨sent, password, hrequest⟩, hanswer⟩ := hcreates
        refine hruns ⟨sent, hrunning, index, signUp, answer, rfl, hanswered, ?_⟩
        simp [Pending.acceptedEmail, hanswer, hrequest, Request.setsEmail]

theorem emailInv_step (h : EmailInv uid w) (hscope : EmailScope uid w e)
    (hreads : ReadsSentAddress uid w e) : EmailInv uid (w.step e) where
  sound := World.sound_step h.sound e
  session := session_emailInv_step h hscope
  users := users_emailInv_step h hscope
  screens := screens_emailInv_step h hscope
  updates := updates_emailInv_step h hscope
  signUpFirst := signUpFirst_emailInv_step h
  document := document_emailInv_step h hscope hreads
  relay := h.relay.step (emailRelay_step h hscope hreads)

end Step

theorem emailInv_installed {uid : Uid} {server : Server} (h : server.accounts uid = none) :
    EmailInv uid (World.installed server) where
  sound := by simp [World.installed, Device.initial]
  session := by simp [World.session, World.installed, Device.initial, World.authEmail, h]
  users := by simp [World.installed, Device.initial]
  screens := by simp [World.installed, Device.initial]
  updates := by simp [World.installed, Device.initial]
  signUpFirst := List.Pairwise.nil
  document := by simp [World.authEmail, World.installed, h]
  relay := Or.inl (by simp [World.emailRelay, World.authEmail, World.installed, h])

/-- **The document has the email that Auth has** whenever nothing is pending, in every run in which
each completion finds in its text field the address that was sent. -/
theorem emailsAgree_of_readsSentAddress (uid : Uid) (server : Server) (events : List Event)
    (hnew : server.accounts uid = none)
    (hscope : Always World.step (EmailScope uid) (World.installed server) events)
    (hreads : Always World.step (ReadsSentAddress uid) (World.installed server) events) :
    EmailsAgree uid (run World.step (World.installed server) events) := by
  have hinv := run_invariant
    (fun w e hinv (h : EmailScope uid w e ∧ ReadsSentAddress uid w e) =>
      emailInv_step hinv h.1 h.2)
    (emailInv_installed hnew) (hscope.and hreads)
  intro hpending hwrites haccount
  have hqueue : ((run World.step (World.installed server) events).emailRelay uid).queue = [] := by
    simp [World.emailRelay, hpending]
  have hagree := hinv.relay.secondary_eq hqueue haccount
  simpa [World.emailRelay, World.settledDocument, hwrites] using hagree

instance (uid : Uid) (w : World) (e : Event) : Decidable (StaysSignedIn uid w e) :=
  inferInstanceAs (Decidable (_ ∨ _))

instance (uid : Uid) (w : World) (e : Event) : Decidable (InOrder uid w e) := by
  unfold InOrder
  apply @Event.casesOn _ e
  case answer | complete =>
    intro index
    intros
    dsimp only
    refine Option.casesOn w.device.pending[index]? ?_ fun _ => ?_ <;> infer_instance
  all_goals
    intros
    infer_instance

instance (uid : Uid) (e : Event) : Decidable (OneDevice uid e) := by
  unfold OneDevice
  apply @Event.casesOn _ e
  all_goals
    intros
    infer_instance

instance (uid : Uid) (w : World) (e : Event) : Decidable (EmailScope uid w e) :=
  decidable_of_iff (StaysSignedIn uid w e ∧ InOrder uid w e ∧ OneDevice uid e)
    ⟨fun h => ⟨h.1, h.2.1, h.2.2⟩, fun h => ⟨h.1, h.2, h.3⟩⟩

instance (uid : Uid) (w : World) (e : Event) : Decidable (ReadsSentAddress uid w e) := by
  unfold ReadsSentAddress
  apply @Event.casesOn _ e
  case complete =>
    intro index
    dsimp only
    refine Option.casesOn w.device.pending[index]? ?_ fun _ => ?_ <;> infer_instance
  all_goals
    intros
    infer_instance

instance (uid : Uid) (w : World) : Decidable (EmailsAgree uid w) :=
  inferInstanceAs (Decidable (_ → _ → _ → _))

/-! An account signs up with an address as it is typed, everything the sign-up has started is done,
and then the account changes its email. -/

def signedUp (typed : String) : List Event :=
  [.editSignUp ⟨typed, "Ann", "secret", "secret", some .systemPerson⟩, .signUpButtonPressed,
    .answer 0 (.user "ann"), .complete 0, .writeLands true, .writeLands true,
    .answer 0 .success, .complete 0, .answer 0 .success, .complete 0,
    .answer 0 (.url ⟨ProfileUpdate.profileRef "ann"⟩), .complete 0, .answer 0 .success, .complete 0]

def emailChanged (typed : String) : List Event :=
  [.emailRowPressed "secret", .answer 0 (.user "ann"), .complete 0, .editNewEmail 0 typed,
    .updateEmailPressed 0, .answer 0 .success, .complete 0, .writeLands true]

theorem emailsAgree_signedUp_emailChanged :
    EmailsAgree "ann" (run World.step (World.installed Server.initial)
      (signedUp "ann@example.org" ++ emailChanged "new@example.org")) :=
  emailsAgree_of_readsSentAddress "ann" Server.initial _ (by decide) (by decide) (by decide)

/-- The keyboard has left a space behind the address. -/
theorem paddedAddress_disagrees :
    Always World.step (EmailScope "ann") (World.installed Server.initial)
        (signedUp "ann@example.org ")
      ∧ ¬ EmailsAgree "ann" (run World.step (World.installed Server.initial)
        (signedUp "ann@example.org ")) := by
  decide

end ProductivityApp
