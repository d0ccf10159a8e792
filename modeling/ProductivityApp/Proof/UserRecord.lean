import Mathlib.Data.List.Perm.Basic
import ProductivityApp.System.Calls
import ProductivityApp.System.Stores

/-!
# What the collection of users is

The app never reads a user document as a whole, and no schema is written down. What a document is
follows from the writes: one `setData` when an account is created, and updates of single fields
after that. So the collection is a table of records, to which the app only ever does three things,
and a record is created once: the day of the sign-up is never written again, and nothing the app
does makes an address count as verified.
-/

namespace ProductivityApp

open EventSystem ProfileUpdate

/-- The record of a user. -/
structure UserRecord where
  accountCreatedOn : Double
  email : String
  displayName : Option String

/-- The fields of the record's document. -/
def UserRecord.fields (record : UserRecord) : Fields :=
  [("accountCreatedOn", .double record.accountCreatedOn), ("email", .string record.email),
    ("emailIsVerified", .boolean false)]
    ++ record.displayName.toList.map fun name => ("displayName", .string name)

def UserRecord.document (record : UserRecord) : Document := Document.empty.merge record.fields

/-- What the app does to the table. -/
inductive RecordOp where
  | create (accountCreatedOn : Double) (email : String)
  | rename (displayName : String)
  | changeEmail (email : String)

namespace RecordOp

def apply : RecordOp → Option UserRecord → Option UserRecord
  | .create accountCreatedOn email, _ => some { accountCreatedOn, email, displayName := none }
  | .rename displayName, record => record.map ({ · with displayName := some displayName })
  | .changeEmail email, record => record.map ({ · with email })

/-- The write that stands for the operation. -/
def kind : RecordOp → WriteKind
  | .create _ _ => .set
  | _ => .update

def fields : RecordOp → Fields
  | .create accountCreatedOn email =>
      [("accountCreatedOn", .double accountCreatedOn), ("email", .string email),
        ("emailIsVerified", .boolean false)]
  | .rename displayName => [("displayName", .string displayName)]
  | .changeEmail email => [("email", .string email)]

/-- Only a record that is not there is created. -/
def AppliesTo : RecordOp → Option UserRecord → Prop
  | .create _ _, record => record = none
  | _, _ => True

theorem merge_displayName (record : UserRecord) (name : String) :
    record.document.merge [("displayName", .string name)]
      = { record with displayName := some name }.document := by
  refine congrArg Document.mk (funext fun field => ?_)
  by_cases hname : field = "displayName"
  · subst hname
    simp [UserRecord.document, UserRecord.fields, List.lookup_cons]
  · have hother : (field == "displayName") = false := by simpa using hname
    cases hbefore : record.displayName <;>
      simp [UserRecord.document, UserRecord.fields, List.lookup_cons, hother, hbefore]

theorem merge_email (record : UserRecord) (email : String) :
    record.document.merge [("email", .string email)] = { record with email }.document := by
  refine congrArg Document.mk (funext fun field => ?_)
  by_cases hemail : field = "email"
  · subst hemail
    simp [UserRecord.document, UserRecord.fields, List.lookup_cons]
  · have hother : (field == "email") = false := by simpa using hemail
    simp [UserRecord.document, UserRecord.fields, List.lookup_cons, hother]

/-- A write does to the document what its operation does to the record. -/
theorem apply_document (op : RecordOp) (record : Option UserRecord) :
    op.kind.apply op.fields (record.map UserRecord.document)
      = (op.apply record).map UserRecord.document := by
  cases op with
  | create accountCreatedOn email => rfl
  | rename name =>
      cases record with
      | none => rfl
      | some record => exact congrArg some (merge_displayName record name)
  | changeEmail email =>
      cases record with
      | none => rfl
      | some record => exact congrArg some (merge_email record email)

end RecordOp

/-- The write stands for an operation. -/
def Write.Means (write : Write) (op : RecordOp) : Prop :=
  write.kind = op.kind ∧ write.fields = op.fields

theorem Write.means_of_issued {w : World} {e : Event} {c : Command} {origin : Origin}
    {write : Write} (h : Issued w e c) (hwrite : c.write origin = some write) :
    ∃ op, write.Means op := by
  cases h with
  | accountDocument =>
      cases hwrite
      exact ⟨.create w.device.now w.device.signUpForm.email, rfl, rfl⟩
  | nameWrite => cases hwrite; exact ⟨.rename _, rfl, rfl⟩
  | emailWrite => cases hwrite; exact ⟨.changeEmail _, rfl, rfl⟩
  | _ => cases hwrite

/-! ### A record is created once

Creating the record of `uid` goes through three places: the answer of `createUser` whose completion
has not run, the write in the queue, and the document. -/

def Pending.creates (uid : Uid) (pending : Pending) : Bool :=
  pending.completion = .signUp && pending.answer = some (.user uid)

def Write.creates (uid : Uid) (write : Write) : Bool := write.uid = uid && write.kind = .set

def Server.created (server : Server) (uid : Uid) : ℕ := if (server.users uid).isSome then 1 else 0

theorem Server.created_le (server : Server) (uid : Uid) : server.created uid ≤ 1 := by
  unfold created
  split <;> omega

/-- How often the record of `uid` has been or may yet be created. -/
def World.creations (w : World) (uid : Uid) : ℕ :=
  w.device.pending.countP (Pending.creates uid) + w.device.writes.countP (Write.creates uid)
    + w.server.created uid

section Commands

variable {origin : Origin} {uid : Uid} {commands : List Command}

theorem countP_creates_pending (commands : List Command)
    (h : ∀ c ∈ commands, ∀ answer, c ≠ .mainAsync .signUp answer) :
    (commands.filterMap (Command.pending origin)).countP (Pending.creates uid) = 0 := by
  rw [List.countP_eq_zero]
  intro pending hmem
  obtain ⟨c, hc, hpending⟩ := List.mem_filterMap.mp hmem
  cases c with
  | call request completion =>
      cases hpending
      simp [Pending.creates]
  | mainAsync completion answer =>
      cases hpending
      have hne : completion ≠ .signUp := by
        rintro rfl
        exact h _ hc answer rfl
      simp [Pending.creates, hne]
  | _ => cases hpending

theorem countP_creates_writes (h : ∀ fields, Command.setData uid fields ∉ commands) :
    (commands.filterMap (Command.write origin)).countP (Write.creates uid) = 0 := by
  rw [List.countP_eq_zero]
  intro write hmem
  obtain ⟨c, hc, hwrite⟩ := List.mem_filterMap.mp hmem
  cases c with
  | setData user fields =>
      cases hwrite
      have hne : user ≠ uid := by
        rintro rfl
        exact h fields hc
      simp [Write.creates, hne]
  | updateData user fields =>
      cases hwrite
      simp [Write.creates]
  | _ => cases hwrite

theorem countP_creates_userCreated (currentUser : Option User) (form : SignUpForm) (now : Double)
    (created : Uid) :
    ((SignUpViewController.userCreated currentUser form now (.user created)).filterMap
      (Command.write origin)).countP (Write.creates uid) = if created = uid then 1 else 0 := by
  have hname (fields : Fields) :
      Command.setData uid fields ∉ updateDisplayName currentUser form.displayName := by
    cases currentUser <;> simp [updateDisplayName]
  have hpicture (fields : Fields) :
      Command.setData uid fields ∉ updateProfilePicture currentUser form.profilePicture := by
    unfold updateProfilePicture
    split
    · simp
    · split
      · simp
      · split <;> simp [saveLocalImage]
  rw [SignUpViewController.userCreated, List.filterMap_append, List.filterMap_append,
    List.countP_append, List.countP_append, countP_creates_writes hname,
    countP_creates_writes hpicture]
  by_cases hcreated : created = uid <;> simp [Command.write, Write.creates, hcreated]

end Commands

section Steps

variable {w : World} {e : Event} {uid : Uid}

/-- Who signs up at this event: the account an answered `createUser` made. -/
def World.signsUp (w : World) : Event → Option Uid
  | .answer index (.user uid) =>
      match w.device.pending[index]? with
      | some pending =>
          if pending.completion = .signUp ∧ pending.answer = none
            ∧ (w.server.respond pending.request (.user uid)).isSome then some uid else none
      | none => none
  | _ => none

/-- Nobody else writes user documents, and accounts are not deleted. -/
def OwnChanges : Event → Prop
  | .documentChanged _ _ => False
  | .accountChanged _ account => account.isSome
  | _ => True

theorem creations_react (hrunning : w.device.crashed = false) :
    (w.step e).creations uid = (w.arrive e).creations uid
      + ((w.commands e).filterMap (Command.write (w.origin e))).countP (Write.creates uid) := by
  have hcalls : ∀ c ∈ w.commands e, ∀ answer, c ≠ .mainAsync .signUp answer := by
    rintro c hc answer rfl
    cases issued_of_mem hc
  have hserver : (w.step e).server = (w.arrive e).server := by rw [World.step_of_running hrunning]
  have hpending : (w.step e).device.pending.countP (Pending.creates uid)
      = (w.arrive e).device.pending.countP (Pending.creates uid) := by
    rw [World.step_pending hrunning, List.countP_append, countP_creates_pending _ hcalls,
      Nat.add_zero]
  have hwrites : (w.step e).device.writes.countP (Write.creates uid)
      = (w.arrive e).device.writes.countP (Write.creates uid)
        + ((w.commands e).filterMap (Command.write (w.origin e))).countP (Write.creates uid) := by
    rw [World.step_writes hrunning, List.countP_append]
  rw [World.creations, World.creations, hpending, hwrites, hserver]
  omega

theorem created_applyWrite (server : Server) (write : Write) (uid : Uid) :
    (server.applyWrite write.uid write.kind write.fields).created uid
      ≤ server.created uid + if write.creates uid then 1 else 0 := by
  by_cases huid : write.uid = uid
  · cases hkind : write.kind with
    | set => simp [Server.created, Server.applyWrite, huid, hkind, Write.creates, WriteKind.apply]
    | update =>
        simp [Server.created, Server.applyWrite, huid, hkind, Write.creates, WriteKind.apply]
  · simp [Server.created, Server.applyWrite, Function.update_of_ne (Ne.symm huid)]

theorem creations_answer_le {index : ℕ} {answer : Answer}
    (hsignsUp : w.signsUp (.answer index answer) ≠ some uid) :
    (w.arrive (.answer index answer)).creations uid ≤ w.creations uid := by
  obtain hsame | ⟨pending, after, hanswers⟩ := w.arrive_answer_cases index answer
  · rw [hsame]
  · obtain ⟨hlt, hpending⟩ := List.getElem?_eq_some_iff.mp hanswers.pending_eq
    have hnew : ({ pending with answer := some answer } : Pending).creates uid = false := by
      by_contra hcreates
      obtain ⟨hcompletion, rfl⟩ : pending.completion = .signUp ∧ answer = .user uid := by
        simpa [Pending.creates] using hcreates
      apply hsignsUp
      simp [World.signsUp, hanswers.pending_eq, hcompletion, hanswers.unanswered,
        hanswers.respond_eq]
    have hwrites : (w.device.receive after pending answer).writes = w.device.writes :=
      w.device.receive_field Device.writes hanswers.respond_eq fun _ _ _ _ => rfl
    have husers := (Server.accountsAfter_of_respond hanswers.respond_eq).2
    simp only [hanswers.arrive_eq, World.creations, List.countP_set hlt, hnew, hwrites,
      Server.created, husers]
    simp

theorem creations_writeLands_le (accepted : Bool) :
    (w.arrive (.writeLands accepted)).creations uid ≤ w.creations uid := by
  cases hwrites : w.device.writes with
  | nil => simp [World.arrive, hwrites]
  | cons write writes =>
      have hcreated := created_applyWrite w.server write uid
      simp only [World.arrive, hwrites, World.creations, List.countP_cons]
      cases accepted with
      | true => simp only [if_true]; omega
      | false => simp

theorem creations_complete_le (hrunning : w.device.crashed = false) (index : ℕ) :
    (w.step (.complete index)).creations uid ≤ w.creations uid := by
  rw [creations_react hrunning]
  cases hanswered : w.answered index with
  | none =>
      obtain ⟨harrive, hcommands⟩ := World.complete_eq_of_answered_none hanswered
      simp [harrive, hcommands]
  | some call =>
      obtain ⟨pending, answer⟩ := call
      obtain ⟨hpending, hanswer⟩ := World.answered_eq_some.mp hanswered
      obtain ⟨hlt, rfl⟩ := List.getElem?_eq_some_iff.mp hpending
      have hended := (List.getElem_cons_eraseIdx_perm hlt).countP_eq (Pending.creates uid)
      rw [List.countP_cons] at hended
      have hset : ((w.commands (.complete index)).filterMap
            (Command.write (w.origin (.complete index)))).countP (Write.creates uid)
          ≤ if Pending.creates uid w.device.pending[index] then 1 else 0 := by
        by_cases hset : ∃ fields, Command.setData uid fields ∈ w.commands (.complete index)
        · obtain ⟨fields, hmem⟩ := hset
          cases issued_of_mem hmem with
          | accountDocument hcall hcompletion =>
              rw [hanswered] at hcall
              cases hcall
              rw [World.commands_complete hrunning hanswered, hcompletion]
              simp only [World.completed, countP_creates_userCreated, Pending.creates, hcompletion,
                hanswer]
              simp
        · rw [countP_creates_writes fun fields hmem => hset ⟨fields, hmem⟩]
          exact Nat.zero_le _
      rw [World.arrive_complete hanswered]
      simp only [World.creations]
      omega

/-- Apart from an answer to `createUser`, nothing leads to another creation. -/
theorem creations_step_le (hown : OwnChanges e) (hsignsUp : w.signsUp e ≠ some uid) :
    (w.step e).creations uid ≤ w.creations uid := by
  cases hcrashed : w.device.crashed with
  | true => rw [World.step_of_crashed hcrashed]
  | false =>
      by_cases hcomplete : ∃ index, e = .complete index
      · obtain ⟨index, rfl⟩ := hcomplete
        exact creations_complete_le hcrashed index
      · have hnone : ∀ fields, Command.setData uid fields ∉ w.commands e := by
          intro fields hmem
          cases issued_of_mem hmem with
          | accountDocument => exact hcomplete ⟨_, rfl⟩
        rw [creations_react hcrashed, countP_creates_writes hnone, Nat.add_zero]
        cases e with
        | answer index answer => exact creations_answer_le hsignsUp
        | writeLands accepted => exact creations_writeLands_le accepted
        | complete index => exact absurd ⟨index, rfl⟩ hcomplete
        | documentChanged user document => exact absurd hown id
        | _ => exact le_rfl

theorem creations_answer_le_succ {index : ℕ} {answer : Answer} :
    (w.arrive (.answer index answer)).creations uid ≤ w.creations uid + 1 := by
  obtain hsame | ⟨pending, after, hanswers⟩ := w.arrive_answer_cases index answer
  · rw [hsame]
    exact Nat.le_succ _
  · obtain ⟨hlt, hpending⟩ := List.getElem?_eq_some_iff.mp hanswers.pending_eq
    have hwrites : (w.device.receive after pending answer).writes = w.device.writes :=
      w.device.receive_field Device.writes hanswers.respond_eq fun _ _ _ _ => rfl
    have husers := (Server.accountsAfter_of_respond hanswers.respond_eq).2
    simp only [hanswers.arrive_eq, World.creations, List.countP_set hlt, hwrites,
      Server.created, husers]
    split <;> split <;> omega

/-- An account is made once: there was none before the sign-up is granted, and there is one after.
-/
theorem accounts_of_signsUp (hsound : ∀ pending ∈ w.device.pending, pending.Sound)
    (h : w.signsUp e = some uid) :
    w.server.accounts uid = none ∧ ((w.arrive e).server.accounts uid).isSome
      ∧ ∃ index answer, e = .answer index answer := by
  cases e with
  | answer index answer =>
      cases answer with
      | user created =>
          simp only [World.signsUp] at h
          split at h
          · rename_i pending hpending
            rw [Option.ite_none_right_eq_some] at h
            obtain ⟨⟨hcompletion, hunanswered, hrespond⟩, hcreated⟩ := h
            obtain rfl : created = uid := by simpa using hcreated
            have hfits := (hsound pending (List.mem_of_getElem? hpending)).fits
            rw [hcompletion] at hfits
            obtain ⟨email, password, hrequest⟩ := Request.fits_signUp.mp hfits
            obtain ⟨after, hafter⟩ := Option.isSome_iff_exists.mp hrespond
            have hgranted := hafter
            rw [hrequest] at hgranted
            simp only [Server.respond, Option.ite_none_right_eq_some, Option.some.injEq]
              at hgranted
            obtain ⟨hnone, rfl⟩ := hgranted
            refine ⟨hnone, ?_, index, _, rfl⟩
            rw [World.arrive_answer hpending hunanswered hafter]
            simp
          · cases h
      | _ => cases h
  | _ => cases h

theorem accounts_isSome_step (hown : OwnChanges e) (h : (w.server.accounts uid).isSome) :
    ((w.step e).server.accounts uid).isSome := by
  cases hcrashed : w.device.crashed with
  | true => rwa [World.step_of_crashed hcrashed]
  | false =>
      rw [World.step_of_running hcrashed]
      cases e with
      | answer index answer =>
          obtain hsame | ⟨pending, after, hanswers⟩ := w.arrive_answer_cases index answer
          · rwa [hsame]
          · rw [hanswers.arrive_eq]
            exact accounts_isSome_respond hanswers.respond_eq h
      | complete index =>
          obtain ⟨pending, -, harrive⟩ := w.arrive_complete_eq index
          rwa [harrive]
      | writeLands accepted =>
          obtain ⟨server, writes, haccounts, -, harrive⟩ := w.arrive_writeLands_eq accepted
          rwa [harrive, haccounts]
      | accountChanged user account =>
          simp only [World.arrive, Function.update_apply]
          split
          · exact hown
          · exact h
      | _ => exact h

end Steps

/-- The invariant: every creation is of an account there is, and there is one at most. -/
structure CreatedOnce (w : World) : Prop where
  sound : ∀ pending ∈ w.device.pending, pending.Sound
  once : ∀ uid, w.creations uid ≤ 1
  account : ∀ uid, w.server.accounts uid = none → w.creations uid = 0

theorem createdOnce_step {w : World} {e : Event} (h : CreatedOnce w) (hown : OwnChanges e) :
    CreatedOnce (w.step e) := by
  cases hcrashed : w.device.crashed with
  | true => rwa [World.step_of_crashed hcrashed]
  | false =>
      have hbound (uid : Uid) : (w.step e).creations uid ≤ 1
          ∧ ((w.step e).server.accounts uid = none → (w.step e).creations uid = 0) := by
        by_cases hsignsUp : w.signsUp e = some uid
        · obtain ⟨hnone, hsome, index, answer, rfl⟩ := accounts_of_signsUp h.sound hsignsUp
          have hzero := h.account uid hnone
          have hle := @creations_answer_le_succ w uid index answer
          have hserver : (w.step (.answer index answer)).server
              = (w.arrive (.answer index answer)).server := by
            rw [World.step_of_running hcrashed]
          rw [creations_react hcrashed, World.commands_answer, hserver]
          refine ⟨by simpa [hzero] using hle, fun hnone => ?_⟩
          simp [hnone] at hsome
        · have hle := creations_step_le hown hsignsUp
          refine ⟨hle.trans (h.once uid), fun hnone => ?_⟩
          have hbefore : w.server.accounts uid = none := by
            by_contra hsome
            have hafter := accounts_isSome_step hown (Option.isSome_iff_ne_none.mpr hsome)
            simp [hnone] at hafter
          exact Nat.eq_zero_of_le_zero (hle.trans (h.account uid hbefore).le)
      exact ⟨World.sound_step h.sound e, fun uid => (hbound uid).1, fun uid => (hbound uid).2⟩

/-! ### The table -/

/-- The collection holds the documents of these records. -/
def Server.Holds (server : Server) (records : Uid → Option UserRecord) : Prop :=
  ∀ uid, server.users uid = (records uid).map UserRecord.document

/-- The collection is a table of records, and a record has an account. -/
structure Server.Regular (server : Server) : Prop where
  holds : ∃ records, server.Holds records
  account : ∀ uid, server.accounts uid = none → server.users uid = none

/-- The event is one operation on one record, or none. -/
def OneOperation (w : World) (e : Event) : Prop :=
  ∃ before after : Uid → Option UserRecord,
    w.server.Holds before ∧ (w.step e).server.Holds after
      ∧ (after = before ∨ ∃ uid op, RecordOp.AppliesTo op (before uid)
          ∧ after = Function.update before uid (op.apply (before uid)))

structure Tabular (w : World) : Prop extends CreatedOnce w where
  writes : ∀ write ∈ w.device.writes, ∃ op, write.Means op
  holds : ∃ records, w.server.Holds records

theorem holds_applyWrite {server : Server} {records : Uid → Option UserRecord} {write : Write}
    {op : RecordOp} (h : server.Holds records) (hop : write.Means op) :
    (server.applyWrite write.uid write.kind write.fields).Holds
      (Function.update records write.uid (op.apply (records write.uid))) := by
  intro uid
  by_cases huid : uid = write.uid
  · subst huid
    simp [Server.applyWrite, hop.1, hop.2, h write.uid, RecordOp.apply_document]
  · simp [Server.applyWrite, Function.update_of_ne huid, h uid]

/-- A record is created only where there is none. -/
theorem Tabular.appliesTo {w : World} {write : Write} {writes : List Write} {op : RecordOp}
    {records : Uid → Option UserRecord} (h : Tabular w)
    (hwrites : w.device.writes = write :: writes)
    (hop : write.Means op) (hrecords : w.server.Holds records) :
    op.AppliesTo (records write.uid) := by
  cases op with
  | create accountCreatedOn email =>
      by_contra hsome
      have honce := h.once write.uid
      have hcreates : write.creates write.uid = true := by
        simp [Write.creates, hop.1, RecordOp.kind]
      have hcreated : w.server.created write.uid = 1 := by
        simp [Server.created, hrecords write.uid, Option.isSome_iff_ne_none.mpr hsome]
      simp only [World.creations, hwrites, List.countP_cons, hcreates, hcreated, if_true] at honce
      omega
  | _ => trivial

theorem users_arrive {w : World} {e : Event} (hown : OwnChanges e)
    (hlands : ∀ accepted, e ≠ .writeLands accepted) :
    (w.arrive e).server.users = w.server.users := by
  cases e with
  | answer index answer =>
      obtain hsame | ⟨pending, after, hanswers⟩ := w.arrive_answer_cases index answer
      · rw [hsame]
      · rw [hanswers.arrive_eq]
        exact (Server.accountsAfter_of_respond hanswers.respond_eq).2
  | complete index =>
      obtain ⟨pending, -, harrive⟩ := w.arrive_complete_eq index
      rw [harrive]
  | writeLands accepted => exact absurd rfl (hlands accepted)
  | documentChanged user document => exact absurd hown id
  | _ => rfl

theorem oneOperation {w : World} {e : Event} (h : Tabular w) (hown : OwnChanges e) :
    OneOperation w e := by
  obtain ⟨records, hrecords⟩ := h.holds
  have hsame (husers : (w.step e).server.users = w.server.users) : OneOperation w e :=
    ⟨records, records, hrecords, fun uid => by rw [husers, hrecords uid], Or.inl rfl⟩
  cases hcrashed : w.device.crashed with
  | true => exact hsame (by rw [World.step_of_crashed hcrashed])
  | false =>
      have hserver : (w.step e).server = (w.arrive e).server := by
        rw [World.step_of_running hcrashed]
      by_cases hlands : ∃ accepted, e = .writeLands accepted
      · obtain ⟨accepted, rfl⟩ := hlands
        cases hwrites : w.device.writes with
        | nil => exact hsame (by rw [hserver]; simp [World.arrive, hwrites])
        | cons write writes =>
            cases accepted with
            | false => exact hsame (by rw [hserver]; simp [World.arrive, hwrites])
            | true =>
                obtain ⟨op, hop⟩ := h.writes write (by simp [hwrites])
                refine ⟨records, _, hrecords, ?_,
                  Or.inr ⟨write.uid, op, h.appliesTo hwrites hop hrecords, rfl⟩⟩
                rw [hserver]
                simpa [World.arrive, hwrites] using holds_applyWrite hrecords hop
      · have hother : ∀ accepted, e ≠ .writeLands accepted :=
          fun accepted heq => hlands ⟨accepted, heq⟩
        exact hsame (by rw [hserver, users_arrive hown hother])

theorem tabular_step {w : World} {e : Event} (h : Tabular w) (hown : OwnChanges e) :
    Tabular (w.step e) where
  toCreatedOnce := createdOnce_step h.toCreatedOnce hown
  writes write hmem := by
    obtain hmem | ⟨c, hc, hwrite⟩ := World.mem_writes_step hmem
    · exact h.writes write hmem
    · exact Write.means_of_issued (issued_of_mem hc) hwrite
  holds := by
    obtain ⟨before, after, -, hafter, -⟩ := oneOperation h hown
    exact ⟨after, hafter⟩

theorem tabular_installed {server : Server} (h : server.Regular) :
    Tabular (World.installed server) where
  sound := by simp [World.installed, Device.initial]
  once uid := by
    simpa [World.creations, World.installed, Device.initial] using server.created_le uid
  account uid hnone := by
    simp [World.creations, World.installed, Device.initial, Server.created, h.account uid hnone]
  writes := by simp [World.installed, Device.initial]
  holds := h.holds

/-- **The collection of users is a table of records.** In every run in which nobody else writes user
documents or deletes accounts, each event leaves the collection a table of records and changes it by
at most one operation: a record is created where there is none, renamed, or given another email. -/
theorem always_oneOperation (server : Server) (events : List Event) (hserver : server.Regular)
    (hown : Always World.step (fun _ e => OwnChanges e) (World.installed server) events) :
    Always World.step OneOperation (World.installed server) events :=
  always_of_invariant (fun _ _ h hown => tabular_step h hown)
    (fun _ _ h hown => oneOperation h hown)
    (tabular_installed hserver) hown

theorem regular_initial : Server.initial.Regular where
  holds := ⟨fun _ => none, fun _ => rfl⟩
  account _ _ := rfl

/-- A sign-up on empty servers, up to its document. -/
theorem always_oneOperation_signUp :
    Always World.step OneOperation (World.installed Server.initial)
      [.editSignUp ⟨"ada@b.cd", "Ada", "secret", "secret", some .systemPerson⟩,
        .signUpButtonPressed, .answer 0 (.user "ada"), .complete 0, .writeLands true] :=
  always_oneOperation Server.initial _ regular_initial (by simp [OwnChanges])

/-! ### What is written once -/

theorem RecordOp.kept {op : RecordOp} {record : UserRecord} (h : op.AppliesTo (some record)) :
    ∃ after, op.apply (some record) = some after
      ∧ after.accountCreatedOn = record.accountCreatedOn := by
  cases op with
  | create accountCreatedOn email => cases h
  | rename name => exact ⟨_, rfl, rfl⟩
  | changeEmail email => exact ⟨_, rfl, rfl⟩

theorem get_accountCreatedOn (record : UserRecord) :
    record.document.get "accountCreatedOn" = some (.double record.accountCreatedOn) := by
  simp [UserRecord.document, UserRecord.fields]

theorem get_emailIsVerified (record : UserRecord) :
    record.document.get "emailIsVerified" = some (.boolean false) := by
  simp [UserRecord.document, UserRecord.fields, List.lookup_cons]

/-- The record of `uid` is there, with this date. -/
def Server.CreatedOn (server : Server) (uid : Uid) (date : Double) : Prop :=
  ∃ record : UserRecord, server.users uid = some record.document ∧ record.accountCreatedOn = date

theorem createdOn_step {w : World} {e : Event} {uid : Uid} {date : Double} (h : Tabular w)
    (hown : OwnChanges e) (hcreated : w.server.CreatedOn uid date) :
    (w.step e).server.CreatedOn uid date := by
  obtain ⟨record, husers, rfl⟩ := hcreated
  obtain ⟨before, after, hbefore, hafter, hop⟩ := oneOperation h hown
  obtain ⟨own, hown', hdocument⟩ := Option.map_eq_some_iff.mp ((hbefore uid).symm.trans husers)
  have hdate : own.accountCreatedOn = record.accountCreatedOn := by
    have hget := congrArg (Document.get · "accountCreatedOn") hdocument
    simpa [get_accountCreatedOn] using hget
  have hkept : ∃ later, after uid = some later
      ∧ later.accountCreatedOn = own.accountCreatedOn := by
    obtain rfl | ⟨changed, op, happlies, rfl⟩ := hop
    · exact ⟨own, hown', rfl⟩
    · by_cases huid : uid = changed
      · subst huid
        rw [hown'] at happlies
        simpa [hown'] using RecordOp.kept happlies
      · exact ⟨own, by rw [Function.update_of_ne huid, hown'], rfl⟩
  obtain ⟨later, hlater, hdate'⟩ := hkept
  exact ⟨later, by rw [hafter uid, hlater]; rfl, hdate'.trans hdate⟩

/-- **What a sign-up writes once is kept.** In every run in which nobody else writes user documents
or deletes accounts, a user document that is there at some moment is there ever after, with the same
date and not verified. -/
theorem signUp_kept (server : Server) (before after : List Event) (uid : Uid) (document : Document)
    (hserver : server.Regular)
    (hown : Always World.step (fun _ e => OwnChanges e) (World.installed server)
      (before ++ after))
    (hdocument : (run World.step (World.installed server) before).server.users uid
      = some document) :
    ∃ later, (run World.step (World.installed server) (before ++ after)).server.users uid
        = some later
      ∧ later.get "accountCreatedOn" = document.get "accountCreatedOn"
      ∧ later.get "emailIsVerified" = some (.boolean false) := by
  obtain ⟨hbefore, hafter⟩ := (always_append World.step).mp hown
  have htabular := run_invariant (fun _ _ h hown => tabular_step h hown)
    (tabular_installed hserver) hbefore
  obtain ⟨records, hrecords⟩ := htabular.holds
  obtain ⟨record, -, rfl⟩ := Option.map_eq_some_iff.mp ((hrecords uid).symm.trans hdocument)
  have hstep : ∀ w e, Tabular w ∧ w.server.CreatedOn uid record.accountCreatedOn → OwnChanges e →
      Tabular (w.step e) ∧ (w.step e).server.CreatedOn uid record.accountCreatedOn :=
    fun _ _ h hown => ⟨tabular_step h.1 hown, createdOn_step h.1 hown h.2⟩
  have hrun := run_invariant hstep ⟨htabular, record, hdocument, rfl⟩ hafter
  obtain ⟨-, later, hlater, hdate⟩ := hrun
  refine ⟨later.document, ?_, ?_, get_emailIsVerified later⟩
  · rw [run, List.foldl_append]
    exact hlater
  · rw [get_accountCreatedOn, get_accountCreatedOn, hdate]

/-- The document of a sign-up, once the name has been written as well. -/
theorem signUp_kept_renamed :
    ∃ later, (run World.step (World.installed Server.initial)
        ([.editSignUp ⟨"ada@b.cd", "Ada", "secret", "secret", some .systemPerson⟩,
          .signUpButtonPressed, .answer 0 (.user "ada"), .complete 0, .writeLands true]
          ++ [.writeLands true])).server.users "ada" = some later
      ∧ later.get "accountCreatedOn" = some (.double (Double.ofRat 0))
      ∧ later.get "emailIsVerified" = some (.boolean false) :=
  signUp_kept Server.initial
    [.editSignUp ⟨"ada@b.cd", "Ada", "secret", "secret", some .systemPerson⟩,
      .signUpButtonPressed, .answer 0 (.user "ada"), .complete 0, .writeLands true]
    [.writeLands true] "ada" _ regular_initial (by simp [OwnChanges]) rfl

end ProductivityApp
