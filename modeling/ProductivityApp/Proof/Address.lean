import ProductivityApp.Proof.Email
import ProductivityApp.System.Record

/-!
# What a typed address means

Sign-up strips the address field of all whitespace before it calls Auth; login and the email change
send the field as it is. So the three screens give one meaning exactly to the texts without
whitespace, and whoever is given an address by typing such a text can log in by typing it again.
-/

namespace ProductivityApp

open EventSystem

/-! ### The three screens -/

/-- The address in a call to Auth. -/
def Command.address : Command → Option String
  | .call (.createUser email _) _ => some email
  | .call (.signIn email _) _ => some email
  | .call (.updateEmail _ email) _ => some email
  | _ => none

/-- The addresses that the three screens send for a text: on sign-up with this form, on login with
the form's address and password, and by a change of a user's email. -/
def addressesFor (form : SignUpForm) (screen : Screen) (user : Uid) : List String :=
  (SignUpViewController.signUpButtonPressed form
    ++ LoginViewController.firebaseAuth { email := form.email, password := form.password }
    ++ UpdateEmailViewController.updateEmailPressed screen (some user) form.email).filterMap
      Command.address

/-! ### The text an account was given its address by -/

/-- The text that was in the address field when this call was asked for. -/
def Record.typedText (record : Record) (pending : Pending) : String :=
  match pending.completion with
  | .updateEmail screen => ((record.started pending).emailScreens screen).newEmail
  | _ => (record.started pending).signUpForm.email

/-- The call by which Auth gives an account its address in this event. -/
def World.givesAddress (w : World) (uid : Uid) : Event → Option Pending
  | .answer index answer =>
      w.device.pending[index]?.filter fun pending =>
        !w.device.crashed && pending.answer.isNone
          && (w.server.respond pending.request answer).isSome
          && (pending.request.setsEmail uid answer).isSome
  | _ => none

def Event.changesAccount (uid : Uid) : Event → Bool
  | .accountChanged account _ => account = uid
  | _ => false

/-- A record, with the text each account was last given its address by. -/
structure Addressing where
  record : Record
  typed : Uid → Option String

namespace Addressing

def world (s : Addressing) : World := s.record.world

def step (s : Addressing) (e : Event) : Addressing :=
  { record := s.record.step e
    typed := fun uid =>
      if e.changesAccount uid then none
      else ((s.world.givesAddress uid e).map s.record.typedText).or (s.typed uid) }

def installed (server : Server) : Addressing :=
  { record := Record.installed server, typed := fun _ => none }

end Addressing

/-- Somebody types a text and a password on the login screen, and Auth accepts them as those of an
account. -/
def World.logIn (w : World) (text password : String) (uid : Uid) : World :=
  run World.step w
    [.editLogin { email := text, password }, .loginButtonPressed,
      .answer w.device.pending.length (.user uid)]

/-- Typing the text logs in to every account that was last given its address by typing it. -/
def LogsIn (text : String) (s : Addressing) : Prop :=
  ∀ uid, s.typed uid = some text → s.world.device.crashed = false →
    ∃ account, s.world.server.accounts uid = some account
      ∧ (s.world.logIn text account.password uid).device.currentUser.map User.uid = some uid

/-- The three screens send one address for the text, whatever else is typed; and after every run the
text logs in to the accounts that were last given their address by typing it. -/
structure MeansOneAddress (text : String) : Prop where
  agree : ∀ form screen user, form.email = text →
    ∀ address ∈ addressesFor form screen user, ∀ other ∈ addressesFor form screen user,
      address = other
  logsIn : ∀ server events, LogsIn text (run Addressing.step (Addressing.installed server) events)

/-! ### What is sent -/

theorem removeExtraSpaces_eq_self {text : String} :
    removeExtraSpaces text = text ↔ ∀ c ∈ text.toList, isRegexSpace c = false := by
  unfold removeExtraSpaces
  rw [← String.toList_inj, String.toList_ofList, List.filter_eq_self]
  refine forall₂_congr fun c _ => ?_
  by_cases hnewline : c = '\n'
  · subst hnewline
    decide
  · simp [hnewline]

/-- Sign-up sends the stripped text, and the two other screens the text itself. -/
theorem mem_addressesFor {form : SignUpForm} {screen : Screen} {user : Uid} {address : String}
    (h : address ∈ addressesFor form screen user) :
    address = removeExtraSpaces form.email ∨ address = form.email := by
  simp only [addressesFor, List.filterMap_append, List.mem_append] at h
  obtain (hsignUp | hlogin) | hchange := h
  · left
    unfold SignUpViewController.signUpButtonPressed at hsignUp
    split_ifs at hsignUp <;> simp [Command.address] at hsignUp
    exact hsignUp
  · right
    simpa [LoginViewController.firebaseAuth, Command.address] using hlogin
  · right
    unfold UpdateEmailViewController.updateEmailPressed at hchange
    split_ifs at hchange <;> simp [Command.address] at hchange
    exact hchange

theorem agree_of_unspaced {text : String} (h : removeExtraSpaces text = text) {form : SignUpForm}
    {screen : Screen} {user : Uid} (hform : form.email = text) {address : String}
    (haddress : address ∈ addressesFor form screen user) : address = text := by
  obtain rfl | rfl := mem_addressesFor haddress
  · rw [hform, h]
  · exact hform

/-- A form that sign-up sends. -/
def filledForm (text : String) : SignUpForm :=
  { email := text, displayName := "Ann", password := "secret", passwordConfirmation := "secret",
    profilePicture := none }

theorem addressesFor_filledForm {text : String} (hne : text ≠ "") (screen : Screen) (user : Uid) :
    addressesFor (filledForm text) screen user = [removeExtraSpaces text, text, text] := by
  simp [addressesFor, filledForm, SignUpViewController.signUpButtonPressed,
    LoginViewController.firebaseAuth, UpdateEmailViewController.updateEmailPressed, hne,
    Command.address]

theorem unspaced_of_agree {text : String} (h : MeansOneAddress text) :
    removeExtraSpaces text = text := by
  by_cases hne : text = ""
  · rw [hne]
    decide
  · have hagree := h.agree (filledForm text) 0 "" rfl
    rw [addressesFor_filledForm hne] at hagree
    exact hagree _ (by simp) _ (by simp)

/-! ### What Auth holds -/

def Completion.sendsAddress : Completion → Prop
  | .signUp => True
  | .updateEmail _ => True
  | _ => False

/-- The address sent is made of the text in the field. -/
structure SentTyped (device : Device) (pending : Pending) : Prop where
  signUp : pending.completion = .signUp → ∃ password,
    pending.request = .createUser (removeExtraSpaces device.signUpForm.email) password
  updateEmail : ∀ screen, pending.completion = .updateEmail screen → ∃ user,
    pending.request = .updateEmail user (device.emailScreens screen).newEmail

structure AddressInv (text : String) (s : Addressing) : Prop where
  sound : ∀ pending ∈ s.world.device.pending, pending.Sound
  sent : s.record.Keeps Completion.sendsAddress SentTyped
  held : ∀ uid, s.typed uid = some text → s.world.authEmail uid = some text

section

variable {w : World} {s : Addressing} {e : Event} {text : String} {uid : Uid}

theorem sentTyped_of_issued {c : Command} {pending : Pending} (hc : c ∈ w.commands e)
    (hpending : c.pending (w.origin e) = some pending)
    (hcompletion : pending.completion.sendsAddress) :
    (∀ index, e ≠ .complete index) ∧ SentTyped w.device pending := by
  cases issued_of_mem hc with
  | createUser =>
      cases hpending
      exact ⟨by simp, { signUp := fun _ => ⟨_, rfl⟩, updateEmail := by simp }⟩
  | updateEmail _ =>
      cases hpending
      exact ⟨by simp, { signUp := by simp, updateEmail := by simp }⟩
  | _ => cases hpending <;> cases hcompletion

theorem givesAddress_eq_some {pending : Pending} :
    w.givesAddress uid e = some pending
      ↔ w.device.crashed = false ∧ ∃ index answer after email, e = .answer index answer
        ∧ w.Answers index answer pending after
        ∧ pending.request.setsEmail uid answer = some email := by
  constructor
  · intro h
    cases e with
    | answer index answer =>
        obtain ⟨hpending, hgives⟩ := Option.filter_eq_some_iff.mp h
        simp only [Bool.and_eq_true, Bool.not_eq_true', Option.isNone_iff_eq_none,
          Option.isSome_iff_exists] at hgives
        obtain ⟨⟨⟨hrunning, hunanswered⟩, after, hrespond⟩, email, hsets⟩ := hgives
        exact ⟨hrunning, index, answer, after, email, rfl,
          ⟨hpending, hunanswered, hrespond, World.arrive_answer hpending hunanswered hrespond⟩,
          hsets⟩
    | _ => cases h
  · rintro ⟨hrunning, index, answer, after, email, rfl, hanswers, hsets⟩
    simp [World.givesAddress, hanswers.pending_eq, hrunning, hanswers.unanswered,
      hanswers.respond_eq, hsets]

theorem accepts_iff_givesAddress :
    (∃ email, Accepts uid w e email) ↔ ∃ pending, w.givesAddress uid e = some pending := by
  simp only [givesAddress_eq_some, Accepts]
  constructor
  · rintro ⟨email, hrunning, index, answer, pending, after, he, hanswers, hsets⟩
    exact ⟨pending, hrunning, index, answer, after, email, he, hanswers, hsets⟩
  · rintro ⟨pending, hrunning, index, answer, after, email, he, hanswers, hsets⟩
    exact ⟨email, hrunning, index, answer, pending, after, he, hanswers, hsets⟩

theorem sets_typedText (h : AddressInv text s) (htext : removeExtraSpaces text = text)
    {pending : Pending} (hmem : pending ∈ s.world.device.pending)
    (htyped : s.record.typedText pending = text) {answer : Answer} {email : String}
    (hsets : pending.request.setsEmail uid answer = some email) : email = text := by
  have hfits := (h.sound pending hmem).fits
  cases hrequest : pending.request with
  | createUser sent password =>
      rw [hrequest] at hfits hsets
      have hcompletion := Request.fits_of_createUser hfits
      obtain ⟨-, hsent⟩ := h.sent pending hmem (by rw [hcompletion]; trivial)
      obtain ⟨typed, hsent⟩ := hsent.signUp hcompletion
      rw [hrequest] at hsent
      cases hsent
      rw [Record.typedText, hcompletion] at htyped
      cases answer with
      | user user =>
          obtain ⟨-, hemail⟩ := Option.ite_none_right_eq_some.mp hsets
          cases hemail
          exact (congrArg removeExtraSpaces htyped).trans htext
      | _ => cases hsets
  | updateEmail user sent =>
      rw [hrequest] at hfits hsets
      obtain ⟨screen, hcompletion⟩ := Request.fits_of_updateEmail hfits
      obtain ⟨-, hsent⟩ := h.sent pending hmem (by rw [hcompletion]; trivial)
      obtain ⟨changed, hsent⟩ := hsent.updateEmail screen hcompletion
      rw [hrequest] at hsent
      cases hsent
      rw [Record.typedText, hcompletion] at htyped
      cases answer with
      | success =>
          obtain ⟨-, hemail⟩ := Option.ite_none_right_eq_some.mp hsets
          cases hemail
          exact htyped
      | _ => cases hsets
  | _ => rw [hrequest] at hsets; cases hsets

theorem held_step (h : AddressInv text s) (htext : removeExtraSpaces text = text)
    (htyped : (s.step e).typed uid = some text) :
    (s.step e).world.authEmail uid = some text := by
  have hchanges : e.changesAccount uid = false := by
    by_contra hchanges
    simp [Addressing.step, hchanges] at htyped
  simp only [Addressing.step, hchanges, Bool.false_eq_true, if_false] at htyped
  cases hgives : s.world.givesAddress uid e with
  | some pending =>
      rw [hgives, Option.map_some, Option.some_or, Option.some.injEq] at htyped
      obtain ⟨hrunning, index, answer, after, email, rfl, hanswers, hsets⟩ :=
        givesAddress_eq_some.mp hgives
      have hmem := List.mem_of_getElem? hanswers.pending_eq
      obtain rfl := sets_typedText h htext hmem htyped hsets
      exact authEmail_step_accepts
        ⟨hrunning, index, answer, pending, after, rfl, hanswers, hsets⟩
  | none =>
      rw [hgives, Option.map_none, Option.none_or] at htyped
      have hidle : ∀ email, ¬ Accepts uid s.world e email := by
        intro email haccepts
        obtain ⟨pending, hgiven⟩ := accepts_iff_givesAddress.mp ⟨email, haccepts⟩
        rw [hgives] at hgiven
        cases hgiven
      have helsewhere : ∀ {account change}, e = .accountChanged account change → account ≠ uid := by
        rintro account change rfl rfl
        simp [Event.changesAccount] at hchanges
      exact (authEmail_step_idle helsewhere hidle).trans (h.held uid htyped)

theorem addressInv_step (h : AddressInv text s) (htext : removeExtraSpaces text = text)
    (e : Event) : AddressInv text (s.step e) where
  sound := World.sound_step h.sound e
  sent := by
    refine Record.keeps_step h.sent ?_ fun c hc pending => sentTyped_of_issued hc
    intro device before after hcall hsent
    refine { signUp := ?_, updateEmail := ?_ }
    · rw [hcall.1, hcall.2.1]
      exact hsent.signUp
    · rw [hcall.1, hcall.2.1]
      exact hsent.updateEmail
  held uid := held_step h htext

theorem addressInv_run (htext : removeExtraSpaces text = text) (server : Server)
    (events : List Event) :
    AddressInv text (run Addressing.step (Addressing.installed server) events) := by
  have hstep : ∀ s e, AddressInv text s → True → AddressInv text (s.step e) :=
    fun _ e h _ => addressInv_step h htext e
  have hinitial : AddressInv text (Addressing.installed server) :=
    { sound := fun pending hmem => by cases hmem
      sent := Record.keeps_installed server
      held := fun uid htyped => by cases htyped }
  exact run_invariant hstep hinitial (always_of_forall _ (fun _ _ => trivial) _ events)

theorem step_editLogin (hrunning : w.device.crashed = false) (form : LoginForm) :
    (w.step (.editLogin form)).server = w.server
      ∧ (w.step (.editLogin form)).device.crashed = false
      ∧ (w.step (.editLogin form)).device.pending = w.device.pending
      ∧ (w.step (.editLogin form)).device.loginForm = form := by
  obtain ⟨history, hstep⟩ := @World.step_of_no_commands w (.editLogin form) hrunning
    (World.commands_of_handle rfl)
  rw [hstep]
  exact ⟨rfl, hrunning, rfl, rfl⟩

theorem step_loginButtonPressed (hrunning : w.device.crashed = false) :
    (w.step .loginButtonPressed).server = w.server
      ∧ (w.step .loginButtonPressed).device.crashed = false
      ∧ ∃ origin, (w.step .loginButtonPressed).device.pending = w.device.pending
        ++ [⟨.signIn w.device.loginForm.email w.device.loginForm.password, .firebaseAuth, none,
          origin⟩] := by
  rw [World.step_of_running hrunning]
  simp [World.react, World.commands, World.handle, World.arrive, hrunning,
    LoginViewController.firebaseAuth, Device.exec, Command.pending]

theorem currentUser_logIn {account : Account} (hrunning : w.device.crashed = false)
    (haccount : w.server.accounts uid = some account) (htext : account.email = text) :
    (w.logIn text account.password uid).device.currentUser.map User.uid = some uid := by
  obtain ⟨hserver, hrunning, hpending, hform⟩ :=
    step_editLogin hrunning { email := text, password := account.password }
  obtain ⟨hserver', hrunning', origin, hpending'⟩ := step_loginButtonPressed hrunning
  rw [hpending, hform] at hpending'
  have hsignsIn : World.SignsIn
      ((w.step (.editLogin { email := text, password := account.password })).step
        .loginButtonPressed)
      (.answer w.device.pending.length (.user uid))
      ⟨.signIn text account.password, .firebaseAuth, none, origin⟩ uid := by
    refine ⟨hrunning', w.device.pending.length, rfl, ?_, rfl, ?_⟩
    · rw [hpending']
      simp
    · rw [hserver', hserver]
      simp [Server.respond, haccount, htext]
  exact hsignsIn.currentUser_step.1

theorem logsIn_of_addressInv (h : AddressInv text s) : LogsIn text s := by
  intro uid htyped hrunning
  obtain ⟨account, haccount, hemail⟩ := Option.map_eq_some_iff.mp (h.held uid htyped)
  exact ⟨account, haccount, currentUser_logIn hrunning haccount hemail⟩

end

/-- **The three screens agree on a text** exactly when it has no whitespace in it. -/
theorem meansOneAddress_iff (text : String) :
    MeansOneAddress text ↔ ∀ c ∈ text.toList, isRegexSpace c = false := by
  rw [← removeExtraSpaces_eq_self]
  refine ⟨unspaced_of_agree, fun htext => ⟨?_, fun server events => ?_⟩⟩
  · intro form screen user hform address haddress other hother
    rw [agree_of_unspaced htext hform haddress, agree_of_unspaced htext hform hother]
  · exact logsIn_of_addressInv (addressInv_run htext server events)

/-- A keyboard has put a space after the address. -/
theorem trailingSpace_twoAddresses : ¬ MeansOneAddress "ann@example.org " := by
  intro h
  have hagree := h.agree (filledForm "ann@example.org ") 0 "ann" rfl
  exact absurd (hagree "ann@example.org" (by decide) "ann@example.org " (by decide)) (by decide)

end ProductivityApp
