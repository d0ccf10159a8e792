import ProductivityApp.Lib.Relay
import ProductivityApp.System.Calls
import ProductivityApp.System.Stores

/-!
# Prospects

What the two stores will hold when everything under way has settled. Requests and writes fail as
they are bound to, in any order. The closures of the display name and the picture are quiet:
whatever comes back, they write nothing and tell nobody. While only such closures are to run the
prospect is fixed, so it is conserved by everything the services do, and it changes only when the
app issues a write, a call or a notice.
-/

namespace ProductivityApp

open EventSystem

/-! ### What becomes of requests and writes -/

/-- Which requests fail, and with what error, and which writes Firestore refuses. -/
structure Failures where
  request : Request → Option String
  write : Fields → Bool

namespace Failures

/-- `uid` is the account Auth makes when a sign-up succeeds. -/
def allows (failures : Failures) (uid : Uid) (request : Request) : Answer → Bool
  | .error description => failures.request request = some description
  | .user user => failures.request request = none ∧ user = uid
  | _ => failures.request request = none

def accepts (failures : Failures) (write : Write) : Bool := !failures.write write.fields

end Failures

/-- Only the services act, and every request and write fares as it is bound to. -/
def Services (failures : Failures) (uid : Uid) (w : World) : Event → Prop
  | .answer index answer =>
      match w.device.pending[index]? with
      | none => True
      | some pending => failures.allows uid pending.request answer = true
  | .complete _ => True
  | .writeLands accepted =>
      match w.device.writes with
      | [] => True
      | write :: _ => accepted = failures.accepts write
  | _ => False

/-- All requests have completed and all writes have landed. -/
def Settled (w : World) : Prop := w.device.pending = [] ∧ w.device.writes = []

/-- What the two stores hold of an account. -/
structure Standing where
  auth : ProfileField → Option String
  document : ProfileField → Option String

def World.standing (uid : Uid) (w : World) : Standing :=
  { auth := w.server.authValue uid, document := w.server.documentValue uid }

/-! ### Prospects -/

/-- What the stores will hold when everything under way has settled, and whether the user has been
told. -/
structure Prospect where
  auth : ProfileField → Option String
  document : Option Document
  told : Bool

def Prospect.standing (prospect : Prospect) : Standing :=
  { auth := prospect.auth
    document := fun field => prospect.document.bind fun document => document.string field.key }

/-- What the stores hold now. -/
def World.present (uid : Uid) (w : World) : Prospect :=
  { auth := w.server.authValue uid, document := w.server.users uid, told := false }

namespace Failures

/-- What a write leaves of the document when it lands. -/
def landed (failures : Failures) (kind : WriteKind) (fields : Fields)
    (document : Option Document) : Option Document :=
  if failures.write fields then document else kind.apply fields document

/-- What a request leaves of the account when it is answered. -/
def granted (failures : Failures) (uid : Uid) (request : Request)
    (auth : ProfileField → Option String) : ProfileField → Option String :=
  fun field =>
    (if failures.request request = none then request.change uid field else none).or (auth field)

end Failures

/-- The closures of the display name and the picture, which only go on or print. -/
def Completion.quiet : Completion → Bool
  | .displayNameCommitted | .pictureUploaded _ | .pictureURL | .photoCommitted => true
  | _ => false

structure Pending.Quiet (pending : Pending) : Prop where
  completion : pending.completion.quiet = true
  fits : pending.request.fits pending.completion = true

/-- The value that this call is still going to give the account. -/
def Failures.awaited (failures : Failures) (uid : Uid) (field : ProfileField) (pending : Pending) :
    Option String :=
  if pending.answer = none ∧ failures.request pending.request = none then
    pending.request.change uid field
  else none

/-- What is under way is quiet and will leave this prospect. -/
structure Settling (failures : Failures) (uid : Uid) (notices : List Notice) (prospect : Prospect)
    (w : World) : Prop where
  running : w.device.crashed = false
  quiet : ∀ pending ∈ w.device.pending, pending.Quiet
  once : ∀ field, (w.device.pending.filterMap (failures.awaited uid field)).length ≤ 1
  auth : ∀ field, (w.device.pending.filterMap (failures.awaited uid field)).head?.or
    (w.server.authValue uid field) = prospect.auth field
  document : landed uid (w.server.users uid) (w.device.writes.filter failures.accepts)
    = prospect.document
  told : w.device.notices ≠ notices ↔ prospect.told = true

theorem Settling.standing {failures : Failures} {uid : Uid} {notices : List Notice}
    {prospect : Prospect} {w : World} (h : Settling failures uid notices prospect w)
    (hsettled : Settled w) : w.standing uid = prospect.standing := by
  obtain ⟨hpending, hwrites⟩ := hsettled
  have hauth := h.auth
  have hdocument := h.document
  simp only [hpending, List.filterMap_nil, List.head?_nil, Option.none_or] at hauth
  rw [hwrites, List.filter_nil, landed_nil] at hdocument
  rw [World.standing, Prospect.standing, ← hdocument, ← funext hauth]
  rfl

section Quiet

variable {failures : Failures} {uid : Uid} {field : ProfileField} {w : World} {e : Event}

theorem awaited_of_answered {pending : Pending} {answer : Answer}
    (h : pending.answer = some answer) : failures.awaited uid field pending = none := by
  simp [Failures.awaited, h]

theorem change_of_allows {server after : Server} {pending : Pending} {answer : Answer}
    (hunanswered : pending.answer = none)
    (hrespond : server.respond pending.request answer = some after)
    (hallows : failures.allows uid pending.request answer = true) :
    (if answer = .success then pending.request.change uid field else none)
      = failures.awaited uid field pending := by
  have hanswered := answeredBy_of_respond hrespond
  have hchange (hne : answer ≠ .success) (hok : failures.request pending.request = none) :
      pending.request.change uid field = none := by
    cases hrequest : pending.request <;> cases answer <;>
      simp_all [Request.answeredBy, Request.change, Failures.allows]
  rw [Failures.awaited]
  cases hfailing : failures.request pending.request with
  | none =>
      split
      · simp [hunanswered]
      · rename_i hne
        simp [hchange hne hfailing]
  | some description =>
      have hne : answer ≠ .success := by
        rintro rfl
        simp [Failures.allows, hfailing] at hallows
      simp [hne]

/-- The closures that are quiet ask for nothing that either store's profile depends on. -/
theorem commands_quiet (hquiet : ∀ pending ∈ w.device.pending, pending.Quiet)
    (hservices : Services failures uid w e) :
    w.commands e = []
      ∨ ∃ request completion, w.commands e = [.call request completion]
        ∧ completion.quiet = true ∧ request.fits completion = true
        ∧ ∀ field, request.change uid field = none := by
  by_cases hcrashed : w.device.crashed = true
  · exact Or.inl (World.commands_of_crashed hcrashed)
  rw [World.commands_of_running (by simpa using hcrashed)]
  cases e with
  | answer _ _ | writeLands _ => exact Or.inl rfl
  | complete index =>
      cases hanswered : w.answered index with
      | none => exact Or.inl (by simp [World.handle, hanswered])
      | some call =>
          obtain ⟨pending, answer⟩ := call
          have hcompletion := (hquiet pending (World.mem_of_answered hanswered).1).completion
          simp only [World.handle, hanswered]
          cases hclosure : pending.completion with
          | displayNameCommitted | photoCommitted => exact Or.inl rfl
          | pictureUploaded ref =>
              simp only [World.completed, ProfileUpdate.pictureUploaded]
              split
              · exact Or.inl rfl
              · exact Or.inr ⟨_, _, rfl, rfl, rfl, fun field => rfl⟩
          | pictureURL =>
              simp only [World.completed, ProfileUpdate.pictureURL]
              split
              · split
                · exact Or.inl rfl
                · exact Or.inr ⟨_, _, rfl, rfl, rfl, fun field => by simp [Request.change]⟩
              · exact Or.inl rfl
          | _ => simp [hclosure, Completion.quiet] at hcompletion
  | _ => exact hservices.elim

theorem awaited_answer {calls : List Pending} {index : ℕ} {pending : Pending} {answer : Answer}
    (hi : calls[index]? = some pending)
    (honce : (calls.filterMap (failures.awaited uid field)).length ≤ 1) (value : Option String) :
    ((calls.set index { pending with answer := some answer }).filterMap
        (failures.awaited uid field)).length ≤ 1
      ∧ ((calls.set index { pending with answer := some answer }).filterMap
          (failures.awaited uid field)).head?.or ((failures.awaited uid field pending).or value)
        = (calls.filterMap (failures.awaited uid field)).head?.or value := by
  have hanswered : failures.awaited uid field { pending with answer := some answer } = none :=
    awaited_of_answered rfl
  cases hawaited : failures.awaited uid field pending with
  | none =>
      rw [filterMap_set_eq hi (hanswered.trans hawaited.symm)]
      exact ⟨honce, by simp⟩
  | some text =>
      rw [filterMap_eq_of_getElem? hi, hawaited] at honce
      rw [filterMap_set hi, filterMap_eq_of_getElem? hi, hanswered, hawaited]
      simp only [List.length_append, Option.toList_some, List.length_singleton] at honce
      have htake := List.eq_nil_of_length_eq_zero
        (show ((calls.take index).filterMap (failures.awaited uid field)).length = 0 by omega)
      have hdrop := List.eq_nil_of_length_eq_zero
        (show ((calls.drop (index + 1)).filterMap (failures.awaited uid field)).length = 0 by omega)
      simp [htake, hdrop]

/-- The prospect is conserved by what a service does. -/
theorem Settling.arrive {notices : List Notice} {prospect : Prospect}
    (h : Settling failures uid notices prospect w) (hservices : Services failures uid w e) :
    Settling failures uid notices prospect (w.arrive e) := by
  cases e with
  | answer index answer =>
      obtain hsame | ⟨pending, after, hanswers⟩ := w.arrive_answer_cases index answer
      · rwa [hsame]
      · have hi := hanswers.pending_eq
        have hquiet := h.quiet pending (List.mem_of_getElem? hi)
        have hallows : failures.allows uid pending.request answer = true := by
          simpa [Services, hi] using hservices
        have hnew : ∀ email password, pending.request ≠ .createUser email password := by
          intro email password hrequest
          have hfits := hquiet.fits
          have hcompletion := hquiet.completion
          rw [hrequest] at hfits
          rw [Request.fits_of_createUser hfits] at hcompletion
          cases hcompletion
        have hpending : (w.arrive (.answer index answer)).device.pending
            = w.device.pending.set index { pending with answer := some answer } := by
          rw [hanswers.arrive_eq]
        have hserver : (w.arrive (.answer index answer)).server = after := by
          rw [hanswers.arrive_eq]
        have hauth (field : ProfileField) : after.authValue uid field
            = (failures.awaited uid field pending).or (w.server.authValue uid field) := by
          rw [authValue_respond hanswers.respond_eq fun _ => hnew,
            change_of_allows hanswers.unanswered hanswers.respond_eq hallows]
        refine ⟨?_, ?_, fun field => ?_, fun field => ?_, ?_, ?_⟩
        · rw [World.arrive_answer_field Device.crashed index answer fun _ _ _ _ _ => rfl]
          exact h.running
        · intro call hcall
          rw [hpending] at hcall
          obtain hcall | rfl := List.mem_or_eq_of_mem_set hcall
          · exact h.quiet call hcall
          · exact ⟨hquiet.completion, hquiet.fits⟩
        · rw [hpending]
          exact (awaited_answer hi (h.once field) none).1
        · rw [hpending, hserver, hauth, (awaited_answer hi (h.once field) _).2]
          exact h.auth field
        · rw [World.arrive_answer_field Device.writes index answer fun _ _ _ _ _ => rfl, hserver,
            (Server.accountsAfter_of_respond hanswers.respond_eq).2]
          exact h.document
        · rw [World.arrive_answer_field Device.notices index answer fun _ _ _ _ _ => rfl]
          exact h.told
  | complete index =>
      cases hanswered : w.answered index with
      | none => rwa [World.arrive_complete_of_none hanswered]
      | some call =>
          obtain ⟨pending, answer⟩ := call
          obtain ⟨hi, hanswer⟩ := World.answered_eq_some.mp hanswered
          rw [World.arrive_complete hanswered]
          have hcalls (field : ProfileField) :
              (w.device.pending.eraseIdx index).filterMap (failures.awaited uid field)
                = w.device.pending.filterMap (failures.awaited uid field) :=
            filterMap_eraseIdx_eq hi (awaited_of_answered hanswer)
          exact
            { h with
              quiet := fun call hcall => h.quiet call (List.mem_of_mem_eraseIdx hcall)
              once := fun field => by simpa only [hcalls] using h.once field
              auth := fun field => by simpa only [hcalls] using h.auth field }
  | writeLands accepted =>
      have hdocument := h.document
      cases hwrites : w.device.writes with
      | nil => simpa [World.arrive, hwrites] using h
      | cons write writes =>
          have haccepted : accepted = failures.accepts write := by
            simpa [Services, hwrites] using hservices
          rw [hwrites, List.filter_cons, ← haccepted] at hdocument
          simp only [World.arrive, hwrites]
          refine ⟨h.running, h.quiet, h.once, fun field => ?_, ?_, h.told⟩
          · rw [← h.auth field]
            split <;> rfl
          · rw [← hdocument]
            split
            · rw [landed_cons]
              congr 1
              by_cases huid : write.uid = uid
              · simp [Server.applyWrite, huid]
              · simp [Server.applyWrite, huid, Function.update_of_ne (Ne.symm huid)]
            · rfl
  | _ => exact hservices.elim

theorem settling_of_idle (hrunning : w.device.crashed = false) (hsettled : Settled w) :
    Settling failures uid w.device.notices (w.present uid) w := by
  obtain ⟨hpending, hwrites⟩ := hsettled
  exact
    { running := hrunning
      quiet := by simp [hpending]
      once := by simp [hpending]
      auth := by simp [hpending, World.present]
      document := by simp [hwrites, World.present]
      told := by simp [World.present] }

theorem Settling.history {notices : List Notice} {prospect : Prospect} (history : History)
    (h : Settling failures uid notices prospect w) :
    Settling failures uid notices prospect { w with device := { w.device with history } } :=
  { h with }

theorem Settling.write {notices : List Notice} {prospect : Prospect} {origin : Origin}
    {command : Command} {write : Write} (h : Settling failures uid notices prospect w)
    (hwrite : command.write origin = some write) (huid : write.uid = uid) :
    Settling failures uid notices
      { prospect with document := failures.landed write.kind write.fields prospect.document }
      { w with device := w.device.exec origin command } := by
  have hdocument : landed uid (w.server.users uid)
      ((w.device.writes ++ [write]).filter failures.accepts)
        = failures.landed write.kind write.fields prospect.document := by
    calc landed uid (w.server.users uid) ((w.device.writes ++ [write]).filter failures.accepts)
        = landed uid prospect.document ([write].filter failures.accepts) := by
          rw [List.filter_append, landed_append, h.document]
      _ = failures.landed write.kind write.fields prospect.document := by
          rw [Failures.landed, List.filter_singleton, Failures.accepts]
          cases failures.write write.fields <;> simp [landed_cons, huid]
  cases command with
  | setData _ _ | updateData _ _ =>
      cases hwrite
      exact { h with document := hdocument }
  | _ => cases hwrite

/-- A call that is made is a prospect of the account, when no other call is awaited with a value for
the same field. -/
theorem Settling.call {notices : List Notice} {prospect : Prospect} {origin : Origin}
    {request : Request} {completion : Completion} (h : Settling failures uid notices prospect w)
    (hquiet : completion.quiet = true) (hfits : request.fits completion = true)
    (hfree : ∀ field, request.change uid field ≠ none →
      w.device.pending.filterMap (failures.awaited uid field) = []) :
    Settling failures uid notices
      { prospect with auth := failures.granted uid request prospect.auth }
      { w with device := w.device.exec origin (.call request completion) } := by
  have hcalls (field : ProfileField) :
      (w.device.pending ++ [Pending.mk request completion none origin]).filterMap
          (failures.awaited uid field)
        = w.device.pending.filterMap (failures.awaited uid field)
          ++ (if failures.request request = none then request.change uid field
            else none).toList := by
    rw [List.filterMap_append, List.filterMap_cons, List.filterMap_nil, Failures.awaited]
    simp only [true_and]
    split <;> simp [*]
  have hvalue (field : ProfileField) :
      (if failures.request request = none then request.change uid field else none) = none
        ∨ w.device.pending.filterMap (failures.awaited uid field) = [] := by
    by_cases hchange : request.change uid field = none
    · exact Or.inl (by simp [hchange])
    · exact Or.inr (hfree field hchange)
  refine
    { h with
      quiet := fun pending hmem => ?_
      once := fun field => ?_
      auth := fun field => ?_ }
  · obtain hmem | hmem := List.mem_append.mp hmem
    · exact h.quiet pending hmem
    · rw [List.mem_singleton.mp hmem]
      exact ⟨hquiet, hfits⟩
  · simp only [Device.exec, Command.pending, Option.toList_some, hcalls]
    obtain hnone | hempty := hvalue field
    · simpa [hnone] using h.once field
    · rw [hempty, List.nil_append]
      exact Option.length_toList_le
  · have hauth := h.auth field
    simp only [Device.exec, Command.pending, Option.toList_some, hcalls, Failures.granted]
    obtain hnone | hempty := hvalue field
    · simpa [hnone] using hauth
    · rw [hempty] at hauth ⊢
      rw [← hauth]
      cases (if failures.request request = none then request.change uid field else none) <;> simp

theorem Settling.call_of_change_none {notices : List Notice} {prospect : Prospect} {origin : Origin}
    {request : Request} {completion : Completion} (h : Settling failures uid notices prospect w)
    (hquiet : completion.quiet = true) (hfits : request.fits completion = true)
    (hchange : ∀ field, request.change uid field = none) :
    Settling failures uid notices prospect
      { w with device := w.device.exec origin (.call request completion) } := by
  have hgranted : failures.granted uid request prospect.auth = prospect.auth :=
    funext fun field => by simp [Failures.granted, hchange field]
  have hcall := @Settling.call _ _ _ _ _ origin _ _ h hquiet hfits fun field hne =>
    absurd (hchange field) hne
  rwa [hgranted] at hcall

theorem Settling.present {notices : List Notice} {prospect : Prospect} {origin : Origin}
    {notice : Notice} (h : Settling failures uid notices prospect w)
    (htold : prospect.told = false) :
    Settling failures uid notices { prospect with told := true }
      { w with device := w.device.exec origin (.present notice) } := by
  have hnotices : w.device.notices = notices := by simpa [htold] using h.told
  exact { h with told := by simp [Device.exec, hnotices] }

/-- The prospect is conserved by what a service does and what the app does about it. -/
theorem Settling.step {notices : List Notice} {prospect : Prospect}
    (h : Settling failures uid notices prospect w) (hservices : Services failures uid w e) :
    Settling failures uid notices prospect (w.step e) := by
  have harrive := h.arrive hservices
  rw [World.step_of_running h.running]
  obtain hnone | ⟨request, completion, hcall, hquiet, hfits, hchange⟩ :=
    commands_quiet h.quiet hservices
  · rw [World.react, hnone]
    exact harrive.history _
  · rw [World.react, hcall]
    exact (harrive.call_of_change_none hquiet hfits hchange).history _

end Quiet

/-! ### The first request

Sign-up and email change start with one request and do nothing until it has been answered. -/

/-- The world with this call, and nothing else, under way. -/
def World.awaiting (w : World) (call : Pending) (history : History) : World :=
  { w with device := { w.device with pending := [call], history } }

/-- The world after its answer. -/
def World.received (w : World) (after : Server) (call : Pending) (answer : Answer) : World :=
  { server := after, device := w.device.receive after call answer }

/-- The world in which its completion starts. -/
def World.concluding (w : World) (history : History) : World :=
  { w with device := { w.device with pending := [], history } }

/-- The world after its completion. -/
def World.concluded (w : World) (answer : Answer) (completion : Completion) (origin : Origin)
    (history history' : History) : World :=
  { w with device :=
      { (w.concluding history).device.execAll origin
          (World.completed w.device answer completion) with
        history := history' } }

section FirstRequest

variable {failures : Failures} {uid : Uid} {w : World} {e : Event} {call : Pending}
  {history : History}

theorem step_awaiting_of_idle
    (harrive : (w.awaiting call history).arrive e = w.awaiting call history)
    (hcommands : (w.awaiting call history).commands e = []) :
    ∃ history', (w.awaiting call history).step e = w.awaiting call history' := by
  by_cases hcrashed : w.device.crashed = true
  · exact ⟨history, World.step_of_crashed hcrashed⟩
  · have hrunning : (w.awaiting call history).device.crashed = false := by
      simpa [World.awaiting] using hcrashed
    obtain ⟨history', hstep⟩ := World.step_of_no_commands hrunning hcommands
    rw [harrive] at hstep
    exact ⟨history', hstep⟩

theorem receive_awaiting {after : Server} {answer : Answer} (pending : List Pending)
    (history' : History) :
    { ((w.awaiting call history).device.receive after call answer) with
        pending := pending, history := history' }
      = { w.device.receive after call answer with pending := pending, history := history' } := by
  simp only [Device.receive, World.awaiting]
  split <;>
    first
    | rfl
    | simp only [Device.refresh]
      split <;> rfl

theorem completed_awaiting {answer : Answer} {completion : Completion} :
    World.completed (w.awaiting call history).device answer completion
      = World.completed w.device answer completion := by
  cases completion <;> rfl

theorem arrive_writeLands_of_nil {accepted : Bool} (hwrites : w.device.writes = []) :
    (w.awaiting call history).arrive (.writeLands accepted) = w.awaiting call history := by
  simp [World.arrive, World.awaiting, hwrites]

theorem step_asked (hwrites : w.device.writes = []) (hrunning : w.device.crashed = false)
    (hcall : call.answer = none) (hservices : Services failures uid (w.awaiting call history) e) :
    (∃ history', (w.awaiting call history).step e = w.awaiting call history')
      ∨ ∃ answer after, failures.allows uid call.request answer = true
        ∧ w.server.respond call.request answer = some after
        ∧ ∃ history', (w.awaiting call history).step e
          = (w.received after call answer).awaiting { call with answer := some answer }
            history' := by
  cases e with
  | answer index answer =>
      obtain hsame | ⟨pending, after, hanswers⟩ :=
        (w.awaiting call history).arrive_answer_cases index answer
      · exact Or.inl (step_awaiting_of_idle hsame World.commands_answer)
      · obtain ⟨rfl, rfl⟩ : index = 0 ∧ call = pending := by
          simpa [World.awaiting, List.getElem?_singleton] using hanswers.pending_eq
        refine Or.inr ⟨answer, after, by simpa [Services, World.awaiting] using hservices,
          hanswers.respond_eq, ?_⟩
        have hrunning : (w.awaiting call history).device.crashed = false := hrunning
        rw [World.step_of_running hrunning, World.react, World.commands_answer,
          Device.execAll_nil, hanswers.arrive_eq]
        exact ⟨_, congrArg (World.mk after) (receive_awaiting _ _)⟩
  | complete index =>
      left
      have hanswered : (w.awaiting call history).answered index = none := by
        cases index <;> simp [World.answered, World.awaiting, hcall]
      obtain ⟨harrive, hcommands⟩ := World.complete_eq_of_answered_none hanswered
      exact step_awaiting_of_idle harrive hcommands
  | writeLands accepted =>
      exact Or.inl (step_awaiting_of_idle (arrive_writeLands_of_nil hwrites)
        World.commands_writeLands)
  | _ => exact hservices.elim

theorem step_answered {answer : Answer} (hwrites : w.device.writes = [])
    (hrunning : w.device.crashed = false) (hcall : call.answer = some answer)
    (hservices : Services failures uid (w.awaiting call history) e) :
    (∃ history', (w.awaiting call history).step e = w.awaiting call history')
      ∨ ∃ origin history', (w.awaiting call history).step e
        = w.concluded answer call.completion origin history history' := by
  cases e with
  | answer index given =>
      left
      obtain hsame | ⟨pending, after, hanswers⟩ :=
        (w.awaiting call history).arrive_answer_cases index given
      · exact step_awaiting_of_idle hsame World.commands_answer
      · obtain ⟨rfl, rfl⟩ : index = 0 ∧ call = pending := by
          simpa [World.awaiting, List.getElem?_singleton] using hanswers.pending_eq
        exact absurd hanswers.unanswered (by simp [hcall])
  | complete index =>
      cases index with
      | succ index =>
          have hanswered : (w.awaiting call history).answered (index + 1) = none := by
            simp [World.answered, World.awaiting]
          obtain ⟨harrive, hcommands⟩ := World.complete_eq_of_answered_none hanswered
          exact Or.inl (step_awaiting_of_idle harrive hcommands)
      | zero =>
          right
          have hanswered : (w.awaiting call history).answered 0 = some (call, answer) :=
            World.answered_eq_some.mpr ⟨rfl, hcall⟩
          have hrunning : (w.awaiting call history).device.crashed = false := hrunning
          obtain ⟨origin, history', hstep⟩ := World.step_complete hrunning hanswered
          rw [completed_awaiting] at hstep
          exact ⟨origin, history', hstep⟩
  | writeLands accepted =>
      exact Or.inl (step_awaiting_of_idle (arrive_writeLands_of_nil hwrites)
        World.commands_writeLands)
  | _ => exact hservices.elim

end FirstRequest

end ProductivityApp
