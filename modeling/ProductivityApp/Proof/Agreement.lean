import ProductivityApp.System.Calls
import ProductivityApp.System.Fleet
import Mathlib.Logic.Relator

/-!
# Two stores and many devices

A change of the display name or the email goes to Auth and to Firestore separately, and nothing
orders the changes of several devices alike in both. What does hold is that all traces of one
operation carry one value: its request, its write and what either server has kept of it. So the two
stores agree wherever both servers applied the same operation last.
-/

namespace ProductivityApp

open EventSystem

/-- The operation has a trace that carries this value: a request or a write that is under way, or
what a server has applied last. -/
inductive Fleet.Carries (fleet : Fleet) (uid : Uid) (field : ProfileField) :
    Operation → String → Prop
  | request {i : ℕ} {device : Device} {pending : Pending} {value : String} :
      fleet.devices[i]? = some device → pending ∈ device.pending →
      pending.request.change uid field = some value →
      Carries fleet uid field (i, pending.origin.startedAt) value
  | write {i : ℕ} {device : Device} {write : Write} {value : String} :
      fleet.devices[i]? = some device → write ∈ device.writes →
      write.change uid field = some value →
      Carries fleet uid field (i, write.origin.startedAt) value
  | auth {operation : Operation} {value : String} :
      fleet.authLast uid field = some operation →
      fleet.server.authValue uid field = some value → Carries fleet uid field operation value
  | document {operation : Operation} {value : String} :
      fleet.documentLast uid field = some operation →
      fleet.server.documentValue uid field = some value → Carries fleet uid field operation value

/-! ### The runs the law is about -/

/-- Nobody signs up, nothing of the account is changed from outside the app, and an email field is
left alone while its change is pending. -/
def UsesApp (uid : Uid) (w : World) : Event → Prop
  | .signUpButtonPressed => False
  | .documentChanged account _ | .accountChanged account _ => account ≠ uid
  | .editNewEmail screen _ => ∀ pending ∈ w.device.pending, pending.completion ≠ .updateEmail screen
  | _ => True

/-- The device is signed in to the one account, if to any. -/
structure DeviceScope (uid : Uid) (w : World) (e : Event) : Prop where
  session : (w.step e).device.currentUser.map User.uid = none
    ∨ (w.step e).device.currentUser.map User.uid = some uid
  usesApp : UsesApp uid w e

def FleetScope (uid : Uid) (fleet : Fleet) (event : ℕ × Event) : Prop :=
  match fleet.devices[event.1]? with
  | none => True
  | some device => DeviceScope uid (fleet.world device) event.2

/-- A device of the fleet. -/
structure FleetDevice (uid : Uid) (device : Device) : Prop where
  sound : ∀ pending ∈ device.pending, pending.Sound
  session : device.currentUser.map User.uid = none ∨ device.currentUser.map User.uid = some uid
  opened : World.Opened device
  screens : ∀ screen user, (device.emailScreens screen).user = some user → user = uid
  updates : ∀ pending ∈ device.pending, ∀ user email,
    pending.request = .updateEmail user email → user = uid
  typed : ∀ pending ∈ device.pending, ∀ screen user email,
    pending.completion = .updateEmail screen → pending.request = .updateEmail user email →
      screen < device.emailScreenCount ∧ (device.emailScreens screen).newEmail = email
  noSignUp : ∀ pending ∈ device.pending, pending.completion ≠ .signUp
  writes : ∀ write ∈ device.writes, ∃ (field : ProfileField) (value : String),
    write.kind = .update ∧ write.fields = [(field.key, .string value)]
  requestsStarted : ∀ pending ∈ device.pending,
    pending.origin.startedAt < device.history.clock
  writesStarted : ∀ write ∈ device.writes, write.origin.startedAt < device.history.clock

/-- The value that the user submits in this event. -/
def World.submitted (w : World) (field : ProfileField) : Event → Option String
  | .textFieldShouldReturn screen =>
      if field = .displayName then some (w.device.settings screen).displayName else none
  | .updateEmailPressed screen =>
      if field = .email then some (w.device.emailScreens screen).newEmail else none
  | _ => none

section Device

variable {uid : Uid} {field : ProfileField} {w : World} {e : Event} {c : Command}

theorem change_of_issued (h : FleetDevice uid w.device) (hc : c ∈ w.commands e) {pending : Pending}
    (hpending : c.pending (w.origin e) = some pending) {value : String}
    (hchange : pending.request.change uid field = some value) :
    pending.origin.startedAt = w.device.history.clock ∧ w.submitted field e = some value := by
  rw [Command.origin_of_pending _ hpending]
  cases issued_of_mem hc with
  | nameCommit hsite huser =>
      cases hpending
      simp only [Request.change, Option.ite_none_right_eq_some, Option.some.injEq] at hchange
      obtain ⟨⟨-, rfl⟩, rfl⟩ := hchange
      cases hsite with
      | typed => exact ⟨rfl, rfl⟩
      | signUp hanswered hcompletion =>
          exact absurd hcompletion (h.noSignUp _ (World.mem_of_answered hanswered).1)
  | updateEmail hscreen =>
      cases hpending
      simp only [Request.change, Option.ite_none_right_eq_some, Option.some.injEq] at hchange
      obtain ⟨⟨-, rfl⟩, rfl⟩ := hchange
      exact ⟨rfl, rfl⟩
  | _ => cases hpending <;> simp [Request.change] at hchange

theorem write_of_issued (h : FleetDevice uid w.device) (hc : c ∈ w.commands e) {write : Write}
    (hwrite : c.write (w.origin e) = some write) :
    ∃ (field : ProfileField) (value : String), write.kind = .update
      ∧ write.fields = [(field.key, .string value)] := by
  cases issued_of_mem hc with
  | accountDocument hanswered hcompletion =>
      exact absurd hcompletion (h.noSignUp _ (World.mem_of_answered hanswered).1)
  | nameWrite =>
      cases hwrite
      exact ⟨.displayName, _, rfl, rfl⟩
  | emailWrite =>
      cases hwrite
      exact ⟨.email, _, rfl, rfl⟩
  | _ => cases hwrite

/-- What the app writes is what the user submits, or what an accepted request has sent. -/
theorem change_of_write (h : FleetDevice uid w.device) (hc : c ∈ w.commands e) {write : Write}
    (hwrite : c.write (w.origin e) = some write) {value : String}
    (hchange : write.change uid field = some value) :
    (write.origin.startedAt = w.device.history.clock ∧ w.submitted field e = some value)
      ∨ ∃ pending ∈ w.device.pending, pending.origin.startedAt = write.origin.startedAt
        ∧ pending.request.change uid field = some value := by
  cases issued_of_mem hc with
  | accountDocument hanswered hcompletion =>
      exact absurd hcompletion (h.noSignUp _ (World.mem_of_answered hanswered).1)
  | nameWrite hsite huser =>
      cases hwrite
      obtain ⟨-, rfl, rfl⟩ := write_change .displayName rfl hchange
      cases hsite with
      | typed => exact Or.inl ⟨rfl, rfl⟩
      | signUp hanswered hcompletion =>
          exact absurd hcompletion (h.noSignUp _ (World.mem_of_answered hanswered).1)
  | @emailWrite index pending answer screen user hanswered hcompletion hsuccess huser =>
      cases hwrite
      obtain ⟨-, rfl, rfl⟩ := write_change .email rfl hchange
      obtain ⟨hmem, -⟩ := World.mem_of_answered hanswered
      obtain ⟨account, sent, hrequest⟩ :=
        Request.fits_updateEmail.mp (hcompletion ▸ (h.sound pending hmem).fits)
      obtain rfl := h.updates pending hmem account sent hrequest
      obtain ⟨-, hsent⟩ := h.typed pending hmem screen account sent hcompletion hrequest
      refine Or.inr ⟨pending, hmem, by simp [World.origin, hanswered], ?_⟩
      simp [hrequest, Request.change, hsent]
  | _ => cases hwrite

theorem fleetDevice_step (h : FleetDevice uid w.device) (hscope : DeviceScope uid w e) :
    FleetDevice uid (w.step e).device := by
  cases hcrashed : w.device.crashed with
  | true => rwa [World.step_of_crashed hcrashed]
  | false =>
      have hclock := World.clock_step (e := e) hcrashed
      refine ⟨World.sound_step h.sound e, hscope.session, World.opened_step h.opened, ?_, ?_, ?_,
        ?_, ?_, ?_, ?_⟩
      · intro screen user hscreen
        obtain hbefore | hopen := World.emailScreens_step hscreen
        · exact h.screens screen user hbefore
        · cases issued_of_mem hopen with
          | openUpdateEmail _ _ huser => simpa [huser] using h.session
      · intro pending hmem user email hrequest
        obtain ⟨before, hbefore, hsame, -⟩ | ⟨c, hc, hpending⟩ := World.mem_pending_step hmem
        · exact h.updates before hbefore user email (hsame ▸ hrequest)
        · cases issued_of_mem hc with
          | updateEmail hscreen =>
              cases hpending
              cases hrequest
              exact h.screens _ _ hscreen
          | _ => cases hpending <;> cases hrequest
      · intro pending hmem screen user email hcompletion hrequest
        obtain ⟨before, hbefore, hsame, hsame', -⟩ | ⟨c, hc, hpending⟩ :=
          World.mem_pending_step hmem
        · rw [hsame] at hrequest
          rw [hsame'] at hcompletion
          obtain ⟨hlt, htext⟩ := h.typed before hbefore screen user email hcompletion hrequest
          have hedit : ∀ text, e ≠ .editNewEmail screen text := by
            rintro text rfl
            exact hscope.usesApp before hbefore hcompletion
          obtain ⟨htext', hlt'⟩ := World.newEmail_step hlt hedit
          exact ⟨hlt', htext'.trans htext⟩
        · cases issued_of_mem hc with
          | @updateEmail own user hscreen =>
              cases hpending
              cases hrequest
              cases hcompletion
              obtain ⟨htext, hlt⟩ := World.newEmail_step (e := .updateEmailPressed screen)
                (h.opened screen _ hscreen) (by simp)
              exact ⟨hlt, htext⟩
          | _ => cases hpending <;> cases hrequest
      · intro pending hmem
        obtain ⟨before, hbefore, -, hsame, -⟩ | ⟨c, hc, hpending⟩ := World.mem_pending_step hmem
        · rw [hsame]
          exact h.noSignUp before hbefore
        · cases issued_of_mem hc with
          | createUser => exact hscope.usesApp.elim
          | _ => cases hpending <;> simp
      · intro write hmem
        obtain hmem | ⟨c, hc, hwrite⟩ := World.mem_writes_step hmem
        · exact h.writes write hmem
        · exact write_of_issued h hc hwrite
      · intro pending hmem
        rw [hclock]
        obtain ⟨before, hbefore, -, -, horigin⟩ | ⟨c, -, hpending⟩ := World.mem_pending_step hmem
        · rw [horigin]
          exact Nat.lt_succ_of_lt (h.requestsStarted before hbefore)
        · rw [Command.origin_of_pending _ hpending]
          exact Nat.lt_succ_of_le (World.origin_startedAt_le h.requestsStarted)
      · intro write hmem
        rw [hclock]
        obtain hmem | ⟨c, -, hwrite⟩ := World.mem_writes_step hmem
        · exact Nat.lt_succ_of_lt (h.writesStarted write hmem)
        · rw [Command.origin_of_write _ hwrite]
          exact Nat.lt_succ_of_le (World.origin_startedAt_le h.requestsStarted)

/-! ### What the servers hold -/

theorem accepted_eq_some {pending : Pending} :
    w.accepted e = some pending
      ↔ w.device.crashed = false
        ∧ ∃ index after, e = .answer index .success ∧ w.Answers index .success pending after := by
  constructor
  · intro h
    unfold World.accepted at h
    split at h
    · rename_i index
      obtain ⟨hpending, hgiven⟩ := Option.filter_eq_some_iff.mp h
      simp only [Bool.and_eq_true, Bool.not_eq_true', Option.isNone_iff_eq_none] at hgiven
      obtain ⟨⟨hrunning, hunanswered⟩, hrespond⟩ := hgiven
      obtain ⟨after, hrespond⟩ := Option.isSome_iff_exists.mp hrespond
      exact ⟨hrunning, index, after, rfl, hpending, hunanswered, hrespond,
        World.arrive_answer hpending hunanswered hrespond⟩
    · cases h
  · rintro ⟨hrunning, index, after, rfl, hanswers⟩
    simp [World.accepted, hanswers.pending_eq, Option.filter, hrunning, hanswers.unanswered,
      hanswers.respond_eq]

theorem accepted_eq_none (h : ∀ index pending after, e = .answer index .success →
    w.device.crashed = false → ¬ w.Answers index .success pending after) : w.accepted e = none := by
  by_contra hne
  obtain ⟨pending, haccepted⟩ := Option.ne_none_iff_exists'.mp hne
  obtain ⟨hrunning, index, after, he, hanswers⟩ := accepted_eq_some.mp haccepted
  exact h index pending after he hrunning hanswers

theorem authValue_step (hscope : DeviceScope uid w e) (haccount : (w.server.accounts uid).isSome) :
    (w.step e).server.authValue uid field
        = ((w.accepted e).bind fun pending => pending.request.change uid field).or
          (w.server.authValue uid field)
      ∧ ((w.step e).server.accounts uid).isSome := by
  cases hcrashed : w.device.crashed with
  | true =>
      rw [World.step_of_crashed hcrashed, accepted_eq_none (by simp [hcrashed])]
      exact ⟨rfl, haccount⟩
  | false =>
      rw [World.step_of_running hcrashed]
      cases e with
      | answer index answer =>
          by_cases hgiven : ∃ pending after, w.Answers index answer pending after
          · obtain ⟨pending, after, hanswers⟩ := hgiven
            rw [hanswers.arrive_eq]
            refine ⟨?_, accounts_isSome_respond hanswers.respond_eq haccount⟩
            rw [authValue_respond hanswers.respond_eq (fun hnone => by simp [hnone] at haccount)]
            split
            · rename_i hsuccess
              subst hsuccess
              rw [accepted_eq_some.mpr ⟨hcrashed, index, after, rfl, hanswers⟩]
              rfl
            · rename_i hne
              rw [accepted_eq_none (by rintro _ _ _ ⟨⟩; exact absurd rfl hne)]
              rfl
          · have hsame : w.arrive (.answer index answer) = w :=
              (w.arrive_answer_cases index answer).resolve_right hgiven
            rw [hsame, accepted_eq_none]
            · exact ⟨rfl, haccount⟩
            · rintro _ pending after ⟨⟩ - hanswers
              exact hgiven ⟨pending, after, hanswers⟩
      | complete index =>
          obtain ⟨pending, -, harrive⟩ := w.arrive_complete_eq index
          rw [harrive]
          exact ⟨rfl, haccount⟩
      | writeLands accepted =>
          obtain ⟨server, writes, haccounts, -, harrive⟩ := w.arrive_writeLands_eq accepted
          rw [harrive]
          simp only [Server.authValue, haccounts]
          exact ⟨rfl, haccount⟩
      | accountChanged account change =>
          have hne : uid ≠ account := fun heq => hscope.usesApp heq.symm
          simp only [World.arrive, Server.authValue, Function.update_of_ne hne]
          exact ⟨rfl, haccount⟩
      | _ => exact ⟨rfl, haccount⟩

theorem documentValue_step (h : FleetDevice uid w.device) (hscope : DeviceScope uid w e)
    (hdocument : (w.server.users uid).isSome) :
    (w.step e).server.documentValue uid field
        = ((w.landed e).bind (Write.change uid field)).or (w.server.documentValue uid field)
      ∧ ((w.step e).server.users uid).isSome := by
  cases hcrashed : w.device.crashed with
  | true =>
      have hnone : w.landed e = none := by
        unfold World.landed
        split <;> simp [hcrashed]
      rw [World.step_of_crashed hcrashed, hnone]
      exact ⟨rfl, hdocument⟩
  | false =>
      rw [World.step_of_running hcrashed]
      cases e with
      | answer index answer =>
          obtain hsame | ⟨pending, after, hanswers⟩ := w.arrive_answer_cases index answer
          · rw [hsame]
            exact ⟨rfl, hdocument⟩
          · rw [hanswers.arrive_eq]
            simp only [Server.documentValue,
              (Server.accountsAfter_of_respond hanswers.respond_eq).2]
            exact ⟨rfl, hdocument⟩
      | complete index =>
          obtain ⟨pending, -, harrive⟩ := w.arrive_complete_eq index
          rw [harrive]
          exact ⟨rfl, hdocument⟩
      | writeLands accepted =>
          cases hwrites : w.device.writes with
          | nil =>
              cases accepted <;> simp [World.arrive, World.landed, hwrites, hdocument]
          | cons write writes =>
              cases accepted with
              | false => simp [World.arrive, World.landed, hwrites, hdocument]
              | true =>
                  obtain ⟨own, value, hkind, hfields⟩ :=
                    h.writes write (hwrites ▸ List.mem_cons_self)
                  obtain ⟨document, hbefore⟩ := Option.isSome_iff_exists.mp hdocument
                  obtain ⟨after, hafter, hvalue⟩ := @string_apply field _ _ _ document hfields
                  simp only [World.arrive, World.landed, hwrites, hcrashed, if_true,
                    Server.documentValue, Server.applyWrite, hkind, List.head?_cons,
                    Bool.false_eq_true, if_false, Option.bind_some, change_of_fields hfields]
                  by_cases huid : write.uid = uid
                  · subst huid
                    simp [hbefore, hafter, hvalue]
                  · simp [huid, Function.update_of_ne (Ne.symm huid), hdocument]
      | documentChanged account document =>
          have hne : uid ≠ account := fun heq => hscope.usesApp heq.symm
          simp only [World.arrive, Server.documentValue, Function.update_of_ne hne]
          exact ⟨rfl, hdocument⟩
      | _ => exact ⟨rfl, hdocument⟩

theorem mem_of_accepted {pending : Pending} (h : w.accepted e = some pending) :
    pending ∈ w.device.pending := by
  obtain ⟨-, index, after, -, hanswers⟩ := accepted_eq_some.mp h
  exact List.mem_of_getElem? hanswers.pending_eq

theorem mem_of_landed {write : Write} (h : w.landed e = some write) : write ∈ w.device.writes := by
  unfold World.landed at h
  split at h
  · split at h
    · cases h
    · exact List.mem_of_mem_head? h
  · cases h

end Device

/-! ### The invariant of the fleet -/

structure FleetInv (uid : Uid) (field : ProfileField) (fleet : Fleet) : Prop where
  devices : ∀ (i : ℕ) (device : Device), fleet.devices[i]? = some device → FleetDevice uid device
  account : (fleet.server.accounts uid).isSome
  document : (fleet.server.users uid).isSome
  started : ∀ operation value, fleet.Carries uid field operation value →
    ∃ device, fleet.devices[operation.1]? = some device ∧ operation.2 < device.history.clock
  oneValue : Relator.RightUnique (fleet.Carries uid field)
  authHolds : fleet.authLast uid field ≠ none → (fleet.server.authValue uid field).isSome
  documentHolds : fleet.documentLast uid field ≠ none →
    (fleet.server.documentValue uid field).isSome
  untouched : fleet.authLast uid field = none → fleet.documentLast uid field = none →
    fleet.server.authValue uid field = fleet.server.documentValue uid field

section Step

variable {uid : Uid} {field : ProfileField} {fleet : Fleet} {i : ℕ} {e : Event} {device : Device}

theorem authLast_step (hdevice : fleet.devices[i]? = some device) :
    (fleet.step (i, e)).authLast uid field
      = (((fleet.world device).accepted e).bind fun pending =>
          (pending.request.change uid field).map fun _ => (i, pending.origin.startedAt)).or
            (fleet.authLast uid field) := by
  simp [Fleet.step, hdevice]

theorem documentLast_step (hdevice : fleet.devices[i]? = some device) :
    (fleet.step (i, e)).documentLast uid field
      = (((fleet.world device).landed e).bind fun write =>
          (write.change uid field).map fun _ => (i, write.origin.startedAt)).or
            (fleet.documentLast uid field) := by
  simp [Fleet.step, hdevice]

theorem server_step (hdevice : fleet.devices[i]? = some device) :
    (fleet.step (i, e)).server = ((fleet.world device).step e).server := by
  simp [Fleet.step, hdevice]

theorem devices_step (hdevice : fleet.devices[i]? = some device) :
    (fleet.step (i, e)).devices = fleet.devices.set i ((fleet.world device).step e).device := by
  simp [Fleet.step, hdevice]

theorem auth_step (h : FleetInv uid field fleet) (hdevice : fleet.devices[i]? = some device)
    (hscope : DeviceScope uid (fleet.world device) e) :
    ((fleet.step (i, e)).authLast uid field = fleet.authLast uid field
        ∧ (fleet.step (i, e)).server.authValue uid field = fleet.server.authValue uid field)
      ∨ ∃ pending ∈ device.pending, ∃ value, pending.request.change uid field = some value
        ∧ (fleet.step (i, e)).authLast uid field = some (i, pending.origin.startedAt)
        ∧ (fleet.step (i, e)).server.authValue uid field = some value := by
  rw [authLast_step hdevice, server_step hdevice,
    (authValue_step hscope h.account).1]
  cases haccepted : (fleet.world device).accepted e with
  | none => exact Or.inl ⟨rfl, rfl⟩
  | some pending =>
      cases hchange : pending.request.change uid field with
      | none => exact Or.inl ⟨by simp [hchange], by simp [hchange, Fleet.world]⟩
      | some value =>
          exact Or.inr ⟨pending, mem_of_accepted haccepted, value, hchange, by simp [hchange],
            by simp [hchange]⟩

theorem document_step (h : FleetInv uid field fleet) (hdevice : fleet.devices[i]? = some device)
    (hscope : DeviceScope uid (fleet.world device) e) :
    ((fleet.step (i, e)).documentLast uid field = fleet.documentLast uid field
        ∧ (fleet.step (i, e)).server.documentValue uid field
          = fleet.server.documentValue uid field)
      ∨ ∃ write ∈ device.writes, ∃ value, write.change uid field = some value
        ∧ (fleet.step (i, e)).documentLast uid field = some (i, write.origin.startedAt)
        ∧ (fleet.step (i, e)).server.documentValue uid field = some value := by
  rw [documentLast_step hdevice, server_step hdevice,
    (documentValue_step (h.devices i device hdevice) hscope h.document).1]
  cases hlanded : (fleet.world device).landed e with
  | none => exact Or.inl ⟨rfl, rfl⟩
  | some write =>
      cases hchange : write.change uid field with
      | none => exact Or.inl ⟨by simp [hchange], by simp [hchange, Fleet.world]⟩
      | some value =>
          exact Or.inr ⟨write, mem_of_landed hlanded, value, hchange, by simp [hchange],
            by simp [hchange]⟩

/-- A trace after a step was there before, or is of the operation that the step starts. -/
theorem carries_step (h : FleetInv uid field fleet) (hdevice : fleet.devices[i]? = some device)
    (hscope : DeviceScope uid (fleet.world device) e) {operation : Operation} {value : String}
    (hcarries : (fleet.step (i, e)).Carries uid field operation value) :
    fleet.Carries uid field operation value
      ∨ (device.crashed = false ∧ operation = (i, device.history.clock)
        ∧ (fleet.world device).submitted field e = some value) := by
  have hfleetDevice := h.devices i device hdevice
  have hlt := (List.getElem?_eq_some_iff.mp hdevice).1
  cases hcarries with
  | @request j after pending _ hafter hmem hchange =>
      rw [devices_step hdevice] at hafter
      by_cases hj : i = j
      · subst hj
        rw [List.getElem?_set_self hlt, Option.some.injEq] at hafter
        subst hafter
        obtain hmem | ⟨index, answer, before, server, -, hanswers, rfl⟩ | ⟨c, hc, hpending⟩ :=
          World.pending_step_cases hmem
        · exact Or.inl (.request hdevice hmem hchange)
        · exact Or.inl (@Fleet.Carries.request _ _ _ _ _ before _ hdevice
            (List.mem_of_getElem? hanswers.pending_eq) hchange)
        · obtain ⟨hstarted, hsubmitted⟩ := change_of_issued hfleetDevice hc hpending hchange
          exact Or.inr
            ⟨World.running_of_mem_commands hc, Prod.ext rfl hstarted, hsubmitted⟩
      · rw [List.getElem?_set_ne hj] at hafter
        exact Or.inl (.request hafter hmem hchange)
  | @write j after write _ hafter hmem hchange =>
      rw [devices_step hdevice] at hafter
      by_cases hj : i = j
      · subst hj
        rw [List.getElem?_set_self hlt, Option.some.injEq] at hafter
        subst hafter
        obtain hmem | ⟨c, hc, hwrite⟩ := World.mem_writes_step hmem
        · exact Or.inl (.write hdevice hmem hchange)
        · obtain ⟨hstarted, hsubmitted⟩ | ⟨pending, hpending, hstarted, hchange⟩ :=
            change_of_write hfleetDevice hc hwrite hchange
          · exact Or.inr
              ⟨World.running_of_mem_commands hc, Prod.ext rfl hstarted, hsubmitted⟩
          · exact Or.inl (hstarted ▸ .request hdevice hpending hchange)
      · rw [List.getElem?_set_ne hj] at hafter
        exact Or.inl (.write hafter hmem hchange)
  | auth hlast hvalue =>
      left
      obtain ⟨hsame, hsame'⟩ | ⟨pending, hmem, sent, hchange, hnew, hnew'⟩ :=
        auth_step h hdevice hscope
      · exact .auth (hsame ▸ hlast) (hsame' ▸ hvalue)
      · rw [hnew, Option.some.injEq] at hlast
        rw [hnew', Option.some.injEq] at hvalue
        subst hlast hvalue
        exact .request hdevice hmem hchange
  | document hlast hvalue =>
      left
      obtain ⟨hsame, hsame'⟩ | ⟨write, hmem, sent, hchange, hnew, hnew'⟩ :=
        document_step h hdevice hscope
      · exact .document (hsame ▸ hlast) (hsame' ▸ hvalue)
      · rw [hnew, Option.some.injEq] at hlast
        rw [hnew', Option.some.injEq] at hvalue
        subst hlast hvalue
        exact .write hdevice hmem hchange

theorem fleetInv_device_step (h : FleetInv uid field fleet)
    (hdevice : fleet.devices[i]? = some device) (hscope : DeviceScope uid (fleet.world device) e) :
    FleetInv uid field (fleet.step (i, e)) := by
  have hlt := (List.getElem?_eq_some_iff.mp hdevice).1
  have hauth := auth_step h hdevice hscope
  have hdocument := document_step h hdevice hscope
  refine ⟨?_, ?_, ?_, ?_, ?_, ?_, ?_, ?_⟩
  · intro j after hafter
    rw [devices_step hdevice] at hafter
    by_cases hj : i = j
    · subst hj
      rw [List.getElem?_set_self hlt, Option.some.injEq] at hafter
      subst hafter
      exact fleetDevice_step (h.devices i device hdevice) hscope
    · rw [List.getElem?_set_ne hj] at hafter
      exact h.devices j after hafter
  · rw [server_step hdevice]
    exact (@authValue_step uid field _ _ hscope h.account).2
  · rw [server_step hdevice]
    exact (@documentValue_step uid field _ _ (h.devices i device hdevice) hscope h.document).2
  · intro operation value hcarries
    rw [devices_step hdevice]
    obtain hbefore | ⟨hrunning, rfl, -⟩ := carries_step h hdevice hscope hcarries
    · obtain ⟨other, hother, hclock⟩ := h.started operation value hbefore
      by_cases hj : i = operation.1
      · rw [← hj] at hother ⊢
        rw [hdevice, Option.some.injEq] at hother
        subst hother
        refine ⟨_, List.getElem?_set_self hlt, ?_⟩
        cases hcrashed : device.crashed with
        | true =>
            rw [World.step_of_crashed (w := fleet.world device) hcrashed]
            exact hclock
        | false =>
            rw [World.clock_step (w := fleet.world device) hcrashed]
            exact Nat.lt_succ_of_lt hclock
      · exact ⟨other, by rwa [List.getElem?_set_ne hj], hclock⟩
    · refine ⟨_, List.getElem?_set_self hlt, ?_⟩
      rw [World.clock_step (w := fleet.world device) hrunning]
      exact Nat.lt_succ_self _
  · -- an operation that the step starts has no traces yet
    intro operation value other hvalue hother
    have hfresh {value : String} (hbefore : fleet.Carries uid field operation value)
        (heq : operation = (i, device.history.clock)) : False := by
      obtain ⟨owner, howner, hclock⟩ := h.started operation value hbefore
      subst heq
      rw [hdevice, Option.some.injEq] at howner
      subst howner
      exact absurd hclock (lt_irrefl _)
    obtain hvalue | ⟨-, heq, hsubmitted⟩ := carries_step h hdevice hscope hvalue
    · obtain hother | ⟨-, heq, -⟩ := carries_step h hdevice hscope hother
      · exact h.oneValue hvalue hother
      · exact (hfresh hvalue heq).elim
    · obtain hother | ⟨-, -, hsubmitted'⟩ := carries_step h hdevice hscope hother
      · exact (hfresh hother heq).elim
      · exact Option.some.inj (hsubmitted.symm.trans hsubmitted')
  · obtain ⟨hlast, hvalue⟩ | ⟨pending, -, value, -, -, hvalue⟩ := hauth
    · rw [hlast, hvalue]
      exact h.authHolds
    · exact fun _ => by simp [hvalue]
  · obtain ⟨hlast, hvalue⟩ | ⟨write, -, value, -, -, hvalue⟩ := hdocument
    · rw [hlast, hvalue]
      exact h.documentHolds
    · exact fun _ => by simp [hvalue]
  · obtain ⟨hlast, hvalue⟩ | ⟨pending, -, value, -, hlast, -⟩ := hauth
    · obtain ⟨hlast', hvalue'⟩ | ⟨write, -, value, -, hlast', -⟩ := hdocument
      · rw [hlast, hvalue, hlast', hvalue']
        exact h.untouched
      · simp [hlast']
    · simp [hlast]

theorem fleetInv_step (h : FleetInv uid field fleet) {event : ℕ × Event}
    (hscope : FleetScope uid fleet event) : FleetInv uid field (fleet.step event) := by
  obtain ⟨i, e⟩ := event
  cases hdevice : fleet.devices[i]? with
  | none =>
      have hsame : fleet.step (i, e) = fleet := by simp [Fleet.step, hdevice]
      rwa [hsame]
  | some device =>
      simp only [FleetScope, hdevice] at hscope
      exact fleetInv_device_step h hdevice hscope

theorem FleetInv.agree (h : FleetInv uid field fleet)
    (hlast : fleet.authLast uid field = fleet.documentLast uid field) :
    fleet.server.authValue uid field = fleet.server.documentValue uid field := by
  cases hauth : fleet.authLast uid field with
  | none => exact h.untouched hauth (hlast ▸ hauth)
  | some operation =>
      have hdocument : fleet.documentLast uid field = some operation := hlast ▸ hauth
      obtain ⟨value, hvalue⟩ := Option.isSome_iff_exists.mp (h.authHolds (by simp [hauth]))
      obtain ⟨other, hother⟩ := Option.isSome_iff_exists.mp (h.documentHolds (by simp [hdocument]))
      rw [hvalue, hother]
      exact congrArg some (h.oneValue (.auth hauth hvalue) (.document hdocument hother))

end Step

/-- The account exists, its two stores agree, and nothing is under way on any device. -/
structure FleetReady (uid : Uid) (server : Server) (devices : List Device) : Prop where
  account : (server.accounts uid).isSome
  document : (server.users uid).isSome
  agree : ∀ field, server.authValue uid field = server.documentValue uid field
  session : ∀ device ∈ devices, device.currentUser.map User.uid = none
    ∨ device.currentUser.map User.uid = some uid
  screens : ∀ device ∈ devices, ∀ screen user, (device.emailScreens screen).user = some user →
    user = uid ∧ screen < device.emailScreenCount
  idle : ∀ device ∈ devices, device.pending = [] ∧ device.writes = []

theorem fleetInv_initial {uid : Uid} {server : Server} {devices : List Device}
    (h : FleetReady uid server devices) (field : ProfileField) :
    FleetInv uid field (Fleet.initial server devices) := by
  have hnone : ∀ operation value,
      ¬ (Fleet.initial server devices).Carries uid field operation value := by
    intro operation value hcarries
    cases hcarries with
    | request hdevice hmem => simp [(h.idle _ (List.mem_of_getElem? hdevice)).1] at hmem
    | write hdevice hmem => simp [(h.idle _ (List.mem_of_getElem? hdevice)).2] at hmem
    | auth hlast => cases hlast
    | document hlast => cases hlast
  refine ⟨?_, h.account, h.document, fun operation value hcarries => (hnone _ _ hcarries).elim,
    fun operation value _ hcarries => (hnone _ _ hcarries).elim, fun hne => (hne rfl).elim,
    fun hne => (hne rfl).elim, fun _ _ => h.agree field⟩
  intro i device hdevice
  have hmem := List.mem_of_getElem? hdevice
  obtain ⟨hpending, hwrites⟩ := h.idle device hmem
  exact
    { sound := by simp [hpending]
      session := h.session device hmem
      opened := fun screen user hscreen => (h.screens device hmem screen user hscreen).2
      screens := fun screen user hscreen => (h.screens device hmem screen user hscreen).1
      updates := by simp [hpending]
      typed := by simp [hpending]
      noSignUp := by simp [hpending]
      writes := by simp [hwrites]
      requestsStarted := by simp [hpending]
      writesStarted := by simp [hwrites] }

/-- **The two stores agree on a value when both servers applied the same operation last**, for any
number of devices, in every interleaving, whatever is still under way. -/
theorem agree_of_same_last (uid : Uid) (server : Server) (devices : List Device)
    (events : List (ℕ × Event)) (field : ProfileField) (hready : FleetReady uid server devices)
    (hscope : Always Fleet.step (FleetScope uid) (Fleet.initial server devices) events)
    (hlast : (run Fleet.step (Fleet.initial server devices) events).authLast uid field
      = (run Fleet.step (Fleet.initial server devices) events).documentLast uid field) :
    (run Fleet.step (Fleet.initial server devices) events).server.authValue uid field
      = (run Fleet.step (Fleet.initial server devices) events).server.documentValue uid field := by
  have hstep : ∀ fleet event, FleetInv uid field fleet → FleetScope uid fleet event →
      FleetInv uid field (fleet.step event) := fun _ _ h hscope => fleetInv_step h hscope
  exact (run_invariant hstep (fleetInv_initial hready field) hscope).agree hlast

instance (uid : Uid) (w : World) (e : Event) : Decidable (UsesApp uid w e) := by
  unfold UsesApp
  apply @Event.casesOn _ e
  all_goals
    intros
    infer_instance

instance (uid : Uid) (w : World) (e : Event) : Decidable (DeviceScope uid w e) :=
  decidable_of_iff (_ ∧ _) ⟨fun h => ⟨h.1, h.2⟩, fun h => ⟨h.1, h.2⟩⟩

instance (uid : Uid) (fleet : Fleet) (event : ℕ × Event) :
    Decidable (FleetScope uid fleet event) := by
  unfold FleetScope
  refine Option.casesOn fleet.devices[event.1]? ?_ fun _ => ?_ <;> infer_instance

/-! Two devices of one account change the display name, and Firestore hears of the two changes in
one order or the other. -/

def annServer : Server :=
  { accounts := fun uid =>
      if uid = "ann" then
        some { email := "ann@example.org", password := "secret", displayName := some "Ann",
               photoURL := none }
      else none
    users := fun uid =>
      if uid = "ann" then
        some (Document.empty.merge
          [("displayName", .string "Ann"), ("email", .string "ann@example.org")])
      else none
    storage := fun _ => none }

def annDevice : Device := { Device.initial with currentUser := annServer.user "ann" }

theorem fleetReady_ann : FleetReady "ann" annServer [annDevice, annDevice] where
  account := rfl
  document := rfl
  agree := by rintro (_ | _) <;> rfl
  session := by decide
  screens := by simp [annDevice, Device.initial]
  idle := by decide

/-- The first device calls her Anna, the second Annie, and Auth hears of it in this order. -/
def renamedTwice : List (ℕ × Event) :=
  [(0, .editDisplayName 0 "Anna"), (0, .textFieldShouldReturn 0), (1, .editDisplayName 0 "Annie"),
    (1, .textFieldShouldReturn 0), (0, .answer 0 .success), (1, .answer 0 .success),
    (0, .complete 0), (1, .complete 0)]

theorem renamedTwice_agree :
    (run Fleet.step (Fleet.initial annServer [annDevice, annDevice])
        (renamedTwice ++ [(0, .writeLands true), (1, .writeLands true)])).server.authValue "ann"
          .displayName
      = (run Fleet.step (Fleet.initial annServer [annDevice, annDevice])
        (renamedTwice ++ [(0, .writeLands true), (1, .writeLands true)])).server.documentValue "ann"
          .displayName :=
  agree_of_same_last "ann" annServer [annDevice, annDevice] _ .displayName fleetReady_ann
    (by decide) (by decide)

/-- Everything has been applied, and Auth has one name, the document the other. -/
theorem renamedTwice_disagree :
    FleetReady "ann" annServer [annDevice, annDevice]
      ∧ Always Fleet.step (FleetScope "ann") (Fleet.initial annServer [annDevice, annDevice])
        (renamedTwice ++ [(1, .writeLands true), (0, .writeLands true)])
      ∧ (∀ device ∈ (run Fleet.step (Fleet.initial annServer [annDevice, annDevice])
        (renamedTwice ++ [(1, .writeLands true), (0, .writeLands true)])).devices,
          device.crashed = false ∧ device.pending = [] ∧ device.writes = [])
      ∧ (run Fleet.step (Fleet.initial annServer [annDevice, annDevice])
          (renamedTwice ++ [(1, .writeLands true), (0, .writeLands true)])).server.authValue "ann"
            .displayName = some "Annie"
      ∧ (run Fleet.step (Fleet.initial annServer [annDevice, annDevice])
          (renamedTwice ++ [(1, .writeLands true), (0, .writeLands true)])).server.documentValue
            "ann" .displayName = some "Anna" :=
  ⟨fleetReady_ann, by decide, by decide, by decide, by decide⟩

end ProductivityApp
