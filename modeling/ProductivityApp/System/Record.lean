import ProductivityApp.System.Calls

/-!
# Records

The closures of the app read the text fields and the session when they run, which may be long after
the button was pressed. The laws about them speak of what was there at the press, so a record keeps
the device of every moment beside the world. A call finds the device it was asked for on by the
moment in its origin, and what held between the two when the call was made holds until its
completion has run.
-/

namespace ProductivityApp

structure Record where
  world : World
  /-- The device at each moment before now. -/
  past : ℕ → Device

namespace Record

def step (record : Record) (e : Event) : Record :=
  { world := record.world.step e
    past := Function.update record.past record.world.device.history.clock record.world.device }

/-- The device on which the operation of this call was started. -/
def started (record : Record) (pending : Pending) : Device := record.past pending.origin.startedAt

def installed (server : Server) : Record :=
  { world := World.installed server, past := fun _ => Device.initial }

@[simp]
theorem world_step (record : Record) (e : Event) :
    (record.step e).world = record.world.step e := rfl

/-- The calls with these closures stand in this relation to the device they were asked for on. -/
def Keeps (kind : Completion → Prop) (relation : Device → Pending → Prop) (record : Record) :
    Prop :=
  ∀ pending ∈ record.world.device.pending, kind pending.completion →
    pending.origin.startedAt < record.world.device.history.clock
      ∧ relation (record.started pending) pending

variable {kind : Completion → Prop} {relation : Device → Pending → Prop} {record : Record}
  {e : Event}

theorem clock_le_step :
    record.world.device.history.clock ≤ (record.step e).world.device.history.clock := by
  cases hcrashed : record.world.device.crashed with
  | true => rw [world_step, World.step_of_crashed hcrashed]
  | false =>
      rw [world_step, World.clock_step hcrashed]
      exact Nat.le_succ _

theorem started_step {pending : Pending}
    (h : pending.origin.startedAt < record.world.device.history.clock) :
    (record.step e).started pending = record.started pending :=
  Function.update_of_ne (Nat.ne_of_lt h) _ _

theorem keeps_step (h : record.Keeps kind relation)
    (hsame : ∀ device before after, before.SameCall after → relation device before →
      relation device after)
    (hissued : ∀ c ∈ record.world.commands e, ∀ pending,
      c.pending (record.world.origin e) = some pending → kind pending.completion →
        (∀ index, e ≠ .complete index) ∧ relation record.world.device pending) :
    (record.step e).Keeps kind relation := by
  intro pending hmem hkind
  obtain ⟨before, hbefore, hcall⟩ | ⟨c, hc, hpending⟩ := World.mem_pending_step hmem
  · obtain ⟨hlt, hrelation⟩ := h before hbefore (hcall.2.1 ▸ hkind)
    rw [started, hcall.2.2]
    refine ⟨hlt.trans_le clock_le_step, hsame _ before pending hcall ?_⟩
    rwa [← started, started_step hlt]
  · obtain ⟨hstarts, hrelation⟩ := hissued c hc pending hpending hkind
    have hstarted : pending.origin.startedAt = record.world.device.history.clock := by
      rw [Command.origin_of_pending _ hpending]
      cases e with
      | complete index => exact absurd rfl (hstarts index)
      | _ => rfl
    refine ⟨?_, ?_⟩
    · rw [world_step, World.clock_step (World.running_of_mem_commands hc), hstarted]
      exact Nat.lt_succ_self _
    · rw [started, hstarted]
      simpa [step] using hrelation

theorem keeps_installed (server : Server) : (installed server).Keeps kind relation := by
  intro pending hmem
  cases hmem

end Record

end ProductivityApp
