import ProductivityApp.System.Stores

/-!
# Several devices and the services they share

Each device runs the app on its own and talks to the same servers, so an event happens on one device
and a run is any interleaving of what happens on each. The display name and the email of an account
are kept by Auth and in the document `users/{uid}`; for each of the two values, each server
remembers here which operation it has applied last. No device and no server reads that; the laws are
about it.
-/

namespace ProductivityApp

/-- A device by its place among the devices, and the moment an operation was started there. -/
abbrev Operation := ℕ × ℕ

structure Fleet where
  server : Server
  devices : List Device
  /-- The operation whose change Auth has applied last. -/
  authLast : Uid → ProfileField → Option Operation
  /-- The operation whose change Firestore has applied last. -/
  documentLast : Uid → ProfileField → Option Operation

/-- The request Auth accepts in this event. -/
def World.accepted (w : World) : Event → Option Pending
  | .answer index .success =>
      w.device.pending[index]?.filter fun pending =>
        !w.device.crashed && pending.answer.isNone
          && (w.server.respond pending.request .success).isSome
  | _ => none

/-- The write Firestore accepts in this event. -/
def World.landed (w : World) : Event → Option Write
  | .writeLands true => if w.device.crashed then none else w.device.writes.head?
  | _ => none

namespace Fleet

def world (fleet : Fleet) (device : Device) : World := { server := fleet.server, device }

def step (fleet : Fleet) (event : ℕ × Event) : Fleet :=
  match fleet.devices[event.1]? with
  | none => fleet
  | some device =>
      let w := fleet.world device
      let after := w.step event.2
      { server := after.server
        devices := fleet.devices.set event.1 after.device
        authLast := fun uid field =>
          ((w.accepted event.2).bind fun pending =>
            (pending.request.change uid field).map fun _ => (event.1, pending.origin.startedAt)).or
              (fleet.authLast uid field)
        documentLast := fun uid field =>
          ((w.landed event.2).bind fun write =>
            (write.change uid field).map fun _ => (event.1, write.origin.startedAt)).or
              (fleet.documentLast uid field) }

/-- Nothing has been applied yet. -/
def initial (server : Server) (devices : List Device) : Fleet :=
  { server, devices, authLast := fun _ _ => none, documentLast := fun _ _ => none }

end Fleet

end ProductivityApp
