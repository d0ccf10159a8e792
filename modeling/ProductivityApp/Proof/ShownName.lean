import ProductivityApp.Proof.Picture
import ProductivityApp.System.NameField
import Mathlib.Data.List.Induction

/-!
# The name shown in Settings

A snapshot sets the title and the field, the completion of the reload sets the field alone, and
neither knows which name is newer. So what is shown depends on the order of arrival: the title is
always that of the last snapshot, and the field follows it exactly when the reload has not come
after that snapshot with another name.
-/

namespace ProductivityApp

open EventSystem

/-- The name in the last snapshot, or the one the screen has opened with. -/
def lastName (opening : Option String) (deliveries : List NameDelivery) : Option String :=
  deliveries.foldl
    (fun last delivery =>
      match delivery with
      | .snapshot name => name
      | .reload _ => last)
    opening

/-- The screen shows the last name in both places, whatever came before it, and title and field do
not name different names. -/
structure ShownName.Shows (shown : ShownName) (last : Option String) : Prop where
  name : ∀ name, last = some name → shown = .named name
  agree : shown.title = "Settings" ∨ shown.title = shown.field ++ "'s Settings"

/-- The reload is not the last to come, or brings the name of the last snapshot. -/
def ReloadFits (opening : Option String) (deliveries : List NameDelivery) : Prop :=
  ∀ name last, deliveries.getLast? = some (.reload name) →
    lastName opening deliveries = some last → name.getD "" = last

section

variable {opening : Option String} {deliveries : List NameDelivery}

@[simp]
theorem lastName_nil : lastName opening [] = opening := rfl

@[simp]
theorem lastName_snapshot {name : Option String} :
    lastName opening (deliveries ++ [.snapshot name]) = name := by
  simp [lastName]

@[simp]
theorem lastName_reload {name : Option String} :
    lastName opening (deliveries ++ [.reload name]) = lastName opening deliveries := by
  simp [lastName]

theorem title_deliveries :
    (deliveries.foldl ShownName.receive (.opened opening)).title
      = (ShownName.opened (lastName opening deliveries)).title := by
  induction deliveries using List.reverseRecOn with
  | nil => rfl
  | append_singleton deliveries delivery ih =>
      rw [List.foldl_append]
      cases delivery with
      | snapshot name =>
          rw [lastName_snapshot]
          cases name <;> rfl
      | reload name =>
          rw [lastName_reload, ← ih]
          rfl

theorem field_deliveries {last : String} (hlast : lastName opening deliveries = some last) :
    (deliveries.foldl ShownName.receive (.opened opening)).field
      = match deliveries.getLast? with
        | some (.reload name) => name.getD ""
        | _ => last := by
  induction deliveries using List.reverseRecOn with
  | nil =>
      rw [lastName_nil] at hlast
      rw [hlast]
      rfl
  | append_singleton deliveries delivery ih =>
      rw [List.foldl_append, List.getLast?_concat]
      cases delivery with
      | snapshot name =>
          rw [lastName_snapshot] at hlast
          rw [hlast]
          rfl
      | reload name => rfl

theorem shows_deliveries_iff :
    (deliveries.foldl ShownName.receive (.opened opening)).Shows (lastName opening deliveries)
      ↔ ReloadFits opening deliveries := by
  have htitle := @title_deliveries opening deliveries
  constructor
  · intro h name last hreload hlast
    have hfield := field_deliveries hlast
    rw [hreload, h.name last hlast] at hfield
    exact hfield.symm
  · intro hfits
    have hname : ∀ name, lastName opening deliveries = some name →
        deliveries.foldl ShownName.receive (.opened opening) = .named name := by
      intro name hlast
      have hfield := field_deliveries hlast
      rw [hlast] at htitle
      have hshown : (deliveries.foldl ShownName.receive (.opened opening)).field = name := by
        rw [hfield]
        split
        · rename_i reloaded hreload
          exact hfits reloaded name hreload hlast
        · rfl
      exact ShownName.ext htitle hshown
    refine ⟨hname, ?_⟩
    cases hlast : lastName opening deliveries with
    | none =>
        left
        rw [htitle, hlast]
        rfl
    | some name =>
        right
        rw [hname name hlast]
        rfl

end

def annaDocument : Document :=
  Document.empty.merge
    [("email", .string "ann@example.org"), ("displayName", .string "Anna")]

end ProductivityApp
