import Mathlib.Data.List.Basic

/-!
# Relays

One value in two stores. A write changes the first store at once and queues the value for the
second, which takes what is queued in order. While something is queued the stores may differ; when
nothing is, they agree. The queue of a real system is rarely a list of values: it is what a list of
calls says about them, so the second half is about the queue a partial function reads off a list.
-/

namespace EventSystem

variable {α β : Type}

structure Relay (α : Type) where
  primary : Option α
  queue : List α
  secondary : Option α

namespace Relay

def write (relay : Relay α) (value : α) : Relay α :=
  { relay with primary := some value, queue := relay.queue ++ [value] }

def deliver (relay : Relay α) : Relay α :=
  match relay.queue with
  | [] => relay
  | value :: queue => { relay with queue, secondary := some value }

inductive Step : Relay α → Relay α → Prop
  | idle (relay : Relay α) : Step relay relay
  | write (relay : Relay α) (value : α) : Step relay (relay.write value)
  | deliver (relay : Relay α) : Step relay relay.deliver

/-- What the second store will hold is what the first one holds, if it holds anything. -/
def Consistent (relay : Relay α) : Prop :=
  relay.primary = none ∨ relay.queue.getLast?.or relay.secondary = relay.primary

theorem Consistent.write {relay : Relay α} (value : α) : (relay.write value).Consistent := by
  right
  simp [Relay.write]

theorem Consistent.deliver {relay : Relay α} (h : relay.Consistent) :
    relay.deliver.Consistent := by
  unfold Relay.deliver
  split
  · exact h
  · rename_i value queue hqueue
    refine h.imp id fun h => ?_
    rw [hqueue, List.getLast?_cons] at h
    rw [← h]
    cases hlast : queue.getLast? with
    | none => simp
    | some last => simp

theorem Consistent.step {before after : Relay α} (h : before.Consistent)
    (hstep : Step before after) : after.Consistent := by
  cases hstep with
  | idle => exact h
  | write value => exact .write value
  | deliver => exact h.deliver

theorem Consistent.secondary_eq {relay : Relay α} (h : relay.Consistent) (hqueue : relay.queue = [])
    (hprimary : relay.primary ≠ none) : relay.secondary = relay.primary := by
  have h := h.resolve_left hprimary
  simpa [hqueue] using h

end Relay

/-! ### A queue read off a list of calls -/

variable {f : β → Option α} {calls : List β} {i : ℕ} {before after : β}

theorem filterMap_set (h : calls[i]? = some before) :
    (calls.set i after).filterMap f
      = (calls.take i).filterMap f ++ (f after).toList ++ (calls.drop (i + 1)).filterMap f := by
  obtain ⟨hlt, -⟩ := List.getElem?_eq_some_iff.mp h
  rw [List.set_eq_take_append_cons_drop, if_pos hlt, List.filterMap_append, List.filterMap_cons]
  cases f after <;> simp

theorem filterMap_eq_of_getElem? (h : calls[i]? = some before) :
    calls.filterMap f
      = (calls.take i).filterMap f ++ (f before).toList ++ (calls.drop (i + 1)).filterMap f := by
  obtain ⟨hlt, rfl⟩ := List.getElem?_eq_some_iff.mp h
  rw [← filterMap_set h, List.set_getElem_self]

/-- A call that counts from now on, with none that counts after it, is queued last. -/
theorem filterMap_set_append (h : calls[i]? = some before) (hbefore : f before = none)
    (hlast : (calls.drop (i + 1)).filterMap f = []) :
    (calls.set i after).filterMap f = calls.filterMap f ++ (f after).toList := by
  rw [filterMap_set h, filterMap_eq_of_getElem? h, hbefore, hlast]
  simp

theorem filterMap_set_eq (h : calls[i]? = some before) (heq : f after = f before) :
    (calls.set i after).filterMap f = calls.filterMap f := by
  rw [filterMap_set h, filterMap_eq_of_getElem? h, heq]

theorem filterMap_eraseIdx :
    (calls.eraseIdx i).filterMap f
      = (calls.take i).filterMap f ++ (calls.drop (i + 1)).filterMap f := by
  rw [List.eraseIdx_eq_take_drop_succ, List.filterMap_append]

theorem filterMap_eraseIdx_head (h : calls[i]? = some before)
    (hfirst : (calls.take i).filterMap f = []) :
    calls.filterMap f = (f before).toList ++ (calls.eraseIdx i).filterMap f := by
  rw [filterMap_eraseIdx, filterMap_eq_of_getElem? h, hfirst]
  simp

theorem filterMap_eraseIdx_eq (h : calls[i]? = some before) (hnone : f before = none) :
    (calls.eraseIdx i).filterMap f = calls.filterMap f := by
  rw [filterMap_eraseIdx, filterMap_eq_of_getElem? h, hnone]
  simp

/-! ### The order of a list of calls -/

theorem rel_of_pairwise {R : β → β → Prop} {j : ℕ} {later : β} (h : calls.Pairwise R)
    (hi : calls[i]? = some before) (hj : calls[j]? = some later) (hij : i < j) :
    R before later := by
  obtain ⟨hlti, rfl⟩ := List.getElem?_eq_some_iff.mp hi
  obtain ⟨hltj, rfl⟩ := List.getElem?_eq_some_iff.mp hj
  exact List.pairwise_iff_getElem.mp h i j hlti hltj hij

theorem pairwise_set {R : β → β → Prop} (h : calls.Pairwise R) (hi : calls[i]? = some before)
    (hleft : ∀ call ∈ calls, R call before → R call after)
    (hright : ∀ call ∈ calls, R before call → R after call) : (calls.set i after).Pairwise R := by
  obtain ⟨hlt, rfl⟩ := List.getElem?_eq_some_iff.mp hi
  rw [List.set_eq_take_append_cons_drop, if_pos hlt]
  rw [← List.take_append_drop i calls, List.drop_eq_getElem_cons hlt] at h
  rw [List.pairwise_append, List.pairwise_cons] at h ⊢
  obtain ⟨htake, ⟨hhead, hdrop⟩, hcross⟩ := h
  refine ⟨htake, ⟨fun call hmem => ?_, hdrop⟩, fun call hmem later hlater => ?_⟩
  · exact hright call (List.mem_of_mem_drop hmem) (hhead call hmem)
  · obtain rfl | hlater := List.mem_cons.mp hlater
    · exact hleft call (List.mem_of_mem_take hmem) (hcross call hmem _ List.mem_cons_self)
    · exact hcross call hmem later (List.mem_cons_of_mem _ hlater)

/-! ### Finding a call -/

section Exists

variable {P : β → Prop}

theorem exists_mem_set (h : calls[i]? = some before) (hafter : P before → P after)
    (hexists : ∃ call ∈ calls, P call) : ∃ call ∈ calls.set i after, P call := by
  obtain ⟨call, hmem, hcall⟩ := hexists
  obtain ⟨j, hj⟩ := List.mem_iff_getElem?.mp hmem
  by_cases hij : i = j
  · subst hij
    obtain ⟨hlt, -⟩ := List.getElem?_eq_some_iff.mp h
    obtain rfl := Option.some.inj (h.symm.trans hj)
    exact ⟨after, List.mem_set hlt _, hafter hcall⟩
  · exact ⟨call, List.mem_iff_getElem?.mpr ⟨j, by rwa [List.getElem?_set_ne hij]⟩, hcall⟩

theorem exists_mem_eraseIdx (h : calls[i]? = some before) (hbefore : ¬ P before)
    (hexists : ∃ call ∈ calls, P call) : ∃ call ∈ calls.eraseIdx i, P call := by
  obtain ⟨call, hmem, hcall⟩ := hexists
  obtain ⟨j, hj⟩ := List.mem_iff_getElem?.mp hmem
  have hij : j ≠ i := by
    rintro rfl
    obtain rfl := Option.some.inj (h.symm.trans hj)
    exact hbefore hcall
  exact ⟨call, List.mem_eraseIdx_iff_getElem?.mpr ⟨j, hij, hj⟩, hcall⟩

end Exists

end EventSystem
