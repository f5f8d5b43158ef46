import Rtbus.Native.Sleep

/-!
# Steps that leave the native service alone

The runtime moves, drains, dispatches and finishes events without touching the statics of the native
service, but for the queue that it drains.
-/

namespace Rtbus.Native

open Rtbus.Emos Rtbus.Pool

variable {cfg : Config} {s s' : System}

/-- The steps that are about the buses and the clock only. -/
def Event.ofBus : Event → Bool
  | .post _ | .postDelay _ _ | .advance _ | .process | .move | .drain | .dispatch | .finish => true
  | _ => false

/-- Taking an event out of its queue leaves the service alone. -/
theorem removeNode_rest {bus bus' : Bus Task Service} {p node : Nat}
    (h : removeNode bus p node = some bus') : bus'.rest = bus.rest := by
  unfold removeNode at h
  split at h <;> cases h
  rfl

/-- So does posting one. -/
theorem post_rest {args : PostArgs} (h : s.post args = some s') : s'.bus.rest = s.bus.rest := by
  unfold System.post at h
  split at h
  · cases h
  all_goals
    rename_i hpost
    cases h
    exact (rtbusPost_sem hpost).1

/-- So does posting one with a delay. -/
theorem postDelay_rest {args : PostArgs} {delayMs : UInt32}
    (h : s.postDelay cfg args delayMs = some s') : s'.bus.rest = s.bus.rest := by
  unfold System.postDelay at h
  split at h
  · exact post_rest h
  · rename_i hdelay
    split at h
    · cases h
    · rename_i bus ret hres
      cases h
      unfold rtbusPostDelay at hres
      rw [if_neg hdelay] at hres
      split at hres
      · cases hres
        rfl
      · split at hres
        · cases hres
          rfl
        · split at hres <;> cases hres <;> rfl

/-- So does moving those that are due. -/
theorem move_rest (h : s.move = some s') : s'.bus.rest = s.bus.rest := by
  unfold System.move at h
  split at h
  · split at h
    · cases h
      rfl
    · split at h
      · cases h
        rfl
      · split at h
        · cases h
        all_goals
          rename_i hpost
          cases h
          exact (emosPost_sem hpost).1
  · cases h

/-- Draining takes messages and leaves all else of the service. -/
theorem drain_rest (h : s.drain = some s') :
    ∃ msgq, s'.bus.rest = { s.bus.rest with postMsgq := msgq } := by
  unfold System.drain at h
  split at h
  · split at h
    · cases h
      exact ⟨s.bus.rest.postMsgq, rfl⟩
    · rename_i request rest hmsgq
      split at h
      · cases h
      all_goals
        rename_i hpost
        cases h
        exact ⟨rest, (rtbusPost_sem hpost).1⟩
  · cases h

/-- Calling a handler is not yet what it does to the service. -/
theorem dispatch_rest (h : s.dispatch = some s') : s'.bus.rest = s.bus.rest := by
  unfold System.dispatch at h
  split at h
  · split at h
    · split at h <;> cases h <;> rfl
    · dsimp only at h
      split at h
      · obtain ⟨bus, hremove, rfl⟩ := Option.map_eq_some_iff.mp h
        exact removeNode_rest hremove
      · split at h
        · obtain ⟨bus, hremove, rfl⟩ := Option.map_eq_some_iff.mp h
          exact removeNode_rest hremove
        · cases h
          rfl
  · cases h

/-- Nor does a turn that ends change it. -/
theorem finish_rest (h : s.finish = some s') : s'.bus.rest = s.bus.rest := by
  unfold System.finish at h
  split at h
  · obtain ⟨bus, hremove, rfl⟩ := Option.map_eq_some_iff.mp h
    exact removeNode_rest hremove
  · cases h
    rfl
  · cases h

/-- A step that is about the bus changes the message queue of the native service at most. -/
theorem step_rest {e : Event} (bus : e.ofBus = true) (h : System.step cfg e s = some s') :
    ∃ msgq, s'.bus.rest = { s.bus.rest with postMsgq := msgq } := by
  have same : s'.bus.rest = s.bus.rest →
      ∃ msgq, s'.bus.rest = { s.bus.rest with postMsgq := msgq } :=
    fun hrest => ⟨s.bus.rest.postMsgq, hrest⟩
  cases e with
  | post args => exact same (post_rest h)
  | postDelay args delayMs => exact same (postDelay_rest h)
  | advance ms =>
    cases h
    exact same rfl
  | process =>
    have h : s.process = some s' := h
    unfold System.process at h
    split at h <;> cases h
    exact same rfl
  | move => exact same (move_rest h)
  | drain => exact drain_rest h
  | dispatch => exact same (dispatch_rest h)
  | finish => exact same (finish_rest h)
  | _ => cases bus

end Rtbus.Native
