import MotionScript.Proofs.KeptBySignals

/-!
# Runs that nothing cancels

A request to cancel comes from outside, and only from a signal that makes one. So if there is no
request and none of the signals to come makes one, there will be none: neither the passing of time
nor a turn of an execution changes that.
-/
namespace MotionScript

/-- There is no request to cancel, and none will come. -/
structure Outside.Uncancelled (o : Outside) : Prop where
  now : o.surroundings.cancelled = false
  later : ∀ signal ∈ o.schedule.signals, signal.2.cancel = false

namespace Outside.Uncancelled

variable {o : Outside}

theorem keeps (h : o.Uncancelled) :
    o.Keeps (fun s => s.cancelled = false) (fun signal => signal.cancel = false) :=
  ⟨h.now, h.later⟩

theorem follow {State Result : Type} (h : o.Uncancelled) {t : Turn State Result}
    (ht : t.surroundings.cancelled = false) {state : State} {after : Outside}
    (hf : t.follow o = .inl (state, after)) : after.Uncancelled := by
  have hafter := h.keeps.follow (fun s signal hs hc => by simp [Surroundings.receive, hs, hc]) ht hf
  exact ⟨hafter.now, hafter.later⟩

end Outside.Uncancelled

namespace Execution

theorem cancelled_actuate (g : Graph) (settings : Settings) (e : Execution) (node : NodeId)
    (p : Payload) (repeats : Bool) (s : Surroundings) :
    (e.actuate g settings node p repeats s).surroundings.cancelled = s.cancelled := by
  unfold actuate
  split
  · rfl
  · split <;> rfl

theorem cancelled_visit (g : Graph) (settings : Settings) (e : Execution) (id : NodeId)
    (p : Payload) (s : Surroundings) :
    (e.visit g settings id p s).surroundings.cancelled = s.cancelled := by
  unfold visit
  split
  case h_2 => exact cancelled_actuate ..
  all_goals rfl

theorem cancelled_drive (d : Drive) (interval : Nat) (s : Surroundings) :
    (d.turn interval s).surroundings.cancelled = s.cancelled := by
  unfold Drive.turn
  split
  · rfl
  · split
    · rfl
    · split <;> rfl

theorem cancelled_turn (g : Graph) (settings : Settings) (e : Execution) (s : Surroundings) :
    (e.turn g settings s).surroundings.cancelled = s.cancelled := by
  unfold turn
  split
  case h_1 =>
    split
    · rfl
    · split
      · rfl
      · split
        · rfl
        · exact cancelled_visit ..
  case h_2 d _ _ =>
    simp only
    split <;> exact cancelled_drive d _ s
  case h_3 =>
    split
    · rfl
    · split
      · rfl
      · split
        · rfl
        · split
          · rfl
          · exact cancelled_actuate ..

end Execution
end MotionScript
