import MotionScript.Proofs.ExecutionHistory

/-!
# What no signal changes

While an activity rests, only signals change its surroundings. So what holds of the surroundings,
and is kept by every signal that may still come, holds after each rest.
-/
namespace MotionScript

def Schedule.signals : Schedule → List (Nat × Signal)
  | .atRests signals => signals
  | .atTimes signals => signals

theorem Outside.exists_fireDue (o : Outside) :
    ∃ surroundings reads, o.fireDue = { o with surroundings := surroundings, reads := reads } := by
  have hfold (due : List (Nat × Signal)) (o : Outside) : ∃ surroundings reads,
      due.foldl (fun o signal => o.fire signal.2) o =
        { o with surroundings := surroundings, reads := reads } := by
    induction due generalizing o with
    | nil => exact ⟨o.surroundings, o.reads, rfl⟩
    | cons signal due ih =>
      obtain ⟨surroundings, reads, hdue⟩ := ih (o.fire signal.2)
      exact ⟨surroundings, reads, hdue⟩
  unfold fireDue
  split
  · exact hfold _ o
  · exact ⟨o.surroundings, o.reads, rfl⟩

/-- Something holds of the surroundings, and all signals that may still come are of a certain
sort. -/
structure Outside.Keeps (kept : Surroundings → Prop) (sort : Signal → Prop)
    (o : Outside) : Prop where
  now : kept o.surroundings
  later : ∀ signal ∈ o.schedule.signals, sort signal.2

namespace Outside.Keeps

variable {kept : Surroundings → Prop} {sort : Signal → Prop} {o : Outside}

section

variable (hkept : ∀ s signal, kept s → sort signal → kept (s.receive signal).1)
include hkept

theorem fire (h : o.Keeps kept sort) {signal : Signal} (hs : sort signal) :
    (o.fire signal).Keeps kept sort :=
  ⟨hkept _ _ h.now hs, h.later⟩

theorem fireDue (h : o.Keeps kept sort) : o.fireDue.Keeps kept sort := by
  unfold Outside.fireDue
  split
  next signals hsch =>
    have hall : ∀ signal ∈ signals.filter (·.1 == o.rests), sort signal.2 := by
      intro signal hm
      exact h.later signal (by rw [hsch]; exact List.mem_of_mem_filter hm)
    clear hsch
    generalize signals.filter (·.1 == o.rests) = due at hall
    induction due generalizing o with
    | nil => exact h
    | cons signal rest ih =>
      exact ih (h.fire hkept (hall signal List.mem_cons_self)) fun s hm =>
        hall s (List.mem_cons_of_mem _ hm)
  next => exact h

theorem sleepUntil (h : o.Keeps kept sort) (deadline : Nat) {signals : List (Nat × Signal)}
    (hall : ∀ signal ∈ signals, sort signal.2) :
    (Outside.sleepUntil deadline signals o).Keeps kept sort := by
  induction signals generalizing o with
  | nil => exact ⟨h.now, by simp [Outside.sleepUntil, Schedule.signals]⟩
  | cons signal later ih =>
    have hlater : ∀ s ∈ later, sort s.2 := fun s hm => hall s (List.mem_cons_of_mem _ hm)
    have hfired := h.fire hkept (hall signal List.mem_cons_self)
    unfold Outside.sleepUntil
    simp only
    split
    · split
      · exact ⟨hfired.now, hlater⟩
      · exact ih ⟨hfired.now, hlater⟩ hlater
    · exact ⟨h.now, hall⟩

theorem pass (h : o.Keeps kept sort) (duration : Nat) : (o.pass duration).Keeps kept sort := by
  have hrested : Outside.Keeps kept sort { o with rests := o.rests + 1 } := ⟨h.now, h.later⟩
  unfold Outside.pass
  simp only
  split
  next signals hsch => exact Keeps.fireDue hkept ⟨h.now, h.later⟩
  next signals hsch =>
    split
    · exact hrested
    · refine hrested.sleepUntil hkept _ fun signal hm => h.later signal ?_
      rw [hsch]
      exact hm

/-- A turn that leaves surroundings of the same sort is followed by such an outside. -/
theorem follow {State Result : Type} (h : o.Keeps kept sort) {t : Turn State Result}
    (ht : kept t.surroundings) {state : State} {after : Outside}
    (hf : t.follow o = .inl (state, after)) : after.Keeps kept sort := by
  have hleft : Outside.Keeps kept sort { o with surroundings := t.surroundings } := ⟨ht, h.later⟩
  unfold Turn.follow at hf
  split at hf
  · cases hf
    exact hleft
  · cases hf
    exact hleft.pass hkept _
  · cases hf

end

end Outside.Keeps

/-! ## What every signal keeps -/

/-- A signal reads the input, which releases the buttons, or leaves the input alone. -/
theorem Surroundings.input_receive (s : Surroundings) (signal : Signal) :
    (s.receive signal).2 = none ∧ (s.receive signal).1.controller.input = s.controller.input ∨
      (s.receive signal).2 = some s.controller.input ∧
        (s.receive signal).1.controller.input = s.controller.input.clearButtons := by
  obtain ⟨landmarks, read, cancel, reset⟩ := signal
  cases read with
  | false => exact .inl ⟨rfl, by cases landmarks <;> rfl⟩
  | true => exact .inr ⟨by cases landmarks <;> rfl, by cases landmarks <;> rfl⟩

section

variable {kept : Surroundings → Array ControllerInput → Prop}
  (hkept : ∀ s reads signal, kept s reads →
    kept (s.receive signal).1 (reads ++ (s.receive signal).2.toList))
include hkept

theorem Outside.kept_fireDue {o : Outside} (h : kept o.surroundings o.reads) :
    kept o.fireDue.surroundings o.fireDue.reads := by
  unfold fireDue
  split
  next signals hsch =>
    clear hsch
    generalize signals.filter (·.1 == o.rests) = due
    induction due generalizing o with
    | nil => exact h
    | cons signal due ih => exact ih (o := o.fire signal.2) (hkept _ _ _ h)
  next => exact h

theorem Outside.kept_sleepUntil (deadline : Nat) (signals : List (Nat × Signal)) {o : Outside}
    (h : kept o.surroundings o.reads) :
    kept (sleepUntil deadline signals o).surroundings (sleepUntil deadline signals o).reads := by
  induction signals generalizing o with
  | nil => exact h
  | cons signal later ih =>
    unfold sleepUntil
    simp only
    split
    · split
      · exact hkept _ _ _ h
      · exact ih (hkept _ _ _ h)
    · exact h

/-- What holds of the surroundings and the reads, and is kept by every signal, holds after a
rest. -/
theorem Outside.kept_pass {o : Outside} (h : kept o.surroundings o.reads) (duration : Nat) :
    kept (o.pass duration).surroundings (o.pass duration).reads := by
  unfold pass
  simp only
  split
  · exact kept_fireDue hkept h
  · split
    · exact h
    · exact kept_sleepUntil hkept _ _ h

theorem Turn.kept_follow {State Result : Type} {t : Turn State Result} {o after : Outside}
    {state : State} (h : kept t.surroundings o.reads) (hf : t.follow o = .inl (state, after)) :
    kept after.surroundings after.reads := by
  unfold Turn.follow at hf
  split at hf
  · cases hf
    exact h
  · cases hf
    exact Outside.kept_pass hkept (o := { o with surroundings := t.surroundings }) h _
  · cases hf

end

end MotionScript
