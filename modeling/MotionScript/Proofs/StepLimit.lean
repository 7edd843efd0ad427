import MotionScript.Proofs.CancelledRuns

/-!
# Bounded executions

A bound on the visited nodes is looked at only when an execution arrives at a node and is not
cancelled. Up to the first time that it has then visited as many nodes as the bound allows, it goes
as it would without a bound; there it ends. An execution that never gets there does not notice the
bound.
-/
namespace MotionScript

def Settings.withBound (settings : Settings) (m : Nat) : Settings := { settings with maxSteps := m }

@[simp] theorem Settings.maxSteps_withBound (settings : Settings) (m : Nat) :
    (settings.withBound m).maxSteps = m := rfl

namespace Execution

variable {g : Graph} {settings : Settings} {m : Nat} {e : Execution} {s : Surroundings}

theorem steps_of_stateAfter {turns : Nat} {o after : Outside} {next : Execution}
    (h : stateAfter (turn g settings) turns e o = some (next, after)) :
    next.steps = e.steps + (marks (visiting? g settings) (turn g settings) turns e o).length := by
  have hstart : e.steps = e.steps + ([] : List NodeId).length := rfl
  have hkept := stateAfter_induction (visiting? g settings)
    (fun ids next _ => next.steps = e.steps + ids.length)
    (fun ids next s hsteps => (leads_turn_steps g settings next s).imp
      (fun _ _ h => by rw [h, hsteps, List.length_append, Nat.add_assoc]) fun _ h => h)
    hstart h
  simpa using hkept

/-! ## Where a bound is noticed -/

/-- An execution arrives at a node after as many visits as a bound allows, and is not cancelled. -/
def AtLimit (g : Graph) (m : Nat) (e : Execution) (s : Surroundings) : Prop :=
  ∃ id < g.size, e.stage = .arriving (some id) ∧ s.cancelled = false ∧ m ≤ e.steps

theorem turn_of_atLimit (settings : Settings) (hm : 0 < m) (h : e.AtLimit g m s) :
    e.turn g (settings.withBound m) s = e.finish .stepLimit s := by
  obtain ⟨id, hid, hstage, hs, hsteps⟩ := h
  obtain ⟨node, hn⟩ := Graph.exists_node hid
  simp [turn, hstage, hn, hs, hm, hsteps]

/-- Elsewhere a bound makes no difference. -/
theorem turn_of_not_atLimit (h : ¬ e.AtLimit g m s) :
    e.turn g (settings.withBound m) s = e.turn g (settings.withBound 0) s := by
  unfold turn
  split
  next next hstage =>
    cases next with
    | none => rfl
    | some id =>
      cases hn : g.node? id with
      | none => simp [hn]
      | some node =>
        by_cases hs : s.cancelled = true
        · simp [hn, hs]
        · have hbelow :
              ¬ (0 < (settings.withBound m).maxSteps ∧ (settings.withBound m).maxSteps ≤ e.steps) :=
            fun hsteps => h ⟨id, Graph.lt_size_of_node? hn, hstage, by simpa using hs, hsteps.2⟩
          have hnone :
              ¬ (0 < (settings.withBound 0).maxSteps ∧ (settings.withBound 0).maxSteps ≤ e.steps) :=
            fun hsteps => Nat.lt_irrefl 0 hsteps.1
          simp only [hn, Option.bind_some, Option.map_some, hs, Bool.false_eq_true, if_false]
          rw [if_neg hbelow, if_neg hnone]
          rfl
  next => rfl
  next => rfl

theorem visiting?_of_not_atLimit (h : ¬ e.AtLimit g m s) :
    e.visiting? g (settings.withBound m) s = e.visiting? g (settings.withBound 0) s := by
  unfold visiting?
  split
  next id hstage =>
    have hsteps : id < g.size ∧ s.cancelled = false → ¬ (0 < m ∧ m ≤ e.steps) := fun hid hsteps =>
      h ⟨id, hid.1, hstage, hid.2, hsteps.2⟩
    simp only [Settings.maxSteps_withBound, Nat.lt_irrefl, false_and, not_false_eq_true, and_true]
    refine if_congr ⟨fun hvisits => ⟨hvisits.1, hvisits.2.1⟩, fun hid => ⟨hid.1, hid.2, hsteps hid⟩⟩
      rfl rfl
  next => rfl

theorem exists_visiting_of_atLimit (settings : Settings) (h : e.AtLimit g m s) :
    ∃ id, e.visiting? g (settings.withBound 0) s = some id := by
  obtain ⟨id, hid, hstage, hs, -⟩ := h
  exact ⟨id, by simp [visiting?, hstage, hid, hs]⟩

theorem steps_lt_of_visiting (hm : 0 < m) {id : NodeId}
    (h : e.visiting? g (settings.withBound m) s = some id) :
    e.steps < m := by
  unfold visiting? at h
  split at h
  · split at h
    next hvisits => exact Nat.lt_of_not_le fun hle => hvisits.2.2 ⟨hm, hle⟩
    next => cases h
  · cases h

theorem length_marks_bounded (g : Graph) (settings : Settings) (hm : 0 < m) (o : Outside)
    (hsteps : e.steps ≤ m) (turns : Nat) :
    e.steps + (marks (visiting? g (settings.withBound m)) (turn g (settings.withBound m))
      turns e o).length ≤ m := by
  induction turns generalizing e o with
  | zero => simpa [marks, history] using hsteps
  | succ turns ih =>
    rw [marks_succ, List.length_append, ← Nat.add_assoc]
    have hnow : e.steps +
        (e.visiting? g (settings.withBound m) o.surroundings).toList.length ≤ m := by
      cases hvis : e.visiting? g (settings.withBound m) o.surroundings with
      | none => simpa using hsteps
      | some id => exact steps_lt_of_visiting hm hvis
    rcases (leads_turn_steps g (settings.withBound m) e o.surroundings).follow
      o with ⟨next, after, hf, hnext⟩ | ⟨_, hf, -⟩
    · simp only [hf]
      rw [← hnext] at hnow ⊢
      exact ih after hnow
    · simpa only [hf, List.length_nil, Nat.add_zero] using hnow

/-- Only a bound ends an execution as one that was bounded. -/
theorem atLimit_of_finish (h : e.turn g settings s = e.finish .stepLimit s) :
    e.AtLimit g settings.maxSteps s := by
  cases hstage : e.stage with
  | arriving next =>
    simp only [turn, hstage] at h
    split at h
    next => cases h
    next id p hnext =>
      obtain ⟨id', rfl, hid⟩ := Option.bind_eq_some_iff.mp hnext
      obtain ⟨node, hn, hp⟩ := Option.map_eq_some_iff.mp hid
      cases hp
      split at h
      next => cases h
      next hs =>
        split at h
        next hsteps => exact ⟨_, Graph.lt_size_of_node? hn, hstage, by simpa using hs, hsteps.2⟩
        next => exact absurd (congrArg Turn.move h) (leads_visit_steps _ _).ne_ended
  | driving d repeats =>
    rcases turn_driving g settings s hstage with hturn | ⟨left, -, -, hturn⟩ | ⟨-, hturn⟩
    · cases hturn.symm.trans h
    · cases hturn.symm.trans h
    · cases congrArg Turn.events (hturn.symm.trans h)
  | sensing node asleep =>
    rcases turn_sensing g settings s hstage with ⟨outcome, ⟨hne, -⟩, hturn⟩ | ⟨-, hturn⟩ |
      ⟨p, -, -, hturn⟩
    · cases hturn.symm.trans h
      exact absurd rfl hne
    · exact absurd (congrArg Turn.move (hturn.symm.trans h))
        (leads_leave_steps (s := s) node 0).ne_ended
    · exact absurd (congrArg Turn.move (hturn.symm.trans h))
        (leads_actuate_steps node p true).ne_ended

end Execution

namespace Graph

/-- After some turns an execution has visited `m` nodes, has found a next one, and is not
cancelled. -/
def GoesOnAfter (turns : Nat) (settings : Settings) (g : Graph) (o : Outside) (m : Nat) : Prop :=
  ∃ e now id, g.momentAfter turns settings o = some (e, now) ∧
    (g.visits turns settings o).length = m ∧
    e.stage = .arriving (some id) ∧ now.surroundings.cancelled = false

/-- How an execution that may visit `m` nodes goes beside one without a bound. It visits no more
than it may, and up to the end of the `m`-th visit nothing differs. It ends at the bound exactly if
the other one goes on then, and what it has published by then is the same; if not, then nothing
differs at all. -/
structure BoundedBy (g : Graph) (settings : Settings) (o : Outside) (m : Nat) : Prop where
  visits_le : ∀ turns, (g.visits turns (settings.withBound m) o).length ≤ m
  same_before : ∀ turns, (g.visits turns (settings.withBound 0) o).length ≤ m →
    g.momentAfter turns (settings.withBound m) o = g.momentAfter turns (settings.withBound 0) o ∧
    g.publishedIn turns (settings.withBound m) o = g.publishedIn turns (settings.withBound 0) o ∧
    g.visits turns (settings.withBound m) o = g.visits turns (settings.withBound 0) o
  stops_iff : (∃ turns ending report, g.execute turns (settings.withBound m) o = some ending ∧
      ending.result = .ok report ∧ report.outcome = .stepLimit) ↔
    ∃ turns, g.GoesOnAfter turns (settings.withBound 0) o m
  stops : ∀ turns e now, g.momentAfter turns (settings.withBound 0) o = some (e, now) →
    g.GoesOnAfter turns (settings.withBound 0) o m →
      g.execute (turns + 1) (settings.withBound m) o = some {
        result := .ok ⟨m, e.frames, .stepLimit⟩
        events := (g.publishedIn turns (settings.withBound 0) o ++
          [Event.executionFinished m .stepLimit]).toArray
        outside := now }
  same_otherwise : (∀ turns, ¬ g.GoesOnAfter turns (settings.withBound 0) o m) → ∀ turns,
    g.execute turns (settings.withBound m) o = g.execute turns (settings.withBound 0) o ∧
    g.publishedIn turns (settings.withBound m) o = g.publishedIn turns (settings.withBound 0) o

section

variable {g : Graph} {settings : Settings} {o now : Outside} {m turns : Nat} {e : Execution}
  {entry : NodeId} {start : Execution}

theorem steps_of_momentAfter (h : g.momentAfter turns settings o = some (e, now)) :
    e.steps = (g.visits turns settings o).length := by
  obtain ⟨entry, hfirst⟩ := exists_first_of_momentAfter h
  rw [momentAfter_of_first hfirst] at h
  rw [visits_of_first hfirst]
  simpa using Execution.steps_of_stateAfter h

/-- An execution without a bound that has made at most `m` visits has not come beyond the bound. -/
theorem sameFor_of_visits (hfirst : g.first? = some entry)
    (h : (g.visits turns (settings.withBound 0) o).length ≤ m) :
    ∀ earlier < turns, ∀ e now, stateAfter (Execution.turn g (settings.withBound 0)) earlier
      { stage := .arriving (some entry) } o = some (e, now) → ¬ e.AtLimit g m now.surroundings := by
  intro earlier hlt e now hnow hlimit
  obtain ⟨id, hvis⟩ := Execution.exists_visiting_of_atLimit settings hlimit
  obtain ⟨-, -, -, -, hsteps⟩ := hlimit
  rw [Execution.steps_of_stateAfter hnow, Nat.zero_add] at hsteps
  have hone : marks (Execution.visiting? g (settings.withBound 0))
      (Execution.turn g (settings.withBound 0))
      1 e now = [id] := by
    rw [marks_succ, hvis]
    split <;> simp [marks, history]
  have hmore := length_marks_le (Execution.visiting? g (settings.withBound 0))
    (Execution.turn g (settings.withBound 0))
    { stage := .arriving (some entry) } o (show earlier + 1 ≤ turns from hlt)
  rw [marks_add _ hnow, hone, List.length_append, List.length_singleton] at hmore
  rw [visits_of_first hfirst] at h
  omega

/-- What a run does that has no bound, and has not come beyond one, it does with the bound as
well. -/
theorem sameFor_withBound (turns : Nat)
    (h : ∀ earlier < turns, ∀ e now,
      stateAfter (Execution.turn g (settings.withBound 0)) earlier start o = some (e, now) →
      ¬ e.AtLimit g m now.surroundings) :
    SameFor (Execution.turn g (settings.withBound 0)) (Execution.turn g (settings.withBound m))
      turns start o :=
  fun earlier hlt e now hnow => Execution.turn_of_not_atLimit (h earlier hlt e now hnow)

theorem exists_goesOn_of_atLimit (hm : 0 < m) (hfirst : g.first? = some entry)
    (hnow : stateAfter (Execution.turn g (settings.withBound 0)) turns
      { stage := .arriving (some entry) } o = some (e, now))
    (hlimit : e.AtLimit g m now.surroundings) :
    ∃ turns, g.GoesOnAfter turns (settings.withBound 0) o m := by
  induction turns using Nat.strongRecOn generalizing e now with
  | _ turns ih =>
    by_cases hearlier : ∃ earlier < turns, ∃ e now,
        stateAfter (Execution.turn g (settings.withBound 0)) earlier
        { stage := .arriving (some entry) } o = some (e, now) ∧ e.AtLimit g m now.surroundings
    · obtain ⟨earlier, hlt, e', now', hnow', hlimit'⟩ := hearlier
      exact ih earlier hlt hnow' hlimit'
    · have hsame := sameFor_withBound turns fun earlier hlt e now hnow hlimit =>
        hearlier ⟨earlier, hlt, e, now, hnow, hlimit⟩
      -- the bounded execution has come here as well, so there were no more visits than the bound
      -- allows
      have hbounded := Execution.steps_of_stateAfter (hsame.stateAfter.trans hnow)
      have hle := Execution.length_marks_bounded g settings hm o
        (e := { stage := .arriving (some entry) }) (Nat.zero_le m) turns
      have hmoment := (momentAfter_of_first hfirst turns (settings.withBound 0) o).trans hnow
      obtain ⟨id, -, hstage, hs, hsteps⟩ := hlimit
      refine ⟨turns, e, now, id, hmoment, ?_, hstage, hs⟩
      rw [← steps_of_momentAfter hmoment]
      omega

end

section

variable {g : Graph} {loose : NodeId → Prop} (hg : g.Sound loose) {settings : Settings}
  {o now : Outside} {m turns : Nat} {e : Execution} {entry : NodeId}
  (hfirst : g.first? = some entry)
include hfirst

/-- Up to the end of the `m`-th visit nothing differs. -/
theorem same_of_visits (h : (g.visits turns (settings.withBound 0) o).length ≤ m) :
    g.momentAfter turns (settings.withBound m) o = g.momentAfter turns (settings.withBound 0) o ∧
      g.publishedIn turns (settings.withBound m) o = g.publishedIn turns (settings.withBound 0) o ∧
      g.visits turns (settings.withBound m) o = g.visits turns (settings.withBound 0) o := by
  have hfree := sameFor_of_visits hfirst h
  have hsame := sameFor_withBound turns hfree
  refine ⟨?_, ?_, ?_⟩
  · rw [momentAfter_of_first hfirst, momentAfter_of_first hfirst, hsame.stateAfter]
  · rw [publishedIn_of_first hfirst, publishedIn_of_first hfirst, hsame.eventsIn]
  · rw [visits_of_first hfirst, visits_of_first hfirst]
    exact hsame.marks fun earlier hlt e now hnow =>
      Execution.visiting?_of_not_atLimit (hfree earlier hlt e now hnow)

include hg

theorem execute_of_goesOn (hm : 0 < m)
    (hnow : g.momentAfter turns (settings.withBound 0) o = some (e, now))
    (hgoes : g.GoesOnAfter turns (settings.withBound 0) o m) :
    g.execute (turns + 1) (settings.withBound m) o = some {
      result := .ok ⟨m, e.frames, .stepLimit⟩
      events :=
        (g.publishedIn turns (settings.withBound 0) o ++
          [Event.executionFinished m .stepLimit]).toArray
      outside := now } := by
  obtain ⟨e', now', id, hnow', hvisits, hstage, hs⟩ := hgoes
  cases hnow.symm.trans hnow'
  obtain ⟨hmoment, hpublished, -⟩ := same_of_visits hfirst (Nat.le_of_eq hvisits)
  have hsteps : e.steps = m := (steps_of_momentAfter hnow).trans hvisits
  have hid : id < g.size :=
    (standsAt_of_stateAfter hfirst ((momentAfter_of_first hfirst _ _ _).symm.trans hnow)).next_lt hg
      hstage
  have hturn := Execution.turn_of_atLimit settings hm
    ⟨id, hid, hstage, hs, Nat.le_of_eq hsteps.symm⟩
  rw [execute_of_finish (hmoment.trans hnow) hturn, hsteps, hpublished]

omit hg in
theorem exists_goesOn_of_stepLimit (hm : 0 < m) {ending : Ending (Except Failure Report)}
    {report : Report} (hend : g.execute turns (settings.withBound m) o = some ending)
    (hreport : ending.result = .ok report) (hout : report.outcome = .stepLimit) :
    ∃ turns, g.GoesOnAfter turns (settings.withBound 0) o m := by
  by_contra hnone
  have hnever : ∀ turns e now, stateAfter (Execution.turn g (settings.withBound 0)) turns
      { stage := .arriving (some entry) } o = some (e, now) → ¬ e.AtLimit g m now.surroundings :=
    fun turns e now hnow hlimit => hnone (exists_goesOn_of_atLimit hm hfirst hnow hlimit)
  obtain ⟨earlier, -, last, hlast, hturn, -, -⟩ := exists_finish_of_execute hend hreport
  rw [momentAfter_of_first hfirst] at hlast
  rw [hout] at hturn
  have hsame := sameFor_withBound earlier fun earlier _ => hnever earlier
  have hlimit := Execution.atLimit_of_finish hturn
  exact hnever earlier last ending.outside (hsame.stateAfter.symm.trans hlast) hlimit

omit hg in
/-- An execution that does not go on beyond the bound does not notice it. -/
theorem same_of_not_goesOn (hm : 0 < m)
    (h : ∀ turns, ¬ g.GoesOnAfter turns (settings.withBound 0) o m) (turns : Nat) :
    g.execute turns (settings.withBound m) o = g.execute turns (settings.withBound 0) o ∧
      g.publishedIn turns (settings.withBound m) o =
        g.publishedIn turns (settings.withBound 0) o := by
  have hsame := sameFor_withBound turns fun earlier _ e now hnow hlimit =>
    not_exists.mpr h (exists_goesOn_of_atLimit hm hfirst hnow hlimit)
  constructor
  · rw [execute_of_first hfirst, execute_of_first hfirst, hsame.run]
  · rw [publishedIn_of_first hfirst, publishedIn_of_first hfirst, hsame.eventsIn]

end

theorem boundedBy_of_empty {g : Graph} (hfirst : g.first? = none) (settings : Settings)
    (o : Outside) (m : Nat) :
    g.BoundedBy settings o m := by
  have hmoment (turns : Nat) (settings : Settings) : g.momentAfter turns settings o = none := by
    simp [momentAfter, Execution.start, hfirst]
  have hpublished (turns : Nat) (settings : Settings) : g.publishedIn turns settings o = [] := by
    simp [publishedIn, Execution.start, hfirst]
  have hvisits (turns : Nat) (settings : Settings) : g.visits turns settings o = [] := by
    simp [visits, Execution.start, hfirst]
  constructor
  case visits_le => simp [hvisits]
  case same_before => simp [hmoment, hpublished, hvisits]
  case stops_iff => simp [execute_of_empty hfirst, GoesOnAfter, hmoment]
  case stops => simp [hmoment]
  case same_otherwise => simp [execute_of_empty hfirst, hpublished]

/-- A bound on the visited nodes only truncates an execution, whatever is around it. -/
theorem boundedBy_of_pos (edits : List Builder.Edit) (settings : Settings) (o : Outside) {m : Nat}
    (hm : 0 < m) :
    (Builder.applyAll {} edits).graph.BoundedBy settings o m := by
  have hg := (Builder.wellFormed_after_edits edits).sound
  generalize (Builder.applyAll {} edits).graph = g at *
  cases hfirst : g.first? with
  | none => exact boundedBy_of_empty hfirst settings o m
  | some entry =>
    constructor
    case visits_le =>
      intro turns
      rw [visits_of_first hfirst]
      simpa using Execution.length_marks_bounded g settings hm o
        (e := { stage := .arriving (some entry) }) (Nat.zero_le m) turns
    case same_before => exact fun turns h => same_of_visits hfirst h
    case stops_iff =>
      constructor
      · rintro ⟨turns, ending, report, hend, hreport, hout⟩
        exact exists_goesOn_of_stepLimit hfirst hm hend hreport hout
      · rintro ⟨turns, hgoes⟩
        have ⟨e, now, _, hnow, _⟩ := hgoes
        exact ⟨turns + 1, _, _, execute_of_goesOn hg hfirst hm hnow hgoes, rfl, rfl⟩
    case stops => exact fun turns e now hnow hgoes => execute_of_goesOn hg hfirst hm hnow hgoes
    case same_otherwise => exact fun h => same_of_not_goesOn hfirst hm h

/-- A loop that is not left is stopped after three visits: of its header, its body, and its header
again. -/
theorem boundedBy_of_pos_loop :
    let edits := [.openBlock .whileLoop, .append (.ofSpeech "hello"), .closeBlock]
    let o : Outside :=
      { schedule := .atRests [],
        surroundings := { controller := { landmarks := { face := true } } } }
    0 < 3 ∧ (Builder.applyAll {} edits).graph.BoundedBy {} o 3 ∧
      (Builder.applyAll {} edits).graph.GoesOnAfter 3 (Settings.withBound {} 0) o 3 := by
  intro edits o
  exact ⟨by decide, boundedBy_of_pos edits {} o (by decide), _, _, _, rfl, rfl, rfl, rfl⟩

end Graph
end MotionScript
