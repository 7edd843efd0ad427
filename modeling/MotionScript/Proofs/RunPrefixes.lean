import MotionScript.Proofs.ExecutionHistory

/-!
# The first turns of a run

A run can be looked at after any number of turns: it has published some events, and it is in the
state in which its next turn will begin, with something outside. This says what a run does also when
it never ends. A run from there on continues the run up to there.
-/
namespace MotionScript

variable {State Result Mark : Type} {activity : Activity State Result}

/-- The state and the outside after a number of turns, unless the run has ended by then. -/
def stateAfter (activity : Activity State Result) : Nat → State → Outside → Option (State × Outside)
  | 0, state, o => some (state, o)
  | turns + 1, state, o =>
    match (activity state o.surroundings).follow o with
    | .inl (state, o) => stateAfter activity turns state o
    | .inr _ => none

def eventsIn (activity : Activity State Result) : Nat → State → Outside → List Event
  | 0, _, _ => []
  | turns + 1, state, o =>
    (activity state o.surroundings).events ++
      match (activity state o.surroundings).follow o with
      | .inl (state, o) => eventsIn activity turns state o
      | .inr _ => []

section

variable {turns : Nat} {state next : State} {o after : Outside}

theorem stateAfter_succ (h : (activity state o.surroundings).follow o = .inl (next, after))
    (turns : Nat) :
    stateAfter activity (turns + 1) state o = stateAfter activity turns next after := by
      simp only [stateAfter, h]

theorem eventsIn_succ (h : (activity state o.surroundings).follow o = .inl (next, after))
    (turns : Nat) :
    eventsIn activity (turns + 1) state o =
      (activity state o.surroundings).events ++ eventsIn activity turns next after := by
        simp only [eventsIn, h]

@[simp] theorem eventsIn_one (state : State) (o : Outside) :
    eventsIn activity 1 state o = (activity state o.surroundings).events := by
  simp only [eventsIn]
  split <;> exact List.append_nil _

/-- A run that goes on after one more turn has gone on after its first turn. -/
theorem exists_follow_of_stateAfter {later : State × Outside}
    (h : stateAfter activity (turns + 1) state o = some later) :
    ∃ next after, (activity state o.surroundings).follow o = .inl (next, after) ∧
      stateAfter activity turns next after = some later := by
  rw [stateAfter] at h
  split at h
  next next after hf => exact ⟨next, after, hf, h⟩
  next => cases h

/-- What holds of the marks and the state before a run, and is kept by each turn, holds after any
number of turns. -/
theorem stateAfter_induction (note : State → Surroundings → Option Mark)
    (kept : List Mark → State → Surroundings → Prop)
    (step : ∀ ms state s, kept ms state s →
      let t := activity state s
      t.move.Leads t.surroundings (kept (ms ++ (note state s).toList)) (fun _ => True))
    {ms : List Mark} (h : kept ms state o.surroundings)
      (hr : stateAfter activity turns state o = some (next, after)) :
    kept (ms ++ marks note activity turns state o) next after.surroundings := by
  induction turns generalizing state o ms with
  | zero =>
    cases hr
    simpa [marks, history] using h
  | succ turns ih =>
    obtain ⟨state', o', hf, hr⟩ := exists_follow_of_stateAfter hr
    rw [marks_succ, hf, ← List.append_assoc]
    rcases (step ms state o.surroundings h).follow o with ⟨_, _, hf', hk⟩ | ⟨_, hf', -⟩
    · cases hf.symm.trans hf'
      exact ih hk hr
    · cases hf.symm.trans hf'

/-- What holds of the marks, the events, the state and the outside before a run, and is kept by each
turn with what follows it, holds after any number of turns. -/
theorem moment_induction (note : State → Surroundings → Option Mark)
    (kept : List Mark → List Event → State → Outside → Prop)
    (step : ∀ ms evs state o next after, kept ms evs state o →
      (activity state o.surroundings).follow o = .inl (next, after) →
        kept (ms ++ (note state o.surroundings).toList)
          (evs ++ (activity state o.surroundings).events) next after)
    {ms : List Mark} {evs : List Event} (h : kept ms evs state o)
      (hr : stateAfter activity turns state o = some (next, after)) :
    kept (ms ++ marks note activity turns state o) (evs ++ eventsIn activity turns state o)
      next after := by
  induction turns generalizing state o ms evs with
  | zero =>
    cases hr
    simpa [marks, history, eventsIn] using h
  | succ turns ih =>
    obtain ⟨state', o', hf, hr⟩ := exists_follow_of_stateAfter hr
    rw [marks_succ, hf, eventsIn_succ hf, ← List.append_assoc, ← List.append_assoc]
    exact ih (step _ _ _ _ _ _ h hf) hr

/-- What is noted was noted at some moment. -/
theorem exists_moment_of_mem_marks {note : State → Surroundings → Option Mark} {mark : Mark}
    (h : mark ∈ marks note activity turns state o) :
    ∃ earlier < turns, ∃ state' o', stateAfter activity earlier state o = some (state', o') ∧
      note state' o'.surroundings = some mark := by
  induction turns generalizing state o with
  | zero => simp [marks, history] at h
  | succ turns ih =>
    rw [marks_succ] at h
    rcases List.mem_append.mp h with h | h
    · exact ⟨0, Nat.succ_pos _, state, o, rfl, Option.mem_toList.mp h⟩
    · split at h
      next state' o' hf =>
        obtain ⟨earlier, hlt, hearlier⟩ := ih h
        exact ⟨earlier + 1, Nat.succ_lt_succ hlt, by simpa only [stateAfter_succ hf] using hearlier⟩
      next => simp at h

theorem mem_marks_of_stateAfter {note : State → Surroundings → Option Mark} {mark : Mark}
    {more : Nat} (hlt : turns < more) (h : stateAfter activity turns state o = some (next, after))
    (hnote : note next after.surroundings = some mark) :
    mark ∈ marks note activity more state o := by
  induction turns generalizing state o more with
  | zero =>
    cases h
    obtain ⟨more, rfl⟩ := Nat.exists_eq_add_one_of_ne_zero (Nat.ne_of_gt hlt)
    rw [marks_succ, hnote]
    exact List.mem_cons_self
  | succ turns ih =>
    obtain ⟨more, rfl⟩ := Nat.exists_eq_add_one_of_ne_zero (Nat.ne_zero_of_lt hlt)
    obtain ⟨state', o', hf, h⟩ := exists_follow_of_stateAfter h
    rw [marks_succ, hf]
    exact List.mem_append_right _ (ih (Nat.lt_of_succ_lt_succ hlt) h)

theorem length_marks_le (note : State → Surroundings → Option Mark)
    (activity : Activity State Result) (state : State) (o : Outside) {more : Nat}
    (h : turns ≤ more) :
    (marks note activity turns state o).length ≤ (marks note activity more state o).length := by
  induction turns generalizing more state o with
  | zero => exact Nat.zero_le _
  | succ turns ih =>
    obtain ⟨more, rfl⟩ : ∃ k, more = k + 1 := ⟨more - 1, by omega⟩
    rw [marks_succ, marks_succ]
    split
    · simpa using ih _ _ (Nat.le_of_succ_le_succ h)
    · exact Nat.le_refl _

end

/-! ## A run in two parts -/

section

variable {first : Nat} {state next : State} {o after : Outside}

theorem stateAfter_add (h : stateAfter activity first state o = some (next, after)) (second : Nat) :
    stateAfter activity (first + second) state o = stateAfter activity second next after := by
  induction first generalizing state o with
  | zero => cases h; rw [Nat.zero_add]
  | succ first ih =>
    obtain ⟨state', o', hf, h⟩ := exists_follow_of_stateAfter h
    rw [Nat.add_right_comm, stateAfter_succ hf, ih h]

theorem eventsIn_add (h : stateAfter activity first state o = some (next, after)) (second : Nat) :
    eventsIn activity (first + second) state o =
      eventsIn activity first state o ++ eventsIn activity second next after := by
  induction first generalizing state o with
  | zero => cases h; rw [Nat.zero_add, eventsIn, List.nil_append]
  | succ first ih =>
    obtain ⟨state', o', hf, h⟩ := exists_follow_of_stateAfter h
    rw [Nat.add_right_comm, eventsIn_succ hf, eventsIn_succ hf, ih h, List.append_assoc]

theorem marks_add (note : State → Surroundings → Option Mark)
    (h : stateAfter activity first state o = some (next, after)) (second : Nat) :
    marks note activity (first + second) state o =
      marks note activity first state o ++ marks note activity second next after := by
  induction first generalizing state o with
  | zero => cases h; rw [Nat.zero_add]; rfl
  | succ first ih =>
    obtain ⟨state', o', hf, h⟩ := exists_follow_of_stateAfter h
    rw [Nat.add_right_comm, marks_succ, marks_succ, hf]
    simp only [ih h, List.append_assoc]

theorem run_add (h : stateAfter activity first state o = some (next, after)) (second : Nat)
    (events : Array Event) :
    run activity (first + second) state o events =
      run activity second next after (events ++ eventsIn activity first state o) := by
  induction first generalizing state o events with
  | zero => cases h; rw [Nat.zero_add, eventsIn]; simp
  | succ first ih =>
    obtain ⟨state', o', hf, h⟩ := exists_follow_of_stateAfter h
    rw [Nat.add_right_comm, run_succ, eventsIn_succ hf]
    simp only [hf, ih h]
    congr 1
    exact Array.toList_inj.mp (by simp)

end

/-! ## The last turn of a run -/

section

variable {turns : Nat} {state last : State} {o now : Outside} {result : Result}

theorem exists_last_of_run {events : Array Event} {ending : Ending Result}
    (h : run activity turns state o events = some ending) :
    ∃ earlier < turns, ∃ last now, stateAfter activity earlier state o = some (last, now) ∧
      (activity last now.surroundings).follow now = .inr ending.result ∧
      ending.outside = { now with surroundings := (activity last now.surroundings).surroundings } ∧
      ending.events.toList =
        events.toList ++ eventsIn activity earlier state o ++
          (activity last now.surroundings).events := by
  induction turns generalizing state o events with
  | zero => cases h
  | succ turns ih =>
    rw [run_succ] at h
    cases hf : (activity state o.surroundings).follow o with
    | inl next =>
      simp only [hf] at h
      obtain ⟨earlier, hlt, last, now, hlast, hend, houtside, hevents⟩ := ih h
      refine ⟨earlier + 1, Nat.succ_lt_succ hlt, last, now,
        (stateAfter_succ hf earlier).trans hlast, hend, houtside, ?_⟩
      rw [hevents, eventsIn_succ hf]
      simp
    | inr result =>
      simp only [hf] at h
      cases h
      exact ⟨0, Nat.succ_pos _, state, o, rfl, hf, rfl, by simp [eventsIn]⟩

theorem stateAfter_of_last (hlast : stateAfter activity turns state o = some (last, now))
    (hend : (activity last now.surroundings).follow now = .inr result) (more : Nat) :
    stateAfter activity (turns + (more + 1)) state o = none := by
  rw [stateAfter_add hlast, stateAfter]
  simp only [hend]

theorem le_last_of_stateAfter (hlast : stateAfter activity turns state o = some (last, now))
    (hend : (activity last now.surroundings).follow now = .inr result) {other : Nat}
    {state' : State} {o' : Outside}
    (h : stateAfter activity other state o = some (state', o')) : other ≤ turns := by
  by_contra hlt
  obtain ⟨more, rfl⟩ := Nat.exists_eq_add_of_lt (Nat.lt_of_not_le hlt)
  rw [Nat.add_assoc, stateAfter_of_last hlast hend] at h
  cases h

theorem marks_of_last (note : State → Surroundings → Option Mark)
    (hlast : stateAfter activity turns state o = some (last, now))
    (hend : (activity last now.surroundings).follow now = .inr result) (more : Nat) :
    marks note activity (turns + (more + 1)) state o =
      marks note activity turns state o ++ (note last now.surroundings).toList := by
  rw [marks_add note hlast, marks_succ]
  simp only [hend, List.append_nil]

end

/-! ## Runs that are the same for a while -/

/-- A second activity does the same as the first in each state to which a run of the first comes in
a number of turns. -/
def SameFor (activity activity' : Activity State Result) (turns : Nat) (state : State)
    (o : Outside) : Prop :=
  ∀ earlier < turns, ∀ state' o', stateAfter activity earlier state o = some (state', o') →
    activity' state' o'.surroundings = activity state' o'.surroundings

namespace SameFor

variable {activity' : Activity State Result} {turns : Nat} {state : State} {o : Outside}

theorem now (h : SameFor activity activity' (turns + 1) state o) :
    activity' state o.surroundings = activity state o.surroundings :=
      h 0 (Nat.succ_pos _) state o rfl

theorem later (h : SameFor activity activity' (turns + 1) state o) {next : State} {after : Outside}
    (hf : (activity state o.surroundings).follow o = .inl (next, after)) :
    SameFor activity activity' turns next after :=
  fun earlier hlt state' o' hs =>
    h (earlier + 1) (Nat.succ_lt_succ hlt) state' o' ((stateAfter_succ hf earlier).trans hs)

theorem stateAfter (h : SameFor activity activity' turns state o) :
    stateAfter activity' turns state o = stateAfter activity turns state o := by
  induction turns generalizing state o with
  | zero => rfl
  | succ turns ih =>
    simp only [MotionScript.stateAfter, h.now]
    split
    next next after hf => exact ih (h.later hf)
    next => rfl

theorem eventsIn (h : SameFor activity activity' turns state o) :
    eventsIn activity' turns state o = eventsIn activity turns state o := by
  induction turns generalizing state o with
  | zero => rfl
  | succ turns ih =>
    simp only [MotionScript.eventsIn, h.now]
    split
    next next after hf => rw [ih (h.later hf)]
    next => rfl

theorem run (h : SameFor activity activity' turns state o) (events : Array Event) :
    run activity' turns state o events = run activity turns state o events := by
  induction turns generalizing state o events with
  | zero => rfl
  | succ turns ih =>
    simp only [run_succ, h.now]
    split
    next next after hf => exact ih (h.later hf) _
    next => rfl

theorem marks (h : SameFor activity activity' turns state o)
    {note note' : State → Surroundings → Option Mark}
    (hnote : ∀ earlier < turns, ∀ state' o',
      MotionScript.stateAfter activity earlier state o = some (state', o') →
      note' state' o'.surroundings = note state' o'.surroundings) :
    marks note' activity' turns state o = marks note activity turns state o := by
  induction turns generalizing state o with
  | zero => rfl
  | succ turns ih =>
    rw [marks_succ, marks_succ, h.now, hnote 0 (Nat.succ_pos _) state o rfl]
    cases hf : (activity state o.surroundings).follow o with
    | inl next =>
      refine congrArg _ (ih (h.later hf) fun earlier hlt state' o' hs => ?_)
      exact hnote (earlier + 1) (Nat.succ_lt_succ hlt) state' o'
        ((stateAfter_succ hf earlier).trans hs)
    | inr result => rfl

end SameFor

/-! ## The first turns of an execution -/

namespace Graph

def momentAfter (turns : Nat) (settings : Settings) (g : Graph) (o : Outside) :
    Option (Execution × Outside) :=
  match Execution.start g with
  | .error _ => none
  | .ok (e, _) => stateAfter (Execution.turn g settings) turns e o

/-- What an execution of a graph has published after a number of turns. -/
def publishedIn (turns : Nat) (settings : Settings) (g : Graph) (o : Outside) : List Event :=
  match Execution.start g with
  | .error _ => []
  | .ok (e, started) => started :: eventsIn (Execution.turn g settings) turns e o

variable {g : Graph} {entry : NodeId}

theorem start_of_first (h : g.first? = some entry) :
    Execution.start g = .ok ({ stage := .arriving (some entry) }, .executionStarted entry) := by
  simp only [Execution.start, h]

theorem momentAfter_of_first (h : g.first? = some entry) (turns : Nat) (settings : Settings)
    (o : Outside) :
    g.momentAfter turns settings o =
      stateAfter (Execution.turn g settings) turns { stage := .arriving (some entry) } o := by
  simp only [momentAfter, start_of_first h]

theorem publishedIn_of_first (h : g.first? = some entry) (turns : Nat) (settings : Settings)
    (o : Outside) :
    g.publishedIn turns settings o =
      .executionStarted entry ::
        eventsIn (Execution.turn g settings) turns { stage := .arriving (some entry) } o := by
  simp only [publishedIn, start_of_first h]

theorem visits_of_first (h : g.first? = some entry) (turns : Nat) (settings : Settings)
    (o : Outside) :
    g.visits turns settings o =
      marks (Execution.visiting? g settings) (Execution.turn g settings) turns
        { stage := .arriving (some entry) } o := by
  simp only [visits, start_of_first h]

section

variable {turns : Nat} {settings : Settings} {o now after : Outside} {e next : Execution}

theorem exists_first_of_momentAfter (h : g.momentAfter turns settings o = some (e, now)) :
    ∃ entry, g.first? = some entry := by
  cases hfirst : g.first? with
  | none => simp [momentAfter, Execution.start, hfirst] at h
  | some entry => exact ⟨entry, rfl⟩

theorem follow_of_momentAfter (h : g.momentAfter turns settings o = some (e, now))
    (hnext : g.momentAfter (turns + 1) settings o = some (next, after)) :
    (e.turn g settings now.surroundings).follow now = .inl (next, after) := by
  obtain ⟨entry, hfirst⟩ := exists_first_of_momentAfter h
  rw [momentAfter_of_first hfirst] at h hnext
  rw [stateAfter_add h] at hnext
  obtain ⟨_, _, hf, hnext⟩ := exists_follow_of_stateAfter hnext
  cases hnext
  exact hf

theorem momentAfter_succ (h : g.momentAfter turns settings o = some (e, now))
    (hf : (e.turn g settings now.surroundings).follow now = .inl (next, after)) :
    g.momentAfter (turns + 1) settings o = some (next, after) := by
  obtain ⟨entry, hfirst⟩ := exists_first_of_momentAfter h
  rw [momentAfter_of_first hfirst] at h ⊢
  rw [stateAfter_add h, stateAfter_succ hf]
  rfl

theorem publishedIn_succ (h : g.momentAfter turns settings o = some (e, now)) :
    g.publishedIn (turns + 1) settings o = g.publishedIn turns settings o ++
      (e.turn g settings now.surroundings).events := by
  obtain ⟨entry, hfirst⟩ := exists_first_of_momentAfter h
  rw [momentAfter_of_first hfirst] at h
  simp only [publishedIn_of_first hfirst, eventsIn_add h, eventsIn_one, List.cons_append]

end

theorem execute_of_finish {turns : Nat} {settings : Settings} {o final : Outside} {last : Execution}
    {outcome : Outcome} (h : g.momentAfter turns settings o = some (last, final))
    (hturn : last.turn g settings final.surroundings = last.finish outcome final.surroundings) :
    g.execute (turns + 1) settings o = some {
      result := .ok ⟨last.steps, last.frames, outcome⟩
      events :=
        (g.publishedIn turns settings o ++ [Event.executionFinished last.steps outcome]).toArray
      outside := final } := by
  obtain ⟨entry, hfirst⟩ := exists_first_of_momentAfter h
  rw [momentAfter_of_first hfirst] at h
  rw [execute_of_first hfirst, run_add h, run_succ, hturn, publishedIn_of_first hfirst]
  simp [Execution.finish, Turn.follow]

theorem exists_report_of_execute (hfirst : g.first? = some entry) {turns : Nat}
    {settings : Settings} {o : Outside} {ending : Ending (Except Failure Report)}
    (h : g.execute turns settings o = some ending) :
    ∃ report, ending.result = .ok report := by
  rw [execute_of_first hfirst] at h
  obtain ⟨inner, -, rfl⟩ := Option.map_eq_some_iff.mp h
  exact ⟨inner.result, rfl⟩

theorem exists_finish_of_execute {turns : Nat} {settings : Settings} {o : Outside}
    {ending : Ending (Except Failure Report)} {report : Report}
    (h : g.execute turns settings o = some ending) (hok : ending.result = .ok report) :
    ∃ earlier < turns, ∃ last, g.momentAfter earlier settings o = some (last, ending.outside) ∧
      last.turn g settings ending.outside.surroundings =
        last.finish report.outcome ending.outside.surroundings ∧
      ending.events.toList = g.publishedIn earlier settings o ++
        [.executionFinished last.steps report.outcome] ∧
      (∀ other e now, g.momentAfter other settings o = some (e, now) → other ≤ earlier) := by
  cases hfirst : g.first? with
  | none =>
    rw [execute_of_empty hfirst] at h
    cases h
    cases hok
  | some entry =>
    rw [execute_of_first hfirst] at h
    obtain ⟨inner, hrun, rfl⟩ := Option.map_eq_some_iff.mp h
    cases hok
    obtain ⟨earlier, hlt, last, now, hlast, hfollow, houtside, hevents⟩ := exists_last_of_run hrun
    have hturn := Execution.turn_of_ended (Turn.move_of_follow hfollow)
    rw [hturn] at houtside hevents
    refine ⟨earlier, hlt, last, (momentAfter_of_first hfirst ..).trans ?_, ?_, ?_,
      fun other e o' h => ?_⟩
    · rw [hlast, houtside]; rfl
    · rw [houtside]; exact hturn
    · rw [hevents, publishedIn_of_first hfirst]; simp [Execution.finish]
    · exact le_last_of_stateAfter hlast hfollow ((momentAfter_of_first hfirst ..).symm.trans h)

end Graph
end MotionScript
