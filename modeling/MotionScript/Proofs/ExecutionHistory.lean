import MotionScript.Execution.Run
import MotionScript.Proofs.GraphEdits

/-!
# Histories

A run tells the events that were published and the result. Its history tells in which state each
turn began, and in which surroundings, for as many turns as the run was given; from it one reads
off which nodes an execution visited and in what order.
-/
namespace MotionScript

variable {State Result Mark : Type}

/-- What comes after a turn: the state in which the next one begins and what is outside by then, or
the result. -/
def Turn.follow (t : Turn State Result) (o : Outside) : (State × Outside) ⊕ Result :=
  match t.move with
  | .onward state => .inl (state, { o with surroundings := t.surroundings })
  | .rest duration state => .inl (state, { o with surroundings := t.surroundings }.pass duration)
  | .ended result => .inr result

theorem Turn.move_of_follow {t : Turn State Result} {o : Outside} {result : Result}
    (h : t.follow o = .inr result) :
    t.move = .ended result := by
  unfold Turn.follow at h
  split at h
  · cases h
  · cases h
  next hm => rw [hm, Sum.inr.inj h]

theorem run_succ (activity : Activity State Result) (turns : Nat) (state : State) (o : Outside)
    (events : Array Event) :
    run activity (turns + 1) state o events =
      let t := activity state o.surroundings
      match t.follow o with
      | .inl (state, after) => run activity turns state after (events ++ t.events)
      | .inr result =>
        some ⟨result, events ++ t.events, { o with surroundings := t.surroundings }⟩ := by
  simp only [run, Turn.follow]
  cases (activity state o.surroundings).move <;> rfl

/-- The states in which the turns of an activity begin, with the surroundings at that moment. -/
def history (activity : Activity State Result) : Nat → State → Outside → List (State × Surroundings)
  | 0, _, _ => []
  | turns + 1, state, o =>
    (state, o.surroundings) ::
      match (activity state o.surroundings).follow o with
      | .inl (state, o) => history activity turns state o
      | .inr _ => []

/-- What is noted over a history, when each turn is noted by what it begins with. -/
def marks (note : State → Surroundings → Option Mark) (activity : Activity State Result)
    (turns : Nat) (state : State) (o : Outside) : List Mark :=
  (history activity turns state o).filterMap fun (state, s) => note state s

theorem marks_succ (note : State → Surroundings → Option Mark) (activity : Activity State Result)
    (turns : Nat) (state : State) (o : Outside) :
    marks note activity (turns + 1) state o =
      (note state o.surroundings).toList ++
        match (activity state o.surroundings).follow o with
        | .inl (state, o) => marks note activity turns state o
        | .inr _ => [] := by
  simp only [marks, history, List.filterMap_cons]
  cases note state o.surroundings <;> cases (activity state o.surroundings).follow o <;> rfl

/-- How a turn goes on: at once in the surroundings that it left, after a rest in any, or not at
all. -/
def Move.Leads (move : Move State Result) (s : Surroundings) (next : State → Surroundings → Prop)
    (done : Result → Prop) : Prop :=
  match move with
  | .onward state => next state s
  | .rest _ state => ∀ s, next state s
  | .ended result => done result

section Leads

variable {s : Surroundings} {next : State → Surroundings → Prop} {done : Result → Prop}

@[simp] theorem Move.leads_onward (state : State) :
    (Move.onward state).Leads s next done ↔ next state s := Iff.rfl

@[simp] theorem Move.leads_rest (duration : Nat) (state : State) :
    (Move.rest duration state).Leads s next done ↔ ∀ s, next state s := Iff.rfl

@[simp] theorem Move.leads_ended (result : Result) :
    (Move.ended result).Leads s next done ↔ done result := Iff.rfl

theorem Move.Leads.imp {move : Move State Result} {next' : State → Surroundings → Prop}
    {done' : Result → Prop} (h : move.Leads s next done)
    (hn : ∀ state s, next state s → next' state s) (hd : ∀ result, done result → done' result) :
    move.Leads s next' done' := by
  cases move with
  | onward state => exact hn _ _ h
  | rest duration state => exact fun s => hn _ _ (h s)
  | ended result => exact hd _ h

theorem Move.Leads.ne_ended {move : Move State Result} {result : Result}
    (h : move.Leads s next fun _ => False) :
    move ≠ .ended result := by
  rintro rfl
  exact h

theorem Move.Leads.follow {t : Turn State Result} (h : t.move.Leads t.surroundings next done)
    (o : Outside) :
    (∃ state after, t.follow o = .inl (state, after) ∧ next state after.surroundings) ∨
      ∃ result, t.follow o = .inr result ∧ done result := by
  unfold Turn.follow
  cases hm : t.move with
  | onward state => exact .inl ⟨state, _, rfl, by simpa [hm] using h⟩
  | rest duration state => exact .inl ⟨state, _, rfl, (by simpa [hm] using h : ∀ s, next state s) _⟩
  | ended result => exact .inr ⟨result, rfl, by simpa [hm] using h⟩

end Leads

/-- What holds of the state, the marks and the events before a run, and is kept by each turn, gives
what each ending turn makes of it. -/
theorem run_induction {activity : Activity State Result} (note : State → Surroundings → Option Mark)
    (kept : List Mark → List Event → State → Surroundings → Prop)
    (final : List Mark → List Event → Result → Prop) (step : ∀ ms evs state s, kept ms evs state s →
      let t := activity state s
      let ms := ms ++ (note state s).toList
      t.move.Leads t.surroundings (kept ms (evs ++ t.events)) (final ms (evs ++ t.events)))
    {turns : Nat} {state : State} {o : Outside} {ms : List Mark} {events : Array Event}
      {ending : Ending Result}
    (h : kept ms events.toList state o.surroundings)
      (hr : run activity turns state o events = some ending) :
    final (ms ++ marks note activity turns state o) ending.events.toList ending.result := by
  induction turns generalizing state o ms events with
  | zero => cases hr
  | succ turns ih =>
    have ht := step ms events.toList state o.surroundings h
    rw [run_succ] at hr
    rw [marks_succ, ← List.append_assoc]
    rcases ht.follow o with ⟨next, after, hf, hk⟩ | ⟨result, hf, hd⟩
    · simp only [hf] at hr ⊢
      exact ih (by simpa using hk) hr
    · simp only [hf] at hr ⊢
      cases hr
      simpa using hd

def NodeKind.branch (kind : NodeKind) (face : Bool) : Nat :=
  match kind with
  | .whileLoop | .doWhileLoop | .conditional => if face then 0 else 1
  | _ => 0

namespace Execution

/-- However a node is left, the execution arrives next, at once or after a rest. -/
theorem leads_leave {g : Graph} {e : Execution} {node : NodeId} {branch : Nat} {s : Surroundings}
    {next : Execution → Surroundings → Prop} {done : Report → Prop}
    (h : ∀ s, next { e with stage := .arriving (g.child? node branch) } s) :
    (e.leave g node branch).Leads s next done := by
  unfold leave
  split
  · exact h
  · exact h s

/-- The node that an execution visits in a turn. -/
def visiting? (g : Graph) (settings : Settings) (e : Execution)
    (s : Surroundings) : Option NodeId :=
  match e.stage with
  | .arriving (some id) =>
    if id < g.size ∧ s.cancelled = false ∧ ¬ (0 < settings.maxSteps ∧ settings.maxSteps ≤ e.steps)
      then some id else none
  | _ => none

theorem arriving_of_visiting {g : Graph} {settings : Settings} {e : Execution} {s : Surroundings}
    {id : NodeId} (h : e.visiting? g settings s = some id) :
    e.stage = .arriving (some id) ∧ id < g.size ∧ s.cancelled = false := by
  unfold visiting? at h
  split at h
  next next hstage =>
    split at h
    next hvisits =>
      cases h
      exact ⟨hstage, hvisits.1, hvisits.2.1⟩
    · cases h
  next => cases h

/-- An execution that arrives ends there or visits the node. -/
theorem turn_arriving (g : Graph) (settings : Settings) {e : Execution} (s : Surroundings)
    {next : Option NodeId} (hstage : e.stage = .arriving next) :
    (∃ outcome, e.visiting? g settings s = none ∧ e.turn g settings s = e.finish outcome s) ∨
      ∃ id p, next = some id ∧ g.payload? id = some p ∧ s.cancelled = false ∧
        e.visiting? g settings s = some id ∧ e.turn g settings s = e.visit g settings id p s := by
  cases next with
  | none => exact .inl ⟨.completed, by simp [visiting?, hstage], by simp [turn, hstage]⟩
  | some id =>
    simp only [turn, visiting?, hstage, Graph.payload?]
    cases hn : g.node? id with
    | none =>
      have hlt : ¬ id < g.size := fun hlt => by simpa [hn] using (g.node?_isSome_iff id).mpr hlt
      exact .inl ⟨.completed, by simp [hlt], by simp [hn]⟩
    | some node =>
      have hlt : id < g.size := Graph.lt_size_of_node? hn
      by_cases hc : s.cancelled = true
      · exact .inl ⟨.cancelled, by simp [hc], by simp [hn, hc]⟩
      by_cases hmax : 0 < settings.maxSteps ∧ settings.maxSteps ≤ e.steps
      · exact .inl ⟨.stepLimit, by simp [hmax], by simp [hn, hc, hmax]⟩
      · have hcf : s.cancelled = false := by simpa using hc
        exact .inr ⟨id, node.payload, rfl,
          by simp [hn], hcf, if_pos ⟨hlt, hcf, hmax⟩, by simp [hn, hcf, if_neg hmax]⟩

/-- An execution that drives is cut short, writes a frame, or releases the sticks and goes on. -/
theorem turn_driving (g : Graph) (settings : Settings) {e : Execution} (s : Surroundings)
    {d : Drive} {repeats : Bool} (hstage : e.stage = .driving d repeats) :
    e.turn g settings s = e.finish .cancelled s ∨
      (∃ left, d.left = left + 1 ∧ s.cancelled = false ∧ e.turn g settings s = {
        events := [.frame d.node (s.controller.input.setAxes d.frame)]
        surroundings := { s with controller := s.controller.update (·.setAxes d.frame) }
        move := .rest settings.frameInterval { e with
          stage := .driving { d with
            left, written := d.written + 1, asleep := settings.frameInterval != 0 } repeats } }) ∨
      d.left = 0 ∧ e.turn g settings s = {
        events := [.axesReleased d.node]
        surroundings := { s with controller := s.controller.update ControllerInput.zeroAxes }
        move := e.afterMotion g settings d.node repeats d.written } := by
  simp only [turn, hstage, Drive.turn]
  by_cases hawake : (d.asleep && s.cancelled) = true
  · exact .inl (by simp [hawake])
  rw [if_neg hawake]
  cases hleft : d.left with
  | zero => exact .inr (.inr ⟨rfl, rfl⟩)
  | succ left =>
    by_cases hc : s.cancelled = true
    · exact .inl (by simp [hc])
    · exact .inr (.inl ⟨left, rfl, by simpa using hc, by simp only [if_neg hc]; rfl⟩)

/-- An execution that asks for a landmark ends, leaves the node where one is near, or begins the
motion once more. -/
theorem turn_sensing (g : Graph) (settings : Settings) {e : Execution} (s : Surroundings)
    {node : NodeId} {asleep : Bool} (hstage : e.stage = .sensing node asleep) :
    (∃ outcome, (outcome ≠ .stepLimit ∧ (s.cancelled = true ∨ g.node? node = none)) ∧
        e.turn g settings s = e.finish outcome s) ∨
      s.controller.landmarks.near = true ∧
        e.turn g settings s = { surroundings := s, move := e.leave g node 0 } ∨
      ∃ p, g.payload? node = some p ∧ (s.cancelled = false ∧ s.controller.landmarks.near = false) ∧
        e.turn g settings s = e.actuate g settings node p true s := by
  simp only [turn, hstage, Graph.payload?]
  split
  next hawake => exact .inl ⟨.cancelled, ⟨by simp, .inl (Bool.and_eq_true_iff.mp hawake).2⟩, rfl⟩
  split
  next hnear => exact .inr (.inl ⟨hnear, rfl⟩)
  next hnear =>
    split
    next hc => exact .inl ⟨.cancelled, ⟨by simp, .inl hc⟩, rfl⟩
    next hc =>
      cases hn : g.node? node with
      | none => exact .inl ⟨.completed, ⟨by simp, .inr rfl⟩, rfl⟩
      | some found =>
        exact .inr (.inr ⟨found.payload, rfl, ⟨by simpa using hc, by simpa using hnear⟩, rfl⟩)

/-! ## How visits are counted -/

section

variable {g : Graph} {settings : Settings} {e : Execution} {s : Surroundings} {done : Report → Prop}

theorem leads_leave_steps (node : NodeId) (branch : Nat) :
    (e.leave g node branch).Leads s (fun next _ => next.steps = e.steps) done :=
      leads_leave fun _ => rfl

theorem leads_afterMotion_steps (node : NodeId) (repeats : Bool) (written : Nat) :
    (e.afterMotion g settings node repeats written).Leads s
      (fun next _ => next.steps = e.steps) done := by
  cases repeats with
  | true => exact fun _ => rfl
  | false => exact leads_leave fun _ => rfl

theorem leads_actuate_steps (node : NodeId) (p : Payload) (repeats : Bool) :
    let t := e.actuate g settings node p repeats s
    t.move.Leads t.surroundings (fun next _ => next.steps = e.steps) done := by
  unfold actuate
  split
  · exact leads_afterMotion_steps node repeats 0
  · split
    · exact leads_afterMotion_steps node repeats 1
    · rfl

theorem leads_visit_steps (id : NodeId) (p : Payload) :
    let t := e.visit g settings id p s
    t.move.Leads t.surroundings (fun next _ => next.steps = e.steps + 1) done := by
  unfold visit
  split
  case h_2 =>
    exact leads_actuate_steps (e := { e with steps := e.steps + 1, before := e.frames }) id p false
  case h_3 => rfl
  all_goals exact leads_leave fun _ => rfl

theorem leads_turn_steps (g : Graph) (settings : Settings) (e : Execution) (s : Surroundings) :
    let t := e.turn g settings s
    t.move.Leads t.surroundings
      (fun next _ => next.steps = e.steps + (e.visiting? g settings s).toList.length)
      (fun _ => True) := by
  cases hstage : e.stage with
  | arriving next =>
    rcases turn_arriving g settings s hstage with ⟨outcome, -, hturn⟩ |
      ⟨id, p, -, -, -, hvis, hturn⟩
    · simp [hturn, finish]
    · rw [hvis, hturn]
      exact leads_visit_steps id p
  | sensing node asleep =>
    have hvis : e.visiting? g settings s = none := by simp [visiting?, hstage]
    rcases turn_sensing g settings s hstage with ⟨outcome, -, hturn⟩ | ⟨-, hturn⟩ | ⟨p, -, -, hturn⟩
    · simp [hturn, finish]
    · rw [hvis, hturn]
      exact leads_leave_steps node 0
    · rw [hvis, hturn]
      exact leads_actuate_steps node p true
  | driving d repeats =>
    have hvis : e.visiting? g settings s = none := by simp [visiting?, hstage]
    rcases turn_driving g settings s hstage with hturn | ⟨left, -, -, hturn⟩ | ⟨-, hturn⟩
    · simp [hturn, finish]
    · rw [hvis, hturn]
      exact fun _ => rfl
    · rw [hvis, hturn]
      exact leads_afterMotion_steps d.node repeats d.written

end

theorem turn_of_ended {g : Graph} {settings : Settings} {e : Execution} {s : Surroundings}
    {r : Report} (h : (e.turn g settings s).move = .ended r) :
    e.turn g settings s = e.finish r.outcome s := by
  cases hstage : e.stage with
  | arriving next =>
    rcases turn_arriving g settings s hstage with ⟨outcome, -, hturn⟩ | ⟨id, p, -, -, -, -, hturn⟩
    · rw [hturn] at h ⊢
      cases h
      rfl
    · rw [hturn] at h
      exact absurd h (leads_visit_steps id p).ne_ended
  | driving d repeats =>
    rcases turn_driving g settings s hstage with hturn | ⟨left, -, -, hturn⟩ | ⟨-, hturn⟩
    · rw [hturn] at h ⊢
      cases h
      rfl
    · rw [hturn] at h
      cases h
    · rw [hturn] at h
      exact absurd h (leads_afterMotion_steps (s := s) d.node repeats d.written).ne_ended
  | sensing node asleep =>
    rcases turn_sensing g settings s hstage with ⟨outcome, -, hturn⟩ | ⟨-, hturn⟩ | ⟨p, -, -, hturn⟩
    · rw [hturn] at h ⊢
      cases h
      rfl
    · rw [hturn] at h
      exact absurd h (leads_leave_steps (s := s) node 0).ne_ended
    · rw [hturn] at h
      exact absurd h (leads_actuate_steps node p true).ne_ended

end Execution

theorem Graph.execute_of_empty {g : Graph} (h : g.first? = none) (turns : Nat) (settings : Settings)
    (o : Outside) :
    g.execute turns settings o = some ⟨.error .emptyGraph, #[], o⟩ := by
      simp only [execute, Execution.start, h]

theorem Graph.execute_of_first {g : Graph} {entry : NodeId} (h : g.first? = some entry)
    (turns : Nat) (settings : Settings) (o : Outside) :
    g.execute turns settings o =
      (run (Execution.turn g settings) turns { stage := .arriving (some entry) } o
        #[.executionStarted entry]).map
        fun ending => ⟨.ok ending.result, ending.events, ending.outside⟩ := by
          simp only [execute, Execution.start, h]

/-- The nodes that an execution visits in its first turns, in the order of the visits. -/
def Graph.visits (turns : Nat) (settings : Settings) (g : Graph) (o : Outside) : List NodeId :=
  match Execution.start g with
  | .error _ => []
  | .ok (e, _) => marks (Execution.visiting? g settings) (Execution.turn g settings) turns e o

end MotionScript
