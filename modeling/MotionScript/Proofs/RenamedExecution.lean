import MotionScript.Proofs.RunPrefixes

/-!
# Executions of graphs with other names

An execution looks at a graph only through the payload of the node where it is and through where
that leads. So in a graph in which the nodes that can be reached have got other names, it goes in
the same way: in the same surroundings each turn leaves the same surroundings, rests or goes on
alike, and publishes the same events about the renamed nodes.
-/
namespace MotionScript

/-! ## Turns with other states and events -/

section

variable {State State' Result : Type} {onEvent : Event → Event} {onState : State → State'}

def Move.map (onState : State → State') : Move State Result → Move State' Result
  | .onward state => .onward (onState state)
  | .rest duration state => .rest duration (onState state)
  | .ended result => .ended result

def Turn.map (onEvent : Event → Event) (onState : State → State')
    (t : Turn State Result) : Turn State' Result where
  events := t.events.map onEvent
  surroundings := t.surroundings
  move := t.move.map onState

theorem Turn.follow_map (t : Turn State Result) (o : Outside) :
    (t.map onEvent onState).follow o =
      (t.follow o).map (fun (state, after) => (onState state, after)) id := by
  unfold Turn.follow Turn.map Move.map
  cases t.move <;> rfl

/-- The second activity does from a renamed state what the first does from the state, as long as
something holds of it that the first activity keeps. -/
structure Mirrored (kept : State → Prop) (onEvent : Event → Event) (onState : State → State')
    (activity : Activity State Result) (mirror : Activity State' Result) : Prop where
  turn : ∀ state s, kept state → mirror (onState state) s = (activity state s).map onEvent onState
  kept : ∀ state s, kept state →
    let t := activity state s
    t.move.Leads t.surroundings (fun next _ => kept next) (fun _ => True)

namespace Mirrored

variable {kept : State → Prop} {activity : Activity State Result} {mirror : Activity State' Result}
  {state : State}
variable (h : Mirrored kept onEvent onState activity mirror)
include h

theorem follow (hk : kept state) (o : Outside) :
    (∃ next after, (activity state o.surroundings).follow o = .inl (next, after) ∧ kept next ∧
      (mirror (onState state) o.surroundings).follow o = .inl (onState next, after)) ∨
    ∃ result, (activity state o.surroundings).follow o = .inr result ∧
      (mirror (onState state) o.surroundings).follow o = .inr result := by
  rw [h.turn state o.surroundings hk, Turn.follow_map]
  rcases (h.kept state o.surroundings hk).follow o with ⟨next, after, hf, hnext⟩ | ⟨result, hf, -⟩
  · exact .inl ⟨next, after, hf, hnext, by rw [hf]; rfl⟩
  · exact .inr ⟨result, hf, by rw [hf]; rfl⟩

theorem stateAfter (hk : kept state) (turns : Nat) (o : Outside) :
    stateAfter mirror turns (onState state) o =
      (stateAfter activity turns state o).map fun (state, after) => (onState state, after) := by
  induction turns generalizing state o with
  | zero => rfl
  | succ turns ih =>
    rcases h.follow hk o with ⟨next, after, hf, hnext, hf'⟩ | ⟨result, hf, hf'⟩
    · rw [stateAfter_succ hf, stateAfter_succ hf', ih hnext]
    · simp [MotionScript.stateAfter, hf, hf']

theorem eventsIn (hk : kept state) (turns : Nat) (o : Outside) :
    eventsIn mirror turns (onState state) o = (eventsIn activity turns state o).map onEvent := by
  induction turns generalizing state o with
  | zero => rfl
  | succ turns ih =>
    have hevents : (mirror (onState state) o.surroundings).events =
        (activity state o.surroundings).events.map onEvent := by
      rw [h.turn state o.surroundings hk, Turn.map]
    rcases h.follow hk o with ⟨next, after, hf, hnext, hf'⟩ | ⟨result, hf, hf'⟩
    · rw [eventsIn_succ hf, eventsIn_succ hf', hevents, ih hnext, List.map_append]
    · simp [MotionScript.eventsIn, hf, hf', hevents]

theorem run (hk : kept state) (turns : Nat) (o : Outside) (events : Array Event) :
    run mirror turns (onState state) o (events.map onEvent) =
      (run activity turns state o events).map fun ending =>
        { ending with events := ending.events.map onEvent } := by
  induction turns generalizing state o events with
  | zero => rfl
  | succ turns ih =>
    have hevents : events.map onEvent ++ (mirror (onState state) o.surroundings).events =
        (events ++ (activity state o.surroundings).events).map onEvent := by
      rw [h.turn state o.surroundings hk, Turn.map]
      exact Array.toList_inj.mp (by simp)
    have hleft : (mirror (onState state) o.surroundings).surroundings =
        (activity state o.surroundings).surroundings := by
      rw [h.turn state o.surroundings hk, Turn.map]
    simp only [run_succ, hevents]
    rcases h.follow hk o with ⟨next, after, hf, hnext, hf'⟩ | ⟨result, hf, hf'⟩
    · simp only [hf, hf', ih hnext]
    · simp only [hf, hf', hleft, Option.map_some]

end Mirrored

end

/-! ## Renamed executions -/

def Event.renamed (f : NodeId → NodeId) : Event → Event
  | .feedback text => .feedback text
  | .speech node text => .speech (f node) text
  | .frame node input => .frame (f node) input
  | .axesReleased node => .axesReleased (f node)
  | .executionStarted entry => .executionStarted (f entry)
  | .executionFinished steps outcome => .executionFinished steps outcome

def Drive.renamed (f : NodeId → NodeId) (d : Drive) : Drive := { d with node := f d.node }

def Stage.renamed (f : NodeId → NodeId) : Stage → Stage
  | .arriving next => .arriving (next.map f)
  | .driving drive repeats => .driving (drive.renamed f) repeats
  | .sensing node asleep => .sensing (f node) asleep

def Execution.renamed (f : NodeId → NodeId) (e : Execution) : Execution :=
  { e with stage := e.stage.renamed f }

/-- The nodes of which something holds stand in the second graph under other names, and lead only to
each other. -/
structure Graph.Mirrors (f : NodeId → NodeId) (shown : NodeId → Prop) (g g' : Graph) : Prop where
  payload : ∀ id, shown id → g'.payload? (f id) = g.payload? id
  children : ∀ id, shown id → g'.children (f id) = (g.children id).map f
  closed : ∀ id, shown id → ∀ child ∈ g.children id, shown child

theorem Drive.turn_renamed (f : NodeId → NodeId) (d : Drive) (interval : Nat) (s : Surroundings) :
    (d.renamed f).turn interval s = (d.turn interval s).map (Event.renamed f) (renamed f) := by
  by_cases hawake : (d.asleep && s.cancelled) = true
  · simp [Drive.turn, Drive.renamed, hawake, Turn.map, Move.map]
  rw [Drive.turn, Drive.turn, if_neg hawake, if_neg (by exact hawake)]
  cases hleft : d.left with
  | zero => simp [Drive.renamed, hleft, Turn.map, Move.map, Event.renamed]
  | succ left =>
    by_cases hc : s.cancelled = true <;>
      simp [Drive.renamed, hleft, hc, Turn.map, Move.map, Event.renamed]

theorem Graph.Mirrors.exists_node {f : NodeId → NodeId} {shown : NodeId → Prop} {g g' : Graph}
    (h : Graph.Mirrors f shown g g') {id : NodeId} (hid : shown id) :
    (g.node? id = none ∧ g'.node? (f id) = none) ∨
      ∃ node node', g.node? id = some node ∧ g'.node? (f id) = some node' ∧
        node'.payload = node.payload := by
  have hp := h.payload id hid
  simp only [Graph.payload?] at hp
  cases hn : g.node? id with
  | none => exact .inl ⟨rfl, by simpa [hn] using hp⟩
  | some node =>
    rw [hn, Option.map_some] at hp
    obtain ⟨node', hn', hsame⟩ := Option.map_eq_some_iff.mp hp
    exact .inr ⟨node, node', rfl, hn', hsame⟩

namespace Execution

/-- Where an execution is or arrives is a node of which something holds. -/
def Within (shown : NodeId → Prop) (e : Execution) : Prop :=
  match e.stage with
  | .arriving next => ∀ id ∈ next, shown id
  | .driving drive _ => shown drive.node
  | .sensing node _ => shown node

section

variable {f : NodeId → NodeId} {shown : NodeId → Prop} {g g' : Graph} {settings : Settings}
variable (h : Graph.Mirrors f shown g g')
include h

theorem leave_renamed (e : Execution) {node : NodeId} (hn : shown node) (branch : Nat) :
    (e.renamed f).leave g' (f node) branch = (e.leave g node branch).map (renamed f) := by
  have hchild : g'.child? (f node) branch = (g.child? node branch).map f := by
    simp [Graph.child?, h.children node hn]
  simp only [leave, renamed, hchild]
  split <;> rfl

theorem afterMotion_renamed (e : Execution) {node : NodeId} (hn : shown node) (repeats : Bool)
    (written : Nat) :
    (e.renamed f).afterMotion g' settings (f node) repeats written =
      (e.afterMotion g settings node repeats written).map (renamed f) := by
  cases repeats with
  | true => rfl
  | false => exact leave_renamed h { e with frames := e.frames + written } hn 0

theorem actuate_renamed (e : Execution) {node : NodeId} (hn : shown node) (p : Payload)
    (repeats : Bool) (s : Surroundings) :
    (e.renamed f).actuate g' settings (f node) p repeats s =
      (e.actuate g settings node p repeats s).map (Event.renamed f) (renamed f) := by
  simp only [actuate]
  split
  · simp [Turn.map, afterMotion_renamed h e hn]
  · split
    · simp [Turn.map, afterMotion_renamed h e hn, pressGripper, Event.renamed]
    · rfl

theorem visit_renamed (e : Execution) {id : NodeId} (hid : shown id) (p : Payload)
    (s : Surroundings) :
    (e.renamed f).visit g' settings (f id) p s =
      (e.visit g settings id p s).map (Event.renamed f) (renamed f) := by
  have hleave (events : List Event) (branch : Nat) :
      ({ events := events.map (Event.renamed f)
         surroundings := s
         move := leave g' (renamed f { e with steps := e.steps + 1, before := e.frames }) (f id)
           branch } : Turn Execution Report) =
        Turn.map (Event.renamed f) (renamed f)
          { events, surroundings := s,
            move := leave g { e with steps := e.steps + 1, before := e.frames } id branch } := by
    rw [leave_renamed h _ hid]
    rfl
  simp only [visit]
  split
  · exact hleave [] 0
  · exact actuate_renamed h { e with steps := e.steps + 1, before := e.frames } hid p false s
  · rfl
  · exact hleave [] _
  · exact hleave [] _
  · exact hleave [] _
  · exact hleave [.feedback (p.speech.getD ""), .speech id (p.speech.getD "")] 0

/-- Each turn goes as it does among the nodes with their old names. -/
theorem turn_renamed {e : Execution} (he : e.Within shown) (s : Surroundings) :
    (e.renamed f).turn g' settings s = (e.turn g settings s).map (Event.renamed f) (renamed f) := by
  have hstage' : (e.renamed f).stage = e.stage.renamed f := rfl
  have hsteps : (e.renamed f).steps = e.steps := rfl
  have hfinish (outcome : Outcome) (s : Surroundings) :
      (e.renamed f).finish outcome s = (e.finish outcome s).map (Event.renamed f) (renamed f) := rfl
  unfold Within at he
  cases hstage : e.stage with
  | arriving next =>
    rw [hstage] at he hstage'
    cases next with
    | none =>
      simp only [turn, hstage, hstage', Stage.renamed, Option.map_none, Option.bind_none, hfinish]
    | some id =>
      have hid : shown id := he id rfl
      simp only [turn, hstage, hstage', Stage.renamed, Option.map_some, Option.bind_some]
      rcases h.exists_node hid with ⟨hn, hn'⟩ | ⟨node, node', hn, hn', hsame⟩
      · simp only [hn, hn', Option.map_none, hfinish]
      · simp only [hn, hn', hsame, Option.map_some, hsteps, hfinish, visit_renamed h e hid]
        split
        · rfl
        · split <;> rfl
  | driving d repeats =>
    rw [hstage] at he hstage'
    have hafter (written : Nat) : (e.renamed f).afterMotion g' settings (f d.node) repeats written =
        (e.afterMotion g settings d.node repeats written).map (renamed f) :=
          afterMotion_renamed h e he repeats written
    simp only [turn, hstage, hstage', Stage.renamed, Drive.turn_renamed]
    cases hm : (d.turn settings.frameInterval s).move with
    | onward d => simp only [Turn.map, hm, Move.map]; rfl
    | rest duration d => simp only [Turn.map, hm, Move.map]; rfl
    | ended written =>
      cases written with
      | none => simp only [Turn.map, hm, Move.map]; rfl
      | some written =>
        simp only [Turn.map, hm, Move.map]
        exact congrArg (Turn.mk _ _) (hafter written)
  | sensing node asleep =>
    rw [hstage] at he hstage'
    simp only [turn, hstage, hstage', Stage.renamed, hfinish]
    split
    · rfl
    split
    · rw [leave_renamed h e he]
      rfl
    split
    · rfl
    rcases h.exists_node he with ⟨hn, hn'⟩ | ⟨found, found', hn, hn', hsame⟩
    · simp only [hn, hn']
    · simp only [hn, hn', hsame]
      exact actuate_renamed h e he _ _ s

end

section

variable {shown : NodeId → Prop} {g : Graph} {settings : Settings} {e : Execution}
  {s : Surroundings} {node : NodeId}
variable {done : Report → Prop} (hclosed : ∀ id, shown id → ∀ child ∈ g.children id, shown child)
include hclosed

theorem leads_leave_within (hn : shown node) (branch : Nat) :
    (e.leave g node branch).Leads s (fun e _ => e.Within shown) done :=
  leads_leave fun _ _ hid => hclosed node hn _ (Graph.mem_children_of_child? hid)

theorem leads_afterMotion_within (hn : shown node) (repeats : Bool) (written : Nat) :
    (e.afterMotion g settings node repeats written).Leads s (fun e _ => e.Within shown) done := by
  cases repeats with
  | true => exact fun _ => hn
  | false => exact leads_leave_within hclosed hn 0

theorem leads_actuate_within (hn : shown node) (p : Payload) (repeats : Bool) :
    let t := e.actuate g settings node p repeats s
    t.move.Leads t.surroundings (fun e _ => e.Within shown) done := by
  unfold actuate
  split
  · exact leads_afterMotion_within hclosed hn repeats 0
  · split
    · exact leads_afterMotion_within hclosed hn repeats 1
    · exact hn

theorem leads_visit_within (hn : shown node) (p : Payload) :
    let t := e.visit g settings node p s
    t.move.Leads t.surroundings (fun e _ => e.Within shown) done := by
  have hleave (branch : Nat) :
      (leave g { e with steps := e.steps + 1, before := e.frames } node branch).Leads s
        (fun e _ => e.Within shown) done :=
    leads_leave_within hclosed hn branch
  unfold visit
  split
  · exact hleave _
  · exact leads_actuate_within hclosed hn p false
  · exact hn
  · exact hleave _
  · exact hleave _
  · exact hleave _
  · exact hleave _

/-- An execution stays among nodes that lead only to each other. -/
theorem Within.leads_turn (he : e.Within shown) :
    let t := e.turn g settings s
    t.move.Leads t.surroundings (fun e _ => e.Within shown) (fun _ => True) := by
  cases hstage : e.stage with
  | arriving next =>
    rcases turn_arriving g settings s hstage with ⟨outcome, -, hturn⟩ | ⟨id, p, rfl, -, -, -, hturn⟩
    · simp [hturn, finish]
    · rw [hturn]
      simp only [Within, hstage] at he
      exact leads_visit_within hclosed (he id rfl) p
  | driving d repeats =>
    simp only [Within, hstage] at he
    rcases turn_driving g settings s hstage with hturn | ⟨left, -, -, hturn⟩ | ⟨-, hturn⟩
    · simp [hturn, finish]
    · rw [hturn]
      exact fun _ => he
    · rw [hturn]
      exact leads_afterMotion_within hclosed he repeats d.written
  | sensing node asleep =>
    simp only [Within, hstage] at he
    rcases turn_sensing g settings s hstage with ⟨outcome, -, hturn⟩ | ⟨-, hturn⟩ | ⟨p, -, -, hturn⟩
    · simp [hturn, finish]
    · rw [hturn]
      exact leads_leave_within hclosed he 0
    · rw [hturn]
      exact leads_actuate_within hclosed he p true

end

theorem mirrored {f : NodeId → NodeId} {shown : NodeId → Prop} {g g' : Graph}
    (h : Graph.Mirrors f shown g g') (settings : Settings) :
    Mirrored (Within shown) (Event.renamed f) (renamed f) (turn g settings) (turn g' settings) where
  turn _ s he := turn_renamed h he s
  kept _ _ he := he.leads_turn h.closed

end Execution

/-- Executions of the two graphs go alike, up to names. After each number of turns they are at the
same point and there is the same outside, so they have rested as often and as long; they have
published the same events; and they end alike. -/
structure Graph.ExecutedAlike (f : NodeId → NodeId) (g g' : Graph) : Prop where
  moments : ∀ turns settings o,
    g'.momentAfter turns settings o = (g.momentAfter turns settings o).map fun (e, now) =>
      (e.renamed f, now)
  events : ∀ turns settings o, g'.publishedIn turns settings o =
    (g.publishedIn turns settings o).map (Event.renamed f)
  endings : ∀ turns settings o, g'.execute turns settings o =
    (g.execute turns settings o).map fun ending =>
      { ending with events := ending.events.map (Event.renamed f) }

theorem Graph.Mirrors.executedAlike {f : NodeId → NodeId} {shown : NodeId → Prop} {g g' : Graph}
    {first : NodeId} (h : Graph.Mirrors f shown g g') (hfirst : g.first? = some first)
    (hfirst' : g'.first? = some (f first)) (hshown : shown first) : Graph.ExecutedAlike f g g' := by
  have hwithin : Execution.Within shown { stage := .arriving (some first) } := by
    simpa [Execution.Within] using hshown
  have hmirrored (settings : Settings) := Execution.mirrored h settings
  constructor
  case moments =>
    intro turns settings o
    rw [momentAfter_of_first hfirst, momentAfter_of_first hfirst']
    exact (hmirrored settings).stateAfter hwithin turns o
  case events =>
    intro turns settings o
    rw [publishedIn_of_first hfirst, publishedIn_of_first hfirst']
    exact congrArg _ ((hmirrored settings).eventsIn hwithin turns o)
  case endings =>
    intro turns settings o
    have hrun := (hmirrored settings).run hwithin turns o #[.executionStarted first]
    have hstarted : #[Event.executionStarted first].map (Event.renamed f) =
        #[Event.executionStarted (f first)] := by
      simp [Event.renamed]
    rw [hstarted] at hrun
    rw [execute_of_first hfirst, execute_of_first hfirst']
    refine (congrArg _ hrun).trans ?_
    rw [Option.map_map, Option.map_map]
    rfl

end MotionScript
