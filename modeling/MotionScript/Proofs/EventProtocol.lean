import MotionScript.Proofs.BuilderInvariant
import MotionScript.Proofs.ExecutionHistory

/-!
# The events of an execution

An execution publishes a block of events for every node that it visits, in the order of the visits,
between an event that it has started and an event that it has finished. What the block of a node is
follows from its payload. Only the block of the last node may be incomplete: a cancel can cut the
drive that is under way, which then ends without a release of the sticks.
-/
namespace MotionScript

def Event.isFrame (event : Event) : Bool := event.type = .frame

def frameCount (events : List Event) : Nat := events.countP Event.isFrame

@[simp] theorem frameCount_append (first second : List Event) :
    frameCount (first ++ second) = frameCount first + frameCount second := List.countP_append

@[simp] theorem frameCount_frames (id : NodeId) (inputs : List ControllerInput) :
    frameCount (inputs.map (.frame id)) = inputs.length := by
  simp [frameCount, List.countP_map, Function.comp_def, Event.isFrame, Event.type, List.countP_true]

/-- The events of one motion that was carried out in full. -/
inductive MotionBlock (settings : Settings) (id : NodeId) (p : Payload) : List Event → Prop
  | idle : p.motion = none → MotionBlock settings id p []
  | press {motion : Motion} {input : ControllerInput} :
      p.motion = some motion →
        Actuation.ofMotion settings.scale motion p.params = .press → input.y = 1 →
      MotionBlock settings id p [.frame id input]
  | drive {motion : Motion} {frame : StickFrame} {inputs : List ControllerInput} :
      p.motion = some motion →
      Actuation.ofMotion settings.scale motion p.params = .drive inputs.length frame →
      (∀ input ∈ inputs, input.axes = frame) →
      MotionBlock settings id p (inputs.map (.frame id) ++ [.axesReleased id])

/-- The frames of a drive that a cancel has cut short, after at least one of them. -/
inductive CutDrive (settings : Settings) (id : NodeId) (p : Payload) : List Event → Prop
  | intro {motion : Motion} {frames : Nat} {frame : StickFrame} {inputs : List ControllerInput} :
      p.motion = some motion →
        Actuation.ofMotion settings.scale motion p.params = .drive frames frame →
      inputs ≠ [] → inputs.length ≤ frames → (∀ input ∈ inputs, input.axes = frame) →
      CutDrive settings id p (inputs.map (.frame id))

/-- The motions of a node so far: none before it has moved, or, where the motion is repeated, any
number of them. -/
inductive Rounds (settings : Settings) (id : NodeId) (p : Payload) : Bool → List Event → Prop
  | single : p.kind = .once → Rounds settings id p false []
  | none : p.kind = .untilNear → Rounds settings id p true []
  | more {rounds block : List Event} :
      Rounds settings id p true rounds → MotionBlock settings id p block →
        Rounds settings id p true (rounds ++ block)

/-- The events of a node that was visited and left. -/
inductive VisitBlock (settings : Settings) (id : NodeId) (p : Payload) : List Event → Prop
  | once {block : List Event} :
      p.kind = .once → MotionBlock settings id p block → VisitBlock settings id p block
  | untilNear {rounds : List Event} :
      Rounds settings id p true rounds → VisitBlock settings id p rounds
  | speech : p.kind = .speech →
      VisitBlock settings id p [.feedback (p.speech.getD ""), .speech id (p.speech.getD "")]
  | silent : p.kind = .root ∨ p.kind = .whileLoop ∨ p.kind = .doWhileLoop ∨ p.kind = .conditional →
      VisitBlock settings id p []

inductive VisitLog (g : Graph) (settings : Settings) : List NodeId → List Event → Prop
  | nil : VisitLog g settings [] []
  | snoc {ids : List NodeId} {events block : List Event} {id : NodeId} {p : Payload} :
      VisitLog g settings ids events → g.payload? id = some p → VisitBlock settings id p block →
      VisitLog g settings (ids ++ [id]) (events ++ block)

inductive OpenLog (g : Graph) (settings : Settings) (id : NodeId) (p : Payload) (repeats : Bool) :
    List NodeId → List Event → Prop
  | intro {ids : List NodeId} {events rounds : List Event} :
      VisitLog g settings ids events → g.payload? id = some p →
        Rounds settings id p repeats rounds →
      OpenLog g settings id p repeats (ids ++ [id]) (events ++ rounds)

namespace OpenLog

variable {g : Graph} {settings : Settings} {id : NodeId} {p : Payload} {repeats : Bool}
  {ids : List NodeId} {events block : List Event}

theorem more (h : OpenLog g settings id p true ids events) (hb : MotionBlock settings id p block) :
    OpenLog g settings id p true ids (events ++ block) := by
  obtain ⟨hlog, hp, hr⟩ := h
  rw [List.append_assoc]
  exact .intro hlog hp (.more hr hb)

theorem left (h : OpenLog g settings id p true ids events) : VisitLog g settings ids events := by
  obtain ⟨hlog, hp, hr⟩ := h
  exact .snoc hlog hp (.untilNear hr)

theorem left_once (h : OpenLog g settings id p false ids events)
    (hb : MotionBlock settings id p block) :
    VisitLog g settings ids (events ++ block) := by
  obtain ⟨hlog, hp, hr⟩ := h
  cases hr with
  | single hk =>
    rw [List.append_assoc]
    exact .snoc hlog hp (.once hk hb)

end OpenLog

namespace Execution

variable {g : Graph} {settings : Settings} {entry : NodeId}

/-- What an execution has published when a turn begins, by the stage in which it begins. -/
inductive Published (g : Graph) (settings : Settings) (ids : List NodeId) :
    List Event → Execution → Surroundings → Prop
  | arriving {events : List Event} {e : Execution} {s : Surroundings} {next : Option NodeId} :
      e.stage = .arriving next → e.steps = ids.length → e.frames = frameCount events →
      VisitLog g settings ids events → Published g settings ids events e s
  | sensing {events : List Event} {e : Execution} {s : Surroundings} {id : NodeId} {asleep : Bool}
      {p : Payload} :
      e.stage = .sensing id asleep → e.steps = ids.length → e.frames = frameCount events →
      OpenLog g settings id p true ids events → Published g settings ids events e s
  | driving {events : List Event} {e : Execution} {s : Surroundings} {d : Drive} {repeats : Bool}
      {p : Payload} {motion : Motion} {inputs : List ControllerInput} :
      e.stage = .driving d repeats → e.steps = ids.length → e.frames = frameCount events →
      OpenLog g settings d.node p repeats ids events →
      p.motion = some motion →
      Actuation.ofMotion settings.scale motion p.params = .drive (d.written + d.left) d.frame →
      inputs.length = d.written → (∀ input ∈ inputs, input.axes = d.frame) →
      (d.written = 0 → s.cancelled = false) →
      Published g settings ids (events ++ inputs.map (.frame d.node)) e s

/-- What an execution has published when it has ended. -/
def Concluded (g : Graph) (settings : Settings) (ids : List NodeId) (events : List Event)
    (r : Report) : Prop :=
  r.steps = ids.length ∧ ∃ log cut,
    events = log ++ cut ++ [.executionFinished r.steps r.outcome] ∧ r.frames = frameCount log ∧
    ((cut = [] ∧ VisitLog g settings ids log) ∨
      (r.outcome = .cancelled ∧ ∃ id p repeats, OpenLog g settings id p repeats ids log ∧
        CutDrive settings id p cut))

private theorem leads_afterMotion {e : Execution} {node : NodeId} {p : Payload} {repeats : Bool}
    {ids : List NodeId} {events block : List Event} {s : Surroundings} {done : Report → Prop}
    (hsteps : e.steps = ids.length) (hframes : e.frames = frameCount events)
    (hlog : OpenLog g settings node p repeats ids events) (hb : MotionBlock settings node p block) :
    (e.afterMotion g settings node repeats (frameCount block)).Leads s
      (Published g settings ids (events ++ block)) done := by
  cases repeats with
  | true => exact fun s => .sensing rfl hsteps (by simp [hframes]) (hlog.more hb)
  | false =>
    simp only [afterMotion, Bool.false_eq_true, if_false]
    exact leads_leave fun s => .arriving rfl hsteps (by simp [hframes]) (hlog.left_once hb)

/-- To begin a motion keeps the account of what was published. -/
private theorem leads_actuate {e : Execution} {node : NodeId} {p : Payload} {repeats : Bool}
    {ids : List NodeId} {events : List Event} {s : Surroundings} {done : Report → Prop}
    (hsteps : e.steps = ids.length) (hframes : e.frames = frameCount events)
    (hlog : OpenLog g settings node p repeats ids events) (hs : s.cancelled = false) :
    let t := e.actuate g settings node p repeats s
    t.move.Leads t.surroundings (Published g settings ids (events ++ t.events)) done := by
  unfold actuate
  split
  next hm => exact leads_afterMotion hsteps hframes hlog (.idle hm)
  next motion hm =>
    split
    next ha => exact leads_afterMotion hsteps hframes hlog (.press hm ha rfl)
    next frames frame ha =>
      let first : Drive := { node, frame, left := frames }
      have htotal : Actuation.ofMotion settings.scale motion p.params =
          .drive (first.written + first.left) first.frame := by
        simpa [first] using ha
      have h : Published g settings ids (events ++ [].map (.frame first.node))
          { e with stage := .driving first repeats } s :=
        .driving rfl hsteps hframes hlog hm htotal rfl (by simp) (fun _ => hs)
      simpa using h

private theorem concluded_of_log {e : Execution} {ids : List NodeId} {events : List Event}
    {outcome : Outcome} (hsteps : e.steps = ids.length) (hframes : e.frames = frameCount events)
    (hlog : VisitLog g settings ids events) :
    Concluded g settings ids (events ++ [.executionFinished e.steps outcome])
      ⟨e.steps, e.frames, outcome⟩ :=
  ⟨hsteps, events, [], by simp, hframes, .inl ⟨rfl, hlog⟩⟩

/-- A visit adds the node to those visited, and what it publishes at once to its block. -/
private theorem leads_visit {e : Execution} {ids : List NodeId} {events : List Event}
    {s : Surroundings} {id : NodeId} {p : Payload} {done : Report → Prop}
    (hsteps : e.steps = ids.length) (hframes : e.frames = frameCount events)
    (hlog : VisitLog g settings ids events) (hp : g.payload? id = some p)
    (hs : s.cancelled = false) :
    let t := e.visit g settings id p s
    t.move.Leads t.surroundings (Published g settings (ids ++ [id]) (events ++ t.events)) done := by
  have hsteps' : e.steps + 1 = (ids ++ [id]).length := by simp [hsteps]
  have hsilent (hk : p.kind = .root ∨ p.kind = .whileLoop ∨ p.kind = .doWhileLoop ∨
      p.kind = .conditional) :
      VisitLog g settings (ids ++ [id]) (events ++ []) := .snoc hlog hp (.silent hk)
  have hheader (hk : p.kind = .whileLoop ∨ p.kind = .doWhileLoop ∨ p.kind = .conditional) :
      Move.Leads (leave g { e with steps := e.steps + 1, before := e.frames } id
        (if s.controller.landmarks.face then 0 else 1)) s (Published g settings (ids ++ [id])
            (events ++ [])) done :=
    leads_leave fun s => .arriving rfl hsteps' (by simpa using hframes) (hsilent (.inr hk))
  unfold visit
  split
  next hk =>
    exact leads_leave fun s => .arriving rfl hsteps' (by simpa using hframes) (hsilent (.inl hk))
  next hk =>
    have hopen : OpenLog g settings id p false (ids ++ [id]) (events ++ []) :=
      .intro hlog hp (.single hk)
    rw [List.append_nil] at hopen
    exact leads_actuate (e := { e with steps := e.steps + 1, before := e.frames }) hsteps'
      hframes hopen hs
  next hk =>
    have hopen : OpenLog g settings id p true (ids ++ [id]) (events ++ []) :=
      .intro hlog hp (.none hk)
    exact .sensing rfl hsteps' (by simpa using hframes) hopen
  next hk => exact hheader (.inl hk)
  next hk => exact hheader (.inr (.inl hk))
  next hk => exact hheader (.inr (.inr hk))
  next hk =>
    refine leads_leave fun s => .arriving rfl hsteps' ?_ (.snoc hlog hp (.speech hk))
    rw [frameCount_append, hframes]
    rfl

/-- One turn of a drive writes a frame, releases the sticks, or finds that it was cut short. -/
private theorem leads_drive {e : Execution} {ids : List NodeId} {events : List Event}
    {s : Surroundings} {d : Drive} {repeats : Bool} {p : Payload} {motion : Motion}
    {inputs : List ControllerInput} (hstage : e.stage = .driving d repeats)
    (hsteps : e.steps = ids.length) (hframes : e.frames = frameCount events)
    (hlog : OpenLog g settings d.node p repeats ids events) (hm : p.motion = some motion)
    (ha : Actuation.ofMotion settings.scale motion p.params = .drive (d.written + d.left) d.frame)
    (hwritten : inputs.length = d.written) (haxes : ∀ input ∈ inputs, input.axes = d.frame)
    (hs : d.written = 0 → s.cancelled = false) :
    let t := e.turn g settings s
    t.move.Leads t.surroundings
      (Published g settings ids (events ++ inputs.map (.frame d.node) ++ t.events))
      (Concluded g settings ids (events ++ inputs.map (.frame d.node) ++ t.events)) := by
  have hcut (hc : s.cancelled = true) :
      Concluded g settings ids
        (events ++ inputs.map (.frame d.node) ++ [.executionFinished e.steps .cancelled])
        ⟨e.steps, e.frames, .cancelled⟩ := by
    refine ⟨hsteps, events, _, rfl, hframes,
      .inr ⟨rfl, d.node, p, repeats, hlog, .intro hm ha ?_ (by omega) haxes⟩⟩
    rintro rfl
    have := hs (by simpa using hwritten.symm)
    simp [this] at hc
  simp only [turn, hstage, Drive.turn]
  by_cases hawake : (d.asleep && s.cancelled) = true
  · rw [if_pos hawake]
    exact hcut (by simp_all)
  rw [if_neg hawake]
  cases hleft : d.left with
  | zero =>
    have hb : MotionBlock settings d.node p
        (inputs.map (.frame d.node) ++ [.axesReleased d.node]) :=
      .drive hm (by rw [ha, hwritten, hleft, Nat.add_zero]) haxes
    have hcount : d.written =
        frameCount (inputs.map (.frame d.node) ++ [.axesReleased d.node]) := by
      rw [frameCount_append, frameCount_frames, hwritten]
      rfl
    simp only [List.append_assoc]
    rw [hcount]
    exact leads_afterMotion hsteps hframes hlog hb
  | succ left =>
    by_cases hc : s.cancelled = true
    · simp only [hc, if_true]
      exact hcut hc
    · simp only [hc, Bool.false_eq_true, if_false]
      intro s'
      have haxes' : ∀ input ∈ inputs ++ [(s.controller.update (·.setAxes d.frame)).input],
          input.axes = d.frame := by
        intro input hi
        rcases List.mem_append.mp hi with hi | hi
        · exact haxes input hi
        · rw [List.mem_singleton.mp hi]
          rfl
      let next : Drive :=
        { d with left, written := d.written + 1, asleep := settings.frameInterval != 0 }
      have htotal : Actuation.ofMotion settings.scale motion p.params =
          .drive (next.written + next.left) next.frame := by
        rw [ha, hleft, Nat.add_left_comm, Nat.add_comm left]
      have h : Published g settings ids
          (events ++ (inputs ++ [(s.controller.update (·.setAxes d.frame)).input]).map
            (.frame next.node))
          { e with stage := .driving next repeats } s' :=
        .driving rfl hsteps hframes hlog hm htotal (by simp [hwritten, next]) haxes'
          (by simp [next])
      simpa using h

/-- Each turn keeps the account of what an execution has published. -/
private theorem leads_turn {ids : List NodeId} {events : List Event} {e : Execution}
    {s : Surroundings} (h : Published g settings ids events e s) :
    let t := e.turn g settings s
    let ids := ids ++ (e.visiting? g settings s).toList
    t.move.Leads t.surroundings (Published g settings ids (events ++ t.events))
      (Concluded g settings ids (events ++ t.events)) := by
  cases h with
  | @arriving _ _ _ next hstage hsteps hframes hlog =>
    cases next with
    | none => simpa [turn, visiting?, hstage, finish] using concluded_of_log hsteps hframes hlog
    | some id =>
      simp only [turn, visiting?, hstage]
      cases hn : g.node? id with
      | none =>
        have hlt : ¬ id < g.size := fun hlt => by simpa [hn] using (g.node?_isSome_iff id).mpr hlt
        simpa [hn, hlt, finish] using concluded_of_log hsteps hframes hlog
      | some node =>
        have hlt := Graph.lt_size_of_node? hn
        simp only [hn, Option.bind_some, Option.map_some]
        by_cases hc : s.cancelled = true
        · simpa [hc, finish] using concluded_of_log hsteps hframes hlog
        by_cases hmax : 0 < settings.maxSteps ∧ settings.maxSteps ≤ e.steps
        · simpa [hc, hmax, finish] using concluded_of_log hsteps hframes hlog
        have hp : g.payload? id = some node.payload := by simp [Graph.payload?, hn]
        have hcf : s.cancelled = false := by simpa using hc
        rw [if_neg hc, if_neg hmax, if_pos ⟨hlt, hcf, hmax⟩]
        exact leads_visit hsteps hframes hlog hp hcf
  | @sensing _ _ _ id asleep p hstage hsteps hframes hlog =>
    have hvis : e.visiting? g settings s = none := by simp [visiting?, hstage]
    simp only [hvis, Option.toList_none, List.append_nil]
    obtain ⟨node, hn, rfl⟩ : ∃ node, g.node? id = some node ∧ node.payload = p := by
      obtain ⟨-, hp, -⟩ := hlog
      exact Option.map_eq_some_iff.mp hp
    simp only [turn, hstage]
    by_cases hawake : (asleep && s.cancelled) = true
    · simpa [hawake, finish] using concluded_of_log hsteps hframes hlog.left
    by_cases hnear : s.controller.landmarks.near = true
    · simp only [hawake, hnear, if_true]
      exact leads_leave fun s =>
        .arriving rfl hsteps (by simpa using hframes) (by simpa using hlog.left)
    by_cases hc : s.cancelled = true
    · simpa [hawake, hnear, hc, finish] using concluded_of_log hsteps hframes hlog.left
    simp only [hnear, hc, Bool.and_false, Bool.false_eq_true, if_false, hn]
    exact leads_actuate hsteps hframes hlog (by simpa using hc)
  | driving hstage hsteps hframes hlog hm ha hwritten haxes hs =>
    have hvis : e.visiting? g settings s = none := by simp [visiting?, hstage]
    simp only [hvis, Option.toList_none, List.append_nil]
    exact leads_drive hstage hsteps hframes hlog hm ha hwritten haxes hs

end Execution

/-- An execution of a graph that a builder has made publishes nothing and fails if nothing is
recorded. Otherwise it does not fail, and when it ends it has published that it started, then one
block for each node that it visited in their order, then that it finished with the steps and the
outcome of its report; and the report counts the visited nodes, and the frames of all motions that
were carried out in full. -/
theorem Graph.events_of_execute (edits : List Builder.Edit) (turns : Nat) (settings : Settings)
    (o : Outside) :
    let g := (Builder.applyAll {} edits).graph
    match g.first? with
    | none => g.execute turns settings o = some ⟨.error .emptyGraph, #[], o⟩
    | some entry => ∀ ending, g.execute turns settings o = some ending →
        ∃ report events, ending.result = .ok report ∧
          ending.events.toList = .executionStarted entry :: events ∧
          Execution.Concluded g settings (g.visits turns settings o) events report := by
  intro g
  cases hfirst : g.first? with
  | none => exact execute_of_empty hfirst turns settings o
  | some entry =>
    intro ending h
    rw [execute_of_first hfirst] at h
    obtain ⟨inner, hrun, rfl⟩ := Option.map_eq_some_iff.mp h
    have hpublished : Execution.Published g settings [] [] { stage := .arriving (some entry) }
        o.surroundings :=
      .arriving rfl rfl rfl .nil
    obtain ⟨events, hevents, hconcluded⟩ := run_induction (Execution.visiting? g settings)
      (fun ids events e s => ∃ tail, events = .executionStarted entry :: tail ∧
        Execution.Published g settings ids tail e s)
      (fun ids events r => ∃ tail, events = .executionStarted entry :: tail ∧
        Execution.Concluded g settings ids tail r)
      (by
        rintro ids _ e s ⟨tail, rfl, hp⟩
        exact (Execution.leads_turn hp).imp (fun _ _ h => ⟨_, rfl, h⟩) (fun _ h => ⟨_, rfl, h⟩))
      ⟨[], rfl, hpublished⟩ hrun
    refine ⟨inner.result, events, rfl, hevents, ?_⟩
    simpa only [visits, Execution.start, hfirst, List.nil_append] using hconcluded

/-- A drive of two frames, a press that is repeated until a landmark is near, and a drive that is
cut short after two of its three frames, which the report does not count. -/
theorem Graph.events_of_cut_search :
    let edits : List Builder.Edit := [.append (.ofMotion .once .forward { dy := 2 }),
      .append (.ofMotion .untilNear .gripper {}), .append (.ofMotion .once .left { dx := 3 })]
    let g := (Builder.applyAll {} edits).graph
    let signals : List (Nat × Signal) :=
      [(4, { landmarks := some { near := true } }), (6, { cancel := true })]
    let o : Outside := { schedule := .atRests signals, surroundings := {} }
    ∃ ending report events, g.execute 16 {} o = some ending ∧ ending.result = .ok report ∧
      ending.events.toList = .executionStarted 1 :: events ∧
      report = ⟨3, 4, .cancelled⟩ ∧ frameCount events = 6 ∧
      Execution.Concluded g {} (g.visits 16 {} o) events report := by
  intro edits g signals o
  have hrun : (g.execute 16 {} o).map (fun ending =>
      (ending.result.toOption, frameCount ending.events.toList)) =
        some (some ⟨3, 4, .cancelled⟩, 6) := by
    decide +kernel
  obtain ⟨ending, hend, hvalues⟩ := Option.map_eq_some_iff.mp hrun
  obtain ⟨report, events, hresult, hevents, hconcluded⟩ :=
    events_of_execute edits 16 {} o ending hend
  rw [hresult, hevents] at hvalues
  refine ⟨ending, report, events, hend, hresult, hevents, ?_, ?_, hconcluded⟩
  · exact Option.some.inj (Prod.mk.inj hvalues).1
  · exact (Prod.mk.inj hvalues).2

end MotionScript
