import MotionScript.Proofs.BuilderInvariant
import MotionScript.Proofs.RunPrefixes
import MotionScript.Proofs.UncancelledRuns

/-!
# Runs that are cancelled

A run that is cancelled while it rests goes, up to that moment, as the run in which nobody cancels:
the signals up to there are the same but for the cancel. From then on an execution only comes to an
end. It begins no motion and says nothing; a drive that has written its last frame and does not
sleep still releases the sticks. The execution is completed if it has left its last node and found
no next one, and cancelled otherwise.
-/
namespace MotionScript

/-! ## The same outside without cancels -/

def Signal.withoutCancel (signal : Signal) : Signal := { signal with cancel := false }

def Schedule.withoutCancels : Schedule → Schedule
  | .atRests signals => .atRests (signals.map fun (rest, signal) => (rest, signal.withoutCancel))
  | .atTimes signals => .atTimes (signals.map fun (time, signal) => (time, signal.withoutCancel))

/-- The same outside, where nothing is cancelled and nothing will be. -/
def Outside.withoutCancels (o : Outside) : Outside :=
  { o with
    schedule := o.schedule.withoutCancels,
    surroundings := { o.surroundings with cancelled := false } }

namespace Outside

variable {o : Outside}

theorem uncancelled_withoutCancels (o : Outside) : o.withoutCancels.Uncancelled := by
  refine ⟨rfl, fun signal hm => ?_⟩
  obtain ⟨schedule, _, _, _, _⟩ := o
  cases schedule <;>
  · obtain ⟨x, -, rfl⟩ := List.mem_map.mp hm
    rfl

theorem withoutCancels_fire (o : Outside) (signal : Signal) :
    (o.fire signal).withoutCancels = o.withoutCancels.fire signal.withoutCancel := rfl

theorem withoutCancels_fireDue (o : Outside) :
    o.fireDue.withoutCancels = o.withoutCancels.fireDue := by
  obtain ⟨schedule, surroundings, reads, rests, clock⟩ := o
  cases schedule with
  | atTimes signals => rfl
  | atRests signals =>
    have hfold (due : List (Nat × Signal)) (o : Outside) :
        (due.foldl (fun o (_, signal) => o.fire signal) o).withoutCancels =
          (due.map fun (rest, signal) => (rest, signal.withoutCancel)).foldl
            (fun o (_, signal) => o.fire signal)
            o.withoutCancels := by
      induction due generalizing o with
      | nil => rfl
      | cons signal rest ih => simp only [List.foldl_cons, List.map_cons, ih, withoutCancels_fire]
    simp only [fireDue, withoutCancels, Schedule.withoutCancels, List.filter_map]
    exact hfold _ _

theorem withoutCancels_sleepUntil {deadline : Nat} {signals : List (Nat × Signal)}
    (h : (sleepUntil deadline signals o).surroundings.cancelled = false) :
    (sleepUntil deadline signals o).withoutCancels =
      sleepUntil deadline (signals.map fun (time, signal) => (time, signal.withoutCancel))
        o.withoutCancels := by
  induction signals generalizing o with
  | nil => rfl
  | cons signal later ih =>
    obtain ⟨time, signal⟩ := signal
    simp only [sleepUntil, List.map_cons] at h ⊢
    by_cases hdue : time < deadline
    · rw [if_pos hdue] at h ⊢
      rw [if_pos hdue]
      have hfired : (o.withoutCancels.fire signal.withoutCancel).surroundings.cancelled =
          false := by
        rw [← withoutCancels_fire]
        rfl
      by_cases hc : (o.fire signal).surroundings.cancelled = true
      · simp [hc] at h
      · rw [if_neg hc] at h ⊢
        rw [if_neg (by simp [hfired]), ih h, ← withoutCancels_fire]
        rfl
    · rw [if_neg hdue, if_neg hdue]
      rfl

theorem withoutCancels_pass {duration : Nat}
    (h : (o.pass duration).surroundings.cancelled = false) :
    (o.pass duration).withoutCancels = o.withoutCancels.pass duration := by
  obtain ⟨schedule, surroundings, reads, rests, clock⟩ := o
  cases schedule with
  | atRests signals => exact withoutCancels_fireDue _
  | atTimes signals =>
    by_cases hd : duration = 0
    · simp only [pass, hd, if_true, withoutCancels, Schedule.withoutCancels]
    · simp only [pass, hd, if_false] at h ⊢
      exact withoutCancels_sleepUntil h

end Outside

/-- What follows a turn is the same without cancels, as long as nobody cancels; and the state that
follows is the same in any case. -/
theorem Turn.follow_withoutCancels {State Result : Type} {t : Turn State Result} {o after : Outside}
    {state : State} (ht : t.surroundings.cancelled = false) (h : t.follow o = .inl (state, after)) :
    ∃ after', t.follow o.withoutCancels = .inl (state, after') ∧ after'.Uncancelled ∧
      (after.surroundings.cancelled = false → after' = after.withoutCancels) := by
  have hleft : { o.withoutCancels with surroundings := t.surroundings } =
      Outside.withoutCancels { o with surroundings := t.surroundings } := by
    obtain ⟨events, ⟨controller, cancelled⟩, move⟩ := t
    cases ht
    rfl
  have hnext (after' : Outside) (h' : t.follow o.withoutCancels = .inl (state, after')) :
      after'.Uncancelled :=
    (Outside.uncancelled_withoutCancels o).follow ht h'
  unfold Turn.follow at h hnext ⊢
  cases hm : t.move with
  | onward next =>
    simp only [hm, hleft] at h hnext ⊢
    cases h
    exact ⟨_, rfl, hnext _ rfl, fun _ => rfl⟩
  | rest duration next =>
    simp only [hm, hleft] at h hnext ⊢
    cases h
    exact ⟨_, rfl, hnext _ rfl, fun hc => (Outside.withoutCancels_pass hc).symm⟩
  | ended result => simp [hm] at h

/-- Until the first moment at which a run finds itself cancelled, it goes as the run in which nobody
cancels. -/
theorem stateAfter_withoutCancels {State Result : Type} {activity : Activity State Result}
    (hkeeps : ∀ state s, (activity state s).surroundings.cancelled = s.cancelled) {turns : Nat}
    {state next : State} {o after : Outside}
    (h : stateAfter activity turns state o = some (next, after))
    (hbefore : ∀ earlier < turns, ∀ state' o',
      stateAfter activity earlier state o = some (state', o') →
      o'.surroundings.cancelled = false) :
    ∃ after', stateAfter activity turns state o.withoutCancels = some (next, after') ∧
      after'.Uncancelled ∧
      eventsIn activity turns state o.withoutCancels = eventsIn activity turns state o := by
  induction turns generalizing state o with
  | zero =>
    cases h
    exact ⟨_, rfl, Outside.uncancelled_withoutCancels _, rfl⟩
  | succ turns ih =>
    obtain ⟨state', o', hf, h⟩ := exists_follow_of_stateAfter h
    have hnow : o.surroundings.cancelled = false := hbefore 0 (Nat.succ_pos _) _ _ rfl
    have hsame : o.withoutCancels.surroundings = o.surroundings := by
      obtain ⟨schedule, ⟨controller, cancelled⟩, reads, rests, clock⟩ := o
      cases hnow
      rfl
    obtain ⟨o'', hf', hun, heq⟩ :=
      Turn.follow_withoutCancels ((hkeeps state o.surroundings).trans hnow) hf
    rw [← hsame] at hf'
    rw [stateAfter_succ hf', eventsIn_succ hf', eventsIn_succ hf, hsame]
    cases turns with
    | zero =>
      cases h
      exact ⟨o'', rfl, hun, rfl⟩
    | succ turns =>
      have hbefore' : ∀ earlier < turns + 1, ∀ state'' o'',
          stateAfter activity earlier state' o' = some (state'', o'') →
          o''.surroundings.cancelled = false := fun earlier hlt state'' o'' he =>
        hbefore (earlier + 1) (Nat.succ_lt_succ hlt) _ _ ((stateAfter_succ hf earlier).trans he)
      obtain rfl := heq (hbefore' 0 (Nat.succ_pos _) _ _ rfl)
      obtain ⟨after', hafter, hun', hevents⟩ := ih h hbefore'
      exact ⟨after', hafter, hun', by rw [hevents]⟩

/-! ## Where an execution stands -/

namespace Execution

variable {g : Graph} {settings : Settings}

/-- Where an execution stands when a turn begins, by the nodes that it has visited: it arrives at
the first node, or where the node that it visited last leads; or it is still busy with that node. -/
inductive StandsAt (g : Graph) (ids : List NodeId) (e : Execution) (s : Surroundings) : Prop
  | starting : e.stage = .arriving g.first? → ids = [] → StandsAt g ids e s
  | leaving {id : NodeId} {p : Payload} {face : Bool} :
      e.stage = .arriving (g.child? id (p.kind.branch face)) → ids.getLast? = some id →
        g.payload? id = some p →
      StandsAt g ids e s
  | sensing {id : NodeId} {p : Payload} {asleep : Bool} :
      e.stage = .sensing id asleep → ids.getLast? = some id → g.payload? id = some p →
        p.kind = .untilNear →
      StandsAt g ids e s
  | driving {d : Drive} {p : Payload} {repeats : Bool} :
      e.stage = .driving d repeats → ids.getLast? = some d.node → g.payload? d.node = some p →
      p.kind = (if repeats then .untilNear else .once) → (d.written = 0 → s.cancelled = false) →
      StandsAt g ids e s

section

variable {ids : List NodeId} {e : Execution} {s : Surroundings} {id : NodeId} {p : Payload}
  {repeats : Bool}
variable {done : Report → Prop} (hlast : ids.getLast? = some id) (hp : g.payload? id = some p)
include hlast hp

private theorem leads_leave_standsAt (face : Bool) :
    (e.leave g id (p.kind.branch face)).Leads s (StandsAt g ids) done :=
  leads_leave fun _ => .leaving rfl hlast hp

variable (hk : p.kind = if repeats then .untilNear else .once)
include hk

private theorem leads_afterMotion_standsAt (written : Nat) :
    (e.afterMotion g settings id repeats written).Leads s (StandsAt g ids) done := by
  cases repeats with
  | true => exact fun _ => .sensing rfl hlast hp hk
  | false =>
    have hbranch : p.kind.branch false = 0 := by rw [hk]; rfl
    simp only [afterMotion, Bool.false_eq_true, if_false]
    rw [← hbranch]
    exact leads_leave_standsAt hlast hp false

private theorem leads_actuate_standsAt (hs : s.cancelled = false) :
    let t := e.actuate g settings id p repeats s
    t.move.Leads t.surroundings (StandsAt g ids) done := by
  unfold actuate
  split
  next => exact leads_afterMotion_standsAt hlast hp hk 0
  next =>
    split
    next => exact leads_afterMotion_standsAt hlast hp hk 1
    next frames frame _ =>
      exact .driving (d := { node := id, frame, left := frames }) rfl hlast hp hk fun _ => hs

end

private theorem leads_visit_standsAt {ids : List NodeId} {e : Execution} {s : Surroundings}
    {id : NodeId} {p : Payload} {done : Report → Prop} (hp : g.payload? id = some p)
    (hs : s.cancelled = false) :
    let t := e.visit g settings id p s
    t.move.Leads t.surroundings (StandsAt g (ids ++ [id])) done := by
  have hlast : (ids ++ [id]).getLast? = some id := by simp
  have hleave (face : Bool) :
      (leave g { e with steps := e.steps + 1, before := e.frames } id (p.kind.branch face)).Leads s
      (StandsAt g (ids ++ [id])) done := leads_leave_standsAt hlast hp face
  unfold visit
  split
  next hk => simpa [hk, NodeKind.branch] using hleave false
  next hk => exact leads_actuate_standsAt hlast hp (by simpa using hk) hs
  next hk => exact .sensing rfl hlast hp hk
  next hk => simpa [hk, NodeKind.branch] using hleave s.controller.landmarks.face
  next hk => simpa [hk, NodeKind.branch] using hleave s.controller.landmarks.face
  next hk => simpa [hk, NodeKind.branch] using hleave s.controller.landmarks.face
  next hk => simpa [hk, NodeKind.branch] using hleave false

private theorem leads_arriving_standsAt {ids : List NodeId} {e : Execution} {s : Surroundings}
    {next : Option NodeId} (hstage : e.stage = .arriving next) :
    let t := e.turn g settings s
    t.move.Leads t.surroundings (StandsAt g (ids ++ (e.visiting? g settings s).toList))
        (fun _ => True) := by
  rcases turn_arriving g settings s hstage with ⟨outcome, -, hturn⟩ |
    ⟨id, p, -, hp, hs, hvis, hturn⟩
  · simp [hturn, finish]
  · rw [hvis, hturn]
    exact leads_visit_standsAt hp hs

/-- Each turn keeps the account of where an execution stands. -/
theorem StandsAt.leads_turn {ids : List NodeId} {e : Execution} {s : Surroundings}
    (h : StandsAt g ids e s) :
    let t := e.turn g settings s
    t.move.Leads t.surroundings (StandsAt g (ids ++ (e.visiting? g settings s).toList))
        (fun _ => True) := by
  cases h with
  | starting hstage _ => exact leads_arriving_standsAt hstage
  | leaving hstage _ _ => exact leads_arriving_standsAt hstage
  | @sensing id p asleep hstage hlast hp hk =>
    have hvis : e.visiting? g settings s = none := by simp [visiting?, hstage]
    simp only [hvis, Option.toList_none, List.append_nil]
    rcases turn_sensing g settings s hstage with ⟨outcome, -, hturn⟩ | ⟨-, hturn⟩ |
      ⟨q, hq, ⟨hc, -⟩, hturn⟩
    · simp [hturn, finish]
    · rw [hturn]
      simpa [hk, NodeKind.branch] using leads_leave_standsAt (e := e) (s := s) hlast hp false
    · cases hp.symm.trans hq
      rw [hturn]
      exact leads_actuate_standsAt hlast hp hk hc
  | @driving d p repeats hstage hlast hp hk hs =>
    have hvis : e.visiting? g settings s = none := by simp [visiting?, hstage]
    simp only [hvis, Option.toList_none, List.append_nil]
    rcases turn_driving g settings s hstage with hturn | ⟨left, -, -, hturn⟩ | ⟨-, hturn⟩
    · simp [hturn, finish]
    · rw [hturn]
      exact fun s => .driving rfl hlast hp hk (by simp)
    · rw [hturn]
      exact leads_afterMotion_standsAt hlast hp hk d.written

theorem StandsAt.next_lt {loose : NodeId → Prop} (hg : g.Sound loose) {ids : List NodeId}
    {e : Execution} {s : Surroundings} (h : StandsAt g ids e s) {id : NodeId}
    (hstage : e.stage = .arriving (some id)) : id < g.size := by
  have hchild {parent : NodeId} {branch : Nat} (hc : g.child? parent branch = some id) :
      id < g.size :=
    hg.child_lt parent id (Graph.mem_children_of_child? hc)
  cases h with
  | starting h _ => exact hchild (Stage.arriving.inj (h.symm.trans hstage))
  | leaving h _ _ => exact hchild (Stage.arriving.inj (h.symm.trans hstage))
  | sensing h => cases h.symm.trans hstage
  | driving h => cases h.symm.trans hstage

end Execution

/-! ## What is left to do after a cancel -/

/-- There is a request to cancel, and it will not be taken back. -/
structure Outside.Cancelled (o : Outside) : Prop where
  now : o.surroundings.cancelled = true
  later : ∀ signal ∈ o.schedule.signals, signal.2.reset = false

theorem Outside.Cancelled.follow {State Result : Type} {o : Outside} (h : o.Cancelled)
    {t : Turn State Result} (ht : t.surroundings.cancelled = true) {state : State} {after : Outside}
    (hf : t.follow o = .inl (state, after)) :
    after.Cancelled := by
  have hkeeps : o.Keeps (fun s => s.cancelled = true) (fun signal => signal.reset = false) :=
    ⟨h.now, h.later⟩
  have hafter := hkeeps.follow (fun s signal hs hr => by simp [Surroundings.receive, hs, hr]) ht hf
  exact ⟨hafter.now, hafter.later⟩

/-- What no turn and no signal changes holds after any number of turns. -/
theorem Outside.Keeps.stateAfter {State Result : Type} {activity : Activity State Result}
    {kept : Surroundings → Prop} {sort : Signal → Prop}
    (hkept : ∀ s signal, kept s → sort signal → kept (s.receive signal).1)
    (hturn : ∀ state s, kept s → kept (activity state s).surroundings) {turns : Nat}
    {state next : State} {o after : Outside} (h : o.Keeps kept sort)
    (hr : stateAfter activity turns state o = some (next, after)) :
    after.Keeps kept sort := by
  induction turns generalizing state o with
  | zero => cases hr; exact h
  | succ turns ih =>
    obtain ⟨state', o', hf, hr⟩ := exists_follow_of_stateAfter hr
    exact ih (h.follow hkept (hturn _ _ h.now) hf) hr

namespace Execution

def lastOutcome (e : Execution) : Outcome :=
  if e.stage = .arriving none then .completed else .cancelled

/-- After some turns and events an execution is in a state in which it ends. -/
def EndsAfter (g : Graph) (settings : Settings) (e : Execution) (o : Outside)
    (events : List Event) : Prop :=
  ∃ turns last now, stateAfter (turn g settings) turns e o = some (last, now) ∧
    eventsIn (turn g settings) turns e o = events ∧
    last.turn g settings now.surroundings = last.finish last.lastOutcome now.surroundings

section

variable {g : Graph} (settings : Settings) {e : Execution} {o : Outside} {events : List Event}
  {id : NodeId}

variable {settings} in
theorem endsAfter_of_finish
    (h : e.turn g settings o.surroundings = e.finish e.lastOutcome o.surroundings) :
    EndsAfter g settings e o [] := ⟨0, e, o, rfl, rfl, h⟩

variable {settings} in
theorem endsAfter_of_leads (ho : o.Cancelled)
    (h : let t := e.turn g settings o.surroundings
      t.move.Leads t.surroundings
        (fun e _ => ∀ o : Outside, o.Cancelled → EndsAfter g settings e o events)
        (fun _ => False)) :
    EndsAfter g settings e o ((e.turn g settings o.surroundings).events ++ events) := by
  rcases h.follow o with ⟨next, after, hf, hnext⟩ | ⟨_, -, hfalse⟩
  · have hafter := ho.follow ((cancelled_turn g settings e o.surroundings).trans ho.now) hf
    obtain ⟨turns, last, now, hlast, hevents, hend⟩ := hnext after hafter
    refine ⟨turns + 1, last, now, (stateAfter_succ hf turns).trans hlast, ?_, hend⟩
    rw [eventsIn_succ hf, hevents]
  · exact hfalse.elim

theorem endsAfter_arriving (ho : o.Cancelled) {next : Option NodeId}
    (hstage : e.stage = .arriving next) (hlt : ∀ id, next = some id → id < g.size) :
    EndsAfter g settings e o [] := by
  refine endsAfter_of_finish ?_
  cases next with
  | none => simp [turn, hstage, lastOutcome]
  | some id =>
    obtain ⟨node, hn⟩ := Graph.exists_node (hlt id rfl)
    simp [turn, hstage, hn, ho.now, lastOutcome]

variable (hchild : ∀ id, ∀ child ∈ g.children id, child < g.size)
include hchild

theorem leads_leave_endsAfter (s : Surroundings) (node : NodeId) (branch : Nat) :
    (e.leave g node branch).Leads s
      (fun e _ => ∀ o : Outside, o.Cancelled → EndsAfter g settings e o [])
      (fun _ => False) :=
  leads_leave fun _ _ ho => endsAfter_arriving settings ho rfl fun _ hc =>
    hchild node _ (Graph.mem_children_of_child? hc)

theorem endsAfter_sensing (ho : o.Cancelled) {node : NodeId} {asleep : Bool}
    (hstage : e.stage = .sensing node asleep) :
    EndsAfter g settings e o [] := by
  by_cases hasleep : asleep = true
  · exact endsAfter_of_finish (by simp [turn, hstage, hasleep, ho.now, lastOutcome])
  by_cases hnear : o.surroundings.controller.landmarks.near = true
  · have hturn : e.turn g settings o.surroundings =
        { surroundings := o.surroundings, move := e.leave g node 0 } := by
      simp [turn, hstage, hasleep, hnear]
    have hleads := leads_leave_endsAfter settings hchild (e := e) o.surroundings node 0
    rw [show ([] : List Event) = (e.turn g settings o.surroundings).events ++ [] by rw [hturn]; rfl]
    exact endsAfter_of_leads ho (by rw [hturn]; exact hleads)
  · exact endsAfter_of_finish (by simp [turn, hstage, hasleep, hnear, ho.now, lastOutcome])

theorem leads_afterMotion_endsAfter (s : Surroundings) (node : NodeId) (repeats : Bool)
    (written : Nat) :
    (e.afterMotion g settings node repeats written).Leads s
      (fun e _ => ∀ o : Outside, o.Cancelled → EndsAfter g settings e o []) (fun _ => False) := by
  cases repeats with
  | true => exact fun _ _ ho => endsAfter_sensing settings hchild ho rfl
  | false => exact leads_leave_endsAfter settings hchild s node 0

/-- A cancelled drive only releases the sticks, if it has written all its frames and does not
sleep. -/
theorem endsAfter_driving (ho : o.Cancelled) {d : Drive} {repeats : Bool}
    (hstage : e.stage = .driving d repeats) :
    EndsAfter g settings e o [] ∨ d.left = 0 ∧ EndsAfter g settings e o [.axesReleased d.node] := by
  by_cases hasleep : d.asleep = true
  · exact .inl (endsAfter_of_finish
      (by simp [turn, hstage, Drive.turn, hasleep, ho.now, lastOutcome]))
  cases hleft : d.left with
  | zero =>
    let released : Surroundings :=
      { o.surroundings with
        controller := o.surroundings.controller.update ControllerInput.zeroAxes }
    have hturn : e.turn g settings o.surroundings =
        { events := [.axesReleased d.node]
          surroundings := released
          move := e.afterMotion g settings d.node repeats d.written } := by
      simp [turn, hstage, Drive.turn, hasleep, hleft, released]
    have hleads := leads_afterMotion_endsAfter settings hchild (e := e) released d.node
      repeats d.written
    rw [show [Event.axesReleased d.node] = (e.turn g settings o.surroundings).events ++ [] by
      rw [hturn]; rfl]
    exact .inr ⟨rfl, endsAfter_of_leads ho (by rw [hturn]; exact hleads)⟩
  | succ left =>
    exact .inl (endsAfter_of_finish
      (by simp [turn, hstage, Drive.turn, hasleep, hleft, ho.now, lastOutcome]))

end

/-- From wherever it stands a cancelled execution ends, at most after the release of a drive that
has written its last frame. -/
theorem StandsAt.endsAfter {g : Graph} {loose : NodeId → Prop} {ids : List NodeId} {e : Execution}
    {o : Outside} (h : StandsAt g ids e o.surroundings) (settings : Settings) (hg : g.Sound loose)
    (ho : o.Cancelled) :
    ∃ after, EndsAfter g settings e o after ∧
      (after = [] ∨ ∃ d repeats, e.stage = .driving d repeats ∧ d.left = 0 ∧
      0 < d.written ∧ after = [.axesReleased d.node]) := by
  cases hstage : e.stage with
  | arriving next =>
    exact ⟨[], endsAfter_arriving settings ho hstage fun id hn => h.next_lt hg (hn ▸ hstage),
      .inl rfl⟩
  | sensing node asleep => exact ⟨[], endsAfter_sensing settings hg.child_lt ho hstage, .inl rfl⟩
  | driving d repeats =>
    rcases endsAfter_driving settings hg.child_lt ho hstage with hend | ⟨hleft, hend⟩
    · exact ⟨[], hend, .inl rfl⟩
    · refine ⟨_, hend, .inr ⟨d, repeats, rfl, hleft, Nat.pos_of_ne_zero fun hzero => ?_, rfl⟩⟩
      cases h with
      | starting h => cases h.symm.trans hstage
      | leaving h => cases h.symm.trans hstage
      | sensing h => cases h.symm.trans hstage
      | driving h _ _ _ hs =>
        cases h.symm.trans hstage
        simpa [ho.now] using hs hzero

end Execution

section

variable {g : Graph} {entry : NodeId} {settings : Settings} {o now : Outside} {turns : Nat}
  {e : Execution}
variable (hfirst : g.first? = some entry)
variable (hnow : stateAfter (Execution.turn g settings) turns
  { stage := .arriving (some entry) } o = some (e, now))
include hfirst hnow

theorem Graph.standsAt_of_stateAfter :
    Execution.StandsAt g (g.visits turns settings o) e now.surroundings := by
  have hstart : Execution.StandsAt g [] { stage := .arriving (some entry) } o.surroundings :=
    .starting (by rw [hfirst]) rfl
  have h := stateAfter_induction (Execution.visiting? g settings) (Execution.StandsAt g)
    (fun _ _ _ h => h.leads_turn) hstart hnow
  simpa only [visits_of_first hfirst, List.nil_append] using h

/-- Without the cancel an execution would have published the same up to it, and a drive that had
written its last frame would have released the sticks. -/
theorem Graph.exists_publishedIn_withoutCancels
    (hbefore : ∀ earlier < turns, ∀ e' o',
      stateAfter (Execution.turn g settings) earlier { stage := .arriving (some entry) } o =
        some (e', o') →
        o'.surroundings.cancelled = false) {more : List Event}
    (hmore : more = [] ∨ ∃ d repeats, e.stage = .driving d repeats ∧ d.left = 0 ∧ 0 < d.written ∧
      more = [.axesReleased d.node]) :
    ∃ count, g.publishedIn count settings o.withoutCancels =
      g.publishedIn turns settings o ++ more := by
  obtain ⟨after, hafter, huncancelled, hevents⟩ :=
    stateAfter_withoutCancels (Execution.cancelled_turn g settings) hnow hbefore
  rcases hmore with rfl | ⟨d, repeats, hstage, hleft, -, rfl⟩
  · exact ⟨turns,
      by rw [publishedIn_of_first hfirst, publishedIn_of_first hfirst, hevents, List.append_nil]⟩
  · refine ⟨turns + 1, ?_⟩
    have hrelease : (e.turn g settings after.surroundings).events = [.axesReleased d.node] := by
      simp [Execution.turn, hstage, Drive.turn, hleft, huncancelled.now]
    rw [publishedIn_of_first hfirst, publishedIn_of_first hfirst, eventsIn_add hafter, eventsIn_one,
      hrelease, hevents, List.cons_append]

end

/-- What becomes of an execution that finds itself cancelled after a number of turns. It ends in the
state `last`; before that it publishes at most the release of a drive whose last frame was written
already. Without the cancel it would have published the same up to there. It is completed if it has
left the last node that it visited and found no next one, and cancelled otherwise. -/
structure Graph.CutShort (g : Graph) (settings : Settings) (o : Outside) (turns : Nat)
    (e : Execution) (total : Nat) (last : Execution) (more : List Event)
    (report : Report) : Prop where
  stops : ∃ final, g.momentAfter total settings o = some (last, final)
  ends : ∃ ending, g.execute (total + 1) settings o = some ending ∧ ending.result = .ok report ∧
    ending.events.toList = g.publishedIn turns settings o ++ more ++
      [.executionFinished report.steps report.outcome]
  truncates : ∃ count, g.publishedIn count settings o.withoutCancels =
    g.publishedIn turns settings o ++ more
  releases : more = [] ∨ ∃ d repeats, e.stage = .driving d repeats ∧ d.left = 0 ∧ 0 < d.written ∧
    more = [.axesReleased d.node]
  outcome : report.outcome = last.lastOutcome
  leads_nowhere : last.stage = .arriving none →
    ∃ id p face, (g.visits total settings o).getLast? = some id ∧
    g.payload? id = some p ∧ g.child? id (p.kind.branch face) = none

/-- A cancel that is not taken back only cuts an execution short, whenever it comes: here the turn
after `turns` others is the first that finds itself cancelled. -/
theorem Graph.cancel_truncates (edits : List Builder.Edit) (settings : Settings) {o : Outside}
    (hreset : ∀ signal ∈ o.schedule.signals, signal.2.reset = false) {turns : Nat} {e : Execution}
    {now : Outside}
    (hnow : (Builder.applyAll {} edits).graph.momentAfter turns settings o = some (e, now))
    (hcancel : now.surroundings.cancelled = true)
    (hbefore : ∀ earlier < turns, ∀ e' o',
        (Builder.applyAll {} edits).graph.momentAfter earlier settings o = some (e', o') →
        o'.surroundings.cancelled = false) :
    ∃ total last more report,
      (Builder.applyAll {} edits).graph.CutShort settings o turns e total last more report := by
  have hg := (Builder.wellFormed_after_edits edits).sound
  generalize (Builder.applyAll {} edits).graph = g at *
  cases hfirst : g.first? with
  | none => simp [momentAfter, Execution.start, hfirst] at hnow
  | some entry =>
    simp only [momentAfter_of_first hfirst] at hnow hbefore
    have hkeeps : now.Keeps (fun _ => True) (fun signal => signal.reset = false) :=
      Outside.Keeps.stateAfter (fun _ _ _ _ => trivial) (fun _ _ _ => trivial)
        ⟨trivial, hreset⟩ hnow
    obtain ⟨more, ⟨count, last, final, hlast, hmore, hturn⟩, hreleases⟩ :=
      (standsAt_of_stateAfter hfirst hnow).endsAfter settings hg ⟨hcancel, hkeeps.later⟩
    have htotal := (stateAfter_add hnow count).trans hlast
    have hpublished : g.publishedIn (turns + count) settings o =
        g.publishedIn turns settings o ++ more := by
      rw [publishedIn_of_first hfirst, publishedIn_of_first hfirst, eventsIn_add hnow, hmore,
        List.cons_append]
    refine ⟨turns + count, last, more, ⟨last.steps, last.frames, last.lastOutcome⟩, ?_⟩
    constructor
    case stops => exact ⟨final, (momentAfter_of_first hfirst _ _ _).trans htotal⟩
    case ends =>
      have hend := execute_of_finish ((momentAfter_of_first hfirst _ _ _).trans htotal) hturn
      exact ⟨_, hend, rfl, by simp [hpublished]⟩
    case truncates => exact exists_publishedIn_withoutCancels hfirst hnow hbefore hreleases
    case releases => exact hreleases
    case outcome => rfl
    case leads_nowhere =>
      intro hnext
      cases standsAt_of_stateAfter hfirst htotal with
      | starting h _ => simp [hfirst, hnext] at h
      | @leaving id p face h hid hp =>
        exact ⟨id, p, face, hid, hp, Stage.arriving.inj (h.symm.trans hnext)⟩
      | sensing h => cases h.symm.trans hnext
      | driving h => cases h.symm.trans hnext

/-- A gripper that is pressed again and again is stopped at its first rest. -/
theorem Graph.cancel_truncates_presses :
    let edits := [.append (.ofMotion .untilNear .gripper {})]
    let o : Outside := { schedule := .atRests [(1, { cancel := true })], surroundings := {} }
    (∀ signal ∈ o.schedule.signals, signal.2.reset = false) ∧
      ∃ e now, (Builder.applyAll {} edits).graph.momentAfter 2 {} o = some (e, now) ∧
        now.surroundings.cancelled = true ∧
        (∀ earlier < 2, ∀ e' o',
          (Builder.applyAll {} edits).graph.momentAfter earlier {} o = some (e', o') →
          o'.surroundings.cancelled = false) ∧
        ∃ total last more report,
          (Builder.applyAll {} edits).graph.CutShort {} o 2 e total last more report := by
  intro edits o
  have hreset : ∀ signal ∈ o.schedule.signals, signal.2.reset = false := by decide
  have hbefore : ∀ earlier < 2, ∀ e' o',
      (Builder.applyAll {} edits).graph.momentAfter earlier {} o = some (e', o') →
      o'.surroundings.cancelled = false := by
    intro earlier hlt e' o' h
    obtain rfl | rfl : earlier = 0 ∨ earlier = 1 := by omega
    · cases h; rfl
    · cases h; rfl
  exact ⟨hreset, _, _, rfl, rfl, hbefore, Graph.cancel_truncates edits {} hreset rfl rfl hbefore⟩

end MotionScript
