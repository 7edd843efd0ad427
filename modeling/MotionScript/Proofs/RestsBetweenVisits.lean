import MotionScript.Proofs.KeptBySignals
import MotionScript.Proofs.PressLoops
import MotionScript.Proofs.RunPrefixes
import Mathlib.Data.List.Chain
import Mathlib.Data.List.Perm.Subperm

/-!
# How far a walk goes without a rest

Only while an execution rests can it be cancelled or learn what the sensors report. Between two
rests it visits nodes that presses lead to, one from the other, and so no more than the graph has,
as long as it comes to no loop of presses. On such a loop it walks forever and never rests.
-/
namespace MotionScript

/-! ## Rests are counted -/

namespace Outside

@[simp] theorem rests_fireDue (o : Outside) : o.fireDue.rests = o.rests := by
  obtain ⟨surroundings, reads, hdue⟩ := o.exists_fireDue
  rw [hdue]

@[simp] theorem rests_sleepUntil (deadline : Nat) (signals : List (Nat × Signal)) (o : Outside) :
    (sleepUntil deadline signals o).rests = o.rests := by
  induction signals generalizing o with
  | nil => rfl
  | cons signal later ih =>
    unfold sleepUntil
    simp only
    split
    · split
      · rfl
      · exact ih _
    · rfl

theorem rests_pass (o : Outside) (duration : Nat) : (o.pass duration).rests = o.rests + 1 := by
  unfold pass
  simp only
  split
  · simp
  · split
    · rfl
    · simp

end Outside

section

variable {State Result : Type} {activity : Activity State Result} {state next : State}
  {o after : Outside}

theorem Turn.rests_follow {t : Turn State Result} (h : t.follow o = .inl (next, after)) :
    t.move = .onward next ∧ after = { o with surroundings := t.surroundings } ∨
      after.rests = o.rests + 1 := by
  unfold Turn.follow at h
  split at h
  next hm =>
    cases h
    exact .inl ⟨hm, rfl⟩
  next =>
    cases h
    exact .inr (Outside.rests_pass ..)
  next => cases h

theorem rests_le_of_stateAfter {turns : Nat}
    (h : stateAfter activity turns state o = some (next, after)) :
    o.rests ≤ after.rests := by
  induction turns generalizing state o with
  | zero => cases h; exact Nat.le_refl _
  | succ turns ih =>
    obtain ⟨state', o', hf, h⟩ := exists_follow_of_stateAfter h
    refine Nat.le_trans ?_ (ih h)
    rcases Turn.rests_follow hf with ⟨-, rfl⟩ | hrest
    · exact Nat.le_refl _
    · omega

theorem onward_of_rests_eq {turns : Nat}
    (h : stateAfter activity (turns + 1) state o = some (next, after))
    (hrests : after.rests = o.rests) :
    ∃ state', (activity state o.surroundings).move = .onward state' ∧
      (activity state o.surroundings).follow o =
        .inl (state', { o with surroundings := (activity state o.surroundings).surroundings }) ∧
      stateAfter activity turns state'
        { o with surroundings := (activity state o.surroundings).surroundings } =
        some (next, after) := by
  obtain ⟨state', o', hf, h⟩ := exists_follow_of_stateAfter h
  rcases Turn.rests_follow hf with ⟨hm, rfl⟩ | hrest
  · exact ⟨state', hm, hf, h⟩
  · have := rests_le_of_stateAfter h
    omega

end

/-! ## What can be visited before the next rest -/

theorem Actuation.ofMotion_eq_press_iff {scale : Float} {motion : Motion} {p : MotionParams} :
    ofMotion scale motion p = .press ↔ motion = .gripper := by
  unfold ofMotion
  split
  next h => simp [h]
  next h => split <;> simp [h]

namespace Execution

variable {g : Graph} {settings : Settings} {e next : Execution} {s : Surroundings} {id : NodeId}

/-- What an execution may visit before it rests: where it arrives, and anything if it is about to
leave a node that has written frames. -/
def MayVisit (e : Execution) (id : NodeId) : Prop :=
  match e.stage with
  | .arriving next => next = some id
  | .driving d repeats => d.left = 0 ∧ repeats = false ∧ e.frames + d.written ≠ e.before
  | .sensing _ _ => e.frames ≠ e.before

theorem mayVisit_of_visiting (h : e.visiting? g settings s = some id) : e.MayVisit id := by
  simp [MayVisit, (arriving_of_visiting h).1]

theorem onward_leave {node : NodeId} {branch : Nat} (h : e.leave g node branch = .onward next) :
    e.frames ≠ e.before ∧ next.stage = .arriving (g.child? node branch) := by
  unfold leave at h
  split at h
  · cases h
  next hne =>
    cases h
    exact ⟨hne, rfl⟩

theorem onward_afterMotion {node : NodeId} {repeats : Bool} {written : Nat}
    (h : e.afterMotion g settings node repeats written = .onward next) :
    repeats = false ∧ e.frames + written ≠ e.before ∧ next.stage = .arriving (g.child? node 0) := by
  unfold afterMotion at h
  split at h
  · cases h
  next hr => exact ⟨by simpa using hr, onward_leave h⟩

/-- A motion that goes on at once was a press, or has only begun to drive. -/
theorem onward_actuate {node : NodeId} {p : Payload} {repeats : Bool}
    (hframes : e.frames = e.before)
    (h : (e.actuate g settings node p repeats s).move = .onward next) (hmay : next.MayVisit id) :
    p.motion = some .gripper ∧ repeats = false ∧ g.child? node 0 = some id := by
  unfold actuate at h
  split at h
  next => exact absurd hframes (onward_afterMotion h).2.1
  next motion hm =>
    split at h
    next hpress =>
      obtain ⟨hr, -, hstage⟩ := onward_afterMotion h
      rw [MayVisit, hstage] at hmay
      exact ⟨by rw [hm, Actuation.ofMotion_eq_press_iff.mp hpress], hr, hmay⟩
    next =>
      cases h
      exact absurd hframes hmay.2.2

/-- A visit after which an execution may visit another node at once was a press that leads there. -/
theorem onward_visit {target : NodeId} {p : Payload} (hp : g.payload? target = some p)
    (h : (e.visit g settings target p s).move = .onward next)
    (hmay : next.MayVisit id) : g.PressLeads target id := by
  have hleave (branch : Nat) :
      leave g { e with steps := e.steps + 1, before := e.frames } target branch ≠ .onward next :=
    fun h => (onward_leave h).1 rfl
  unfold visit at h
  split at h
  next => exact absurd h (hleave _)
  next hk =>
    obtain ⟨hmotion, -, hchild⟩ := onward_actuate rfl h hmay
    exact ⟨⟨p, hp, hk, hmotion⟩, hchild⟩
  next =>
    cases h
    exact absurd rfl hmay
  next => exact absurd h (hleave _)
  next => exact absurd h (hleave _)
  next => exact absurd h (hleave _)
  next => exact absurd h (hleave _)

/-- What an execution may visit after a turn that goes on at once is what a press leads to from the
node that it has visited, or what it might have visited before. -/
theorem onward_turn (h : (e.turn g settings s).move = .onward next) (hmay : next.MayVisit id) :
    (∃ target, e.visiting? g settings s = some target ∧ g.PressLeads target id) ∨
      e.visiting? g settings s = none ∧ e.MayVisit id := by
  cases hstage : e.stage with
  | arriving _ =>
    rcases turn_arriving g settings s hstage with ⟨outcome, -, hturn⟩ |
      ⟨target, p, -, hp, -, hvis, hturn⟩
    · rw [hturn] at h
      cases h
    · rw [hturn] at h
      exact .inl ⟨target, hvis, onward_visit hp h hmay⟩
  | driving d repeats =>
    refine .inr ⟨by simp [visiting?, hstage], ?_⟩
    rcases turn_driving g settings s hstage with hturn | ⟨left, -, -, hturn⟩ | ⟨hleft, hturn⟩
    · rw [hturn] at h
      cases h
    · rw [hturn] at h
      cases h
    · rw [hturn] at h
      obtain ⟨hr, hne, -⟩ := onward_afterMotion h
      simpa only [MayVisit, hstage] using ⟨hleft, hr, hne⟩
  | sensing node asleep =>
    refine .inr ⟨by simp [visiting?, hstage], ?_⟩
    rw [MayVisit, hstage]
    intro hframes
    rcases turn_sensing g settings s hstage with ⟨outcome, -, hturn⟩ | ⟨-, hturn⟩ | ⟨p, -, -, hturn⟩
    · rw [hturn] at h
      cases h
    · rw [hturn] at h
      exact (onward_leave h).1 hframes
    · rw [hturn] at h
      exact Bool.noConfusion (onward_actuate hframes h hmay).2.1

/-- Without a rest, each node is visited after one that presses it. -/
theorem isChain_marks {turns : Nat} {o after : Outside}
    (h : stateAfter (turn g settings) turns e o = some (next, after))
    (hrests : after.rests = o.rests) :
    (marks (visiting? g settings) (turn g settings) (turns + 1) e o).IsChain g.PressLeads ∧
      ∀ id ∈ (marks (visiting? g settings) (turn g settings) (turns + 1) e o).head?,
        e.MayVisit id := by
  induction turns generalizing e o with
  | zero =>
    have hmarks : marks (visiting? g settings) (turn g settings) 1 e o =
        (e.visiting? g settings o.surroundings).toList := by
      rw [marks_succ]
      split <;> simp [marks, history]
    rw [hmarks]
    cases hvis : e.visiting? g settings o.surroundings with
    | none => simp
    | some id => simpa using mayVisit_of_visiting hvis
  | succ turns ih =>
    obtain ⟨e', hm, hf, h⟩ := onward_of_rests_eq h hrests
    rw [marks_succ, hf]
    obtain ⟨hchain, hhead⟩ := ih h hrests
    -- the first of the later visits is one that the next state may make
    cases hvis : e.visiting? g settings o.surroundings with
    | none =>
      refine ⟨hchain, fun id hid => ?_⟩
      rcases onward_turn hm (hhead id hid) with ⟨target, hv, -⟩ | ⟨-, hmay⟩
      · rw [hvis] at hv
        cases hv
      · exact hmay
    | some target =>
      refine ⟨hchain.cons fun id hid => ?_, by simpa using mayVisit_of_visiting hvis⟩
      rcases onward_turn hm (hhead id hid) with ⟨other, hv, hleads⟩ | ⟨hv, -⟩
      · rw [hvis] at hv
        cases hv
        exact hleads
      · rw [hvis] at hv
        cases hv

theorem exists_follow_press {p : Payload} (hpress : p.IsPress) (o : Outside) :
    ∃ next after, (e.visit g settings id p o.surroundings).follow o = .inl (next, after) ∧
      next.stage = .arriving (g.child? id 0) ∧
      after.surroundings.cancelled = o.surroundings.cancelled ∧
      after.rests = o.rests := by
  obtain ⟨honce, hmotion⟩ := hpress
  let pressed : Execution :=
    { e with
      stage := .arriving (g.child? id 0), steps := e.steps + 1, before := e.frames,
      frames := e.frames + 1 }
  refine ⟨pressed, { o with surroundings := (pressGripper id o.surroundings).2 }, ?_, rfl, rfl, rfl⟩
  simp [visit, honce, actuate, hmotion, Actuation.ofMotion, afterMotion, leave,
    Turn.follow, pressed]

/-- Where presses lead back to a node, an execution that has come there presses on and never
rests. -/
theorem walks_on (hmax : settings.maxSteps = 0) (hloop : g.PressLoop id) {o : Outside}
    (hstage : e.stage = .arriving (some id)) (hc : o.surroundings.cancelled = false) (turns : Nat) :
    ∃ next after, stateAfter (turn g settings) turns e o = some (next, after) ∧
      after.rests = o.rests ∧
      (marks (visiting? g settings) (turn g settings) turns e o).length = turns := by
  induction turns generalizing e id o with
  | zero => exact ⟨e, o, rfl, rfl, rfl⟩
  | succ turns ih =>
    obtain ⟨next, ⟨⟨p, hp, hpress⟩, hchild⟩, hnext⟩ := hloop.exists_next
    have hvis : e.visiting? g settings o.surroundings = some id := by
      simp [visiting?, hstage, hc, hmax, Graph.lt_size_of_payload? hp]
    obtain ⟨-, hv, -⟩ | ⟨_, q, hid, hq, -, -, hturn⟩ :=
      turn_arriving g settings o.surroundings hstage
    · rw [hvis] at hv
      cases hv
    · cases hid
      cases hp.symm.trans hq
      obtain ⟨e', o', hf, hstage', hc', hrests'⟩ := exists_follow_press hpress o
      rw [← hturn] at hf
      obtain ⟨last, after, hlast, hrests, hlength⟩ :=
        ih hnext (hstage'.trans (congrArg _ hchild)) (hc'.trans hc)
      refine ⟨last, after, (stateAfter_succ hf turns).trans hlast, hrests.trans hrests', ?_⟩
      simp [marks_succ, hf, hvis, hlength]

end Execution

/-- Between two rests an execution visits no more nodes than the graph has. -/
def Graph.RestsInTime (settings : Settings) (g : Graph) (o : Outside) : Prop :=
  ∀ turns more e now e' later, g.momentAfter turns settings o = some (e, now) →
    g.momentAfter (turns + more) settings o = some (e', later) → later.rests = now.rests →
      (g.visits (turns + more + 1) settings o).length ≤ (g.visits turns settings o).length + g.size

/-- An execution rests in time if it visits no node on a loop of presses. -/
theorem Graph.restsInTime_of_visits {g : Graph} {settings : Settings} {o : Outside}
    (h : ∀ turns, ∀ id ∈ g.visits turns settings o, ¬ g.PressLoop id) :
    g.RestsInTime settings o := by
  intro turns more e now e' later hnow hlater hrests
  cases hfirst : g.first? with
  | none => simp [momentAfter, Execution.start, hfirst] at hnow
  | some first =>
    rw [momentAfter_of_first hfirst] at hnow hlater
    rw [stateAfter_add hnow] at hlater
    have hvisited := h (turns + (more + 1))
    rw [visits_of_first hfirst, marks_add _ hnow] at hvisited
    rw [visits_of_first hfirst, visits_of_first hfirst, Nat.add_assoc, marks_add _ hnow,
      List.length_append]
    obtain ⟨hchain, -⟩ := Execution.isChain_marks hlater hrests
    have hnodup := nodup_of_isChain hchain fun id hid => hvisited id (List.mem_append_right _ hid)
    have hrange : marks (Execution.visiting? g settings) (Execution.turn g settings) (more + 1) e
        now ⊆ List.range g.size := by
      intro id hid
      obtain ⟨_, -, _, _, -, hvis⟩ := exists_moment_of_mem_marks hid
      exact List.mem_range.mpr (Execution.arriving_of_visiting hvis).2.1
    have hlength := (List.subperm_of_subset hnodup hrange).length_le
    rw [List.length_range] at hlength
    exact Nat.add_le_add_left hlength _

/-- A builder onto which only plans without a loop of presses are grafted makes programs that rest
in time. -/
theorem Builder.restsInTime_after_edits {edits : List Edit}
    (hplans : ∀ plan, Edit.graft plan ∈ edits → plan.PressFree) (settings : Settings)
    (o : Outside) : (applyAll {} edits).graph.RestsInTime settings o :=
  Graph.restsInTime_of_visits fun _ id _ => pressFree_after_edits hplans id

/-- Without a bound on the visited nodes, an execution rests in time exactly if it visits no node on
a loop of presses. -/
theorem Graph.restsInTime_iff (g : Graph) {settings : Settings} (hmax : settings.maxSteps = 0)
    (o : Outside) :
    g.RestsInTime settings o ↔ ∀ turns, ∀ id ∈ g.visits turns settings o, ¬ g.PressLoop id := by
  refine ⟨fun h turns id hid hloop => ?_, restsInTime_of_visits⟩
  cases hfirst : g.first? with
  | none => simp [visits, Execution.start, hfirst] at hid
  | some first =>
    rw [visits_of_first hfirst] at hid
    obtain ⟨earlier, -, e, now, hnow, hvis⟩ := exists_moment_of_mem_marks hid
    obtain ⟨hstage, -, hc⟩ := Execution.arriving_of_visiting hvis
    -- from here on each turn is a visit, and none is followed by a rest
    obtain ⟨next, later, hlater, hrests, -⟩ := Execution.walks_on hmax hloop hstage hc g.size
    obtain ⟨-, -, -, -, hlength⟩ := Execution.walks_on hmax hloop hstage hc (g.size + 1)
    have hbound := h earlier g.size e now next later
      ((momentAfter_of_first hfirst _ _ _).trans hnow)
      ((momentAfter_of_first hfirst _ _ _).trans ((stateAfter_add hnow _).trans hlater)) hrests
    rw [visits_of_first hfirst, visits_of_first hfirst, Nat.add_assoc, marks_add _ hnow,
      List.length_append, hlength] at hbound
    omega

/-- A press in a recorded loop is visited again and again while a face is seen, with a rest at the
header each time. -/
theorem Graph.restsInTime_recorded_press :
    let edits : List Builder.Edit :=
      [.openBlock .whileLoop, .append (.ofMotion .once .gripper {}), .closeBlock]
    let g := (Builder.applyAll {} edits).graph
    let o : Outside := {
      schedule := .atRests []
      surroundings := { controller := { landmarks := { face := true } } } }
    ({} : Settings).maxSteps = 0 ∧ g.visits 5 {} o = [1, 2, 1, 2, 1] ∧ g.RestsInTime {} o :=
  ⟨rfl, by decide, (Graph.restsInTime_iff _ rfl _).mpr fun _ id _ =>
    Builder.pressFree_after_edits (by simp) id⟩

/-- A plan in which a press leads to itself is accepted, and three visits without a rest are more
than the graph has nodes. -/
theorem Graph.not_restsInTime_grafted_press :
    let plan : Plan :=
      { version := 1, nodes := [{ payload := .ofMotion .once .gripper {}, children := [0] }] }
    plan.validate = .ok () ∧
      ¬ (Builder.applyAll {} [.graft plan]).graph.RestsInTime {}
        { schedule := .atRests [], surroundings := {} } := by
  refine ⟨rfl, fun h => ?_⟩
  have hbound := h 0 2 _ _ _ _ rfl rfl rfl
  revert hbound
  decide

end MotionScript
