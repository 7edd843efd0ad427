import MotionScript.Proofs.CancelledRuns
import MotionScript.Proofs.ThumbSticks

/-!
# The time of an execution

Only sleeps take time. An execution sleeps for one frame interval after each frame of a drive, and
for one pause after each repetition of a motion that is repeated, and a sleep takes its whole length
unless a cancel ends it. So the time that an execution takes which is not cancelled is known from
the frames that it published and from how often it began a motion again, whatever the sensors report
meanwhile.
-/
namespace MotionScript

namespace Outside

theorem clock_fireDue (o : Outside) : o.fireDue.clock = o.clock := by
  obtain ⟨surroundings, reads, hdue⟩ := o.exists_fireDue
  rw [hdue]

/-- A sleep lasts until its end, or a cancel has ended it. -/
theorem clock_sleepUntil (deadline : Nat) (signals : List (Nat × Signal)) (o : Outside) :
    (sleepUntil deadline signals o).clock = deadline ∨
      (sleepUntil deadline signals o).surroundings.cancelled = true := by
  induction signals generalizing o with
  | nil => exact .inl rfl
  | cons signal later ih =>
    unfold sleepUntil
    simp only
    split
    · split
      next hcancelled => exact .inr hcancelled
      next => exact ih _
    · exact .inl rfl

/-- A rest takes the whole time, or a cancel has ended it, which is none without a sleep. -/
theorem clock_pass (o : Outside) (duration : Nat) :
    (o.pass duration).clock = o.clock + duration ∨
      duration ≠ 0 ∧ (o.pass duration).surroundings.cancelled = true := by
  unfold pass
  simp only
  split
  · exact .inl (clock_fireDue _)
  · split
    next hzero =>
      rw [hzero]
      exact .inl rfl
    next hne =>
      rcases clock_sleepUntil (o.clock + duration) _ _ with hclock | hcancelled
      · exact .inl hclock
      · exact .inr ⟨hne, hcancelled⟩

end Outside

/-- How a turn goes on in time: at once, or after the whole rest, or after a sleep that a cancel has
ended. -/
def Move.LeadsIn {State Result : Type} (move : Move State Result) (s : Surroundings) (clock : Nat)
    (next : State → Surroundings → Nat → Prop) : Prop :=
  match move with
  | .onward state => next state s clock
  | .rest duration state => ∀ (after : Surroundings) (later : Nat),
      later = clock + duration ∨ duration ≠ 0 ∧ after.cancelled = true → next state after later
  | .ended _ => True

theorem Move.LeadsIn.follow {State Result : Type} {t : Turn State Result} {o after : Outside}
    {state : State} {next : State → Surroundings → Nat → Prop}
    (h : t.move.LeadsIn t.surroundings o.clock next) (hf : t.follow o = .inl (state, after)) :
    next state after.surroundings after.clock := by
  unfold Turn.follow at hf
  cases hm : t.move with
  | onward state' =>
    simp only [hm] at hf
    cases hf
    simpa only [LeadsIn, hm] using h
  | rest duration state' =>
    simp only [hm] at hf
    cases hf
    simp only [LeadsIn, hm] at h
    exact h _ _ (Outside.clock_pass { o with surroundings := t.surroundings } duration)
  | ended result =>
    simp only [hm] at hf
    cases hf

/-! ## What takes time -/

/-- Whether an event is a frame of a drive, which is a frame of a node whose motion is not the
gripper. -/
def Graph.isDriven (g : Graph) : Event → Bool
  | .frame id _ => ¬ g.Grips id
  | _ => false

def Graph.drivenFrames (g : Graph) (events : List Event) : Nat := events.countP g.isDriven

@[simp] theorem Graph.drivenFrames_append (g : Graph) (first second : List Event) :
    g.drivenFrames (first ++ second) = g.drivenFrames first + g.drivenFrames second :=
      List.countP_append

namespace Execution

def repeating? (g : Graph) (e : Execution) (s : Surroundings) : Option NodeId :=
  match e.stage with
  | .sensing node _ =>
    if node < g.size ∧ s.cancelled = false ∧ s.controller.landmarks.near = false
      then some node else none
  | _ => none

def isAsleep (e : Execution) : Bool :=
  match e.stage with
  | .arriving _ => false
  | .driving d _ => d.asleep
  | .sensing _ asleep => asleep

/-- The pause that is still to come for the repetition that an execution carries out. -/
def owed (settings : Settings) (e : Execution) : Nat :=
  match e.stage with
  | .driving _ repeats => if repeats then settings.untilPause else 0
  | _ => 0

/-- The time that has passed since a start is accounted for by the frames of drives and by the
repetitions, unless a cancel has ended a sleep. -/
inductive Timed (g : Graph) (settings : Settings) (start repetitions : Nat) (events : List Event)
    (e : Execution) (s : Surroundings) (clock : Nat) : Prop
  | cut : e.isAsleep → s.cancelled = true → Timed g settings start repetitions events e s clock
  | going : (∀ d ∈ e.drive?, ¬ g.Grips d.node) →
      clock + e.owed settings =
        start + settings.frameInterval * g.drivenFrames events + settings.untilPause * repetitions →
      Timed g settings start repetitions events e s clock

section

variable {g : Graph} {settings : Settings} {start repetitions clock : Nat} {events : List Event}
  {e : Execution} {s : Surroundings}

theorem turn_of_isAsleep (h : e.isAsleep) (hs : s.cancelled = true) (g : Graph)
    (settings : Settings) :
    e.turn g settings s = e.finish .cancelled s := by
  cases hstage : e.stage with
  | arriving next => simp [isAsleep, hstage] at h
  | driving d repeats =>
    have hasleep : d.asleep := by simpa [isAsleep, hstage] using h
    simp [turn, hstage, Drive.turn, hasleep, hs]
  | sensing node asleep =>
    have hasleep : asleep := by simpa [isAsleep, hstage] using h
    simp [turn, hstage, hasleep, hs]

theorem leadsIn_leave {next : Execution → Surroundings → Nat → Prop} (node : NodeId) (branch : Nat)
    (h : ∀ s, next { e with stage := .arriving (g.child? node branch) } s clock) :
    (e.leave g node branch).LeadsIn s clock next := by
  unfold leave
  split
  · rintro after later (rfl | ⟨hzero, -⟩)
    · exact h after
    · exact absurd rfl hzero
  · exact h s

theorem timed_leave
    (htime : clock = start + settings.frameInterval * g.drivenFrames events +
      settings.untilPause * repetitions)
    (node : NodeId) (branch : Nat) :
    (e.leave g node branch).LeadsIn s clock (Timed g settings start repetitions events) :=
  leadsIn_leave node branch fun _ => .going (by simp [drive?]) htime

theorem timed_afterMotion {repeats : Bool}
    (htime : clock + (if repeats then settings.untilPause else 0) =
      start + settings.frameInterval * g.drivenFrames events + settings.untilPause * repetitions)
    (node : NodeId) (written : Nat) :
    (e.afterMotion g settings node repeats written).LeadsIn s clock
      (Timed g settings start repetitions events) := by
  cases repeats with
  | false => exact timed_leave htime node 0
  | true =>
    rintro after later (rfl | ⟨hpause, hcancelled⟩)
    · exact .going (by simp [drive?]) htime
    · exact .cut (by simpa [isAsleep] using hpause) hcancelled

theorem timed_actuate {node : NodeId} {p : Payload} {repeats : Bool} (hp : g.payload? node = some p)
    (htime : clock + (if repeats then settings.untilPause else 0) =
      start + settings.frameInterval * g.drivenFrames events + settings.untilPause * repetitions) :
    let t := e.actuate g settings node p repeats s
    t.move.LeadsIn t.surroundings clock
        (Timed g settings start repetitions (events ++ t.events)) := by
  have hgrips : g.Grips node ↔ p.motion = some .gripper := by simp [Graph.Grips, hp]
  unfold actuate
  split
  case h_1 => exact timed_afterMotion (by simpa using htime) node 0
  case h_2 motion hmotion =>
    split
    next hpress =>
      rw [Actuation.ofMotion_eq_press_iff] at hpress
      have hgrip : g.Grips node := hgrips.mpr (hmotion.trans (congrArg some hpress))
      refine timed_afterMotion ?_ node 1
      simpa [pressGripper, Graph.drivenFrames, Graph.isDriven, hgrip] using htime
    next frames frame hdrive =>
      have hgrip : ¬ g.Grips node := by
        rw [hgrips, hmotion]
        rintro ⟨⟩
        simp [Actuation.ofMotion] at hdrive
      exact .going (by simpa [drive?] using hgrip) (by simpa [owed] using htime)

theorem timed_frame {d d' : Drive} {repeats : Bool} {input : ControllerInput}
    (hgrip : ¬ g.Grips d.node) (hnode : d'.node = d.node)
    (hasleep : d'.asleep = (settings.frameInterval != 0))
    (htime : clock + (if repeats then settings.untilPause else 0) =
      start + settings.frameInterval * g.drivenFrames events + settings.untilPause * repetitions) :
    (Move.rest settings.frameInterval { e with stage := .driving d' repeats } : Move Execution
      Report).LeadsIn s clock
      (Timed g settings start repetitions (events ++ [.frame d.node input])) := by
  rintro after later (rfl | ⟨hinterval, hcancelled⟩)
  · refine .going (by simpa [drive?, hnode] using hgrip) ?_
    have hframe : g.drivenFrames [.frame d.node input] = 1 := by
      simp [Graph.drivenFrames, Graph.isDriven, hgrip]
    simp only [owed, Graph.drivenFrames_append, hframe, Nat.mul_succ]
    omega
  · exact .cut (by simpa [isAsleep, hasleep] using hinterval) hcancelled

theorem timed_visit {id : NodeId} {p : Payload} (hp : g.payload? id = some p)
    (htime : clock = start + settings.frameInterval * g.drivenFrames events +
      settings.untilPause * repetitions) :
    let t := e.visit g settings id p s
    t.move.LeadsIn t.surroundings clock
        (Timed g settings start repetitions (events ++ t.events)) := by
  unfold visit
  split
  case h_2 => exact timed_actuate hp htime
  case h_3 => exact .going (by simp [drive?]) (by simpa [owed] using htime)
  case h_7 => exact timed_leave (by simpa [Graph.drivenFrames, Graph.isDriven] using htime) id 0
  all_goals exact timed_leave (by simpa using htime) id _

/-- Each turn keeps the account of the time. -/
theorem Timed.turn (h : Timed g settings start repetitions events e s clock) :
    let t := e.turn g settings s
    t.move.LeadsIn t.surroundings clock
      (Timed g settings start (repetitions + (e.repeating? g s).toList.length)
          (events ++ t.events)) := by
  cases h with
  | cut hasleep hcancelled =>
    rw [turn_of_isAsleep hasleep hcancelled]
    trivial
  | going hdrive htime =>
    cases hstage : e.stage with
    | arriving next =>
      have hnone : e.repeating? g s = none := by simp [repeating?, hstage]
      simp only [owed, hstage, Nat.add_zero] at htime
      rw [hnone]
      rcases turn_arriving g settings s hstage with ⟨outcome, -, hturn⟩ |
        ⟨id, p, -, hp, -, -, hturn⟩
      · rw [hturn]
        trivial
      · rw [hturn]
        exact timed_visit hp htime
    | driving d repeats =>
      have hnone : e.repeating? g s = none := by simp [repeating?, hstage]
      have hgrip : ¬ g.Grips d.node := hdrive d (by simp [drive?, hstage])
      rw [hnone]
      rcases turn_driving g settings s hstage with hturn | ⟨left, -, -, hturn⟩ | ⟨-, hturn⟩
      · rw [hturn]
        trivial
      · rw [hturn]
        exact timed_frame hgrip rfl rfl (by simpa [owed, hstage] using htime)
      · rw [hturn]
        refine timed_afterMotion ?_ d.node d.written
        simpa [owed, hstage, Graph.drivenFrames, Graph.isDriven] using htime
    | sensing node asleep =>
      simp only [owed, hstage, Nat.add_zero] at htime
      rcases turn_sensing g settings s hstage with ⟨outcome, -, hturn⟩ | ⟨hnear, hturn⟩ |
        ⟨p, hp, ⟨hc, hnear⟩, hturn⟩
      · rw [hturn]
        trivial
      · have hnone : e.repeating? g s = none := by simp [repeating?, hstage, hnear]
        rw [hturn, hnone]
        exact timed_leave (by simpa using htime) node 0
      · have hsome : e.repeating? g s = some node := by
          simp [repeating?, hstage, hc, hnear, Graph.lt_size_of_payload? hp]
        rw [hturn, hsome]
        refine timed_actuate hp ?_
        simp only [if_true, Option.toList_some, List.length_singleton, Nat.mul_succ]
        omega

/-- An execution that ends without a cancel owes no pause, and it repeats no motion in its last
turn. -/
theorem Timed.total (h : Timed g settings start repetitions events e s clock) {outcome : Outcome}
    (hend : e.turn g settings s = e.finish outcome s) (hne : outcome ≠ .cancelled) :
    clock = start + settings.frameInterval * g.drivenFrames events +
      settings.untilPause * repetitions ∧
      e.repeating? g s = none := by
  cases h with
  | cut hasleep hc =>
    cases hend.symm.trans (turn_of_isAsleep hasleep hc g settings)
    exact absurd rfl hne
  | going _ htime =>
    cases hstage : e.stage with
    | arriving next =>
      simp only [owed, hstage, Nat.add_zero] at htime
      exact ⟨htime, by simp [repeating?, hstage]⟩
    | driving d repeats =>
      have hdrive : e.drive? = some d := by simp [drive?, hstage]
      exact absurd (outcome_of_finish hdrive hend) hne
    | sensing node asleep =>
      simp only [owed, hstage, Nat.add_zero] at htime
      refine ⟨htime, ?_⟩
      rcases turn_sensing g settings s hstage with ⟨_, ⟨-, hreason⟩, -⟩ | ⟨hnear, -⟩ |
        ⟨p, -, -, hturn⟩
      · rw [repeating?, hstage]
        refine if_neg fun hrepeats => ?_
        obtain ⟨hlt, hc, -⟩ := hrepeats
        obtain ⟨found, hfound⟩ := Graph.exists_node hlt
        rcases hreason with hcancelled | hnone
        · cases hc.symm.trans hcancelled
        · cases hfound.symm.trans hnone
      · simp [repeating?, hstage, hnear]
      · exact absurd (congrArg Turn.move (hturn.symm.trans hend))
          (leads_actuate_steps node p true).ne_ended

theorem cancelled_of_finish
    (h : e.turn g settings s = e.finish .cancelled s) : s.cancelled = true := by
  by_contra hs
  replace hs : s.cancelled = false := by simpa using hs
  simp only [turn, hs, Bool.and_false, Bool.false_eq_true, if_false] at h
  split at h
  case h_1 next hstage =>
    split at h
    next => cases h
    next =>
      split at h
      next => cases h
      next => exact absurd (congrArg Turn.move h) (leads_visit_steps _ _).ne_ended
  case h_2 d repeats hstage =>
    cases hleft : d.left <;> simp [Drive.turn, hs, hleft, finish] at h
  case h_3 node asleep hstage =>
    split at h
    next => exact absurd (congrArg Turn.move h) (leads_leave_steps (s := s) node 0).ne_ended
    next =>
      split at h
      next => cases h
      next => exact absurd (congrArg Turn.move h) (leads_actuate_steps node _ true).ne_ended

end

end Execution

namespace Graph

variable {g : Graph} {turns : Nat} {settings : Settings} {o : Outside}

/-- The nodes whose motions an execution began again in its first turns, once for each
repetition. -/
def repetitions (turns : Nat) (settings : Settings) (g : Graph) (o : Outside) : List NodeId :=
  match Execution.start g with
  | .error _ => []
  | .ok (e, _) => marks (Execution.repeating? g) (Execution.turn g settings) turns e o

theorem repetitions_of_first {entry : NodeId} (h : g.first? = some entry) (turns : Nat)
    (settings : Settings) (o : Outside) :
    g.repetitions turns settings o =
      marks (Execution.repeating? g) (Execution.turn g settings) turns
        { stage := .arriving (some entry) } o := by
  simp only [repetitions, start_of_first h]

/-- At each moment the time that has passed is accounted for, unless a cancel has just ended a
sleep. -/
theorem timed_momentAfter {e : Execution} {now : Outside}
    (h : g.momentAfter turns settings o = some (e, now)) :
    e.Timed g settings o.clock (g.repetitions turns settings o).length
      (g.publishedIn turns settings o)
      now.surroundings now.clock := by
  obtain ⟨entry, hfirst⟩ := exists_first_of_momentAfter h
  let kept (repeated : List NodeId) (events : List Event) (e : Execution) (now : Outside) : Prop :=
    e.Timed g settings o.clock repeated.length events now.surroundings now.clock
  have hbegin : kept [] [.executionStarted entry] { stage := .arriving (some entry) } o :=
    .going (by simp [Execution.drive?]) (by simp [Execution.owed, drivenFrames, isDriven])
  rw [repetitions_of_first hfirst, publishedIn_of_first hfirst]
  rw [momentAfter_of_first hfirst] at h
  refine moment_induction (Execution.repeating? g) kept ?_ hbegin h
  intro repeated events e now next after htimed hf
  simp only [kept, List.length_append]
  exact htimed.turn.follow hf

/-- An execution that ends without a cancel has taken as many frame intervals as there were frames
of drives, and as many pauses as motions were repeated, and nothing else takes time: this holds on
the way as well, up to the pause that a repetition under way still owes. Without a request to cancel
an execution ends without a cancel. -/
theorem clock_of_execute {ending : Ending (Except Failure Report)} {report : Report}
    (h : g.execute turns settings o = some ending) (hok : ending.result = .ok report) :
    (o.Uncancelled → report.outcome ≠ .cancelled) ∧
      (report.outcome ≠ .cancelled → ending.outside.clock = o.clock +
        settings.frameInterval * g.drivenFrames ending.events.toList +
        settings.untilPause * (g.repetitions turns settings o).length) ∧
      ∀ earlier e now, g.momentAfter earlier settings o = some (e, now) →
        now.surroundings.cancelled = false →
        now.clock + e.owed settings = o.clock +
          settings.frameInterval * g.drivenFrames (g.publishedIn earlier settings o) +
          settings.untilPause * (g.repetitions earlier settings o).length := by
  obtain ⟨earlier, hlt, last, hlast, hturn, hevents, -⟩ := exists_finish_of_execute h hok
  obtain ⟨entry, hfirst⟩ := exists_first_of_momentAfter hlast
  refine ⟨fun huncancelled hcancelled => ?_, fun hne => ?_, fun earlier e now hnow hc => ?_⟩
  · rw [momentAfter_of_first hfirst] at hlast
    have hnow := (huncancelled.keeps.stateAfter
      (fun s signal hs hc => by simp [Surroundings.receive, hs, hc])
      (fun e s hs => (Execution.cancelled_turn g settings e s).trans hs) hlast).now
    rw [hcancelled] at hturn
    cases hnow.symm.trans (Execution.cancelled_of_finish hturn)
  · obtain ⟨htime, hnone⟩ := (timed_momentAfter hlast).total hturn hne
    obtain ⟨more, rfl⟩ := Nat.exists_eq_add_of_lt hlt
    rw [momentAfter_of_first hfirst] at hlast
    have hfollow : (last.turn g settings ending.outside.surroundings).follow ending.outside =
        .inr ⟨last.steps, last.frames, report.outcome⟩ := by
      rw [hturn]
      rfl
    have hrepetitions : g.repetitions (earlier + more + 1) settings o =
        g.repetitions earlier settings o := by
      rw [repetitions_of_first hfirst, repetitions_of_first hfirst, Nat.add_assoc,
        marks_of_last _ hlast hfollow, hnone]
      exact List.append_nil _
    rw [hrepetitions, hevents, drivenFrames_append]
    exact htime
  · cases timed_momentAfter hnow with
    | cut _ hcancelled => cases hc.symm.trans hcancelled
    | going _ htime => exact htime

/-- A drive of two frames takes 6 ms, and a press is repeated until a landmark is reported after 14
ms, which is noticed after the second pause; to say something takes no time. -/
theorem clock_of_execute_search :
    let edits : List Builder.Edit :=
      [.append (.ofMotion .once .forward { dy := 2 }), .append (.ofMotion .untilNear .gripper {}),
        .append (.ofSpeech "here")]
    let g := (Builder.applyAll {} edits).graph
    let settings : Settings := { frameInterval := 3, untilPause := 5 }
    let o : Outside :=
      { schedule := .atTimes [(14, { landmarks := some { near := true } })], surroundings := {} }
    o.Uncancelled ∧ ∃ ending report, g.execute 12 settings o = some ending ∧
      ending.result = .ok report ∧
      report.outcome ≠ .cancelled ∧ g.drivenFrames ending.events.toList = 2 ∧
      (g.repetitions 12 settings o).length = 2 ∧
      ending.outside.clock =
        0 + 3 * g.drivenFrames ending.events.toList + 5 * (g.repetitions 12 settings o).length := by
  intro edits g settings o
  have hun : o.Uncancelled := ⟨rfl, by decide⟩
  have hrun : (g.execute 12 settings o).map
      (fun ending => g.drivenFrames ending.events.toList) = some 2 := by
    decide +kernel
  obtain ⟨ending, hend, hframes⟩ := Option.map_eq_some_iff.mp hrun
  have hfirst : g.first? = some 1 := by decide
  obtain ⟨report, hok⟩ := exists_report_of_execute hfirst hend
  obtain ⟨hends, htime, -⟩ := clock_of_execute hend hok
  exact ⟨hun, ending, report, hend, hok, hends hun, hframes, by decide +kernel, htime (hends hun)⟩

end Graph
end MotionScript
