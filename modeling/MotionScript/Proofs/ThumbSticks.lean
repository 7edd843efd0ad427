import MotionScript.Proofs.KeptBySignals
import MotionScript.Proofs.RestsBetweenVisits

/-!
# The thumbsticks

An execution publishes what it does to the thumbsticks: they are where the last frame or the last
release of the sticks left them, and nothing that happens around the execution moves them. A drive
that is carried out to its end releases them. So after an execution they are neutral if it drove,
and where they were if it did not, unless a cancel has cut its last drive short.
-/
namespace MotionScript

/-- Where an event says that the sticks are. -/
def Event.sticks? : Event → Option StickFrame
  | .frame _ input => some input.axes
  | .axesReleased _ => some {}
  | _ => none

/-- Where the sticks are after events: where the last frame or release says, or where they were
before. -/
def sticksAfter (first : StickFrame) (events : List Event) : StickFrame :=
  ((events.filterMap Event.sticks?).getLast?).getD first

theorem sticksAfter_append (first : StickFrame) (events more : List Event) :
    sticksAfter first (events ++ more) = sticksAfter (sticksAfter first events) more := by
  simp [sticksAfter, List.getLast?_append, Option.getD_or]

theorem sticksAfter_of_silent (first : StickFrame) {events : List Event}
    (h : ∀ event ∈ events, event.sticks? = none) :
    sticksAfter first events = first := by
  simp [sticksAfter, List.filterMap_eq_nil_iff.mpr h]

@[simp] theorem ControllerInput.clearButtons_clearButtons (i : ControllerInput) :
    i.clearButtons.clearButtons = i.clearButtons := rfl

def Graph.Grips (g : Graph) (id : NodeId) : Prop := ∃ p ∈ g.payload? id, p.motion = some .gripper

instance (g : Graph) (id : NodeId) : Decidable (g.Grips id) :=
  inferInstanceAs (Decidable (∃ p ∈ g.payload? id, p.motion = some .gripper))

namespace Execution

def drive? (e : Execution) : Option Drive :=
  match e.stage with
  | .driving d _ => some d
  | _ => none

/-- What a turn writes to the controller, and what it publishes about that. -/
inductive Writes (g : Graph) (e : Execution) (s : Surroundings) (t : Turn Execution Report) : Prop
  /-- Nothing is written without a drive or a press. -/
  | nothing : e.drive? = none → t.surroundings = s → (∀ event ∈ t.events, event.sticks? = none) →
      Writes g e s t
  | press {id : NodeId} :
      e.drive? = none → g.Grips id → (t.events, t.surroundings) = pressGripper id s → Writes g e s t
  /-- A frame of a drive, which goes on. -/
  | frame {d d' : Drive} {duration : Nat} {next : Execution} : e.drive? = some d →
      t.surroundings.controller = s.controller.update (·.setAxes d.frame) →
      t.events = [.frame d.node t.surroundings.controller.input] →
      t.move = .rest duration next → next.drive? = some d' → Writes g e s t
  | release {d : Drive} : e.drive? = some d →
      t.surroundings.controller = s.controller.update ControllerInput.zeroAxes →
      t.events = [.axesReleased d.node] → Writes g e s t
  | cut {d : Drive} : e.drive? = some d → t = e.finish .cancelled s → Writes g e s t

section

variable {g : Graph} {settings : Settings} {e e' : Execution} {s : Surroundings}

theorem writes_finish (h : e.drive? = none) (outcome : Outcome) :
    Writes g e s (e'.finish outcome s) :=
  .nothing h rfl (by simp [finish, Event.sticks?])

theorem writes_actuate (h : e.drive? = none) {node : NodeId} {p : Payload}
    (hp : g.payload? node = some p) (repeats : Bool) :
    Writes g e s (e'.actuate g settings node p repeats s) := by
  unfold actuate
  split
  case h_1 => exact .nothing h rfl (by simp)
  case h_2 motion hmotion =>
    split
    next hpress =>
      rw [Actuation.ofMotion_eq_press_iff] at hpress
      exact .press h ⟨p, hp, by rw [hmotion, hpress]⟩ rfl
    next => exact .nothing h rfl (by simp)

theorem writes_visit (h : e.drive? = none) {id : NodeId} {p : Payload}
    (hp : g.payload? id = some p) :
    Writes g e s (e'.visit g settings id p s) := by
  unfold visit
  split
  case h_2 => exact writes_actuate h hp false
  all_goals exact .nothing h rfl (by simp [Event.sticks?])

theorem writes_turn (g : Graph) (settings : Settings) (e : Execution) (s : Surroundings) :
    Writes g e s (e.turn g settings s) := by
  cases hstage : e.stage with
  | arriving next =>
    have hdrive : e.drive? = none := by simp [drive?, hstage]
    rcases turn_arriving g settings s hstage with ⟨outcome, -, hturn⟩ | ⟨id, p, -, hp, -, -, hturn⟩
    · rw [hturn]
      exact writes_finish hdrive outcome
    · rw [hturn]
      exact writes_visit hdrive hp
  | sensing node asleep =>
    have hdrive : e.drive? = none := by simp [drive?, hstage]
    rcases turn_sensing g settings s hstage with ⟨outcome, -, hturn⟩ | ⟨-, hturn⟩ |
      ⟨p, hp, -, hturn⟩
    · rw [hturn]
      exact writes_finish hdrive outcome
    · rw [hturn]
      exact .nothing hdrive rfl (by simp)
    · rw [hturn]
      exact writes_actuate hdrive hp true
  | driving d repeats =>
    have hdrive : e.drive? = some d := by simp [drive?, hstage]
    rcases turn_driving g settings s hstage with hturn | ⟨left, -, -, hturn⟩ | ⟨-, hturn⟩
    · exact .cut hdrive hturn
    · rw [hturn]
      exact .frame hdrive rfl rfl rfl rfl
    · rw [hturn]
      exact .release hdrive rfl rfl

/-- The sticks are where a turn says, or where they were if it says nothing of them. -/
theorem Writes.axes {t : Turn Execution Report} (h : Writes g e s t) :
    t.surroundings.controller.input.axes = sticksAfter s.controller.input.axes t.events := by
  cases h with
  | nothing _ hs hevents => rw [hs, sticksAfter_of_silent _ hevents]
  | press _ _ hpress =>
    obtain ⟨hevents, hs⟩ := Prod.mk.inj hpress
    rw [hevents, hs]
    rfl
  | frame _ _ hevents => rw [hevents]; rfl
  | release _ hs hevents => rw [hs, hevents]; rfl
  | cut _ hcut => rw [hcut]; rfl

theorem Writes.landmarks {t : Turn Execution Report} (h : Writes g e s t) :
    t.surroundings.controller.landmarks = s.controller.landmarks := by
  cases h with
  | nothing _ hs => rw [hs]
  | press _ _ hpress =>
    obtain ⟨-, hs⟩ := Prod.mk.inj hpress
    rw [hs]
    rfl
  | frame _ hs => rw [hs]; rfl
  | release _ hs => rw [hs]; rfl
  | cut _ hcut => rw [hcut]; rfl

/-- A turn leaves the buttons alone, but for Y when the gripper is pressed; then it leaves
everything else alone, and publishes what the controller shows. -/
theorem Writes.buttons {t : Turn Execution Report} (h : Writes g e s t) :
    let before := s.controller.input
    let left := t.surroundings.controller.input
    left.a = before.a ∧ left.b = before.b ∧ left.x = before.x ∧
      (left.y = before.y ∨
        left = { before with y := 1 } ∧ ∃ id, g.Grips id ∧ t.events = [.frame id left]) := by
  cases h with
  | nothing _ hs _ => rw [hs]; exact ⟨rfl, rfl, rfl, .inl rfl⟩
  | press _ hgrips hpress =>
    obtain ⟨hevents, hs⟩ := Prod.mk.inj hpress
    rw [hevents, hs]
    exact ⟨rfl, rfl, rfl, .inr ⟨rfl, _, hgrips, rfl⟩⟩
  | frame _ hs _ _ _ => rw [hs]; exact ⟨rfl, rfl, rfl, .inl rfl⟩
  | release _ hs _ => rw [hs]; exact ⟨rfl, rfl, rfl, .inl rfl⟩
  | cut _ hcut => rw [hcut]; exact ⟨rfl, rfl, rfl, .inl rfl⟩

end

/-- Only a cancel ends an execution that drives. -/
theorem outcome_of_finish {g : Graph} {settings : Settings} {e : Execution} {s : Surroundings}
    {d : Drive} {outcome : Outcome} (hdrive : e.drive? = some d)
    (h : e.turn g settings s = e.finish outcome s) : outcome = .cancelled := by
  have hwrites := writes_turn g settings e s
  rw [h] at hwrites
  cases hwrites with
  | nothing hnone => rw [hdrive] at hnone; cases hnone
  | press hnone => rw [hdrive] at hnone; cases hnone
  | frame _ _ _ hmove => cases hmove
  | release _ _ hevents => cases hevents
  | cut _ hcut =>
    cases hcut
    rfl

/-! ## What follows a turn -/

section

variable {g : Graph} {settings : Settings} {e next : Execution} {o after : Outside}

/-- Whatever comes during a rest leaves the controller as it is, or releases its buttons. -/
theorem input_of_follow {t : Turn Execution Report} (hf : t.follow o = .inl (next, after)) :
    after.surroundings.controller.input = t.surroundings.controller.input ∨
      after.surroundings.controller.input = t.surroundings.controller.input.clearButtons := by
  let kept (s : Surroundings) (_ : Array ControllerInput) :=
    s.controller.input = t.surroundings.controller.input ∨
    s.controller.input = t.surroundings.controller.input.clearButtons
  have hkept : kept t.surroundings o.reads := .inl rfl
  refine Turn.kept_follow (fun s _ signal h => ?_) hkept hf
  rcases s.input_receive signal with ⟨-, hinput⟩ | ⟨-, hinput⟩
  · simpa only [kept, hinput] using h
  · rcases h with h | h <;> exact .inr (by simp [hinput, h])

theorem axes_of_follow {t : Turn Execution Report} (hf : t.follow o = .inl (next, after)) :
    after.surroundings.controller.input.axes = t.surroundings.controller.input.axes := by
  rcases input_of_follow hf with h | h <;> rw [h]
  rfl

/-- Where the sticks are, by the drives so far and the events. -/
structure Steered (first : StickFrame) (drives : List Drive) (events : List Event) (e : Execution)
    (o : Outside) : Prop where
  published : o.surroundings.controller.input.axes = sticksAfter first events
  released : e.drive? = none → o.surroundings.controller.input.axes = if drives = []
    then first else {}

theorem Steered.follow {first : StickFrame} {drives : List Drive} {events : List Event}
    (h : Steered first drives events e o)
    (hf : (e.turn g settings o.surroundings).follow o = .inl (next, after)) :
    Steered first (drives ++ e.drive?.toList) (events ++ (e.turn g settings o.surroundings).events)
      next after := by
  have hwrites := writes_turn g settings e o.surroundings
  constructor
  case published => rw [axes_of_follow hf, hwrites.axes, h.published, sticksAfter_append]
  case released =>
    intro hnext
    rw [axes_of_follow hf]
    cases hwrites with
    | nothing hdrive hs => rw [hs, hdrive, h.released hdrive]; simp
    | press hdrive _ hpress =>
      obtain ⟨-, hs⟩ := Prod.mk.inj hpress
      rw [hs, hdrive]
      exact (h.released hdrive).trans (by simp)
    | frame _ _ _ hmove hdrives =>
      simp only [Turn.follow, hmove, Sum.inl.injEq, Prod.mk.injEq] at hf
      rw [← hf.1, hdrives] at hnext
      cases hnext
    | release hdrive hs => rw [hs, hdrive]; simp [Controller.update]
    | cut _ hcut =>
      rw [hcut] at hf
      cases hf

end

end Execution

namespace Graph

def drives (turns : Nat) (settings : Settings) (g : Graph) (o : Outside) : List Drive :=
  match Execution.start g with
  | .error _ => []
  | .ok (e, _) => marks (fun e _ => e.drive?) (Execution.turn g settings) turns e o

def Drives (settings : Settings) (g : Graph) (o : Outside) : Prop :=
  ∃ turns e now d, g.momentAfter turns settings o = some (e, now) ∧ e.drive? = some d

def CutsDrive (settings : Settings) (g : Graph) (o : Outside) : Prop :=
  ∃ turns e now d, g.momentAfter turns settings o = some (e, now) ∧ e.drive? = some d ∧
    g.momentAfter (turns + 1) settings o = none

/-- What an execution does to the controller. Before and after each rest the sticks are where the
events so far say; of the buttons only Y changes, when the gripper is pressed, and during a rest
they may be released, and nothing else. Where the sticks are in the end depends on the drives. -/
structure HandlesController (g : Graph) (settings : Settings) (o : Outside) : Prop where
  sticks : ∀ turns e now, g.momentAfter turns settings o = some (e, now) →
    let first := o.surroundings.controller.input.axes
    now.surroundings.controller.input.axes = sticksAfter first (g.publishedIn turns settings o) ∧
    (e.turn g settings now.surroundings).surroundings.controller.input.axes =
      sticksAfter first (g.publishedIn (turns + 1) settings o)
  buttons : ∀ turns e now, g.momentAfter turns settings o = some (e, now) →
    let t := e.turn g settings now.surroundings
    let before := now.surroundings.controller.input
    let left := t.surroundings.controller.input
    left.a = before.a ∧ left.b = before.b ∧ left.x = before.x ∧
      (left.y = before.y ∨
        left = { before with y := 1 } ∧ ∃ id, g.Grips id ∧ t.events = [.frame id left])
  rests : ∀ turns e now next after, g.momentAfter turns settings o = some (e, now) →
    g.momentAfter (turns + 1) settings o = some (next, after) →
      let left := (e.turn g settings now.surroundings).surroundings.controller.input
      after.surroundings.controller.input = left ∨
        after.surroundings.controller.input = left.clearButtons
  ended : ∀ turns ending report, g.execute turns settings o = some ending →
    ending.result = .ok report →
    let first := o.surroundings.controller.input.axes
    let last := ending.outside.surroundings.controller.input.axes
    last = sticksAfter first ending.events.toList ∧
    (report.outcome ≠ .cancelled →
      (g.Drives settings o → last = {}) ∧ (¬ g.Drives settings o → last = first)) ∧
    (report.outcome = .cancelled → last ≠ {} → g.CutsDrive settings o ∨ first ≠ {})

section

variable {g : Graph} {settings : Settings} {o now after : Outside} {turns : Nat}
  {e next : Execution}

theorem mem_drives_iff {d : Drive} : d ∈ g.drives turns settings o ↔
    ∃ earlier < turns, ∃ e now, g.momentAfter earlier settings o = some (e, now) ∧
      e.drive? = some d := by
  cases hfirst : g.first? with
  | none => simp [drives, momentAfter, Execution.start, hfirst]
  | some entry =>
    simp only [drives, start_of_first hfirst, momentAfter_of_first hfirst]
    constructor
    · exact exists_moment_of_mem_marks
    · rintro ⟨earlier, hlt, e, now, hmoment, hdrive⟩
      exact mem_marks_of_stateAfter hlt hmoment hdrive

/-- At every moment the sticks are where the drives and the events up to then say. -/
theorem steered (h : g.momentAfter turns settings o = some (e, now)) :
    Execution.Steered o.surroundings.controller.input.axes (g.drives turns settings o)
      (g.publishedIn turns settings o) e now := by
  obtain ⟨entry, hfirst⟩ := exists_first_of_momentAfter h
  have hbegin : Execution.Steered o.surroundings.controller.input.axes [] [.executionStarted entry]
      { stage := .arriving (some entry) } o := ⟨rfl, fun _ => rfl⟩
  rw [momentAfter_of_first hfirst] at h
  simp only [drives, start_of_first hfirst, publishedIn_of_first hfirst]
  exact moment_induction (fun e _ => e.drive?)
    (Execution.Steered o.surroundings.controller.input.axes)
    (fun _ _ _ _ _ _ h hf => h.follow hf) hbegin h

/-- If nothing drives when an execution ends, then it came to a drive exactly if one was under way
before. -/
theorem drives_ne_nil_iff (h : g.momentAfter turns settings o = some (e, now))
    (hdrive : e.drive? = none)
    (hlast : ∀ other e now, g.momentAfter other settings o = some (e, now) → other ≤ turns) :
    g.drives turns settings o ≠ [] ↔ g.Drives settings o := by
  constructor
  · intro hne
    obtain ⟨d, hd⟩ := List.exists_mem_of_ne_nil _ hne
    obtain ⟨earlier, -, e', now', hmoment, hd'⟩ := mem_drives_iff.mp hd
    exact ⟨earlier, e', now', d, hmoment, hd'⟩
  · rintro ⟨other, e', now', d, hmoment, hd⟩
    have hne : other ≠ turns := by
      rintro rfl
      cases h.symm.trans hmoment
      cases hdrive.symm.trans hd
    have hlt := Nat.lt_of_le_of_ne (hlast other e' now' hmoment) hne
    exact List.ne_nil_of_mem (mem_drives_iff.mpr ⟨other, hlt, e', now', hmoment, hd⟩)

section

variable {ending : Ending (Except Failure Report)} {report : Report}

theorem sticks_of_execute (h : g.execute turns settings o = some ending)
    (hok : ending.result = .ok report) :
    ending.outside.surroundings.controller.input.axes =
      sticksAfter o.surroundings.controller.input.axes ending.events.toList := by
  obtain ⟨earlier, -, last, hlast, -, hevents, -⟩ := exists_finish_of_execute h hok
  rw [hevents, sticksAfter_append, sticksAfter_of_silent _ (by simp [Event.sticks?])]
  exact (steered hlast).published

/-- An execution is cancelled while it drives, or has released the sticks if it has come to a
drive. -/
theorem cut_or_released (h : g.execute turns settings o = some ending)
    (hok : ending.result = .ok report) :
    report.outcome = .cancelled ∧ g.CutsDrive settings o ∨
      (g.Drives settings o → ending.outside.surroundings.controller.input.axes = {}) ∧
      (¬ g.Drives settings o →
        ending.outside.surroundings.controller.input.axes =
          o.surroundings.controller.input.axes) := by
  obtain ⟨earlier, -, last, hlast, hturn, -, hle⟩ := exists_finish_of_execute h hok
  cases hdrive : last.drive? with
  | some d =>
    refine .inl ⟨Execution.outcome_of_finish hdrive hturn, earlier, last, ending.outside, d,
      hlast, hdrive, ?_⟩
    cases hnext : g.momentAfter (earlier + 1) settings o with
    | none => rfl
    | some moment => exact absurd (hle (earlier + 1) _ _ hnext) (Nat.not_succ_le_self earlier)
  | none =>
    have hreleased := (steered hlast).released hdrive
    have hdrove := drives_ne_nil_iff hlast hdrive hle
    refine .inr ⟨fun h => ?_, fun h => ?_⟩
    · rw [hreleased, if_neg (hdrove.mpr h)]
    · rw [hreleased, if_pos (not_not.mp (mt hdrove.mp h))]

end

/-- Whatever happens around an execution, it handles the controller in this way. -/
theorem handlesController (g : Graph) (settings : Settings) (o : Outside) :
    g.HandlesController settings o := by
  constructor
  case sticks =>
    intro turns e now h
    refine ⟨(steered h).published, ?_⟩
    rw [publishedIn_succ h, sticksAfter_append, ← (steered h).published]
    exact (Execution.writes_turn g settings e now.surroundings).axes
  case buttons =>
    exact fun turns e now _ => (Execution.writes_turn g settings e now.surroundings).buttons
  case rests =>
    exact fun turns e now next after h hnext =>
      Execution.input_of_follow (follow_of_momentAfter h hnext)
  case ended =>
    intro turns ending report h hok
    refine ⟨sticks_of_execute h hok, fun hout => ?_, fun hout hsticks => ?_⟩
    · rcases cut_or_released h hok with ⟨hcancelled, -⟩ | hreleased
      · exact absurd hcancelled hout
      · exact hreleased
    · rcases cut_or_released h hok with ⟨-, hcut⟩ | ⟨hdrove, hstill⟩
      · exact .inl hcut
      · by_cases hdrives : g.Drives settings o
        · exact absurd (hdrove hdrives) hsticks
        · exact .inr (hstill hdrives ▸ hsticks)

end

end Graph
end MotionScript
