import MotionScript.Proofs.ThumbSticks

/-!
# Presses and reads

A press of the gripper holds Y until the controller is read. When it is read during every rest, a
press is missed only if another one follows before the next rest, and then it is one press for the
reader. That happens exactly where a node that presses once is directly followed by a node that
begins with a press.
-/
namespace MotionScript

/-- How many of the reads so far have seen a press. -/
def Outside.seen (o : Outside) : Nat := o.reads.toList.countP (·.y = 1)

/-- The presses that the next read will see: one or none. -/
def Surroundings.held (s : Surroundings) : Nat := if s.controller.input.y = 1 then 1 else 0

theorem Surroundings.held_of_released {s : Surroundings}
    (h : s.controller.input.y = 0) : s.held = 0 := by
  simp [held, h]

def Graph.isPress (g : Graph) : Event → Bool
  | .frame id _ => g.Grips id
  | _ => false

def Graph.presses (g : Graph) (events : List Event) : Nat := events.countP g.isPress

def Graph.PressesOnce (g : Graph) (id : NodeId) : Prop := ∃ p ∈ g.payload? id, p.IsPress

/-- A visit, with the landmark flag that it finds, begins with a press. -/
def Graph.BeginsWithPress (g : Graph) (visit : NodeId × Bool) : Prop :=
  g.PressesOnce visit.1 ∨ g.Grips visit.1 ∧ g.kind? visit.1 = some .untilNear ∧ visit.2 = false

/-- A visit presses while the press of the visit before it is still held. -/
def Graph.Crowds (g : Graph) (first second : NodeId × Bool) : Prop :=
  g.PressesOnce first.1 ∧ g.BeginsWithPress second

instance (g : Graph) (id : NodeId) : Decidable (g.PressesOnce id) :=
  inferInstanceAs (Decidable (∃ p ∈ g.payload? id, p.IsPress))

instance (g : Graph) (visit : NodeId × Bool) : Decidable (g.BeginsWithPress visit) :=
  inferInstanceAs (Decidable (_ ∨ _))

instance (g : Graph) (first second : NodeId × Bool) : Decidable (g.Crowds first second) :=
  inferInstanceAs (Decidable (_ ∧ _))

/-- How many of the visits press while the press of the visit before is still held. -/
def Graph.crowdings (g : Graph) : List (NodeId × Bool) → Nat
  | first :: second :: later =>
    (if g.Crowds first second then 1 else 0) + g.crowdings (second :: later)
  | _ => 0

def Graph.EndsPressed (g : Graph) (visits : List (NodeId × Bool)) : Prop :=
  ∃ visit ∈ visits.getLast?, g.PressesOnce visit.1

instance (g : Graph) (visits : List (NodeId × Bool)) : Decidable (g.EndsPressed visits) :=
  inferInstanceAs (Decidable (∃ visit ∈ visits.getLast?, g.PressesOnce visit.1))

section

variable {g : Graph}

@[simp] theorem Graph.presses_append (first second : List Event) :
    g.presses (first ++ second) = g.presses first + g.presses second := List.countP_append

@[simp] theorem Graph.endsPressed_snoc (visits : List (NodeId × Bool)) (visit : NodeId × Bool) :
    g.EndsPressed (visits ++ [visit]) ↔ g.PressesOnce visit.1 := by simp [EndsPressed]

theorem Graph.crowdings_snoc (visits : List (NodeId × Bool)) (visit : NodeId × Bool) :
    g.crowdings (visits ++ [visit]) =
      g.crowdings visits + if g.EndsPressed visits ∧ g.BeginsWithPress visit then 1 else 0 := by
  induction visits with
  | nil => simp [crowdings, EndsPressed]
  | cons first later ih =>
    cases later with
    | nil =>
      have hcrowds : g.Crowds first visit ↔ g.EndsPressed [first] ∧ g.BeginsWithPress visit := by
        simp [Crowds, EndsPressed]
      simp only [List.cons_append, List.nil_append, crowdings, hcrowds, Nat.zero_add, Nat.add_zero]
    | cons second later =>
      have hends : g.EndsPressed (first :: second :: later) ↔ g.EndsPressed (second :: later) := by
        simp [EndsPressed]
      simp only [List.cons_append, crowdings, hends, Nat.add_assoc] at ih ⊢
      rw [ih]

theorem Graph.crowdings_eq_zero_iff (visits : List (NodeId × Bool)) :
    g.crowdings visits = 0 ↔ visits.IsChain fun first second => ¬ g.Crowds first second := by
  induction visits with
  | nil => simp [crowdings]
  | cons first later ih =>
    cases later with
    | nil => simp [crowdings]
    | cons second later => simp [crowdings, ih]

end

/-! ## Rests with a read -/

/-- How a turn goes on if the controller is read in each rest: at once, or after a rest with Y
released and the press seen that was held. -/
def Move.LeadsRead {State Result : Type} (move : Move State Result) (s : Surroundings) (seen : Nat)
    (next : State → Surroundings → Nat → Prop) : Prop :=
  match move with
  | .onward state => next state s seen
  | .rest _ state =>
    ∀ after : Surroundings, after.controller.input.y = 0 → next state after (seen + s.held)
  | .ended _ => True

theorem seen_of_follow {State Result : Type} {t : Turn State Result} {o after : Outside}
    {state : State} (hf : t.follow o = .inl (state, after)) :
    after.seen + after.surroundings.held = o.seen + t.surroundings.held ∧
      (o.reads.size < after.reads.size → after.surroundings.controller.input.y = 0) := by
  let kept (s : Surroundings) (reads : Array ControllerInput) : Prop :=
    reads.toList.countP (·.y = 1) + s.held = o.seen + t.surroundings.held ∧
      (o.reads.size < reads.size → s.controller.input.y = 0)
  have hkept : kept t.surroundings o.reads := ⟨rfl, fun h => absurd h (Nat.lt_irrefl _)⟩
  refine Turn.kept_follow (fun s reads signal h => ?_) hkept hf
  rcases s.input_receive signal with ⟨hread, hinput⟩ | ⟨hread, hinput⟩
  · simpa [kept, Surroundings.held, hread, hinput] using h
  · refine ⟨?_, fun _ => by rw [hinput]; rfl⟩
    rw [← h.1]
    simp [Surroundings.held, hread, hinput, ControllerInput.clearButtons, List.countP_cons]

theorem Move.LeadsRead.follow {State Result : Type} {t : Turn State Result} {o after : Outside}
    {state : State} {next : State → Surroundings → Nat → Prop}
    (h : t.move.LeadsRead t.surroundings o.seen next) (hf : t.follow o = .inl (state, after))
    (hread : o.rests < after.rests → o.reads.size < after.reads.size) :
    next state after.surroundings after.seen := by
  obtain ⟨hseen, hreleased⟩ := seen_of_follow hf
  cases hm : t.move with
  | onward state' =>
    rw [Turn.follow, hm] at hf
    cases hf
    simp only [LeadsRead, hm] at h
    exact h
  | rest duration state' =>
    rw [Turn.follow, hm] at hf
    cases hf
    simp only [LeadsRead, hm] at h
    have hy := hreleased (hread (by rw [Outside.rests_pass]; exact Nat.lt_succ_self _))
    rw [Surroundings.held_of_released hy, Nat.add_zero] at hseen
    rw [hseen]
    exact h _ hy
  | ended result =>
    rw [Turn.follow, hm] at hf
    cases hf

/-! ## Schedules that read in each rest -/

namespace Outside

theorem size_reads_fire (o : Outside) (signal : Signal) :
    (o.fire signal).reads.size = o.reads.size + if signal.read then 1 else 0 := by
  obtain ⟨landmarks, read, cancel, reset⟩ := signal
  cases read <;> simp [fire, Surroundings.receive]

theorem foldl_fire_reads (due : List (Nat × Signal)) (o : Outside) :
    let after := due.foldl (fun o signal => o.fire signal.2) o
    after.schedule = o.schedule ∧ o.reads.size ≤ after.reads.size ∧
      ((∃ signal ∈ due, signal.2.read = true) → o.reads.size < after.reads.size) := by
  induction due generalizing o with
  | nil => simp
  | cons signal due ih =>
    obtain ⟨hsame, hle, hlt⟩ := ih (o.fire signal.2)
    rw [size_reads_fire] at hle hlt
    refine ⟨hsame, Nat.le_trans (Nat.le_add_right _ _) hle, ?_⟩
    rintro ⟨read, hm, hread⟩
    rcases List.mem_cons.mp hm with rfl | hm
    · rw [if_pos hread] at hle
      exact hle
    · exact Nat.lt_of_le_of_lt (Nat.le_add_right _ _) (hlt ⟨read, hm, hread⟩)

theorem fireDue_reads {signals : List (Nat × Signal)} {o : Outside}
    (hsch : o.schedule = .atRests signals) :
    o.fireDue.schedule = .atRests signals ∧
      ((∃ signal ∈ signals, signal.1 = o.rests ∧ signal.2.read = true) →
        o.reads.size < o.fireDue.reads.size) := by
  obtain ⟨hsame, -, hlt⟩ := foldl_fire_reads (signals.filter (·.1 == o.rests)) o
  simp only [fireDue, hsch]
  refine ⟨hsame.trans hsch, ?_⟩
  rintro ⟨signal, hm, hrests, hread⟩
  exact hlt ⟨signal, List.mem_filter.mpr ⟨hm, by simpa using hrests⟩, hread⟩

end Outside

/-- A turn keeps a schedule for rests, and in a rest that follows it the controller is read if there
is a signal for that. -/
theorem Turn.reads_follow {State Result : Type} {t : Turn State Result} {o after : Outside}
    {state : State} {signals : List (Nat × Signal)} (hsch : o.schedule = .atRests signals)
    (hf : t.follow o = .inl (state, after)) :
    after.schedule = .atRests signals ∧
      (o.rests < after.rests → (∃ signal ∈ signals, signal.1 = after.rests ∧ signal.2.read = true) →
        o.reads.size < after.reads.size) := by
  unfold Turn.follow at hf
  split at hf
  · cases hf
    exact ⟨hsch, fun h => absurd h (Nat.lt_irrefl _)⟩
  next duration _ _ =>
    cases hf
    let rested : Outside :=
      { o with surroundings := t.surroundings, rests := o.rests + 1, clock := o.clock + duration }
    have hpass : Outside.pass { o with surroundings := t.surroundings } duration =
        rested.fireDue := by
      simp only [Outside.pass, hsch, rested]
    obtain ⟨hsame, hlt⟩ := Outside.fireDue_reads (o := rested) hsch
    rw [hpass]
    exact ⟨hsame, fun _ hread => hlt (by simpa using hread)⟩
  · cases hf

theorem schedule_of_stateAfter {State Result : Type} {activity : Activity State Result}
    {turns : Nat} {state next : State} {o after : Outside} {signals : List (Nat × Signal)}
    (hsch : o.schedule = .atRests signals)
    (h : stateAfter activity turns state o = some (next, after)) :
    after.schedule = .atRests signals := by
  induction turns generalizing state o with
  | zero =>
    cases h
    exact hsch
  | succ turns ih =>
    obtain ⟨_, _, hf, h⟩ := exists_follow_of_stateAfter h
    exact ih (Turn.reads_follow hsch hf).1 h

/-! ## What is seen, turn by turn -/

namespace Execution

/-- The node that an execution visits in a turn, with the landmark flag that it finds. -/
def sighting? (g : Graph) (settings : Settings) (e : Execution)
    (s : Surroundings) : Option (NodeId × Bool) :=
  (e.visiting? g settings s).map fun id => (id, s.controller.landmarks.near)

/-- How the presses that were seen, that are held, and that were crowded out make up all presses, by
the stage of an execution. A press that is held when a node is visited that begins with a press is
crowded out ahead of that press. -/
inductive Tallied (g : Graph) (first : Nat) (visits : List (NodeId × Bool)) (events : List Event)
    (e : Execution) (s : Surroundings) (seen : Nat) : Prop
  | arriving {next : Option NodeId} : e.stage = .arriving next →
      s.controller.input.y = (if g.EndsPressed visits then 1 else 0) →
      seen + s.held + g.crowdings visits = first + g.presses events →
      Tallied g first visits events e s seen
  | driving {d : Drive} {repeats : Bool} :
      e.stage = .driving d repeats → ¬ g.EndsPressed visits → ¬ g.Grips d.node →
      (repeats = false → e.frames = e.before) → (d.written ≠ 0 → s.controller.input.y = 0) →
      seen + s.held + g.crowdings visits = first + g.presses events →
      Tallied g first visits events e s seen
  | sensing {node : NodeId} {asleep : Bool} :
      e.stage = .sensing node asleep → ¬ g.EndsPressed visits →
      (e.frames ≠ e.before → s.controller.input.y = 0) →
      (s.held ≠ 0 → s.cancelled = false ∧ node < g.size) →
      seen + s.held + g.crowdings visits =
        first + g.presses events +
          (if g.Grips node ∧ s.controller.landmarks.near = false then s.held else 0) →
      Tallied g first visits events e s seen

section

variable {g : Graph} {settings : Settings} {first seen : Nat} {visits : List (NodeId × Bool)}
  {events : List Event} {e : Execution} {s : Surroundings}

/-- After a rest with a read all presses have been seen or crowded out. -/
theorem tallied_arriving (hlast : ¬ g.EndsPressed visits) (hy : s.controller.input.y = 0)
    (htally : seen + g.crowdings visits = first + g.presses events) {next : Option NodeId}
    (hstage : e.stage = .arriving next) :
    Tallied g first visits events e s seen :=
  .arriving hstage (by rw [hy, if_neg hlast])
    (by rw [Surroundings.held_of_released hy, Nat.add_zero, htally])

theorem leads_leave_tallied (hlast : ¬ g.EndsPressed visits)
    (hrests : e.frames ≠ e.before → s.controller.input.y = 0)
    (htally : seen + s.held + g.crowdings visits = first + g.presses events) (node : NodeId)
    (branch : Nat) :
    (e.leave g node branch).LeadsRead s seen (Tallied g first visits events) := by
  unfold leave
  split
  next => exact fun after hy => tallied_arriving hlast hy htally rfl
  next hne =>
    have hy := hrests hne
    rw [Surroundings.held_of_released hy, Nat.add_zero] at htally
    exact tallied_arriving hlast hy htally rfl

theorem leads_afterMotion_tallied (hlast : ¬ g.EndsPressed visits) {repeats : Bool} {written : Nat}
    (hrests : repeats = false → e.frames + written ≠ e.before → s.controller.input.y = 0)
    (htally : seen + s.held + g.crowdings visits = first + g.presses events) (node : NodeId) :
    (e.afterMotion g settings node repeats written).LeadsRead s seen
      (Tallied g first visits events) := by
  cases repeats with
  | false => exact leads_leave_tallied hlast (hrests rfl) htally node 0
  | true =>
    intro after hy
    refine .sensing rfl hlast (fun _ => hy)
      (fun hheld => absurd (Surroundings.held_of_released hy) hheld) ?_
    simp [Surroundings.held_of_released hy, htally]

/-- A motion keeps the tally, if a press that it begins with has been counted as crowding. -/
theorem leads_actuate_tallied {node : NodeId} {p : Payload} {repeats : Bool}
    (hp : g.payload? node = some p)
    (hlast : g.EndsPressed visits ↔ repeats = false ∧ p.motion = some .gripper)
    (hbefore : repeats = false → e.frames = e.before)
    (hrests : e.frames ≠ e.before → s.controller.input.y = 0)
    (htally : seen + s.held + g.crowdings visits =
      first + g.presses events + (if p.motion = some .gripper then s.held else 0)) :
    let t := e.actuate g settings node p repeats s
    t.move.LeadsRead t.surroundings seen (Tallied g first visits (events ++ t.events)) := by
  have hgrips : g.Grips node ↔ p.motion = some .gripper := by simp [Graph.Grips, hp]
  unfold actuate
  split
  case h_1 hmotion =>
    simp only [hmotion, reduceCtorEq, and_false, iff_false, if_false, Nat.add_zero,
      List.append_nil] at hlast htally ⊢
    refine leads_afterMotion_tallied hlast ?_ htally node
    exact fun _ hne => hrests hne
  case h_2 motion hmotion =>
    split
    next hpress =>
      rw [Actuation.ofMotion_eq_press_iff] at hpress
      subst hpress
      simp only [hmotion, if_true, and_true] at hlast htally
      -- Y shows the new press if none was held, and else the press that has been counted as crowded
      -- out is shown as it
      have hone : g.presses (events ++ (pressGripper node s).1) = g.presses events + 1 := by
        simp [pressGripper, Graph.presses, Graph.isPress, hgrips, hmotion]
      have hheld : (pressGripper node s).2.held = 1 := by
        simp [pressGripper, Surroundings.held, Controller.update]
      have htally' : seen + (pressGripper node s).2.held + g.crowdings visits =
          first + g.presses (events ++ (pressGripper node s).1) := by omega
      change (e.afterMotion g settings node repeats 1).LeadsRead (pressGripper node s).2 seen _
      cases repeats with
      | true =>
        refine leads_afterMotion_tallied (by simpa using hlast) ?_ htally' node
        exact fun hrepeats => Bool.noConfusion hrepeats
      | false =>
        have hne : e.frames + 1 ≠ e.before := by rw [hbefore rfl]; exact Nat.succ_ne_self _
        simp only [afterMotion, leave, Bool.false_eq_true, if_false, if_neg hne]
        exact .arriving rfl (by rw [if_pos (hlast.mpr rfl)]; rfl) htally'
    next frames frame hdrive =>
      have hmotion' : motion ≠ .gripper := by
        rintro rfl
        simp [Actuation.ofMotion] at hdrive
      simp only [hmotion, Option.some.injEq, hmotion', and_false, iff_false, if_false, Nat.add_zero,
        List.append_nil] at hlast htally hgrips ⊢
      exact .driving rfl hlast hgrips hbefore (fun h => absurd rfl h) htally

theorem pressesOnce_iff {id : NodeId} {p : Payload} (hp : g.payload? id = some p) :
    g.PressesOnce id ↔ p.kind = .once ∧ p.motion = some .gripper := by
      simp [Graph.PressesOnce, hp, Payload.IsPress]

theorem beginsWithPress_iff {id : NodeId} {p : Payload} (hp : g.payload? id = some p)
    (near : Bool) :
    g.BeginsWithPress (id, near) ↔
      p.motion = some .gripper ∧ (p.kind = .once ∨ p.kind = .untilNear ∧ near = false) := by
  simp only [Graph.BeginsWithPress, pressesOnce_iff hp, Graph.Grips, hp, Graph.kind?_of_payload? hp,
    Option.mem_def, Option.some.injEq, exists_eq_left']
  tauto

theorem tally_visit (hy : s.controller.input.y = if g.EndsPressed visits then 1 else 0)
    (htally : seen + s.held + g.crowdings visits = first + g.presses events)
    (visit : NodeId × Bool) :
    seen + s.held + g.crowdings (visits ++ [visit]) =
      first + g.presses events + (if g.BeginsWithPress visit then s.held else 0) := by
  rw [Graph.crowdings_snoc]
  by_cases hends : g.EndsPressed visits
  · have hheld : s.held = 1 := by simp [Surroundings.held, hy, hends]
    by_cases hbegins : g.BeginsWithPress visit
    · rw [if_pos ⟨hends, hbegins⟩, if_pos hbegins]
      omega
    · rw [if_neg fun h => hbegins h.2, if_neg hbegins]
      omega
  · have hheld : s.held = 0 := Surroundings.held_of_released (by rw [hy, if_neg hends])
    rw [if_neg fun h => hends h.1, hheld, ite_self]
    omega

theorem leads_visit_tallied {id : NodeId} {p : Payload} (hp : g.payload? id = some p)
    (hs : s.cancelled = false) (hy : s.controller.input.y = if g.EndsPressed visits then 1 else 0)
    (htally : seen + s.held + g.crowdings visits = first + g.presses events) :
    let t := e.visit g settings id p s
    t.move.LeadsRead t.surroundings seen
      (Tallied g first (visits ++ [(id, s.controller.landmarks.near)]) (events ++ t.events)) := by
  have htally' := tally_visit hy htally (id, s.controller.landmarks.near)
  have hlast := Graph.endsPressed_snoc (g := g) visits (id, s.controller.landmarks.near)
  simp only [beginsWithPress_iff hp, pressesOnce_iff hp] at htally' hlast
  unfold visit
  split
  case h_1 hkind | h_4 hkind | h_5 hkind | h_6 hkind =>
    simp only [hkind, reduceCtorEq, false_and, and_false, or_self, iff_false, if_false,
      Nat.add_zero, List.append_nil] at htally' hlast ⊢
    exact leads_leave_tallied hlast (fun hne => absurd rfl hne) htally' id _
  case h_7 hkind =>
    simp only [hkind, reduceCtorEq, false_and, and_false, or_self, iff_false, if_false,
      Nat.add_zero] at htally' hlast ⊢
    refine leads_leave_tallied hlast (fun hne => absurd rfl hne) ?_ id 0
    simpa [Graph.presses, Graph.isPress] using htally'
  case h_2 hkind =>
    simp only [hkind, true_and, and_true, reduceCtorEq, false_and, or_false] at htally' hlast
    exact leads_actuate_tallied hp (by simpa using hlast) (fun _ => rfl)
      (fun hne => absurd rfl hne) htally'
  case h_3 hkind =>
    simp only [hkind, reduceCtorEq, false_and, iff_false, true_and, false_or,
      List.append_nil] at htally' hlast ⊢
    refine .sensing rfl hlast (fun hne => absurd rfl hne)
      (fun _ => ⟨hs, Graph.lt_size_of_payload? hp⟩) ?_
    simpa [Graph.Grips, hp] using htally'

theorem Tallied.turn (h : Tallied g first visits events e s seen) (settings : Settings) :
    let t := e.turn g settings s
    t.move.LeadsRead t.surroundings seen
      (Tallied g first (visits ++ (e.sighting? g settings s).toList) (events ++ t.events)) := by
  cases h with
  | arriving hstage hy htally =>
    rcases turn_arriving g settings s hstage with ⟨outcome, -, hturn⟩ |
      ⟨id, p, -, hp, hs, hvis, hturn⟩
    · rw [hturn]
      trivial
    · rw [sighting?, hvis, hturn]
      exact leads_visit_tallied hp hs hy htally
  | @driving d repeats hstage hlast hgrips hbefore hwritten htally =>
    have hnone : e.sighting? g settings s = none := by simp [sighting?, visiting?, hstage]
    rw [hnone, Option.toList_none, List.append_nil]
    rcases turn_driving g settings s hstage with hturn | ⟨left, -, -, hturn⟩ | ⟨-, hturn⟩
    · rw [hturn]
      trivial
    · rw [hturn]
      intro t after hy
      refine .driving rfl hlast hgrips hbefore (fun _ => hy) ?_
      rw [Surroundings.held_of_released hy]
      change seen + s.held + 0 + g.crowdings visits =
        first + g.presses (events ++ [.frame d.node _])
      simpa [Graph.presses, Graph.isPress, hgrips] using htally
    · rw [hturn]
      have hrests (hr : repeats = false) (hne : e.frames + d.written ≠ e.before) :
          s.controller.input.y = 0 :=
        hwritten fun hzero => hne (by rw [hzero, hbefore hr, Nat.add_zero])
      refine leads_afterMotion_tallied hlast (by exact hrests) ?_ d.node
      change seen + s.held + g.crowdings visits =
        first + g.presses (events ++ [.axesReleased d.node])
      simpa [Graph.presses, Graph.isPress] using htally
  | @sensing node asleep hstage hlast hrests _ htally =>
    have hnone : e.sighting? g settings s = none := by simp [sighting?, visiting?, hstage]
    rw [hnone, Option.toList_none, List.append_nil]
    rcases turn_sensing g settings s hstage with ⟨outcome, -, hturn⟩ | ⟨hnear, hturn⟩ |
      ⟨p, hp, ⟨-, hnear⟩, hturn⟩
    · rw [hturn]
      trivial
    · rw [hturn]
      refine leads_leave_tallied hlast hrests ?_ node 0
      simpa [hnear] using htally
    · rw [hturn]
      refine leads_actuate_tallied hp (by simpa using hlast)
        (fun hrepeats => Bool.noConfusion hrepeats) hrests ?_
      simpa [hnear, Graph.Grips, hp] using htally

/-- When an execution ends, the next read sees what is held, and no press has been counted as
crowded out ahead of it. -/
theorem Tallied.total (h : Tallied g first visits events e s seen) {outcome : Outcome}
    (hend : e.turn g settings s = e.finish outcome s) :
    seen + s.held + g.crowdings visits = first + g.presses events := by
  cases h with
  | arriving _ _ htally => exact htally
  | driving _ _ _ _ _ htally => exact htally
  | @sensing node asleep hstage _ _ hheld htally =>
    rcases turn_sensing g settings s hstage with ⟨_, ⟨-, hreason⟩, -⟩ | ⟨hnear, -⟩ |
      ⟨p, -, -, hturn⟩
    · have hzero : s.held = 0 := by
        by_contra hne
        obtain ⟨hs, hlt⟩ := hheld hne
        rcases hreason with hc | hn
        · rw [hs] at hc
          cases hc
        · obtain ⟨found, hfound⟩ := Graph.exists_node hlt
          cases hn.symm.trans hfound
      simpa [hzero] using htally
    · simpa [hnear] using htally
    · rw [hturn] at hend
      have hmove := congrArg Turn.move hend
      exact absurd hmove (leads_actuate_steps node p true).ne_ended

theorem sighting?_of_finish {outcome : Outcome} (h : e.turn g settings s = e.finish outcome s) :
    e.sighting? g settings s = none := by
  cases hvis : e.visiting? g settings s with
  | none => simp [sighting?, hvis]
  | some id =>
    obtain ⟨hstage, -, -⟩ := arriving_of_visiting hvis
    rcases turn_arriving g settings s hstage with ⟨_, hnone, -⟩ | ⟨id, p, -, -, -, -, hturn⟩
    · cases hnone.symm.trans hvis
    · rw [hturn] at h
      exact absurd (congrArg Turn.move h) (leads_visit_steps id p).ne_ended

end

end Execution

/-! ## What is seen in the end -/

namespace Graph

/-- The visits of an execution in its first turns, each with the landmark flag that it finds. -/
def sightings (turns : Nat) (settings : Settings) (g : Graph)
    (o : Outside) : List (NodeId × Bool) :=
  match Execution.start g with
  | .error _ => []
  | .ok (e, _) => marks (Execution.sighting? g settings) (Execution.turn g settings) turns e o

def ReadInRests (settings : Settings) (g : Graph) (o : Outside) : Prop :=
  ∀ turns e now next after, g.momentAfter turns settings o = some (e, now) →
    g.momentAfter (turns + 1) settings o = some (next, after) → now.rests < after.rests →
    now.reads.size < after.reads.size

variable {g : Graph} {settings : Settings} {o now : Outside} {turns : Nat} {e : Execution}

theorem sightings_of_first {entry : NodeId} (h : g.first? = some entry) (turns : Nat)
    (settings : Settings) (o : Outside) :
    g.sightings turns settings o =
      marks (Execution.sighting? g settings) (Execution.turn g settings) turns
        { stage := .arriving (some entry) } o := by
  simp only [sightings, start_of_first h]

theorem tallied (hy : o.surroundings.controller.input.y = 0) (hread : g.ReadInRests settings o)
    (h : g.momentAfter turns settings o = some (e, now)) :
    Execution.Tallied g o.seen (g.sightings turns settings o) (g.publishedIn turns settings o) e
      now.surroundings now.seen := by
  obtain ⟨entry, hfirst⟩ := exists_first_of_momentAfter h
  let kept (visits : List (NodeId × Bool)) (events : List Event) (e : Execution)
      (now : Outside) : Prop :=
    (∃ turns, g.momentAfter turns settings o = some (e, now)) ∧
      Execution.Tallied g o.seen visits events e now.surroundings now.seen
  have hbegin : kept [] [.executionStarted entry] { stage := .arriving (some entry) } o := by
    refine ⟨⟨0, momentAfter_of_first hfirst 0 settings o⟩,
      .arriving rfl (by simpa [EndsPressed] using hy) ?_⟩
    simp [Surroundings.held_of_released hy, crowdings, presses, isPress]
  rw [sightings_of_first hfirst, publishedIn_of_first hfirst]
  rw [momentAfter_of_first hfirst] at h
  refine (moment_induction (Execution.sighting? g settings) kept ?_ hbegin h).2
  rintro visits events e now next after ⟨⟨turns, hmoment⟩, htallied⟩ hf
  have hnext := momentAfter_succ hmoment hf
  exact ⟨⟨turns + 1, hnext⟩, (htallied.turn settings).follow hf (hread _ _ _ _ _ hmoment hnext)⟩

theorem sightings_of_finish {last : Execution} {outcome : Outcome}
    (h : g.momentAfter turns settings o = some (last, now))
    (hturn : last.turn g settings now.surroundings = last.finish outcome now.surroundings)
    {more : Nat} (hlt : turns < more) :
    g.sightings more settings o = g.sightings turns settings o := by
  obtain ⟨entry, hfirst⟩ := exists_first_of_momentAfter h
  obtain ⟨k, rfl⟩ := Nat.exists_eq_add_of_lt hlt
  rw [momentAfter_of_first hfirst] at h
  have hfollow : (last.turn g settings now.surroundings).follow now =
      .inr ⟨last.steps, last.frames, outcome⟩ := by
    rw [hturn]
    rfl
  rw [sightings_of_first hfirst, sightings_of_first hfirst, Nat.add_assoc,
    marks_of_last _ h hfollow, Execution.sighting?_of_finish hturn, Option.toList_none,
    List.append_nil]

/-- What was seen with the last read, and what was crowded out, are all presses. -/
theorem seen_add_crowdings (hy : o.surroundings.controller.input.y = 0)
    (hread : g.ReadInRests settings o) {ending : Ending (Except Failure Report)}
    (hend : g.execute turns settings o = some ending) :
    (ending.outside.fire { read := true }).seen + g.crowdings (g.sightings turns settings o) =
      o.seen + g.presses ending.events.toList := by
  have hlastRead (o : Outside) : (o.fire { read := true }).seen = o.seen + o.surroundings.held := by
    simp [Outside.fire, Outside.seen, Surroundings.receive, Surroundings.held, Controller.read,
      List.countP_cons]
  rw [hlastRead]
  cases hfirst : g.first? with
  | none =>
    rw [execute_of_empty hfirst] at hend
    cases hend
    simp [sightings, Execution.start, hfirst, crowdings, presses, Surroundings.held_of_released hy]
  | some entry =>
    obtain ⟨report, hok⟩ := exists_report_of_execute hfirst hend
    obtain ⟨earlier, hlt, last, hlast, hturn, hevents, -⟩ := exists_finish_of_execute hend hok
    rw [sightings_of_finish hlast hturn hlt, (tallied hy hread hlast).total hturn, hevents,
      presses_append]
    simp [presses, isPress]

/-- If the controller is read in each rest and once in the end, then every press is seen, exactly if
no press is crowded out. -/
theorem seen_eq_presses_iff (hy : o.surroundings.controller.input.y = 0)
    (hread : g.ReadInRests settings o) {ending : Ending (Except Failure Report)}
    (hend : g.execute turns settings o = some ending) :
    (ending.outside.fire { read := true }).seen = o.seen + g.presses ending.events.toList ↔
      (g.sightings turns settings o).IsChain fun first second => ¬ g.Crowds first second := by
  have htotal := seen_add_crowdings hy hread hend
  rw [← crowdings_eq_zero_iff]
  omega

/-- A schedule that has a read for each rest of an execution up to its end reads in each rest. -/
theorem readInRests_of_atRests {signals : List (Nat × Signal)}
    (hsch : o.schedule = .atRests signals) {ending : Ending (Except Failure Report)}
    (hend : g.execute turns settings o = some ending)
    (hreads : ∀ rest, o.rests < rest → rest ≤ ending.outside.rests →
      ∃ signal ∈ signals, signal.1 = rest ∧ signal.2.read = true) : g.ReadInRests settings o := by
  intro turns e now next after hnow hafter hrests
  have hfollow := follow_of_momentAfter hnow hafter
  obtain ⟨entry, hfirst⟩ := exists_first_of_momentAfter hnow
  obtain ⟨report, hok⟩ := exists_report_of_execute hfirst hend
  obtain ⟨earlier, -, last, hlast, -, -, hle⟩ := exists_finish_of_execute hend hok
  obtain ⟨more, rfl⟩ := Nat.exists_eq_add_of_le (hle _ _ _ hafter)
  rw [momentAfter_of_first hfirst] at hnow hafter hlast
  rw [stateAfter_add hafter] at hlast
  refine (Turn.reads_follow (schedule_of_stateAfter hsch hnow) hfollow).2 hrests
    (hreads _ ?_ (rests_le_of_stateAfter hlast))
  exact Nat.lt_of_le_of_lt (rests_le_of_stateAfter hnow) hrests

/-- Between two presses something is said, and the read in the rest after that sees the first of
them. -/
theorem seen_eq_presses_iff_apart :
    let press : Builder.Edit := .append (.ofMotion .once .gripper {})
    let g := (Builder.applyAll {} [press, .append (.ofSpeech "hello"), press]).graph
    let o : Outside := { schedule := .atRests [(1, { read := true })], surroundings := {} }
    o.surroundings.controller.input.y = 0 ∧ g.ReadInRests {} o ∧
      ∃ ending, g.execute 4 {} o = some ending ∧
        ((ending.outside.fire { read := true }).seen = o.seen + g.presses ending.events.toList ↔
          (g.sightings 4 {} o).IsChain fun first second => ¬ g.Crowds first second) := by
  intro press g o
  have hrun : (g.execute 4 {} o).map (·.outside.rests) = some 1 := by decide +kernel
  obtain ⟨ending, hend, hrests⟩ := Option.map_eq_some_iff.mp hrun
  have hread : g.ReadInRests {} o := by
    refine readInRests_of_atRests rfl hend fun rest hlt hle =>
      ⟨_, List.mem_singleton_self _, ?_, rfl⟩
    rw [hrests] at hle
    exact Nat.le_antisymm hlt hle
  exact ⟨rfl, hread, ending, hend, seen_eq_presses_iff rfl hread hend⟩

/-- Of two presses one after the other the controller shows one. -/
theorem not_seen_eq_presses :
    let press : Builder.Edit := .append (.ofMotion .once .gripper {})
    let g := (Builder.applyAll {} [press, press]).graph
    let o : Outside := { schedule := .atRests [], surroundings := {} }
    o.surroundings.controller.input.y = 0 ∧ g.ReadInRests {} o ∧
      ∃ ending, g.execute 3 {} o = some ending ∧
        (ending.outside.fire { read := true }).seen ≠ o.seen + g.presses ending.events.toList := by
  intro press g o
  obtain ⟨ending, hend, hrests, hseen⟩ : ∃ ending, g.execute 3 {} o = some ending ∧
      ending.outside.rests = 0 ∧
      (ending.outside.fire { read := true }).seen ≠ o.seen + g.presses ending.events.toList :=
        ⟨_, rfl, rfl, by decide⟩
  have hread : g.ReadInRests {} o := by
    refine readInRests_of_atRests rfl hend fun rest hlt hle => ?_
    rw [hrests] at hle
    exact absurd (Nat.lt_of_lt_of_le hlt hle) (Nat.lt_irrefl 0)
  exact ⟨rfl, hread, ending, hend, hseen⟩

end Graph
end MotionScript
