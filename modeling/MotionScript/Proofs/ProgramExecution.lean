import MotionScript.Proofs.ProgramLayout
import MotionScript.Proofs.UncancelledRuns

/-!
# Executions of recorded programs

The execution of a recorded program shows the marks that the interpreter of the program leaves, as
long as nothing cancels it: what is ahead of the execution lies in the graph as the tasks that are
ahead of the interpreter. Each turn either shows the next mark or brings a drive nearer to its end,
so the execution neither stands still nor ends early.
-/
namespace MotionScript

open Program (Task Control Mark)

/-! ## What an execution shows -/

namespace Execution

/-- What a turn of an execution shows of the program: the node that is visited, or, of a node whose
motion is repeated, whether the turn leaves the node or carries out the motion once more. -/
def mark? (g : Graph) (settings : Settings) (e : Execution) (s : Surroundings) : Option Mark :=
  match e.stage with
  | .arriving _ => (e.visiting? g settings s).bind fun id => (g.payload? id).map .visits
  | .sensing id _ => (g.payload? id).bind fun p =>
    let t := e.turn g settings s
    if t.move = e.leave g id 0 then some (.passes p)
    else if t = e.actuate g settings id p true s then some (.repeats p)
    else none
  | .driving .. => none

def glimpse? (g : Graph) (settings : Settings) (e : Execution)
    (s : Surroundings) : Option (Mark × Landmarks) :=
  (e.mark? g settings s).map fun mark => (mark, s.controller.landmarks)

end Execution

def Graph.glimpses (turns : Nat) (settings : Settings) (g : Graph)
    (o : Outside) : List (Mark × Landmarks) :=
  match Execution.start g with
  | .error _ => []
  | .ok (e, _) => marks (Execution.glimpse? g settings) (Execution.turn g settings) turns e o

/-! ## What is ahead -/

/-- What lies ahead of a point are the tasks of an interpreter. -/
inductive Graph.Awaits (g : Graph) : Point → List Task → Prop
  | nothing {pt : Point} : g.at? pt = none → Awaits g pt []
  | run {p : Program} {pt last : Point} {tasks : List Task} :
      g.Lays p pt last → Awaits g last tasks → Awaits g pt (.run p :: tasks)
  | retest {body : Program} {pt : Point} {header : NodeId} {tasks : List Task} :
      g.at? pt = some header → g.payload? header = some (.header .doWhileLoop) →
      g.Lays (.block .doWhileLoop body .done) (header, 0) (header, 1) → Awaits g (header, 1) tasks →
      Awaits g pt (.retest body :: tasks)
  | merge {pt : Point} {merge : NodeId} {tasks : List Task} :
      g.at? pt = some merge → g.payload? merge = some .placeholder → Awaits g (merge, 0) tasks →
      Awaits g pt (.merge :: tasks)

theorem Leaf.branch (l : Leaf) (face : Bool) : l.payload.kind.branch face = 0 := by
  rcases l.kind_mem with h | h | h <;> rw [h] <;> rfl

/-- The interpreter advances over the node at the point that awaits it, and is awaited at each
branch of that node. -/
theorem Graph.Awaits.advance {g : Graph} {pt : Point} {tasks : List Task} (h : g.Awaits pt tasks) :
    match Program.advance tasks with
    | none => g.at? pt = none
    | some (payload, after) => payload.kind ≠ .root ∧
      ∃ id, g.at? pt = some id ∧ g.payload? id = some payload ∧
        ∀ face, g.Awaits (id, payload.kind.branch face) (after face) := by
  induction h with
  | nothing hend => exact hend
  | @run p pt last tasks hlays hrest ih =>
    cases hlays with
    | done => exact ih
    | @leaf l rest _ _ id hat hp hlays =>
      refine ⟨?_, id, hat, hp, fun face => ?_⟩
      · rcases l.kind_mem with h | h | h <;> rw [h] <;> decide
      · rw [l.branch]
        exact .run hlays hrest
    | whileLoop hat hp hbody hback hlays =>
      refine ⟨by decide, _, hat, hp, fun face => ?_⟩
      cases face with
      | true => exact .run hbody (.run (.whileLoop hback hp hbody hback hlays) hrest)
      | false => exact .run hlays hrest
    | doWhileLoop hat hp hbody hend hh hback hlays =>
      refine ⟨by decide, _, hat, hp, fun _ => ?_⟩
      exact .run hbody
        (.retest hend hh (.doWhileLoop hback hp hbody hend hh hback .done) (.run hlays hrest))
    | conditional hat hp hbody hend hskip hm hlays =>
      refine ⟨by decide, _, hat, hp, fun face => ?_⟩
      cases face with
      | true => exact .run hbody (.merge hend hm (.run hlays hrest))
      | false => exact .merge hskip hm (.run hlays hrest)
  | retest hat hp hloop hrest _ =>
    refine ⟨by decide, _, hat, hp, fun face => ?_⟩
    cases face with
    | true => exact .run hloop hrest
    | false => exact hrest
  | merge hat hp hrest _ => exact ⟨by decide, _, hat, hp, fun _ => hrest⟩

namespace Program

def Control.resume (repeats : Bool) (p : Payload) (tasks : List Task) : Control :=
  if repeats then .until p tasks else .next tasks

end Program

namespace Execution

/-- An execution has ahead of it what an interpreter has. -/
inductive Follows (g : Graph) : Execution → Control → Prop
  | arriving {e : Execution} {pt : Point} {tasks : List Task} :
      e.stage = .arriving (g.at? pt) → g.Awaits pt tasks → Follows g e (.next tasks)
  | sensing {e : Execution} {id : NodeId} {asleep : Bool} {p : Payload} {tasks : List Task} :
      e.stage = .sensing id asleep → g.payload? id = some p → g.Awaits (id, 0) tasks →
        Follows g e (.until p tasks)
  | driving {e : Execution} {d : Drive} {repeats : Bool} {p : Payload} {tasks : List Task}
      {c : Control} :
      e.stage = .driving d repeats → g.payload? d.node = some p → g.Awaits (d.node, 0) tasks →
      c = .resume repeats p tasks → Follows g e c

/-- While a motion is repeated, its node is not left. -/
theorem move_actuate_ne_leave (g : Graph) (settings : Settings) (e : Execution) (id : NodeId)
    (p : Payload) (s : Surroundings) :
    (e.actuate g settings id p true s).move ≠ e.leave g id 0 := by
  have hafter (written : Nat) : e.afterMotion g settings id true written ≠ e.leave g id 0 := by
    unfold leave
    split <;> simp [afterMotion]
  unfold actuate
  split
  next => exact hafter 0
  next =>
    split
    next => exact hafter 1
    next =>
      unfold leave
      split <;> simp

def untilRelease (e : Execution) : Nat :=
  match e.stage with
  | .driving d _ => d.left + 1
  | _ => 0

variable {g : Graph} {settings : Settings} {e : Execution} {s : Surroundings} {node : NodeId}
  {p : Payload} {tasks : List Task} {repeats : Bool}

theorem leads_afterMotion_follows {done : Report → Prop} (hp : g.payload? node = some p)
    (ha : g.Awaits (node, 0) tasks) (written : Nat) :
    (e.afterMotion g settings node repeats written).Leads s
      (fun next _ => Follows g next (.resume repeats p tasks) ∧ next.untilRelease = 0) done := by
  cases repeats with
  | true => exact fun _ => ⟨.sensing rfl hp ha, rfl⟩
  | false => exact leads_leave fun _ => ⟨.arriving rfl ha, rfl⟩

theorem leads_actuate_follows {done : Report → Prop} (repeats : Bool)
    (hp : g.payload? node = some p) (ha : g.Awaits (node, 0) tasks) :
    let t := e.actuate g settings node p repeats s
    t.move.Leads t.surroundings (fun next _ => Follows g next (.resume repeats p tasks)) done := by
  unfold actuate
  split
  next => exact (leads_afterMotion_follows hp ha 0).imp (fun _ _ h => h.1) fun _ h => h
  next =>
    split
    next => exact (leads_afterMotion_follows hp ha 1).imp (fun _ _ h => h.1) fun _ h => h
    next => exact .driving rfl hp ha rfl

theorem leads_visit_follows {done : Report → Prop} {after : Bool → List Task}
    (hp : g.payload? node = some p) (hroot : p.kind ≠ .root)
    (ha : ∀ face, g.Awaits (node, p.kind.branch face) (after face)) :
    let t := e.visit g settings node p s
    let tasks := after s.controller.landmarks.face
    t.move.Leads t.surroundings (fun next _ =>
      Follows g next (if p.kind = .untilNear then .until p tasks else .next tasks)) done := by
  have hface := ha s.controller.landmarks.face
  have hheader (hk : p.kind = .whileLoop ∨ p.kind = .doWhileLoop ∨ p.kind = .conditional)
      (e : Execution) :
      (e.leave g node (if s.controller.landmarks.face then 0 else 1)).Leads s
        (fun next _ => Follows g next
          (if p.kind = .untilNear then .until p (after s.controller.landmarks.face)
            else .next (after s.controller.landmarks.face))) done := by
    rcases hk with hk | hk | hk <;> rw [hk] at hface ⊢ <;>
      exact leads_leave fun _ => .arriving rfl hface
  unfold visit
  split
  next hk => exact absurd hk hroot
  next hk =>
    rw [hk] at hface ⊢
    exact leads_actuate_follows false hp hface
  next hk =>
    rw [hk] at hface ⊢
    exact .sensing rfl hp hface
  next hk => exact hheader (.inl hk) _
  next hk => exact hheader (.inr (.inl hk)) _
  next hk => exact hheader (.inr (.inr hk)) _
  next hk =>
    rw [hk] at hface ⊢
    exact leads_leave fun _ => .arriving rfl hface

/-- A turn of an execution that is not cancelled shows what the interpreter does next, or brings the
drive that is under way nearer to its end, or ends because nothing is ahead. -/
theorem Follows.after_turn {c : Control} (h : Follows g e c) (hmax : settings.maxSteps = 0)
    (hs : s.cancelled = false) :
    let t := e.turn g settings s
    match e.glimpse? g settings s with
    | some (mark, landmarks) => ∃ c', c.step landmarks = some (mark, c') ∧
        t.move.Leads t.surroundings (fun next _ => Follows g next c') fun _ => False
    | none =>
      t.move.Leads t.surroundings
        (fun next _ => Follows g next c ∧ next.untilRelease < e.untilRelease)
        fun report => c.Finished ∧ report.outcome = .completed := by
  cases h with
  | @arriving pt tasks hstage hawaits =>
    have hadv := hawaits.advance
    cases ht : Program.advance tasks with
    | none =>
      rw [ht] at hadv
      have hfin : Control.Finished (.next tasks) := fun landmarks => by simp [Control.step, ht]
      simpa [glimpse?, mark?, visiting?, turn, hstage, hadv, finish] using hfin
    | some r =>
      obtain ⟨payload, after⟩ := r
      rw [ht] at hadv
      obtain ⟨hroot, id, hat, hp, hafter⟩ := hadv
      obtain ⟨node, hn, hpay⟩ := Option.map_eq_some_iff.mp hp
      have hvisit : e.visiting? g settings s = some id := by
        simp [visiting?, hstage, hat, Graph.lt_size_of_payload? hp, hs, hmax]
      have hturn : e.turn g settings s = e.visit g settings id payload s := by
        simp [turn, hstage, hat, hn, hpay, hs, hmax]
      have hglimpse : e.glimpse? g settings s = some (.visits payload, s.controller.landmarks) := by
        simp [glimpse?, mark?, hstage, hvisit, hp]
      simp only [hglimpse, hturn]
      exact ⟨_, by simp [Control.step, ht], leads_visit_follows hp hroot hafter⟩
  | @sensing id asleep p tasks hstage hp hawaits =>
    obtain ⟨node, hn, hpay⟩ := Option.map_eq_some_iff.mp hp
    by_cases hnear : s.controller.landmarks.near = true
    · have hturn : e.turn g settings s = { surroundings := s, move := e.leave g id 0 } := by
        simp [turn, hstage, hs, hnear]
      have hglimpse : e.glimpse? g settings s = some (.passes p, s.controller.landmarks) := by
        simp [glimpse?, mark?, hstage, hp, hturn]
      simp only [hglimpse, hturn]
      exact ⟨.next tasks, by simp [Control.step, hnear], leads_leave fun _ => .arriving rfl hawaits⟩
    · have hturn : e.turn g settings s = e.actuate g settings id p true s := by
        simp [turn, hstage, hs, hnear, hn, hpay]
      have hglimpse : e.glimpse? g settings s = some (.repeats p, s.controller.landmarks) := by
        simp [glimpse?, mark?, hstage, hp, hturn, move_actuate_ne_leave]
      simp only [hglimpse, hturn]
      exact ⟨.until p tasks, by simp [Control.step, hnear], leads_actuate_follows true hp hawaits⟩
  | @driving d repeats p tasks _ hstage hp hawaits hc =>
    have hglimpse : e.glimpse? g settings s = none := by simp [glimpse?, mark?, hstage]
    have hrelease : e.untilRelease = d.left + 1 := by simp [untilRelease, hstage]
    simp only [hglimpse, turn, hstage, Drive.turn, hs, Bool.and_false, Bool.false_eq_true,
      if_false, hrelease, hc]
    cases hleft : d.left with
    | zero =>
      have hnone : ∀ report : Report, False → (Control.resume repeats p tasks).Finished ∧
          report.outcome = .completed :=
        fun _ h => h.elim
      exact (leads_afterMotion_follows hp hawaits d.written).imp
        (fun _ _ h => ⟨h.1, by omega⟩) hnone
    | succ left => exact fun _ => ⟨.driving rfl hp hawaits rfl, by simp [untilRelease]⟩

theorem Follows.step {c : Control} {o : Outside} (h : Follows g e c) (hmax : settings.maxSteps = 0)
    (ho : o.Uncancelled) :
    match e.glimpse? g settings o.surroundings with
    | some (mark, landmarks) => ∃ c' next after, c.step landmarks = some (mark, c') ∧
        (e.turn g settings o.surroundings).follow o = .inl (next, after) ∧ Follows g next c' ∧
        after.Uncancelled
    | none =>
      (∃ next after, (e.turn g settings o.surroundings).follow o = .inl (next, after) ∧
        Follows g next c ∧ next.untilRelease < e.untilRelease ∧ after.Uncancelled) ∨
      ∃ report, (e.turn g settings o.surroundings).follow o = .inr report ∧ c.Finished ∧
        report.outcome = .completed := by
  have hturn := h.after_turn hmax ho.now
  have hleft := (cancelled_turn g settings e o.surroundings).trans ho.now
  cases hg : e.glimpse? g settings o.surroundings with
  | none =>
    rw [hg] at hturn
    rcases Move.Leads.follow hturn o with ⟨next, after, hf, hn, hlt⟩ | ⟨report, hf, hfin⟩
    · exact .inl ⟨next, after, hf, hn, hlt, ho.follow hleft hf⟩
    · exact .inr ⟨report, hf, hfin⟩
  | some glimpse =>
    rw [hg] at hturn
    obtain ⟨c', hstep, hleads⟩ := hturn
    rcases hleads.follow o with ⟨next, after, hf, hn⟩ | ⟨report, hf, hno⟩
    · exact ⟨c', next, after, hstep, hf, hn, ho.follow hleft hf⟩
    · exact hno.elim

/-- The marks of an execution are those of the interpreter, which has come to the end when the
execution ends. -/
theorem Follows.trace {c : Control} {o : Outside} (h : Follows g e c) (hmax : settings.maxSteps = 0)
    (ho : o.Uncancelled) (turns : Nat) :
    let seen := marks (glimpse? g settings) (turn g settings) turns e o
    seen.map Prod.fst = (c.trace (seen.map Prod.snd)).1 ∧
      ∀ events ending, run (turn g settings) turns e o events = some ending →
        (c.trace (seen.map Prod.snd)).2.Finished ∧ ending.result.outcome = .completed := by
  induction turns generalizing e o c with
  | zero => exact ⟨rfl, fun _ _ hr => by cases hr⟩
  | succ turns ih =>
    have hstep := h.step hmax ho
    simp only [marks_succ, run_succ]
    cases hg : e.glimpse? g settings o.surroundings with
    | none =>
      rw [hg] at hstep
      rcases hstep with ⟨next, after, hf, hn, -, hafter⟩ | ⟨report, hf, hfin, hout⟩
      · rw [hf]
        exact ⟨(ih hn hafter).1, fun events ending => (ih hn hafter).2 _ ending⟩
      · rw [hf]
        refine ⟨rfl, fun events ending hr => ?_⟩
        cases hr
        exact ⟨hfin, hout⟩
    | some glimpse =>
      rw [hg] at hstep
      obtain ⟨c', next, after, hs, hf, hn, hafter⟩ := hstep
      simp only [hf, Option.toList_some, List.singleton_append, List.map_cons, Control.trace, hs]
      exact ⟨congrArg _ (ih hn hafter).1, fun events ending => (ih hn hafter).2 _ ending⟩

/-- An execution shows any number of marks in time, unless it ends before. -/
theorem Follows.progress {c : Control} {o : Outside} (h : Follows g e c)
    (hmax : settings.maxSteps = 0) (ho : o.Uncancelled) (count : Nat) (events : Array Event) :
    ∃ turns, (run (turn g settings) turns e o events).isSome ∨
      count ≤ (marks (glimpse? g settings) (turn g settings) turns e o).length := by
  induction count generalizing e o c events with
  | zero => exact ⟨0, .inr (Nat.zero_le _)⟩
  | succ count ih =>
    -- until the next mark, the drive under way comes nearer to its end
    induction hrank : e.untilRelease using Nat.strongRecOn generalizing e o events with
    | ind rank inner =>
      have hstep := h.step hmax ho
      cases hg : e.glimpse? g settings o.surroundings with
      | none =>
        rw [hg] at hstep
        rcases hstep with ⟨next, after, hf, hn, hlt, hafter⟩ | ⟨report, hf, -, -⟩
        · obtain ⟨turns, hturns⟩ :=
            inner _ (hrank ▸ hlt) hn hafter
              (events ++ (e.turn g settings o.surroundings).events) rfl
          exact ⟨turns + 1, by simpa [run_succ, marks_succ, hf, hg] using hturns⟩
        · exact ⟨1, .inl (by simp [run_succ, hf])⟩
      | some glimpse =>
        rw [hg] at hstep
        obtain ⟨c', next, after, -, hf, hn, hafter⟩ := hstep
        obtain ⟨turns, hturns⟩ := ih hn hafter (events ++ (e.turn g settings o.surroundings).events)
        exact ⟨turns + 1, by simpa [run_succ, marks_succ, hf, hg] using hturns⟩

theorem Follows.ends {c : Control} {o : Outside} (h : Follows g e c) (hmax : settings.maxSteps = 0)
    (ho : o.Uncancelled) (turns : Nat) (events : Array Event)
    (hfin : (c.trace
      ((marks (glimpse? g settings) (turn g settings) turns e o).map Prod.snd)).2.Finished) :
    ∃ more, (run (turn g settings) more e o events).isSome := by
  induction turns generalizing e o c events with
  | zero =>
    obtain ⟨more, hmore | hmarks⟩ := h.progress hmax ho 1 events
    · exact ⟨more, hmore⟩
    · -- a mark would be one that the interpreter leaves after the end
      have htrace := (h.trace hmax ho more).1
      cases hm : marks (glimpse? g settings) (turn g settings) more e o with
      | nil => simp [hm] at hmarks
      | cons glimpse rest =>
        have hnone : c.step glimpse.2 = none := hfin glimpse.2
        simp [hm, Control.trace, hnone] at htrace
  | succ turns ih =>
    have hstep := h.step hmax ho
    cases hg : e.glimpse? g settings o.surroundings with
    | none =>
      rw [hg] at hstep
      rcases hstep with ⟨next, after, hf, hn, -, hafter⟩ | ⟨report, hf, -, -⟩
      · obtain ⟨more, hmore⟩ := ih hn hafter (events ++ (e.turn g settings o.surroundings).events)
          (by simpa [marks_succ, hf, hg] using hfin)
        exact ⟨more + 1, by simpa [run_succ, hf] using hmore⟩
      · exact ⟨1, by simp [run_succ, hf]⟩
    | some glimpse =>
      rw [hg] at hstep
      obtain ⟨c', next, after, hs, hf, hn, hafter⟩ := hstep
      obtain ⟨more, hmore⟩ := ih hn hafter (events ++ (e.turn g settings o.surroundings).events)
        (by simpa [marks_succ, hf, hg, Control.trace, hs] using hfin)
      exact ⟨more + 1, by simpa [run_succ, hf] using hmore⟩

end Execution

/-- The visits among what an execution shows are the nodes that it visits. -/
theorem Graph.visits_of_glimpses (turns : Nat) (settings : Settings) (g : Graph) (o : Outside) :
    (g.visits turns settings o).map g.payload? =
      (((g.glimpses turns settings o).map Prod.fst).filterMap Mark.visited?).map some := by
  have hturn (e : Execution) (s : Surroundings) :
      ((e.visiting? g settings s).map g.payload?) =
        (((e.glimpse? g settings s).map Prod.fst).bind Mark.visited?).map some := by
    cases hstage : e.stage with
    | driving d repeats => simp [Execution.visiting?, Execution.glimpse?, Execution.mark?, hstage]
    | sensing id asleep =>
      cases hp : g.payload? id with
      | none => simp [Execution.visiting?, Execution.glimpse?, Execution.mark?, hstage, hp]
      | some p =>
        simp only [Execution.visiting?, Execution.glimpse?, Execution.mark?, hstage, hp,
          Option.bind_some]
        split
        next => rfl
        next => split <;> rfl
    | arriving next =>
      cases hv : e.visiting? g settings s with
      | none => simp [Execution.glimpse?, Execution.mark?, hstage, hv]
      | some id =>
        have hlt : id < g.size := by
          unfold Execution.visiting? at hv
          split at hv
          · split at hv
            next h => exact Option.some.inj hv ▸ h.1
            next => cases hv
          · cases hv
        obtain ⟨node, hn⟩ := exists_node hlt
        simp [Execution.glimpse?, Execution.mark?, hstage, hv, payload?, hn, Mark.visited?]
  unfold visits glimpses
  cases Execution.start g with
  | error failure => rfl
  | ok r =>
    simp only [marks, List.map_filterMap, List.filterMap_filterMap]
    congr 1
    funext x
    simpa [Option.map_bind] using hturn x.1 x.2

/-- The executions of a graph are runs of a program. -/
structure Graph.Realizes (g : Graph) (p : Program) (settings : Settings) (o : Outside) : Prop where
  /-- However far an execution is, it has shown the marks that the interpreter leaves among the
  landmarks that were seen. -/
  marks_eq : ∀ turns, (g.glimpses turns settings o).map Prod.fst =
    (p.start.trace ((g.glimpses turns settings o).map Prod.snd)).1
  /-- It has visited the nodes that the interpreter visits. -/
  visits_eq : ∀ turns, (g.visits turns settings o).map g.payload? = List.map some
    ((p.start.trace ((g.glimpses turns settings o).map Prod.snd)).1.filterMap Mark.visited?)
  /-- An execution that ends has come to the end of the program; only a program without statements
  is refused. -/
  ended : ∀ turns ending, g.execute turns settings o = some ending →
    (p.start.trace ((g.glimpses turns settings o).map Prod.snd)).2.Finished ∧
      ((p = .done ∧ ending.result = .error .emptyGraph) ∨
        (p ≠ .done ∧ ∃ report, ending.result = .ok report ∧ report.outcome = .completed))
  /-- An execution that has come to the end of the program ends. -/
  ends : ∀ turns, (p.start.trace ((g.glimpses turns settings o).map Prod.snd)).2.Finished →
    ∃ more, (g.execute more settings o).isSome
  /-- An execution that does not end shows any number of marks in time. -/
  progress : ∀ count, ∃ turns, (g.execute turns settings o).isSome ∨
    count ≤ (g.glimpses turns settings o).length

theorem Program.advance_start {p : Program} : advance [.run p] = none ↔ p = .done := by
  cases p with
  | done => simp [advance]
  | leaf l rest => simp [advance]
  | block kind body rest => cases kind <;> simp [advance]

namespace Graph

variable {g : Graph} {p : Program} {settings : Settings} {o : Outside} {entry : NodeId}

theorem glimpses_of_empty (h : g.first? = none) (turns : Nat) (settings : Settings) (o : Outside) :
    g.glimpses turns settings o = [] := by simp only [glimpses, Execution.start, h]

theorem glimpses_of_first (h : g.first? = some entry) (turns : Nat) (settings : Settings)
    (o : Outside) :
    g.glimpses turns settings o =
      marks (Execution.glimpse? g settings) (Execution.turn g settings) turns
        { stage := .arriving (some entry) } o := by
  simp only [glimpses, Execution.start, h]

theorem Awaits.eq_done_iff {pt : Point} (h : g.Awaits pt [.run p]) :
    p = .done ↔ g.at? pt = none := by
  have hadv := h.advance
  rw [← Program.advance_start]
  cases ht : Program.advance [.run p] with
  | none =>
    rw [ht] at hadv
    exact ⟨fun _ => hadv, fun _ => rfl⟩
  | some r =>
    rw [ht] at hadv
    obtain ⟨-, id, hat, -⟩ := hadv
    simp [hat]

theorem realizes_nothing (hfirst : g.first? = none) : g.Realizes .done settings o := by
  have hfin : Control.Finished (Program.start .done) := fun landmarks => by
    simp [Program.start, Control.step, Program.advance]
  have htrace (turns : Nat) :
      (Program.start .done).trace ((g.glimpses turns settings o).map Prod.snd) =
        ([], Program.start .done) := by
    rw [glimpses_of_empty hfirst]
    rfl
  have hmarks (turns : Nat) : (g.glimpses turns settings o).map Prod.fst =
      ((Program.start .done).trace ((g.glimpses turns settings o).map Prod.snd)).1 := by
    rw [htrace, glimpses_of_empty hfirst]
    rfl
  constructor
  case marks_eq => exact hmarks
  case visits_eq =>
    exact fun turns => (g.visits_of_glimpses turns settings o).trans (by rw [hmarks turns])
  case ended =>
    intro turns ending he
    rw [execute_of_empty hfirst] at he
    cases he
    rw [htrace]
    exact ⟨hfin, .inl ⟨rfl, rfl⟩⟩
  case ends => exact fun _ _ => ⟨0, by simp [execute_of_empty hfirst]⟩
  case progress => exact fun _ => ⟨0, .inl (by simp [execute_of_empty hfirst])⟩

theorem realizes_of_follows (hfirst : g.first? = some entry) (hp : p ≠ .done)
    (h : Execution.Follows g { stage := .arriving (some entry) } p.start)
    (hmax : settings.maxSteps = 0) (ho : o.Uncancelled) : g.Realizes p settings o := by
  have hglimpses (turns : Nat) := glimpses_of_first hfirst turns settings o
  have hmarks (turns : Nat) : (g.glimpses turns settings o).map Prod.fst =
      (p.start.trace ((g.glimpses turns settings o).map Prod.snd)).1 :=
        hglimpses turns ▸ (h.trace hmax ho turns).1
  constructor
  case marks_eq => exact hmarks
  case visits_eq =>
    exact fun turns => (g.visits_of_glimpses turns settings o).trans (by rw [hmarks turns])
  case ended =>
    intro turns ending he
    rw [execute_of_first hfirst] at he
    obtain ⟨inner, hrun, rfl⟩ := Option.map_eq_some_iff.mp he
    obtain ⟨hfin, hout⟩ := (h.trace hmax ho turns).2 _ inner hrun
    exact ⟨hglimpses turns ▸ hfin, .inr ⟨hp, inner.result, rfl, hout⟩⟩
  case ends =>
    intro turns hfin
    obtain ⟨more, hmore⟩ := h.ends hmax ho turns #[.executionStarted entry] (hglimpses turns ▸ hfin)
    exact ⟨more, by simpa [execute_of_first hfirst] using hmore⟩
  case progress =>
    intro count
    obtain ⟨turns, hturns⟩ := h.progress hmax ho count #[.executionStarted entry]
    exact ⟨turns, by simpa [execute_of_first hfirst, hglimpses] using hturns⟩

/-- A graph in which a program lies from the root to the end has the executions of the program. -/
theorem realizes_of_lays {last : Point} (hlays : g.Lays p (root, 0) last) (hend : g.at? last = none)
    (hmax : settings.maxSteps = 0) (ho : o.Uncancelled) : g.Realizes p settings o := by
  have hawaits : g.Awaits (root, 0) [.run p] := .run hlays (.nothing hend)
  have hdone := hawaits.eq_done_iff
  cases hfirst : g.first? with
  | none =>
    obtain rfl := hdone.mpr hfirst
    exact realizes_nothing hfirst
  | some entry =>
    have hp : p ≠ .done := fun he => by cases (hdone.mp he).symm.trans hfirst
    exact realizes_of_follows hfirst hp (.arriving (hfirst ▸ rfl) hawaits) hmax ho

end Graph

/-- Every program can be recorded, and the executions of what was recorded are the runs of the
program, as long as nothing cancels and the steps are not bounded. -/
theorem Program.record_realizes (p : Program) {settings : Settings} (hmax : settings.maxSteps = 0)
    {o : Outside} (ho : o.Uncancelled) :
    ∃ b, p.record {} = .ok b ∧ b.pending = [] ∧ b.graph.Realizes p settings o := by
  obtain ⟨b, hrecord, hr⟩ := Builder.recorded p {} Builder.wellFormed_empty
  refine ⟨b, hrecord, hr.pending, Graph.realizes_of_lays hr.lays ?_ hmax ho⟩
  simp [Graph.at?, Graph.child?, Builder.point]

/-- A loop that speaks, around which a face comes into sight after the first rest. -/
theorem Program.record_realizes_loop :
    let hello : Leaf := ⟨.ofSpeech "hello", .inr (.inr rfl)⟩
    let o : Outside :=
      { schedule := .atRests [(1, { landmarks := some { face := true } })], surroundings := {} }
    ∃ b, (Program.block .whileLoop (.leaf hello .done) .done).record {} = .ok b ∧ b.pending = [] ∧
      b.graph.Realizes (.block .whileLoop (.leaf hello .done) .done) {} o :=
  Program.record_realizes _ rfl ⟨rfl, by simp [Schedule.signals]⟩

end MotionScript
