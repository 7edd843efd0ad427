import MotionScript.Proofs.BranchLoops
import MotionScript.Proofs.RunPrefixes

/-!
# Loops that come to an end

A loop goes on as long as a face is seen, and a repeated motion as long as no landmark is near. When
no face is seen any more, every header is left by its second branch, and this leads out of all loops
of a recording, also where recordings were put together. So with a landmark near the rest of the
walk is one pass over the nodes that follow.
-/
namespace MotionScript

namespace Builder

/-- The builders that are filled piece by piece: with nodes, with blocks, and with what was recorded
in such builders. -/
inductive Composed : Builder → Prop
  | empty : Composed {}
  | append {b : Builder} (payload : Payload) : Composed b → Composed (b.append payload)
  | openBlock {b b' : Builder} (kind : NodeKind) {header : NodeId} :
      Composed b → b.openBlock kind = .ok (header, b') → Composed b'
  | closeBlock {b b' : Builder} {kind : NodeKind} :
      Composed b → b.closeBlock = .ok (kind, b') → Composed b'
  | graft {b b' source : Builder} {plan : Plan} {entry : NodeId} :
      Composed b → Composed source → source.snapshot = .ok plan →
        b.graft plan = .ok (entry, b') → Composed b'
  | clear {b : Builder} : Composed b → Composed b.clear

/-- A state that edits lead to from the empty builder, where all plans that are grafted are of one
sort. -/
def Edited (sort : Plan → Prop) (b : Builder) : Prop :=
  ∃ edits, b = applyAll {} edits ∧ ∀ plan, Edit.graft plan ∈ edits → sort plan

theorem Edited.apply {sort : Plan → Prop} {b : Builder} (h : b.Edited sort) (edit : Edit)
    (hplan : ∀ plan, edit = .graft plan → sort plan) : (b.apply edit).Edited sort := by
  obtain ⟨edits, rfl, hplans⟩ := h
  refine ⟨edits ++ [edit], by simp [applyAll], fun plan hm => ?_⟩
  rcases List.mem_append.mp hm with hm | hm
  · exact hplans plan hm
  · exact hplan plan (List.mem_singleton.mp hm).symm

section

variable {taken : Payload → Nat → Prop} {b : Builder}
  (hloop : ∀ p : Payload, p.kind = .whileLoop ∨ p.kind = .doWhileLoop → ¬ taken p 0)
include hloop

theorem Edited.loopFree_snapshot (h : b.Edited (·.LoopFree taken)) {plan : Plan}
    (hplan : b.snapshot = .ok plan) :
    plan.LoopFree taken := by
  obtain ⟨edits, rfl, hplans⟩ := h
  cases hf : (applyAll {} edits).graph.first? with
  | none => simp [snapshot, hf] at hplan
  | some first =>
    simp only [snapshot, hf] at hplan
    cases hplan
    exact (wellFormed_after_edits edits).loopFree_capture (loopFree_after_edits hloop hplans) hf

theorem Composed.edited (hb : b.Composed) : b.Edited (·.LoopFree taken) := by
  induction hb with
  | empty => exact ⟨[], rfl, by simp⟩
  | append payload _ ih => exact ih.apply (.append payload) (by simp)
  | openBlock kind _ ho ih => simpa [apply, settle, ho] using ih.apply (.openBlock kind) (by simp)
  | closeBlock _ hc ih => simpa [apply, settle, hc] using ih.apply .closeBlock (by simp)
  | clear _ ih => exact ih.apply .clear (by simp)
  | @graft _ _ _ plan _ _ _ hplan hg ih ihsource =>
    have hedited := ih.apply (.graft plan) fun _ he => by
      cases he
      exact ihsource.loopFree_snapshot hloop hplan
    simpa [apply, settle, hg] using hedited

/-- If the headers of loops are not left by the first branch, then what is put together from
recordings has no loop. -/
theorem Composed.loopFree (hb : b.Composed) : b.graph.LoopFree taken := by
  obtain ⟨edits, rfl, hplans⟩ := hb.edited hloop
  exact loopFree_after_edits hloop hplans

end

end Builder

/-- Without a face in sight a header is left by its second branch, and everything else by its
first. -/
def Payload.ExitsBy (p : Payload) (branch : Nat) : Prop := branch = p.kind.branch false

structure Surroundings.Clear (s : Surroundings) : Prop where
  uncancelled : s.cancelled = false
  face : s.controller.landmarks.face = false
  near : s.controller.landmarks.near = true

namespace Execution

variable {g : Graph} {settings : Settings} {e next : Execution} {o after : Outside} {id : NodeId}

def ClearFrom (g : Graph) (settings : Settings) (e : Execution) (o : Outside) : Prop :=
  ∀ turns later now, stateAfter (turn g settings) turns e o = some (later, now) →
    now.surroundings.Clear

/-- An execution comes from one moment to another and visits some nodes on the way. -/
def Comes (g : Graph) (settings : Settings) (e : Execution) (o : Outside) (visited : List NodeId)
    (next : Execution) (after : Outside) : Prop :=
  ∃ turns, stateAfter (turn g settings) turns e o = some (next, after) ∧
    marks (visiting? g settings) (turn g settings) turns e o = visited

theorem ClearFrom.now (h : e.ClearFrom g settings o) : o.surroundings.Clear := h 0 e o rfl

theorem ClearFrom.of_comes {visited : List NodeId} (h : e.ClearFrom g settings o)
    (hc : e.Comes g settings o visited next after) : next.ClearFrom g settings after := by
  obtain ⟨turns, hturns, -⟩ := hc
  intro more later now hmore
  exact h (turns + more) later now ((stateAfter_add hturns more).trans hmore)

theorem Comes.trans {visited later : List NodeId} {last : Execution} {final : Outside}
    (h : e.Comes g settings o visited next after)
    (h' : next.Comes g settings after later last final) :
    e.Comes g settings o (visited ++ later) last final := by
  obtain ⟨turns, hturns, rfl⟩ := h
  obtain ⟨more, hmore, rfl⟩ := h'
  exact ⟨turns + more, (stateAfter_add hturns more).trans hmore, marks_add _ hturns more⟩

/-- Where a turn leads in any case, the execution comes. -/
theorem comes_of_leads (g : Graph) (settings : Settings) (e : Execution) (o : Outside)
    (reached : Execution → Prop)
    (h : (e.turn g settings o.surroundings).move.Leads
      (e.turn g settings o.surroundings).surroundings (fun next _ => reached next) fun _ => False) :
    ∃ next after, e.Comes g settings o (e.visiting? g settings o.surroundings).toList next after ∧
      reached next := by
  rcases h.follow o with ⟨next, after, hf, hreached⟩ | ⟨_, -, hno⟩
  · refine ⟨next, after, ⟨1, stateAfter_succ hf 0, ?_⟩, hreached⟩
    rw [marks_succ, hf]
    exact List.append_nil _
  · exact hno.elim

theorem visiting?_of_not_arriving (h : ∀ target, e.stage ≠ .arriving target) (s : Surroundings) :
    e.visiting? g settings s = none := by
  unfold visiting?
  split
  next hstage => exact absurd hstage (h _)
  next => rfl

/-! ## From node to node -/

theorem comes_of_sensing {asleep : Bool} (hstage : e.stage = .sensing id asleep)
    (hclear : e.ClearFrom g settings o) :
    ∃ next after, e.Comes g settings o [] next after ∧ next.stage = .arriving (g.child? id 0) := by
  obtain ⟨huncancelled, -, hnear⟩ := hclear.now
  have hturn : e.turn g settings o.surroundings =
      { surroundings := o.surroundings, move := e.leave g id 0 } := by
    simp [turn, hstage, huncancelled, hnear]
  have hcomes := comes_of_leads g settings e o
    (fun next => next.stage = .arriving (g.child? id 0))
      (by rw [hturn]; exact leads_leave fun _ => rfl)
  rwa [visiting?_of_not_arriving (by simp [hstage])] at hcomes

theorem leads_afterMotion_onward (g : Graph) (settings : Settings) (e : Execution) (repeats : Bool)
    (written : Nat) (s : Surroundings) :
    (e.afterMotion g settings id repeats written).Leads s (fun next _ =>
      next.stage = .arriving (g.child? id 0) ∨ ∃ asleep, next.stage = .sensing id asleep)
      fun _ => False := by
  cases repeats with
  | true => exact fun _ => .inr ⟨_, rfl⟩
  | false => exact leads_leave fun _ => .inl rfl

/-- A drive that nobody cancels comes to an end. -/
theorem comes_of_driving {d : Drive} {repeats : Bool} (hstage : e.stage = .driving d repeats)
    (hclear : e.ClearFrom g settings o) :
    ∃ next after, e.Comes g settings o [] next after ∧
      next.stage = .arriving (g.child? d.node 0) := by
  have huncancelled := hclear.now.uncancelled
  have hmarks : e.visiting? g settings o.surroundings = none :=
    visiting?_of_not_arriving (by simp [hstage]) _
  generalize hleft : d.left = left
  induction left generalizing e o d with
  | zero =>
    obtain ⟨next, after, hcomes, hnext | ⟨asleep, hnext⟩⟩ := comes_of_leads g settings e o
      (fun next => next.stage = .arriving (g.child? d.node 0) ∨
        ∃ asleep, next.stage = .sensing d.node asleep)
      (by simpa [turn, hstage, Drive.turn, huncancelled, hleft] using
        leads_afterMotion_onward g settings e repeats _ _)
    · exact ⟨next, after, by simpa [hmarks] using hcomes, hnext⟩
    · obtain ⟨last, final, hlast, hstage'⟩ := comes_of_sensing hnext (hclear.of_comes hcomes)
      exact ⟨last, final, by simpa [hmarks] using hcomes.trans hlast, hstage'⟩
  | succ left ih =>
    obtain ⟨next, after, hcomes, d', hnext, hnode, hleft'⟩ := comes_of_leads g settings e o
      (fun next => ∃ d', next.stage = .driving d' repeats ∧ d'.node = d.node ∧ d'.left = left)
      (by simp [turn, hstage, Drive.turn, huncancelled, hleft])
    have hclear' := hclear.of_comes hcomes
    obtain ⟨last, final, hlast, hstage'⟩ := ih hnext hclear' hclear'.now.uncancelled
      (visiting?_of_not_arriving (by simp [hnext]) _) hleft'
    exact ⟨last, final, by simpa [hmarks] using hcomes.trans hlast, hnode ▸ hstage'⟩

/-- What an execution does at a node before it arrives at the next one. -/
def BusyAt (g : Graph) (id : NodeId) (e : Execution) : Prop :=
  match e.stage with
  | .arriving target => target = g.child? id 0
  | .driving d _ => d.node = id
  | .sensing node _ => node = id

theorem comes_of_busyAt (h : e.BusyAt g id) (hclear : e.ClearFrom g settings o) :
    ∃ next after, e.Comes g settings o [] next after ∧ next.stage = .arriving (g.child? id 0) := by
  unfold BusyAt at h
  cases hstage : e.stage with
  | arriving target =>
    simp only [hstage] at h
    exact ⟨e, o, ⟨0, rfl, rfl⟩, h ▸ hstage⟩
  | driving d repeats =>
    simp only [hstage] at h
    exact h ▸ comes_of_driving hstage hclear
  | sensing node asleep =>
    simp only [hstage] at h
    exact h ▸ comes_of_sensing hstage hclear

theorem leads_leave_busyAt (g : Graph) (e : Execution) (id : NodeId) (s : Surroundings) :
    (e.leave g id 0).Leads s (fun next _ => next.BusyAt g id) fun _ => False :=
      leads_leave fun _ => rfl

theorem leads_actuate_busyAt (g : Graph) (settings : Settings) (e : Execution) (id : NodeId)
    (p : Payload) (s : Surroundings) :
    (e.actuate g settings id p false s).move.Leads (e.actuate g settings id p false s).surroundings
      (fun next _ => next.BusyAt g id) fun _ => False := by
  unfold actuate
  split
  · exact leads_leave_busyAt ..
  · split
    · exact leads_leave_busyAt ..
    · rfl

theorem turn_eq_visit {p : Payload} {s : Surroundings} (hstage : e.stage = .arriving (some id))
    (hp : g.payload? id = some p) (hmax : settings.maxSteps = 0)
    (huncancelled : s.cancelled = false) :
    e.visiting? g settings s = some id ∧ e.turn g settings s = e.visit g settings id p s := by
  constructor
  · simp [visiting?, hstage, huncancelled, hmax, Graph.lt_size_of_payload? hp]
  · obtain ⟨node, hn, rfl⟩ := Option.map_eq_some_iff.mp hp
    simp [turn, hstage, hn, huncancelled, hmax]

/-- A header is left by its first branch if a face is seen and by its second if not. -/
theorem comes_of_header {p : Payload} (hstage : e.stage = .arriving (some id))
    (hp : g.payload? id = some p) (hkind : p.kind.branch false = 1) (hmax : settings.maxSteps = 0)
    (huncancelled : o.surroundings.cancelled = false) :
    ∃ next after, e.Comes g settings o [id] next after ∧
      next.stage = .arriving
        (g.child? id (p.kind.branch o.surroundings.controller.landmarks.face)) := by
  obtain ⟨hvisits, hturn⟩ := turn_eq_visit hstage hp hmax huncancelled
  have hmove : (e.visit g settings id p o.surroundings).move =
      { e with steps := e.steps + 1, before := e.frames }.leave g id
        (p.kind.branch o.surroundings.controller.landmarks.face) := by
    unfold visit
    cases hheader : p.kind with
    | whileLoop | doWhileLoop | conditional => rfl
    | root | once | untilNear | speech => rw [hheader] at hkind; cases hkind
  have hcomes := comes_of_leads g settings e o
    (fun next => next.stage =
      .arriving (g.child? id (p.kind.branch o.surroundings.controller.landmarks.face)))
    (by rw [hturn, hmove]; exact leads_leave fun _ => rfl)
  rwa [hvisits] at hcomes

/-- A node is left by the branch that leads out of loops. -/
theorem comes_of_visit {p : Payload} (hstage : e.stage = .arriving (some id))
    (hp : g.payload? id = some p) (hmax : settings.maxSteps = 0)
    (hclear : e.ClearFrom g settings o) :
    ∃ next after, e.Comes g settings o [id] next after ∧
      next.stage = .arriving (g.child? id (p.kind.branch false)) := by
  obtain ⟨huncancelled, hface, -⟩ := hclear.now
  obtain ⟨hvisits, hturn⟩ := turn_eq_visit hstage hp hmax huncancelled
  have hbusy (hkind : p.kind.branch false = 0)
      (hleads : (e.visit g settings id p o.surroundings).move.Leads
        (e.visit g settings id p o.surroundings).surroundings
        (fun next _ => next.BusyAt g id) fun _ => False) :
      ∃ next after, e.Comes g settings o [id] next after ∧
        next.stage = .arriving (g.child? id (p.kind.branch false)) := by
    obtain ⟨next, after, hcomes, hnext⟩ := comes_of_leads g settings e o
      (fun next => next.BusyAt g id) (hturn ▸ hleads)
    rw [hvisits] at hcomes
    obtain ⟨last, final, hlast, hstage'⟩ := comes_of_busyAt hnext (hclear.of_comes hcomes)
    exact ⟨last, final, hcomes.trans hlast, hkind ▸ hstage'⟩
  have hheader (hkind : p.kind.branch false = 1) :=
    hface ▸ comes_of_header hstage hp hkind hmax huncancelled
  unfold visit at hbusy
  cases hkind : p.kind with
  | root => simp only [hkind] at hbusy; exact hbusy rfl (leads_leave_busyAt ..)
  | once => simp only [hkind] at hbusy; exact hbusy rfl (leads_actuate_busyAt ..)
  | untilNear => simp only [hkind] at hbusy; exact hbusy rfl rfl
  | whileLoop | doWhileLoop | conditional => rw [hkind] at hheader; exact hheader rfl
  | speech => simp only [hkind] at hbusy; exact hbusy rfl (leads_leave_busyAt ..)

/-! ## To the end -/

/-- An execution comes to a turn that completes it, and on the way it visits nodes that lead from
one to the next out of all loops. -/
def Completes (g : Graph) (settings : Settings) (e : Execution) (o : Outside)
    (visited : List NodeId) : Prop :=
  ∃ last final, e.Comes g settings o visited last final ∧
    last.visiting? g settings final.surroundings = none ∧
    last.turn g settings final.surroundings = last.finish .completed final.surroundings

theorem completes_of_missing (g : Graph) (settings : Settings) {target : Option NodeId}
    (hstage : e.stage = .arriving target) (h : ∀ id ∈ target, g.size ≤ id) (o : Outside) :
    e.Completes g settings o [] := by
  refine ⟨e, o, ⟨0, rfl, rfl⟩, ?_⟩
  cases target with
  | none => exact ⟨by simp [visiting?, hstage], by simp [turn, hstage]⟩
  | some id =>
    have hsize := h id rfl
    exact ⟨by simp [visiting?, hstage, Nat.not_lt_of_le hsize], by
      simp [turn, hstage, g.node?_eq_none hsize]⟩

/-- Where the way out of loops does not come back, it ends. -/
theorem completes_of_arriving (hfree : g.LoopFree Payload.ExitsBy) (hmax : settings.maxSteps = 0)
    {target : Option NodeId} (hstage : e.stage = .arriving target)
    (hclear : e.ClearFrom g settings o) :
    ∃ visited, e.Completes g settings o visited ∧ visited.IsChain (g.Leads Payload.ExitsBy) ∧
      visited.head? ∈ [none, target] := by
  cases target with
  | none => exact ⟨[], completes_of_missing g settings hstage (by simp) o, .nil, by simp⟩
  | some id =>
    -- the walk goes down a well-founded relation
    induction id using hfree.wellFounded.induction generalizing e o with
    | _ id ih =>
      cases hpayload : g.payload? id with
      | none =>
        refine ⟨[], completes_of_missing g settings hstage (fun _ hid => ?_) o, .nil, by simp⟩
        cases hid
        refine Nat.le_of_not_lt fun hlt => ?_
        obtain ⟨node, hn⟩ := Graph.exists_node hlt
        simp [Graph.payload?, hn] at hpayload
      | some p =>
        obtain ⟨next, after, hcomes, hnext⟩ := comes_of_visit hstage hpayload hmax hclear
        have hclear' := hclear.of_comes hcomes
        cases hchild : g.child? id (p.kind.branch false) with
        | none =>
          obtain ⟨last, final, hlast, hends⟩ :=
            completes_of_missing g settings (hchild ▸ hnext) (by simp) after
          exact ⟨[id], ⟨last, final, hcomes.trans hlast, hends⟩, .singleton _, by simp⟩
        | some child =>
          have hleads : g.Leads Payload.ExitsBy id child := ⟨p, _, hpayload, rfl, hchild⟩
          obtain ⟨visited, ⟨last, final, hlast, hends⟩, hchain, hhead⟩ :=
            ih child hleads hclear' (hchild ▸ hnext)
          refine ⟨id :: visited, ⟨last, final, hcomes.trans hlast, hends⟩,
            hchain.cons fun first hfirst => ?_, by simp⟩
          rw [Option.mem_def] at hfirst
          obtain rfl : first = child := by simpa [hfirst] using hhead
          exact hleads

/-- Wherever an execution is, it completes after a walk that meets no node twice. -/
theorem completes_of_clear (hfree : g.LoopFree Payload.ExitsBy) (hmax : settings.maxSteps = 0)
    (hclear : e.ClearFrom g settings o) :
    ∃ visited, e.Completes g settings o visited ∧ visited.Nodup := by
  have hall {e : Execution} {o : Outside} {target : Option NodeId}
      (hstage : e.stage = .arriving target)
      (hclear : e.ClearFrom g settings o) : ∃ visited, e.Completes g settings o visited ∧
          visited.Nodup := by
    obtain ⟨visited, hends, hchain, -⟩ := completes_of_arriving hfree hmax hstage hclear
    exact ⟨visited, hends, nodup_of_isChain hchain fun id _ => hfree id⟩
  have hbusy (id : NodeId) (hbusy : e.BusyAt g id) : ∃ visited, e.Completes g settings o visited ∧
      visited.Nodup := by
    obtain ⟨next, after, hcomes, hnext⟩ := comes_of_busyAt hbusy hclear
    obtain ⟨visited, ⟨last, final, hlast, hends⟩, hnodup⟩ := hall hnext (hclear.of_comes hcomes)
    exact ⟨visited, ⟨last, final, hcomes.trans hlast, hends⟩, hnodup⟩
  cases hstage : e.stage with
  | arriving target => exact hall hstage hclear
  | driving d repeats => exact hbusy d.node (by simp [BusyAt, hstage])
  | sensing node asleep => exact hbusy node (by simp [BusyAt, hstage])

end Execution

/-- If, from some moment of an execution on, nobody cancels, no face is seen and a landmark is near,
then the execution is completed, and it visits no node twice after that moment. -/
theorem Builder.Composed.loops_end {b : Builder} (hb : b.Composed) {settings : Settings}
    (hmax : settings.maxSteps = 0) {o now : Outside} {turns : Nat} {e : Execution}
    (hnow : b.graph.momentAfter turns settings o = some (e, now))
    (hclear : ∀ more later then',
      b.graph.momentAfter (turns + more) settings o = some (later, then') →
      then'.surroundings.Clear) :
    ∃ more ending report visited, b.graph.execute (turns + more) settings o = some ending ∧
      ending.result = .ok report ∧
      report.outcome = .completed ∧
      b.graph.visits (turns + more) settings o = b.graph.visits turns settings o ++ visited ∧
      visited.Nodup := by
  have hfree : b.graph.LoopFree Payload.ExitsBy := by
    refine hb.loopFree fun p hkind hexits => ?_
    rcases hkind with hkind | hkind <;> · rw [Payload.ExitsBy, hkind] at hexits; cases hexits
  cases hfirst : b.graph.first? with
  | none => simp [Graph.momentAfter, Execution.start, hfirst] at hnow
  | some first =>
    simp only [Graph.momentAfter_of_first hfirst] at hnow hclear
    have hclear' : e.ClearFrom b.graph settings now := fun more later now' hmore =>
      hclear more later now' ((stateAfter_add hnow more).trans hmore)
    obtain ⟨visited, ⟨last, final, ⟨more, hlast, hvisited⟩, hvisits, hends⟩, hnodup⟩ :=
      Execution.completes_of_clear hfree hmax hclear'
    have hmoment : b.graph.momentAfter (turns + more) settings o = some (last, final) :=
      (Graph.momentAfter_of_first hfirst _ _ _).trans ((stateAfter_add hnow more).trans hlast)
    refine ⟨more + 1, _, _, visited, Graph.execute_of_finish hmoment hends, rfl, rfl, ?_, hnodup⟩
    rw [Graph.visits_of_first hfirst, Graph.visits_of_first hfirst, marks_add _ hnow,
      marks_add _ hlast, hvisited, marks_succ, hvisits, hends]
    simp [Execution.finish, Turn.follow]

/-- A recorded loop speaks as long as a face is seen: here until the third rest, when the face goes
and a landmark comes near. From there it speaks once more and visits its header a last time. -/
theorem Builder.Composed.loops_end_speaking :
    let b := applyAll {} [.openBlock .whileLoop, .append (.ofSpeech "come closer"), .closeBlock]
    let o : Outside := {
      schedule := .atRests [(3, { landmarks := some { near := true } })]
      surroundings := { controller := { landmarks := { face := true } } } }
    b.Composed ∧ (b.graph.momentAfter 3 {} o).isSome ∧
      ∃ more ending report visited, b.graph.execute (3 + more) {} o = some ending ∧
        ending.result = .ok report ∧
        report.outcome = .completed ∧
        b.graph.visits (3 + more) {} o = b.graph.visits 3 {} o ++ visited ∧ visited.Nodup := by
  intro b o
  have hb : b.Composed :=
    .closeBlock (.append (.ofSpeech "come closer") (.openBlock .whileLoop .empty rfl)) rfl
  refine ⟨hb, rfl, hb.loops_end rfl rfl fun more later now hmore => ?_⟩
  -- the execution ends with its sixth turn
  rcases more with _ | _ | _ | more
  · cases hmore; exact ⟨rfl, rfl, rfl⟩
  · cases hmore; exact ⟨rfl, rfl, rfl⟩
  · cases hmore; exact ⟨rfl, rfl, rfl⟩
  · rw [Nat.add_comm] at hmore
    cases hmore

end MotionScript
