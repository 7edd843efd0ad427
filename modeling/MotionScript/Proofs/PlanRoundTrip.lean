import MotionScript.Proofs.DepthFirstPreorder
import MotionScript.Proofs.GraphRenaming
import Mathlib.Data.List.Nodup

/-!
# From a plan to a graph and back

A plan that is accepted is grafted as it is, and the search from its entry finds just its nodes. So
what is cut out again is the plan with its nodes in the order of the search, which only depends on
the plan. The nodes of a plan that was cut out of a recording are in this order already.
-/
namespace MotionScript

namespace Plan

def childrenAt (p : Plan) (index : Nat) : List Nat :=
  ((p.nodes[index]?).map PlanNode.children).getD []

/-- The plan with its nodes in another order, each of which is named by its place there. -/
def renumbered (p : Plan) (order : List Nat) : Plan where
  version := p.version
  nodes := order.filterMap fun index => (p.nodes[index]?).map fun node => {
    payload := node.payload
    owner := node.owner.map order.idxOf
    children := node.children.map order.idxOf }

variable {p : Plan}

theorem version_of_validate (h : p.validate = .ok ()) : p.version = currentVersion := by
  by_contra hne
  simp [validate, check, hne, Except.mapError] at h

theorem Valid.owner_lt (hv : p.Valid) {index owner : Nat} {node : PlanNode}
    (hn : p.nodes[index]? = some node) (ho : node.owner = some owner) : owner < p.nodes.length := by
  obtain ⟨-, parent, hp, -⟩ := hv.listed_by_owner hn ho
  exact (List.getElem?_eq_some_iff.mp hp).1

theorem Valid.renumbered_range (hv : p.Valid) : p.renumbered (List.range p.nodes.length) = p := by
  have hplace {k : Nat} (hk : k < p.nodes.length) : (List.range p.nodes.length).idxOf k = k := by
    have hnodup := List.nodup_range (n := p.nodes.length)
    have hat := hnodup.idxOf_getElem k (by simpa using hk)
    rwa [List.getElem_range] at hat
  have hnode (index : Nat) (node : PlanNode) (hn : p.nodes[index]? = some node) :
      { payload := node.payload
        owner := node.owner.map (List.range p.nodes.length).idxOf
        children := node.children.map (List.range p.nodes.length).idxOf : PlanNode } = node := by
    have howner : node.owner.map (List.range p.nodes.length).idxOf = node.owner := by
      cases ho : node.owner with
      | none => rfl
      | some owner => simp [hplace (hv.owner_lt hn ho)]
    have hchildren : node.children.map (List.range p.nodes.length).idxOf = node.children :=
      (List.map_congr_left fun child hc => hplace
        (hv.child_lt node (List.mem_of_getElem? hn) child hc)).trans (List.map_id _)
    rw [howner, hchildren]
  have hnodes : (p.renumbered (List.range p.nodes.length)).nodes = p.nodes := by
    refine List.ext_getElem? fun k => (getElem?_filterMap (fun index hi => ?_) k).trans ?_
    · simpa using hi
    · by_cases hk : k < p.nodes.length
      · rw [List.getElem?_range hk, Option.bind_some, List.getElem?_eq_getElem hk, Option.map_some,
          hnode k _ (List.getElem?_eq_getElem hk)]
      · simp [Nat.le_of_not_lt hk]
  exact congrArg (Plan.mk p.version) hnodes

end Plan

namespace Graph

variable {g : Graph} {parent : NodeId} {plan : Plan}

theorem children_withPlan_childrenAt (hparent : parent < g.size) (index : Nat) :
    (g.withPlan parent plan).children (g.size + index) =
      (plan.childrenAt index).map (g.size + ·) := by
  cases hn : plan.nodes[index]? with
  | none =>
    have hsize : (g.withPlan parent plan).size ≤ g.size + index := by
      simpa using List.getElem?_eq_none_iff.mp hn
    simp [children_eq_nil _ hsize, Plan.childrenAt, hn]
  | some node => simp [children_withPlan_add hparent hn, Plan.childrenAt, hn]

theorem mem_reachable_withPlan (hparent : parent < g.size) (hv : plan.Valid) {id : NodeId} :
    id ∈ (g.withPlan parent plan).reachable g.size ↔
      ∃ index < plan.nodes.length, id = g.size + index := by
  have hentry : 0 < plan.nodes.length := List.length_pos_iff.mpr hv.nonempty
  have hlt {index : Nat} (hi : index < plan.nodes.length) :
      g.size + index ∈ List.range (g.withPlan parent plan).size := by
    simpa using hi
  constructor
  · have hclosed (x : NodeId) (hx : ∃ index < plan.nodes.length, x = g.size + index) :
        ∀ child ∈ (g.withPlan parent plan).children x, ∃ index < plan.nodes.length, child =
          g.size + index := by
      obtain ⟨index, hi, rfl⟩ := hx
      intro child hc
      rw [children_withPlan_add hparent (List.getElem?_eq_getElem hi)] at hc
      obtain ⟨k, hk, rfl⟩ := List.mem_map.mp hc
      exact ⟨k, hv.child_lt _ (List.getElem_mem hi) k hk, rfl⟩
    exact visit_induction (fun x hx => ⟨0, hentry, List.mem_singleton.mp hx⟩) hclosed id
  · rintro ⟨index, hi, rfl⟩
    induction hv.owned index hi with
    | entry => exact mem_visit_of_mem_stack List.mem_cons_self (hlt hentry)
    | @step index owner node hn ho _ ih =>
      obtain ⟨-, parent, hp, hlists⟩ := hv.listed_by_owner hn ho
      refine mem_visit_of_child (ih (hv.owner_lt hn ho)) ?_ (hlt hi)
      rw [children_withPlan_add hparent hp]
      exact List.mem_map_of_mem hlists

private theorem map_add_sub (base : Nat) (l : List Nat) :
    (l.map (base + ·)).map (· - base) = l := by
  rw [List.map_map]
  exact (List.map_congr_left fun k _ => Nat.add_sub_cancel_left base k).trans (List.map_id _)

private theorem map_sub_add {base : Nat} {l : List Nat} (h : ∀ x ∈ l, base ≤ x) :
    (l.map (· - base)).map (base + ·) = l := by
  rw [List.map_map]
  exact (List.map_congr_left fun x hx => Nat.add_sub_of_le (h x hx)).trans (List.map_id _)

/-- The search from the entry of a grafted plan goes as the search of the plan. -/
theorem exists_order_withPlan (hparent : parent < g.size) (hv : plan.Valid)
    (hchild : ∀ id, ∀ child ∈ (g.withPlan parent plan).children id,
      child < (g.withPlan parent plan).size) :
    ∃ order, (g.withPlan parent plan).reachable g.size = order.map (g.size + ·) ∧
      DepthFirst plan.childrenAt [] [0] order ∧ order.Perm (List.range plan.nodes.length) := by
  have hstart : g.size < (g.withPlan parent plan).size := by
    rw [size_withPlan]
    exact Nat.lt_add_of_pos_right (List.length_pos_iff.mpr hv.nonempty)
  obtain ⟨order, horder⟩ : ∃ order : List Nat, (g.withPlan parent plan).reachable g.size =
      order.map (g.size + ·) := by
    refine ⟨_, (map_sub_add fun x hx => ?_).symm⟩
    obtain ⟨index, -, rfl⟩ := (mem_reachable_withPlan hparent hv).mp hx
    exact Nat.le_add_right _ _
  refine ⟨order, horder, ?_, ?_⟩
  · have hclosed (x : NodeId) (hx : ∃ index, x = g.size + index) :
        ∀ child ∈ (g.withPlan parent plan).children x, ∃ index, child = g.size + index := by
      obtain ⟨index, rfl⟩ := hx
      intro child hc
      rw [children_withPlan_childrenAt hparent] at hc
      obtain ⟨k, -, rfl⟩ := List.mem_map.mp hc
      exact ⟨k, rfl⟩
    have hchildren (x : NodeId) (hx : ∃ index, x = g.size + index) :
        plan.childrenAt (x - g.size) = ((g.withPlan parent plan).children x).map (· - g.size) := by
      obtain ⟨index, rfl⟩ := hx
      rw [children_withPlan_childrenAt hparent, map_add_sub, Nat.add_sub_cancel_left]
    have hapart (x y : NodeId) (hx : ∃ index, x = g.size + index) (hy : ∃ index, y = g.size + index)
        (he : x - g.size = y - g.size) : x = y := by
      obtain ⟨index, rfl⟩ := hx
      obtain ⟨other, rfl⟩ := hy
      rw [Nat.add_sub_cancel_left, Nat.add_sub_cancel_left] at he
      rw [he]
    have hfound := (depthFirst_reachable hchild hstart).map hclosed hapart hchildren
      (by simp) (by simp)
    rw [horder, map_add_sub] at hfound
    simpa using hfound
  · have hnodup := nodup_reachable (g.withPlan parent plan) g.size
    rw [horder] at hnodup
    refine (List.perm_ext_iff_of_nodup (List.Nodup.of_map (g.size + ·) hnodup) List.nodup_range).mpr
      fun index => ?_
    have hmem : g.size + index ∈ (g.withPlan parent plan).reachable g.size ↔
        ∃ k < plan.nodes.length, g.size + index = g.size + k := mem_reachable_withPlan hparent hv
    rw [horder] at hmem
    simpa using hmem

/-- What is cut out from the entry of a grafted plan is the plan with its nodes in the order of the
search. -/
theorem capture_withPlan (hparent : parent < g.size) (hv : plan.Valid)
    (hversion : plan.version = Plan.currentVersion) {order : List Nat}
    (horder : (g.withPlan parent plan).reachable g.size = order.map (g.size + ·))
    (hperm : order.Perm (List.range plan.nodes.length)) :
    Plan.capture (g.withPlan parent plan) g.size = plan.renumbered order := by
  have hplace {k : Nat} (hk : k < plan.nodes.length) :
      (order.map (g.size + ·)).idxOf? (g.size + k) = some (order.idxOf k) := by
    rw [idxOf?_map_of_injective fun _ _ => Nat.add_left_cancel]
    exact Plan.idxOf?_of_mem (hperm.mem_iff.mpr (List.mem_range.mpr hk))
  have hnodes : (Plan.capture (g.withPlan parent plan) g.size).nodes =
      (plan.renumbered order).nodes := by
    simp only [Plan.capture, Plan.renumbered, horder, List.filterMap_map]
    refine List.filterMap_congr fun index hi => ?_
    obtain ⟨node, hn⟩ : ∃ node, plan.nodes[index]? = some node :=
      ⟨_, List.getElem?_eq_getElem (List.mem_range.mp (hperm.mem_iff.mp hi))⟩
    have hne : g.size + index ≠ parent :=
      Nat.ne_of_gt (Nat.lt_of_lt_of_le hparent (Nat.le_add_right _ _))
    have hchildren : (node.children.map (g.size + ·)).filterMap (order.map (g.size + ·)).idxOf? =
        node.children.map order.idxOf := by
      have hnames := List.filterMap_congr fun k hk =>
        hplace (hv.child_lt node (List.mem_of_getElem? hn) k hk)
      rw [List.filterMap_eq_map'] at hnames
      rw [List.filterMap_map]
      exact hnames
    simp only [Function.comp_apply, node?_withPlan_add, hn, Option.map_some, Node.attached,
      Builder.shifted, hne, if_false, hchildren]
    congr 2
    by_cases h0 : index = 0
    · subst h0
      simp [hv.entry_owner node hn]
    · cases ho : node.owner with
      | none => simp [h0]
      | some owner => simp [h0, hplace (hv.owner_lt hn ho)]
  rw [Plan.renumbered, hversion]
  exact congrArg (Plan.mk Plan.currentVersion) hnodes

end Graph

namespace Builder

/-- In the plan of a recording a node has its children at their places. -/
theorem WellFormed.childrenAt_capture {b : Builder} {first id : NodeId} (h : b.WellFormed)
    (hf : b.graph.first? = some first) (hid : id ∈ b.graph.reachable first) :
    (Plan.capture b.graph first).childrenAt ((b.graph.reachable first).idxOf id) =
      (b.graph.children id).map (b.graph.reachable first).idxOf := by
  obtain ⟨owner, ho⟩ := (h.mem_reachable_iff hf).mp hid
  obtain ⟨node, hn⟩ := Graph.exists_node (Graph.lt_size_of_owner? ho)
  simp [Plan.childrenAt, h.getElem?_capture hf ho hn, Graph.children, hn]

/-- The nodes of a plan that was cut out of a recording stand in depth-first pre-order. -/
theorem WellFormed.depthFirst_capture {b : Builder} {first : NodeId} (h : b.WellFormed)
    (hf : b.graph.first? = some first) :
    DepthFirst (Plan.capture b.graph first).childrenAt [] [0]
      (List.range (Plan.capture b.graph first).nodes.length) := by
  obtain ⟨rest, hrest⟩ := h.reachable_first hf
  have hclosed (id : NodeId) (_ : id ∈ b.graph.reachable first) :
      ∀ child ∈ b.graph.children id, child ∈ b.graph.reachable first :=
    fun child hc => (h.mem_reachable_iff hf).mpr (h.owned_of_child hc)
  have hsearch := Graph.depthFirst_reachable h.sound.child_lt
    (h.sound.child_lt _ first (WellFormed.first_mem_children hf))
  have hfound := hsearch.map hclosed (fun _ _ hid _ he => (List.idxOf_inj hid).mp he)
    (fun _ hid => h.childrenAt_capture hf hid) (by simp) (by simp [hrest])
  have hplaces : (b.graph.reachable first).map (b.graph.reachable first).idxOf =
      List.range (Plan.capture b.graph first).nodes.length := by
    rw [Plan.length_capture]
    refine List.ext_getElem (by simp) fun k hk _ => ?_
    rw [List.getElem_map, (b.graph.nodup_reachable first).idxOf_getElem, List.getElem_range]
  rw [hplaces] at hfound
  simpa [hrest] using hfound

/-- A plan that is accepted can be grafted onto any recording. What is cut out from its entry is the
plan with its nodes in depth-first pre-order, and so the same plan if it was cut out of a recording
itself. -/
theorem capture_graft (edits : List Edit) {plan : Plan} (hvalid : plan.validate = .ok ()) :
    ∃ entry b' order, (applyAll {} edits).graft plan = .ok (entry, b') ∧
      DepthFirst plan.childrenAt [] [0] order ∧ order.Perm (List.range plan.nodes.length) ∧
      Plan.capture b'.graph entry = plan.renumbered order ∧
      ((∃ source, (applyAll {} source).snapshot = .ok plan) →
        Plan.capture b'.graph entry = plan) := by
  have hb := wellFormed_after_edits edits
  generalize applyAll {} edits = b at *
  have hv := Plan.valid_of_validate hvalid
  have hchild := (hb.sound.withPlan hb.cursor hv).child_lt
  obtain ⟨order, horder, hfound, hperm⟩ := Graph.exists_order_withPlan hb.cursor_lt hv hchild
  have hcapture := Graph.capture_withPlan hb.cursor_lt hv
    (Plan.version_of_validate hvalid) horder hperm
  refine ⟨_, _, order, graft_of_validate hvalid b, hfound, hperm, hcapture, ?_⟩
  rintro ⟨source, hsnapshot⟩
  have hs := wellFormed_after_edits source
  generalize applyAll {} source = recorded at *
  rw [hcapture]
  cases hf : recorded.graph.first? with
  | none => simp [snapshot, hf] at hsnapshot
  | some first =>
    have hplan : Plan.capture recorded.graph first = plan := by simpa [snapshot, hf] using hsnapshot
    have hinorder := hs.depthFirst_capture hf
    rw [hplan] at hinorder
    rw [hfound.unique hinorder, hv.renumbered_range]

/-- A loop whose exit stands before its body is accepted, and comes back with the two exchanged. -/
theorem capture_graft_exchanged :
    let plan : Plan := {
      version := 1
      nodes := [
        { payload := .header .whileLoop, children := [2, 1] },
        { payload := .ofSpeech "bye", owner := some 0 },
        { payload := .ofSpeech "hello", owner := some 0, children := [0] }] }
    plan.validate = .ok () ∧
      ∃ entry b' order, (applyAll {} [.append .placeholder]).graft plan = .ok (entry, b') ∧
        DepthFirst plan.childrenAt [] [0] order ∧ order.Perm (List.range plan.nodes.length) ∧
        Plan.capture b'.graph entry = plan.renumbered order ∧
        ((∃ source, (applyAll {} source).snapshot = .ok plan) →
          Plan.capture b'.graph entry = plan) :=
  ⟨rfl, capture_graft [.append .placeholder] rfl⟩

end Builder
end MotionScript
