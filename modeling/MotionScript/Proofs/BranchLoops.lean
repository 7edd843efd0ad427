import MotionScript.Proofs.DepthFirstOrder
import MotionScript.Proofs.InstructionSteps
import Mathlib.Data.List.Chain
import Mathlib.Logic.Relation
import Mathlib.Order.WellFoundedSet

/-!
# Loops along some branches

A walk does not leave a node by every branch: what the node says, and what the surroundings are,
decide by which. Here it is given beforehand by which branches a walk may leave a node, and a graph
is free of loops if no such walk comes back to a node. Each edge that a builder adds keeps a graph
free of loops if the node that it leads to leads nowhere as yet, or if it stands at a branch that is
not taken. In a graph free of loops every walk is finite and meets no node twice.
-/
namespace MotionScript

/-- A walk may leave a node by a branch at which another node stands. -/
def Graph.Leads (taken : Payload → Nat → Prop) (g : Graph) (id next : NodeId) : Prop :=
  ∃ p branch, g.payload? id = some p ∧ taken p branch ∧ g.child? id branch = some next

/-- No walk comes back to a node. -/
def Graph.LoopFree (taken : Payload → Nat → Prop) (g : Graph) : Prop :=
  ∀ id, ¬ Relation.TransGen (g.Leads taken) id id

def Plan.Leads (taken : Payload → Nat → Prop) (plan : Plan) (index next : Nat) : Prop :=
  ∃ node branch, plan.nodes[index]? = some node ∧ taken node.payload branch ∧
    node.children[branch]? = some next

def Plan.LoopFree (taken : Payload → Nat → Prop) (plan : Plan) : Prop :=
  ∀ index, ¬ Relation.TransGen (plan.Leads taken) index index

/-- A path is one of the smaller relation if its end is kept, where each step to what is kept is a
step of the smaller relation from what is kept. -/
private theorem transGen_of_kept {α : Type} {r r' : α → α → Prop} {kept : α → Prop}
    (hstep : ∀ x y, r' x y → kept y → r x y ∧ kept x) {x y : α} (h : Relation.TransGen r' x y)
    (hy : kept y) :
    Relation.TransGen r x y := by
  induction h with
  | single hxy => exact .single (hstep _ _ hxy hy).1
  | tail _ hyz ih => exact .tail (ih (hstep _ _ hyz hy).2) (hstep _ _ hyz hy).1

theorem nodup_of_isChain {α : Type} {r : α → α → Prop} {l : List α} (h : l.IsChain r)
    (hr : ∀ x ∈ l, ¬ Relation.TransGen r x x) : l.Nodup := by
  have hpairs : l.Pairwise (Relation.TransGen r) :=
    (h.imp fun _ _ => Relation.TransGen.single).pairwise
  refine hpairs.imp_of_mem fun {x y} hx _ hxy he => ?_
  subst he
  exact hr x hx hxy

namespace Graph

variable {taken : Payload → Nat → Prop} {g : Graph} {id next parent child : NodeId} {plan : Plan}

theorem Leads.lt_size (h : g.Leads taken id next) : id < g.size := by
  obtain ⟨p, branch, hp, -⟩ := h
  exact lt_size_of_payload? hp

theorem exists_next_of_loop (h : Relation.TransGen (g.Leads taken) id id) :
    ∃ next, g.Leads taken id next ∧ Relation.TransGen (g.Leads taken) next next := by
  obtain ⟨next, hnext, hback⟩ := Relation.TransGen.head'_iff.mp h
  exact ⟨next, hnext, .tail' hback hnext⟩

theorem not_leads_of_length {p : Payload} (hp : g.payload? id = some p)
    (h : ∀ branch, taken p branch → (g.children id).length ≤ branch) (next : NodeId) :
    ¬ g.Leads taken id next := by
  rintro ⟨q, branch, hq, htaken, hchild⟩
  rw [hp] at hq
  cases hq
  rw [child?, List.getElem?_eq_none (h branch htaken)] at hchild
  cases hchild

theorem not_leads_of_childless (h : g.children id = []) (next : NodeId) :
    ¬ g.Leads taken id next := by
  rintro ⟨_, branch, -, -, hchild⟩
  simp [child?, h] at hchild

theorem loopFree_empty : empty.LoopFree taken := by
  intro id hloop
  obtain ⟨next, ⟨_, branch, -, -, hchild⟩, -⟩ := exists_next_of_loop hloop
  have hid : id = 0 := Nat.lt_one_iff.mp (lt_size_of_mem_children (mem_children_of_child? hchild))
  subst hid
  cases hchild

/-! ## A node is added -/

theorem LoopFree.add (h : g.LoopFree taken) (p : Payload) : (g.add p).LoopFree taken := by
  intro id hloop
  refine h id (hloop.mono (fun x y hxy => ?_) id id)
  obtain ⟨q, branch, hq, htaken, hchild⟩ := hxy
  rw [child?, children_add] at hchild
  have hlt := lt_size_of_mem_children (mem_children_of_child? hchild)
  rw [payload?_add, if_neg (Nat.ne_of_lt hlt)] at hq
  exact ⟨q, branch, hq, htaken, hchild⟩

/-! ## A node is attached -/

/-- A step after a node is attached was one before, or it goes along the new edge. -/
theorem leads_of_attach (hparent : parent < g.size)
    (h : (g.attach parent child).Leads taken id next) :
    g.Leads taken id next ∨
      (id = parent ∧ next = child) ∧
        ∃ p, g.payload? parent = some p ∧ taken p (g.children parent).length := by
  obtain ⟨p, branch, hp, htaken, hchild⟩ := h
  rw [payload?_attach] at hp
  rw [child?, g.children_attach child id hparent] at hchild
  split at hchild
  next he =>
    rw [List.getElem?_append] at hchild
    split at hchild
    next => exact .inl ⟨p, branch, hp, htaken, he ▸ hchild⟩
    next hle =>
      obtain ⟨hlast, hsame⟩ := List.getElem?_eq_some_iff.mp hchild
      have hbranch : branch = (g.children parent).length := by
        rw [List.length_singleton] at hlast
        omega
      exact .inr ⟨⟨he, by simpa using hsame.symm⟩, p, he ▸ hp, hbranch ▸ htaken⟩
  next => exact .inl ⟨p, branch, hp, htaken, hchild⟩

/-- An edge closes no loop if its end leads nowhere. -/
theorem LoopFree.attach (h : g.LoopFree taken) (hparent : parent < g.size)
    (hchild : ∀ next, ¬ (g.attach parent child).Leads taken child next) :
    (g.attach parent child).LoopFree taken := by
  intro id hloop
  obtain ⟨next, hnext, -⟩ := exists_next_of_loop hloop
  -- what is kept are the nodes that lead somewhere, as all nodes of the loop do
  have hstep (x y : NodeId) (hxy : (g.attach parent child).Leads taken x y)
      (hy : ∃ z, (g.attach parent child).Leads taken y z) :
      g.Leads taken x y ∧ ∃ z, (g.attach parent child).Leads taken x z := by
    obtain ⟨z, hyz⟩ := hy
    refine ⟨(leads_of_attach hparent hxy).resolve_right ?_, y, hxy⟩
    rintro ⟨⟨-, rfl⟩, -⟩
    exact hchild z hyz
  exact h id (transGen_of_kept hstep hloop ⟨next, hnext⟩)

/-- An edge closes no loop if it stands at a branch that is not taken. -/
theorem LoopFree.attach_untaken (h : g.LoopFree taken) (hparent : parent < g.size) (child : NodeId)
    (hbranch : ∀ p, g.payload? parent = some p → ¬ taken p (g.children parent).length) :
    (g.attach parent child).LoopFree taken := by
  intro id hloop
  refine h id (hloop.mono (fun x y hxy => (leads_of_attach hparent hxy).resolve_right ?_) id id)
  rintro ⟨-, p, hp, htaken⟩
  exact hbranch p hp htaken

/-! ## A plan is grafted -/

theorem leads_of_withPlan (hparent : parent < g.size)
    (h : (g.withPlan parent plan).Leads taken id next) (hnext : next < g.size) :
    g.Leads taken id next ∧ id < g.size := by
  obtain ⟨p, branch, hp, htaken, hchild⟩ := h
  rcases lt_or_exists_of_lt_size_withPlan (lt_size_of_payload? hp) with hlt | ⟨index, node, hn, rfl⟩
  · rw [payload?_withPlan_of_lt parent plan hlt] at hp
    rw [child?, children_withPlan_of_lt plan hlt] at hchild
    refine ⟨⟨p, branch, hp, htaken, ?_⟩, hlt⟩
    split at hchild
    next he =>
      rw [List.getElem?_append] at hchild
      split at hchild
      next => rw [he]; exact hchild
      next =>
        exact absurd (List.mem_singleton.mp (List.mem_of_getElem? hchild)) (Nat.ne_of_lt hnext)
    next => exact hchild
  · rw [child?, children_withPlan_add hparent hn, List.getElem?_map] at hchild
    obtain ⟨k, -, rfl⟩ := Option.map_eq_some_iff.mp hchild
    exact absurd hnext (Nat.not_lt_of_le (Nat.le_add_right _ _))

theorem leads_of_withPlan_add (hparent : parent < g.size) {index : Nat}
    (h : (g.withPlan parent plan).Leads taken (g.size + index) next) :
    ∃ k, next = g.size + k ∧ plan.Leads taken index k := by
  obtain ⟨p, branch, hp, htaken, hchild⟩ := h
  rw [payload?, node?_withPlan_add, Option.map_map] at hp
  obtain ⟨node, hn, rfl⟩ := Option.map_eq_some_iff.mp hp
  rw [child?, children_withPlan_add hparent hn, List.getElem?_map] at hchild
  obtain ⟨k, hk, rfl⟩ := Option.map_eq_some_iff.mp hchild
  exact ⟨k, rfl, node, branch, hn, htaken, hk⟩

/-- A walk never comes back from what was grafted, so a loop lies in the graph or in the plan. -/
theorem LoopFree.withPlan (h : g.LoopFree taken) (hparent : parent < g.size)
    (hplan : plan.LoopFree taken) :
    (g.withPlan parent plan).LoopFree taken := by
  intro id hloop
  obtain ⟨next, hnext, -⟩ := exists_next_of_loop hloop
  rcases lt_or_exists_of_lt_size_withPlan hnext.lt_size with hlt | ⟨index, node, hn, rfl⟩
  · have hstep (x y : NodeId) :
        (g.withPlan parent plan).Leads taken x y → y < g.size → g.Leads taken x y ∧ x < g.size :=
      leads_of_withPlan hparent
    exact h id (transGen_of_kept hstep hloop hlt)
  · have hpath (y : NodeId)
        (hy : Relation.TransGen ((g.withPlan parent plan).Leads taken) (g.size + index) y) :
        ∃ k, y = g.size + k ∧ Relation.TransGen (plan.Leads taken) index k := by
      induction hy with
      | single hy =>
        obtain ⟨k, rfl, hk⟩ := leads_of_withPlan_add hparent hy
        exact ⟨k, rfl, .single hk⟩
      | tail _ hz ih =>
        obtain ⟨k, rfl, hk⟩ := ih
        obtain ⟨l, rfl, hl⟩ := leads_of_withPlan_add hparent hz
        exact ⟨l, rfl, .tail hk hl⟩
    obtain ⟨k, hk, hplanned⟩ := hpath _ hloop
    rw [← Nat.add_left_cancel hk] at hplanned
    exact hplan index hplanned

/-! ## Walks are finite -/

theorem LoopFree.wellFounded (h : g.LoopFree taken) :
    WellFounded fun next id => g.Leads taken id next := by
  let above (next id : NodeId) : Prop := Relation.TransGen (g.Leads taken) id next
  have : IsStrictOrder NodeId above :=
    { irrefl := h, trans := fun _ _ _ hxy hyz => Relation.TransGen.trans hyz hxy }
  have hnodes : (Set.Iio g.size).WellFoundedOn above := (Set.finite_lt_nat g.size).wellFoundedOn
  have hinside := Set.wellFoundedOn_iff.mp hnodes
  -- a step ends inside, where the order is well founded, or at a place that leads nowhere
  refine ⟨fun id => ⟨id, fun next hnext => ?_⟩⟩
  refine hinside.induction (C := fun next => Acc (fun next id => g.Leads taken id next) next)
    next fun x ih => ⟨x, fun y hxy => ?_⟩
  by_cases hy : y < g.size
  · exact ih y ⟨.single hxy, hy, hxy.lt_size⟩
  · exact ⟨y, fun z hyz => absurd hyz.lt_size hy⟩

end Graph

/-! ## What a builder adds -/

namespace Builder

/-- A node that waits for the end of a block has at most the child that its body begins with, and
not even this one as long as the cursor stands on it. -/
def Unfilled (b : Builder) : Prop :=
  ∀ id ∈ b.pending, (b.graph.children id).length ≤ if id = b.cursor then 0 else 1

/-- The cursor leaves what waits, and only where it stood may a child have come. -/
theorem Unfilled.leave {b b' : Builder} (h : b.Unfilled)
    (hpending : ∀ id ∈ b'.pending, id ∈ b.pending) (hcursor : b'.cursor ∉ b'.pending)
    (hchildren : ∀ id ∈ b'.pending, (b'.graph.children id).length ≤
      (b.graph.children id).length + if id = b.cursor then 1 else 0) :
    b'.Unfilled := by
  intro id hm
  have hnow := h id (hpending id hm)
  have hnew := hchildren id hm
  have hne : id ≠ b'.cursor := fun he => hcursor (he ▸ hm)
  rw [if_neg hne]
  split at hnew <;> split at hnow <;> omega

namespace WellFormed

variable {taken : Payload → Nat → Prop} {b b' : Builder} {plan : Plan}

theorem size_not_pending (h : b.WellFormed) : b.graph.size ∉ b.pending :=
  fun hm => Nat.lt_irrefl _ (h.pending_lt hm)

theorem children_append_new (h : b.WellFormed) (p : Payload) :
    (b.append p).graph.children b.graph.size = [] := by
  have hchildren := children_append h.cursor_lt p b.graph.size
  rwa [if_neg (Nat.ne_of_gt h.cursor_lt), b.graph.children_eq_nil (Nat.le_refl _)] at hchildren

theorem unfilled_append (h : b.WellFormed) (hu : b.Unfilled)
    (p : Payload) : (b.append p).Unfilled := by
  refine hu.leave (fun _ hm => hm) h.size_not_pending fun id _ => ?_
  rw [children_append h.cursor_lt p id]
  split
  next he => simp [he]
  next => exact Nat.le_refl _

theorem size_le_tail (h : b.WellFormed) (plan : Plan) :
    b.graph.size ≤ (b.graph.withPlan b.cursor plan).tail b.graph.size := by
  have hall (steps id : Nat) (hid : b.graph.size ≤ id) :
      b.graph.size ≤ (b.graph.withPlan b.cursor plan).followOwned steps id := by
    induction steps generalizing id with
    | zero => exact hid
    | succ steps ih =>
      unfold Graph.followOwned
      split
      next child hc =>
        have hm : child ∈ (b.graph.withPlan b.cursor plan).children id :=
          List.mem_reverse.mp (List.mem_of_find?_eq_some hc)
        refine ih child ?_
        rcases Graph.lt_or_exists_of_lt_size_withPlan (Graph.lt_size_of_mem_children hm) with hlt |
          ⟨index, node, hn, rfl⟩
        · exact absurd hlt (Nat.not_lt_of_le hid)
        · rw [Graph.children_withPlan_add h.cursor_lt hn] at hm
          obtain ⟨k, -, rfl⟩ := List.mem_map.mp hm
          exact Nat.le_add_right _ _
      next => exact hid
  exact hall _ _ (Nat.le_refl _)

theorem unfilled_graft (h : b.WellFormed) (hu : b.Unfilled) (plan : Plan) :
    Unfilled { b with
      graph := b.graph.withPlan b.cursor plan
      cursor := (b.graph.withPlan b.cursor plan).tail b.graph.size } := by
  refine hu.leave (fun _ hm => hm)
    (fun hm => Nat.not_lt_of_le (h.size_le_tail plan) (h.pending_lt hm)) fun id hm => ?_
  rw [Graph.children_withPlan_of_lt plan (h.pending_lt hm)]
  split
  next he => simp [he]
  next => exact Nat.le_refl _

theorem unfilled_step (h : b.WellFormed) (hu : b.Unfilled) (hs : b.Step b') : b'.Unfilled := by
  have hnodup := h.nodup
  cases hs with
  | refused => exact hu
  | leaf l => exact h.unfilled_append hu _
  | openHeader _ =>
    intro id hm
    rcases List.mem_cons.mp hm with rfl | hm
    · simp [h.children_append_new]
    · exact h.unfilled_append hu _ id hm
  | openPair =>
    intro id hm
    simp only [Graph.children_add]
    rcases List.mem_cons.mp hm with rfl | hm
    · simp [Graph.nextId, Graph.children_eq_nil]
    rcases List.mem_cons.mp hm with rfl | hm
    · simp [h.children_append_new]
    · exact h.unfilled_append hu _ id hm
  | @closeConditional header outer hp hk =>
    rw [hp] at hnodup
    refine hu.leave (fun id hm => hp ▸ List.mem_cons_of_mem _ hm)
      (fun hm => h.size_not_pending (hp ▸ List.mem_cons_of_mem _ hm)) fun id hm => ?_
    rw [Graph.length_children_attach (by simpa using Nat.lt_succ_of_lt h.cursor_lt)]
    have hheader := Graph.lt_size_add (h.pending_lt (hp ▸ List.mem_cons_self)) .placeholder
    have hne : id ≠ header := fun he => (List.nodup_cons.mp hnodup).1 (he ▸ hm)
    rw [Graph.children_attach _ _ _ hheader, if_neg hne, Graph.children_add]
  | closeWhile hp hk =>
    rw [hp] at hnodup
    exact hu.leave (fun id hm => hp ▸ List.mem_cons_of_mem _ hm) (List.nodup_cons.mp hnodup).1
      fun id _ => Nat.le_of_eq (Graph.length_children_attach h.cursor_lt _ _)
  | @closeDoWhile header entry outer hp hk he =>
    rw [hp] at hnodup
    have hout := fun hm => (List.nodup_cons.mp hnodup).1 (List.mem_cons_of_mem _ hm)
    refine hu.leave (fun id hm => hp ▸ List.mem_cons_of_mem _ (List.mem_cons_of_mem _ hm)) hout
      fun id hm => ?_
    have hheader := h.pending_lt (hp ▸ List.mem_cons_self)
    have hne : id ≠ header := fun he => hout (he ▸ hm)
    rw [Graph.children_attach _ _ _ (by simpa using hheader), if_neg hne]
    exact Nat.le_of_eq (Graph.length_children_attach h.cursor_lt _ _)

theorem loopFree_append (h : b.WellFormed) (hfree : b.graph.LoopFree taken) (p : Payload) :
    (b.append p).graph.LoopFree taken :=
  (hfree.add p).attach (Graph.lt_size_add h.cursor_lt p)
    (Graph.not_leads_of_childless (h.children_append_new p))

/-- A header that waits for the end of a loop leads nowhere once its last node leads back to it. -/
theorem not_leads_header (h : b.WellFormed) (hu : b.Unfilled)
    (hloop : ∀ p : Payload, p.kind = .whileLoop ∨ p.kind = .doWhileLoop → ¬ taken p 0)
    {header : NodeId} (hm : header ∈ b.pending)
    (hk : b.graph.kind? header = some .whileLoop ∨ b.graph.kind? header = some .doWhileLoop)
    (next : NodeId) : ¬ (b.graph.attach b.cursor header).Leads taken header next := by
  obtain ⟨node, hn⟩ := Graph.exists_node (h.pending_lt hm)
  have hpayload : b.graph.payload? header = some node.payload := by simp [Graph.payload?, hn]
  have hkind : node.payload.kind = .whileLoop ∨ node.payload.kind = .doWhileLoop := by
    simpa [Graph.kind?_of_payload? hpayload] using hk
  refine Graph.not_leads_of_length (by simpa using hpayload) (fun branch htaken => ?_) next
  have hbranch : branch ≠ 0 := fun h0 => hloop _ hkind (h0 ▸ htaken)
  have hfew := hu header hm
  have hmore := Graph.length_children_attach h.cursor_lt header header
  -- one child at most, whether the cursor still stands on the header or not
  have hone : ((b.graph.attach b.cursor header).children header).length ≤ 1 := by
    by_cases he : header = b.cursor
    · rw [if_pos he] at hfew hmore
      omega
    · rw [if_neg he] at hfew hmore
      omega
  omega

theorem ne_cursor_of_waits (h : b.WellFormed) {id : NodeId} (hw : b.Waits id) : id ≠ b.cursor := by
  rintro rfl
  rcases h.cursor with hroot | ⟨owner, ho⟩
  · exact h.pending_ne_root hw.2 hroot
  · rw [h.sound.owner?_of_loose hw] at ho
    cases ho

/-- The edge back to the header of a loop ends at a node from which only the first branch leads on,
and the edge from the header of a loop that is tested last is its first branch. -/
theorem loopFree_step (h : b.WellFormed) (hu : b.Unfilled)
    (hloop : ∀ p : Payload, p.kind = .whileLoop ∨ p.kind = .doWhileLoop → ¬ taken p 0)
    (hfree : b.graph.LoopFree taken) (hs : b.Step b') : b'.graph.LoopFree taken := by
  cases hs with
  | refused => exact hfree
  | leaf l => exact h.loopFree_append hfree _
  | openHeader _ => exact h.loopFree_append hfree _
  | openPair => exact (h.loopFree_append hfree .placeholder).add _
  | @closeConditional header outer hp hk =>
    have hheader := h.pending_lt (hp ▸ List.mem_cons_self)
    have hmerge : ((b.graph.add .placeholder).attach header b.graph.size).children
        b.graph.size = [] := by
      rw [Graph.children_attach _ _ _ (Graph.lt_size_add hheader .placeholder),
        if_neg (Nat.ne_of_gt hheader), Graph.children_add, b.graph.children_eq_nil (Nat.le_refl _)]
    have hfirst := (hfree.add .placeholder).attach (Graph.lt_size_add hheader .placeholder)
      (Graph.not_leads_of_childless hmerge)
    refine hfirst.attach (by simpa using Nat.lt_succ_of_lt h.cursor_lt)
      (Graph.not_leads_of_childless ?_)
    rw [Graph.nextId, Graph.children_attach _ _ _ (by simpa using Nat.lt_succ_of_lt h.cursor_lt),
      if_neg (Nat.ne_of_gt h.cursor_lt), hmerge]
  | closeWhile hp hk =>
    exact hfree.attach h.cursor_lt (h.not_leads_header hu hloop (hp ▸ List.mem_cons_self) (.inl hk))
  | @closeDoWhile header entry outer hp hk he =>
    have hm : header ∈ b.pending := hp ▸ List.mem_cons_self
    have hclosed := hfree.attach h.cursor_lt (h.not_leads_header hu hloop hm (.inr hk))
    refine hclosed.attach_untaken (by simpa using h.pending_lt hm) entry fun p hpayload => ?_
    have hkind := Graph.kind?_of_payload? hpayload
    rw [Graph.kind?_attach, hk] at hkind
    rw [Graph.children_attach _ _ _ h.cursor_lt, if_neg (h.ne_cursor_of_waits ⟨hk, hm⟩),
      h.sound.loose_children header ⟨hk, hm⟩]
    exact hloop p (.inr (Option.some.inj hkind).symm)

theorem loopFree_capture (h : b.WellFormed) (hfree : b.graph.LoopFree taken) {first : NodeId}
    (hf : b.graph.first? = some first) : (Plan.capture b.graph first).LoopFree taken := by
  intro index hloop
  refine hfree _
    (hloop.lift (fun k => (b.graph.reachable first).getD k 0) (fun k l hkl => ?_) index index)
  obtain ⟨found, branch, hfound, htaken, hchild⟩ := hkl
  obtain ⟨id, owner, node, ho, hn, rfl⟩ := h.exists_found hf hfound
  have hplace := h.getElem?_capture hf ho hn
  rw [hfound] at hplace
  cases hplace
  obtain ⟨child, hc, rfl⟩ := Option.map_eq_some_iff.mp ((List.getElem?_map ..).symm.trans hchild)
  have hchildren : b.graph.child? id branch = some child := by
    simpa [Graph.child?, Graph.children, hn] using hc
  have hname {x : NodeId} (hx : ∃ owner, b.graph.owner? x = some owner) :
      (b.graph.reachable first).getD ((b.graph.reachable first).idxOf x) 0 = x := by
    rw [List.getD_eq_getElem?_getD, List.getElem?_idxOf ((h.mem_reachable_iff hf).mpr hx),
      Option.getD_some]
  have hleads : b.graph.Leads taken id child :=
    ⟨node.payload, branch, by simp [Graph.payload?, hn], htaken, hchildren⟩
  simpa only [Function.onFun, hname ⟨owner, ho⟩,
    hname (h.owned_of_child (Graph.mem_children_of_child? hchildren))] using hleads

end WellFormed

/-- If the headers of loops are not left by the first branch, then no recording has a loop, as long
as no plan that is grafted has one. -/
theorem loopFree_after_edits {taken : Payload → Nat → Prop}
    (hloop : ∀ p : Payload, p.kind = .whileLoop ∨ p.kind = .doWhileLoop → ¬ taken p 0)
    {edits : List Edit} (hplans : ∀ plan, Edit.graft plan ∈ edits → plan.LoopFree taken) :
    (applyAll {} edits).graph.LoopFree taken := by
  have hall : (applyAll {} edits).Unfilled ∧ (applyAll {} edits).graph.LoopFree taken := by
    refine edits_induction (motive := fun b => b.Unfilled ∧ b.graph.LoopFree taken)
      ⟨nofun, Graph.loopFree_empty⟩
      fun b h ⟨hu, hfree⟩ edit hm =>
        h.apply_cases (motive := fun b => b.Unfilled ∧ b.graph.LoopFree taken)
        (fun payload _ => ⟨h.unfilled_append hu payload, h.loopFree_append hfree payload⟩)
        (fun b' hs => ⟨h.unfilled_step hu hs, h.loopFree_step hu hloop hfree hs⟩)
          (fun plan he _ => ?graft)
        ⟨nofun, Graph.loopFree_empty⟩
    case graft =>
      exact ⟨h.unfilled_graft hu plan, hfree.withPlan h.cursor_lt (hplans plan (he ▸ hm))⟩
  exact hall.2

end Builder
end MotionScript
