import MotionScript.Proofs.InstructionSteps

/-!
# Graphs only grow

What is recorded stays. Whatever a builder is asked for, short of being cleared, every node stays at
its place and says what it said, its children stay at their branches and its owner stays, and new
nodes come after all old ones. A node that nobody owned gets an owner only when it is the header of
a do-while block that is closed.
-/
namespace MotionScript

/-- What may become of a node: more children at its free branches, and an owner if it had none. -/
structure Node.Becomes (node node' : Node) : Prop where
  payload : node'.payload = node.payload
  children : node.children <+: node'.children
  owner : ∀ owner, node.owner = some owner → node'.owner = some owner

namespace Node.Becomes

theorem refl (node : Node) : node.Becomes node := ⟨rfl, List.prefix_refl _, fun _ h => h⟩

theorem trans {node node' node'' : Node} (h : node.Becomes node')
    (h' : node'.Becomes node'') : node.Becomes node'' :=
  ⟨h'.payload.trans h.payload, h.children.trans h'.children,
    fun owner ho => h'.owner owner (h.owner owner ho)⟩

end Node.Becomes

namespace Graph

theorem becomes_attached (parent child id : NodeId) (node : Node) :
    node.Becomes (Node.attached parent child id node) where
  payload := rfl
  children := by
    simp only [Node.attached]
    split
    · exact List.prefix_append _ _
    · exact List.prefix_refl _
  owner owner ho := by simp [Node.attached, ho]

/-- The nodes of a graph are there in another at their places, and any other node comes after
them. -/
structure GrowsInto (g g' : Graph) : Prop where
  kept : ∀ id node, g.node? id = some node → ∃ node', g'.node? id = some node' ∧ node.Becomes node'
  later : ∀ old id, (g.node? old).isSome → g.node? id = none → (g'.node? id).isSome → old < id

variable {g g' g'' : Graph}

namespace GrowsInto

/-- Nodes that are named by their places leave no gap for new ones. -/
theorem of_kept (h : ∀ id node, g.node? id = some node →
      ∃ node', g'.node? id = some node' ∧ node.Becomes node') :
    g.GrowsInto g' where
  kept := h
  later old id hold hnew _ := by
    have hlt : old < g.size := (g.node?_isSome_iff old).mp hold
    have hge : ¬ id < g.size := by rw [← g.node?_isSome_iff id, hnew]; exact Bool.false_ne_true
    exact Nat.lt_of_lt_of_le hlt (Nat.le_of_not_lt hge)

theorem refl (g : Graph) : g.GrowsInto g := of_kept fun _ node h => ⟨node, h, .refl node⟩

theorem trans (h : g.GrowsInto g') (h' : g'.GrowsInto g'') : g.GrowsInto g'' := by
  refine of_kept fun id node hn => ?_
  obtain ⟨node', hn', hbecomes⟩ := h.kept id node hn
  obtain ⟨node'', hn'', hbecomes'⟩ := h'.kept id node' hn'
  exact ⟨node'', hn'', hbecomes.trans hbecomes'⟩

theorem push (g : Graph) (node : Node) : g.GrowsInto (g.push node) := by
  refine of_kept fun id old hold => ⟨old, ?_, .refl old⟩
  rw [node?_push, if_neg (Nat.ne_of_lt (lt_size_of_node? hold)), hold]

theorem add (g : Graph) (p : Payload) : g.GrowsInto (g.add p) := push g _

theorem attach (g : Graph) (parent child : NodeId) : g.GrowsInto (g.attach parent child) := by
  refine of_kept fun id node hn =>
    ⟨Node.attached parent child id node, ?_, becomes_attached parent child id node⟩
  rw [node?_attach, hn, Option.map_some]

theorem withNodes (g : Graph) (base : Nat) (nodes : List PlanNode) :
    g.GrowsInto (g.withNodes base nodes) := by
  induction nodes generalizing g with
  | nil => exact refl g
  | cons node nodes ih => exact (push g _).trans (ih _)

theorem withPlan (g : Graph) (parent : NodeId) (plan : Plan) :
    g.GrowsInto (g.withPlan parent plan) :=
  (withNodes g _ _).trans (attach _ _ _)

theorem children (h : g.GrowsInto g') (id : NodeId) : g.children id <+: g'.children id := by
  cases hn : g.node? id with
  | none => simp [Graph.children, hn]
  | some node =>
    obtain ⟨node', hn', hbecomes⟩ := h.kept id node hn
    simpa [Graph.children, hn, hn'] using hbecomes.children

theorem mem_children (h : g.GrowsInto g') {id child : NodeId}
    (hc : child ∈ g.children id) : child ∈ g'.children id :=
  (h.children id).subset hc

/-- A branch that is taken leads to the same node ever after. -/
theorem child? (h : g.GrowsInto g') {id child : NodeId} {branch : Nat}
    (hc : g.child? id branch = some child) :
    g'.child? id branch = some child := by
  obtain ⟨hlt, he⟩ := List.getElem?_eq_some_iff.mp hc
  rw [Graph.child?, List.prefix_iff_getElem?.mp (h.children id) branch hlt, he]

theorem owner? (h : g.GrowsInto g') {id owner : NodeId} (ho : g.owner? id = some owner) :
    g'.owner? id = some owner := by
  obtain ⟨node, hn, hnode⟩ := Option.bind_eq_some_iff.mp ho
  obtain ⟨node', hn', hbecomes⟩ := h.kept id node hn
  exact Option.bind_eq_some_iff.mpr ⟨node', hn', hbecomes.owner owner hnode⟩

end GrowsInto

theorem owner?_attach_of_ne (g : Graph) (parent : NodeId) {child id : NodeId} (hne : id ≠ child) :
    (g.attach parent child).owner? id = g.owner? id := by
  cases hn : g.node? id <;> simp [owner?, node?_attach, hn, Node.attached, hne]

theorem owner?_attach_of_owned {g : Graph} (parent : NodeId) {child owner : NodeId}
    (ho : g.owner? child = some owner) (id : NodeId) :
    (g.attach parent child).owner? id = g.owner? id := by
  by_cases hid : id = child
  · subst hid
    obtain ⟨node, hn, hown⟩ := Option.bind_eq_some_iff.mp ho
    simp [owner?, node?_attach, hn, Node.attached, hown]
  · exact g.owner?_attach_of_ne parent hid

end Graph

namespace Builder

def attempt (b : Builder) : Edit → Except Failure Builder
  | .append payload => .ok (b.append payload)
  | .openBlock kind => (b.openBlock kind).map (·.2)
  | .closeBlock => b.closeBlock.map (·.2)
  | .graft plan => (b.graft plan).map (·.2)
  | .clear => .ok b.clear

theorem settle_eq {α : Type} (b : Builder) (result : Except Failure (α × Builder)) :
    b.settle result = match result.map (·.2) with
      | .ok next => next
      | .error _ => b := by
  cases result <;> rfl

/-- An edit leads to what the builder makes of it, or nowhere. -/
theorem apply_eq (b : Builder) (edit : Edit) : b.apply edit =
    match b.attempt edit with
    | .ok next => next
    | .error _ => b := by
  cases edit with
  | append payload => rfl
  | openBlock kind => exact settle_eq b _
  | closeBlock => exact settle_eq b _
  | graft plan => exact settle_eq b _
  | clear => rfl

variable {b : Builder}

theorem growsInto_append (b : Builder) (p : Payload) : b.graph.GrowsInto (b.append p).graph :=
  (Graph.GrowsInto.add b.graph p).trans (.attach _ _ _)

theorem Step.growsInto {b' : Builder} (hs : b.Step b') : b.graph.GrowsInto b'.graph := by
  cases hs with
  | refused => exact .refl _
  | leaf l => exact b.growsInto_append _
  | openHeader => exact b.growsInto_append _
  | openPair => exact (b.growsInto_append .placeholder).trans (.add _ _)
  | closeConditional =>
    exact ((Graph.GrowsInto.add _ _).trans (.attach _ _ _)).trans (.attach _ _ _)
  | closeWhile => exact .attach _ _ _
  | closeDoWhile => exact (Graph.GrowsInto.attach _ _ _).trans (.attach _ _ _)

/-- Only a builder that is cleared loses anything. -/
theorem WellFormed.growsInto_apply (h : b.WellFormed) {edit : Edit} (hedit : edit ≠ .clear) :
    b.graph.GrowsInto (b.apply edit).graph := by
  cases edit with
  | append payload => exact b.growsInto_append payload
  | openBlock kind => exact (h.step (.openBlock kind)).growsInto
  | closeBlock => exact (h.step .closeBlock).growsInto
  | graft plan =>
    cases hv : plan.validate with
    | error failure =>
      simpa [Builder.apply, settle, graft_of_fault hv] using Graph.GrowsInto.refl b.graph
    | ok u =>
      simpa [Builder.apply, settle, graft_of_validate hv]
        using Graph.GrowsInto.withPlan b.graph b.cursor plan
  | clear => exact absurd rfl hedit

theorem WellFormed.growsInto_applyAll (h : b.WellFormed) {edits : List Edit}
    (hedits : .clear ∉ edits) :
    b.graph.GrowsInto (b.applyAll edits).graph := by
  induction edits generalizing b with
  | nil => exact .refl _
  | cons edit edits ih =>
    have hfirst : edit ≠ .clear := fun he => hedits (he ▸ List.mem_cons_self)
    exact (h.growsInto_apply hfirst).trans
      (ih (h.apply edit) fun hm => hedits (List.mem_cons_of_mem _ hm))

/-! ## Who gets an owner -/

section

variable {id owner : NodeId} (hid : id < b.graph.size) (hnone : b.graph.owner? id = none)
include hid

theorem WellFormed.owner?_append_of_lt (h : b.WellFormed) (p : Payload) :
    (b.append p).graph.owner? id = b.graph.owner? id := by
  rw [owner?_append h.sound.root_lt, if_neg (Nat.ne_of_lt hid)]

theorem WellFormed.owner?_openBlock_of_lt (h : b.WellFormed) (kind : NodeKind) :
    (b.apply (.openBlock kind)).graph.owner? id = b.graph.owner? id := by
  cases kind with
  | conditional | whileLoop => exact h.owner?_append_of_lt hid _
  | doWhileLoop => exact (Graph.owner?_add _ _ id).trans (h.owner?_append_of_lt hid .placeholder)
  | root | once | untilNear | speech => rfl

include hnone

/-- An instruction gives an owner to no old node but to the header of the innermost block, if this
is a do-while block. -/
theorem Step.waits_of_owner? (h : b.WellFormed) {b' : Builder} (hs : b.Step b')
    (ho : b'.graph.owner? id = some owner) :
    b.pending.head? = some id ∧ b.Waits id := by
  have hkept : ¬ b.graph.owner? id = some owner := by simp [hnone]
  cases hs with
  | refused => exact absurd ho hkept
  | leaf l => exact absurd ((h.owner?_append_of_lt hid _).symm.trans ho) hkept
  | openHeader => exact absurd ((h.owner?_append_of_lt hid _).symm.trans ho) hkept
  | openPair =>
    exact absurd ((h.owner?_append_of_lt hid .placeholder).symm.trans
      ((Graph.owner?_add _ _ id).symm.trans ho)) hkept
  | closeConditional hp hk =>
    have hne : id ≠ b.graph.nextId := Nat.ne_of_lt hid
    rw [Graph.owner?_attach_of_ne _ _ hne, Graph.owner?_attach_of_ne _ _ hne,
      Graph.owner?_add] at ho
    exact absurd ho hkept
  | closeWhile hp hk =>
    obtain ⟨above, habove⟩ := h.owned_of_pending (hp ▸ List.mem_cons_self) (by simp [hk])
    rw [Graph.owner?_attach_of_owned _ habove] at ho
    exact absurd ho hkept
  | @closeDoWhile header entry outer hp hk he =>
    have hm : header ∈ b.pending := hp ▸ List.mem_cons_self
    by_cases hi : id = header
    · subst hi
      exact ⟨by rw [hp]; rfl, hk, hm⟩
    · -- the entry of the body has been owned since the block was opened
      have hme : entry ∈ b.pending := hp ▸ List.mem_cons_of_mem _ List.mem_cons_self
      obtain ⟨above, habove⟩ := h.owned_of_pending hme (by rw [Graph.kind?_of_payload? he]; decide)
      have hentry := (Graph.GrowsInto.attach b.graph b.cursor header).owner? habove
      rw [Graph.owner?_attach_of_owned _ hentry, Graph.owner?_attach_of_ne _ _ hi] at ho
      exact absurd ho hkept

/-- The end of a block is the only edit that gives an owner to an old node. -/
theorem WellFormed.waits_of_owner?_apply (h : b.WellFormed) {edit : Edit} (hedit : edit ≠ .clear)
    (ho : (b.apply edit).graph.owner? id = some owner) :
    edit = .closeBlock ∧ b.pending.head? = some id ∧ b.Waits id := by
  have hkept : ¬ b.graph.owner? id = some owner := by simp [hnone]
  cases edit with
  | append payload => exact absurd ((h.owner?_append_of_lt hid payload).symm.trans ho) hkept
  | openBlock kind => exact absurd ((h.owner?_openBlock_of_lt hid kind).symm.trans ho) hkept
  | closeBlock => exact ⟨rfl, (h.step .closeBlock).waits_of_owner? hid hnone h ho⟩
  | graft plan =>
    cases hv : plan.validate with
    | error failure =>
      simp only [Builder.apply, graft_of_fault hv, settle] at ho
      exact absurd ho hkept
    | ok u =>
      simp only [Builder.apply, graft_of_validate hv, settle] at ho
      rw [Graph.owner?_withPlan_of_lt _ _ hid] at ho
      exact absurd ho hkept
  | clear => exact absurd rfl hedit

end

/-- Whatever edits a builder has seen, another edit that does not clear it leaves all nodes where
they are, with what they say, their owners and the branches that are taken, and puts new nodes after
them. It gives an owner to a node that had none only by closing the do-while block whose header this
node is, and it changes nothing if it is refused. So nothing is lost by any number of edits
either. -/
theorem graph_grows_after_edits (edits : List Edit) :
    let b := applyAll {} edits
    (∀ edit, edit ≠ .clear →
      b.graph.GrowsInto (b.apply edit).graph ∧
      (∀ id branch child, b.graph.child? id branch = some child →
        (b.apply edit).graph.child? id branch = some child) ∧
      (∀ id owner, id < b.graph.size → b.graph.owner? id = none →
        (b.apply edit).graph.owner? id = some owner →
        edit = .closeBlock ∧ b.pending.head? = some id ∧ b.Waits id) ∧
      ∀ failure, b.attempt edit = .error failure → b.apply edit = b) ∧
    ∀ more, .clear ∉ more → b.graph.GrowsInto (b.applyAll more).graph := by
  intro b
  have h : b.WellFormed := wellFormed_after_edits edits
  refine ⟨fun edit hedit => ?_, fun more hmore => h.growsInto_applyAll hmore⟩
  have hgrows := h.growsInto_apply hedit
  refine ⟨hgrows, fun id branch child hc => hgrows.child? hc,
    fun id owner hid hnone ho => h.waits_of_owner?_apply hid hnone hedit ho,
    fun failure hrefused => ?_⟩
  rw [apply_eq, hrefused]

/-- The header of a do-while block is owned from the end of the block on. -/
theorem graph_grows_closing_doWhile :
    let b := applyAll {} [.openBlock .doWhileLoop, .append (.ofSpeech "hello")]
    b.graph.owner? 2 = none ∧ (b.apply .closeBlock).graph.owner? 2 = some 3 ∧
      b.pending.head? = some 2 ∧ b.Waits 2 ∧
      b.graph.GrowsInto (b.apply .closeBlock).graph := by
  intro b
  obtain ⟨hgrows, -, howner, -⟩ :=
    (graph_grows_after_edits [.openBlock .doWhileLoop, .append (.ofSpeech "hello")]).1
      .closeBlock nofun
  have hnone : b.graph.owner? 2 = none := by decide
  have hsome : (b.apply .closeBlock).graph.owner? 2 = some 3 := by decide
  obtain ⟨-, hhead, hwaits⟩ := howner 2 3 (by decide) hnone hsome
  exact ⟨hnone, hsome, hhead, hwaits, hgrows⟩

end Builder
end MotionScript
