import MotionScript.Proofs.PlanLoading
import MotionScript.Proofs.PlanRoundTrip
import MotionScript.Proofs.SearchRounds

/-!
# Snapshots are plans

A snapshot can be taken at any time, also while blocks are open; only a fresh builder has none. It
is a plan that is accepted: the owner of each node that is found is found as well, since the chain
of owners comes to the root over the first node, and so are its children. Headers that still wait
for the end of a do-while block are not found, and no node that is found has an edge to them.
-/
namespace MotionScript

/-- A plan has an entry for each node that edges lead to from a first one. The entry says what the
node says, and its children stand for the children of the node in branch order. -/
def Plan.Covers (plan : Plan) (g : Graph) (first : NodeId) : Prop :=
  ∃ order : List NodeId, order.length = plan.nodes.length ∧ order.Nodup ∧
    (∀ id, id ∈ order ↔ Reaches g.children first id) ∧
    ∀ index id, order[index]? = some id →
      (plan.nodes[index]?).map PlanNode.payload = g.payload? id ∧
      (plan.childrenAt index).map (order[·]?) = (g.children id).map some

namespace Builder.WellFormed

variable {b : Builder} {first : NodeId}

theorem covers_capture (h : b.WellFormed) (hf : b.graph.first? = some first) :
    (Plan.capture b.graph first).Covers b.graph first := by
  have hlt : first < b.graph.size := h.sound.child_lt _ first (first_mem_children hf)
  have hnodup := b.graph.nodup_reachable first
  refine ⟨b.graph.reachable first, (Plan.length_capture _ _).symm, hnodup,
    fun id => Graph.mem_reachable_iff_reaches h.sound.child_lt hlt, fun index id hid => ?_⟩
  have hm : id ∈ b.graph.reachable first := List.mem_of_getElem? hid
  obtain rfl : (b.graph.reachable first).idxOf id = index := by
    obtain ⟨hi, rfl⟩ := List.getElem?_eq_some_iff.mp hid
    exact hnodup.idxOf_getElem index hi
  obtain ⟨owner, ho⟩ := (h.mem_reachable_iff hf).mp hm
  obtain ⟨node, hn⟩ := Graph.exists_node (Graph.lt_size_of_owner? ho)
  refine ⟨by rw [h.getElem?_capture hf ho hn, Graph.payload?, hn]; rfl, ?_⟩
  rw [h.childrenAt_capture hf hm, List.map_map]
  refine List.map_congr_left fun child hc => ?_
  exact List.getElem?_idxOf ((h.mem_reachable_iff hf).mpr (h.owned_of_child hc))

end Builder.WellFormed

namespace Builder

/-- Whatever edits a builder has seen, if nothing that was appended claims to be a root, it has no
snapshot exactly if it is a fresh one. Otherwise its snapshot is accepted as a plan, with an entry
for each node that edges lead to from the first one, and none of their edges is missing. -/
theorem snapshot_after_edits {edits : List Edit}
    (hkinds : ∀ payload, .append payload ∈ edits → payload.kind ≠ .root) :
    let b := applyAll {} edits
    (b = {} → b.snapshot = .error .emptyGraph) ∧
      (b ≠ {} → ∃ plan first, b.snapshot = .ok plan ∧ plan.validate = .ok () ∧
        b.graph.first? = some first ∧
        plan.Covers b.graph first) := by
  intro b
  have h : b.WellFormed := wellFormed_after_edits edits
  constructor
  · intro hb
    rw [snapshot, h.first?_eq_none_iff.mpr hb]
  · intro hb
    cases hf : b.graph.first? with
    | none => exact absurd (h.first?_eq_none_iff.mp hf) hb
    | some first =>
      have hvalid := h.valid_capture hf (oneRoot_after_edits hkinds)
      exact ⟨_, first, by rw [snapshot, hf], hvalid.validate rfl, rfl, h.covers_capture hf⟩

/-- A snapshot with a conditional inside a do-while block, both of them open. -/
theorem snapshot_after_edits_open :
    let edits : List Edit :=
      [.openBlock .doWhileLoop, .append (.ofSpeech "hello"), .openBlock .conditional]
    let b := applyAll {} edits
    (∀ payload, .append payload ∈ edits → payload.kind ≠ .root) ∧ b.pending = [4, 2, 1] ∧ b ≠ {} ∧
      ∃ plan first, b.snapshot = .ok plan ∧ plan.validate = .ok () ∧ b.graph.first? = some first ∧
        plan.Covers b.graph first := by
  intro edits b
  have hkinds : ∀ payload, .append payload ∈ edits → payload.kind ≠ .root := by
    intro payload hm
    obtain rfl : payload = .ofSpeech "hello" := by simpa [edits] using hm
    decide
  have hpending : b.pending = [4, 2, 1] := rfl
  have hne : b ≠ {} := fun he => absurd (congrArg Builder.pending he) (by rw [hpending]; simp)
  exact ⟨hkinds, hpending, hne, (snapshot_after_edits hkinds).2 hne⟩

end Builder
end MotionScript
