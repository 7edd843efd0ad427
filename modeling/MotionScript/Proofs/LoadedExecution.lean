import MotionScript.Proofs.InstructionSteps
import MotionScript.Proofs.PlanRoundTrip
import MotionScript.Proofs.RenamedExecution
import Mathlib.Data.Set.Function

/-!
# Executions of loaded programs

The plan of a recording has all nodes to which an execution can come, with what they say and where
they lead. So it makes no difference whether a recording is executed or its plan, loaded into a
fresh builder: what is lost are the nodes that nothing leads to, and the names.
-/
namespace MotionScript

namespace Builder

/-- A fresh builder that has loaded the plan of a recording has the recorded nodes behind the root,
in the order of the plan. -/
theorem WellFormed.mirrors_load {b : Builder} {first : NodeId} (h : b.WellFormed)
    (hf : b.graph.first? = some first) :
    Graph.Mirrors (fun id => 1 + (b.graph.reachable first).idxOf id)
      (· ∈ b.graph.reachable first) b.graph
      (Graph.empty.withPlan Graph.root (.capture b.graph first)) where
  payload id hid := by
    obtain ⟨owner, ho⟩ := (h.mem_reachable_iff hf).mp hid
    obtain ⟨node, hn⟩ := Graph.exists_node (Graph.lt_size_of_owner? ho)
    have hplaced : (Graph.empty.withPlan Graph.root (.capture b.graph first)).node?
        (1 + (b.graph.reachable first).idxOf id) = _ :=
          Graph.empty.node?_withPlan_add Graph.root (.capture b.graph first) _
    rw [Graph.payload?, hplaced, h.getElem?_capture hf ho hn]
    simp [Graph.payload?, hn, Graph.Node.attached, shifted]
  children id hid := by
    have hplaced : (Graph.empty.withPlan Graph.root (.capture b.graph first)).children
        (1 + (b.graph.reachable first).idxOf id) = _ :=
          Graph.children_withPlan_childrenAt (by decide) _
    rw [h.childrenAt_capture hf hid, List.map_map] at hplaced
    exact hplaced
  closed id _ child hc := (h.mem_reachable_iff hf).mpr (h.owned_of_child hc)

/-- A recording and the fresh builder that has loaded its plan are executed alike. The plan gives
the nodes new names: behind the root they come in the order of the search. -/
theorem load_executes {edits : List Edit}
    (hkinds : ∀ payload, Edit.append payload ∈ edits → payload.kind ≠ .root)
    (hrecorded : (applyAll {} edits).graph.isEmpty = false) :
    ∃ first plan entry loaded, (applyAll {} edits).graph.first? = some first ∧
      (applyAll {} edits).snapshot = .ok plan ∧
      graft {} plan = .ok (entry, loaded) ∧
      let name := fun id => 1 + ((applyAll {} edits).graph.reachable first).idxOf id
      Set.InjOn name {id | id ∈ (applyAll {} edits).graph.reachable first} ∧
        Graph.ExecutedAlike name (applyAll {} edits).graph loaded.graph := by
  have hb := wellFormed_after_edits edits
  have hone := oneRoot_after_edits hkinds
  generalize applyAll {} edits = b at *
  cases hf : b.graph.first? with
  | none => simp [Graph.isEmpty, hf] at hrecorded
  | some first =>
    have hvalid := (hb.valid_capture hf hone).validate rfl
    obtain ⟨rest, hrest⟩ := hb.reachable_first hf
    have hfirst : (Graph.empty.withPlan Graph.root (.capture b.graph first)).first? =
        some (1 + (b.graph.reachable first).idxOf first) := by
      have hchildren : (Graph.empty.withPlan Graph.root (.capture b.graph first)).children
          Graph.root = _ :=
        Graph.children_withPlan_of_lt _ (by decide)
      rw [Graph.first?, Graph.child?, hchildren, hrest, List.idxOf_cons_self]
      rfl
    refine ⟨first, .capture b.graph first, _, _, rfl,
      by simp [snapshot, hf], graft_of_validate hvalid {}, ?_⟩
    refine ⟨fun id hid other _ he => (List.idxOf_inj hid).mp (Nat.add_left_cancel he), ?_⟩
    exact (hb.mirrors_load hf).executedAlike hf hfirst (hrest ▸ List.mem_cons_self)

/-- The header of a loop that is still open is not in the plan, and makes no difference. -/
theorem load_executes_open_loop :
    let edits := [Edit.openBlock .doWhileLoop, .append (.ofSpeech "hello")]
    (∀ payload, Edit.append payload ∈ edits → payload.kind ≠ .root) ∧
      (applyAll {} edits).graph.isEmpty = false ∧
      ∃ first plan entry loaded, (applyAll {} edits).graph.first? = some first ∧
        (applyAll {} edits).snapshot = .ok plan ∧
        graft {} plan = .ok (entry, loaded) ∧
        let name := fun id => 1 + ((applyAll {} edits).graph.reachable first).idxOf id
        Set.InjOn name {id | id ∈ (applyAll {} edits).graph.reachable first} ∧
          Graph.ExecutedAlike name (applyAll {} edits).graph loaded.graph := by
  intro edits
  have hkinds : ∀ payload, Edit.append payload ∈ edits → payload.kind ≠ .root := by
    intro payload hm
    simp only [edits, List.mem_cons, reduceCtorEq, Edit.append.injEq, List.not_mem_nil, or_false,
      false_or] at hm
    rw [hm]
    decide
  exact ⟨hkinds, rfl, load_executes hkinds rfl⟩

end Builder
end MotionScript
