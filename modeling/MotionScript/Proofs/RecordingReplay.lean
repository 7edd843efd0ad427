import MotionScript.Proofs.InstructionSteps
import MotionScript.Proofs.PlantedGraphs

/-!
# Instructions entered a second time

The instructions that a fresh builder has taken are entered into another builder. What they do to
the fresh graph they do to the other graph at its cursor: the recording is planted there, with its
nodes in the same order. The other builder may have blocks open before, and these remain below the
new ones. So no end of a block may come too often, or it would close one of those.
-/
namespace MotionScript

namespace Builder

/-- The builder `b'` was `b` when the other one was fresh, and has taken the same instructions
since. -/
structure Replays (b fresh b' : Builder) : Prop where
  graph : Graph.Planted (Graph.inOrder b.cursor b.graph.size) b.graph b.cursor fresh.graph b'.graph
  cursor : b'.cursor = Graph.inOrder b.cursor b.graph.size fresh.cursor
  pending : b'.pending = fresh.pending.map (Graph.inOrder b.cursor b.graph.size) ++ b.pending

theorem replays_empty (b : Builder) : Replays b {} b := ⟨.of_root rfl rfl rfl, rfl, rfl⟩

namespace Replays

variable {b fresh b' : Builder}

theorem nextId (h : Replays b fresh b') (hf : fresh.WellFormed) :
    b'.graph.nextId = Graph.inOrder b.cursor b.graph.size fresh.graph.nextId := by
  obtain ⟨last, hlast⟩ := Nat.exists_eq_add_of_lt hf.sound.root_lt
  have hsize := h.graph.size
  have hfresh : fresh.graph.nextId = last + 1 := hlast.trans (by simp [Graph.root])
  have hnext : b'.graph.size + 1 = b.graph.size + last + 1 := by
    rw [hsize, show fresh.graph.size = last + 1 from hfresh, Nat.add_assoc]
  rw [hfresh]
  exact Nat.succ.inj hnext

theorem kind? (h : Replays b fresh b') (hf : fresh.WellFormed) {id : NodeId}
    (hm : id ∈ fresh.pending) :
    b'.graph.kind? (Graph.inOrder b.cursor b.graph.size id) = fresh.graph.kind? id := by
  rw [Graph.kind?_eq, Graph.kind?_eq, h.graph.payload? (hf.pending_lt hm) (hf.pending_ne_root hm)]

theorem append (h : Replays b fresh b') (hb : b.WellFormed) (hf : fresh.WellFormed) (p : Payload) :
    Replays b (fresh.append p) (b'.append p) := by
  have hnext := h.nextId hf
  have hnew : fresh.graph.nextId < (fresh.graph.add p).size := fresh.graph.size_lt_add p
  have hgraph := (h.graph.add hf.sound.root_lt hnext.symm p).attach hb.cursor_lt
    (Graph.lt_size_add hf.cursor_lt p) hnew
    (Nat.ne_of_gt hf.sound.root_lt)
  rw [← h.cursor, ← hnext] at hgraph
  exact ⟨hgraph, hnext, h.pending⟩

theorem openBlock (h : Replays b fresh b') (hb : b.WellFormed) (hf : fresh.WellFormed)
    (kind : NodeKind) :
    Replays b (fresh.settle (fresh.openBlock kind)) (b'.settle (b'.openBlock kind)) := by
  have hheader (kind : NodeKind) : Replays b
      { fresh.append (.header kind) with
        pending := (fresh.append (.header kind)).cursor :: (fresh.append (.header kind)).pending }
      { b'.append (.header kind) with
        pending := (b'.append (.header kind)).cursor :: (b'.append (.header kind)).pending } := by
    have hopened := h.append hb hf (.header kind)
    refine ⟨hopened.graph, hopened.cursor, ?_⟩
    rw [List.map_cons, List.cons_append, ← hopened.cursor, ← hopened.pending]
  cases kind with
  | conditional => exact hheader .conditional
  | whileLoop => exact hheader .whileLoop
  | doWhileLoop =>
    have hopened := h.append hb hf .placeholder
    have hwf := hf.append .placeholder
    have hnext := hopened.nextId hwf
    refine ⟨hopened.graph.add hwf.sound.root_lt hnext.symm _, hopened.cursor, ?_⟩
    have hpending : (b'.append .placeholder).graph.nextId ::
        (b'.append .placeholder).cursor :: b'.pending =
        ((fresh.append .placeholder).graph.nextId :: (fresh.append .placeholder).cursor ::
          fresh.pending).map
          (Graph.inOrder b.cursor b.graph.size) ++ b.pending := by
      rw [List.map_cons, List.map_cons, List.cons_append, List.cons_append, ← hnext,
        ← hopened.cursor, ← h.pending]
    exact hpending
  | root => exact h
  | once => exact h
  | untilNear => exact h
  | speech => exact h

theorem closeBlock (h : Replays b fresh b') (hb : b.WellFormed) (hf : fresh.WellFormed)
    (hopen : fresh.closeBlock.isOk = true) :
    Replays b (fresh.settle fresh.closeBlock) (b'.settle b'.closeBlock) := by
  have hblocks := hf.blocks
  have hpending := h.pending
  cases hp : fresh.pending with
  | nil => simp [Builder.closeBlock, hp, Except.isOk, Except.toBool] at hopen
  | cons header outer =>
    have hm : header ∈ fresh.pending := hp ▸ List.mem_cons_self
    have hlt := hf.pending_lt hm
    have hne := hf.pending_ne_root hm
    have hkind := h.kind? hf hm
    rw [hp] at hblocks hpending
    rw [List.map_cons, List.cons_append] at hpending
    cases hblocks with
    | single hk =>
      rcases hk with hk | hk <;> rw [hk] at hkind <;>
        simp only [Builder.closeBlock, hp, hpending, hk, hkind, settle]
      · have hnext := h.nextId hf
        have hcur := Graph.lt_size_add hf.cursor_lt .placeholder
        have hmerge : fresh.graph.nextId < (fresh.graph.add .placeholder).size :=
          fresh.graph.size_lt_add _
        have hroot : fresh.graph.nextId ≠ Graph.root := Nat.ne_of_gt hf.sound.root_lt
        have hgraph := ((h.graph.add hf.sound.root_lt hnext.symm .placeholder).attach hb.cursor_lt
          (Graph.lt_size_add hlt .placeholder) hmerge hroot).attach hb.cursor_lt (by
            simpa using hcur)
          (by simpa using hmerge) hroot
        rw [← hnext, ← h.cursor] at hgraph
        exact ⟨hgraph, hnext, rfl⟩
      · have hgraph := h.graph.attach hb.cursor_lt hf.cursor_lt hlt hne
        rw [← h.cursor] at hgraph
        exact ⟨hgraph, rfl, rfl⟩
    | @pair _ entry _ hk =>
      have hme : entry ∈ fresh.pending := hp ▸ List.mem_cons_of_mem _ List.mem_cons_self
      rw [hk] at hkind
      simp only [Builder.closeBlock, hp, hpending, hk, hkind, settle, List.map_cons,
        List.cons_append]
      have hgraph := (h.graph.attach hb.cursor_lt hf.cursor_lt hlt hne).attach hb.cursor_lt
        (by simpa using hlt)
        (by simpa using hf.pending_lt hme) (hf.pending_ne_root hme)
      rw [← h.cursor] at hgraph
      exact ⟨hgraph, rfl, rfl⟩

theorem enter (h : Replays b fresh b') (hb : b.WellFormed) (hf : fresh.WellFormed)
    {instructions : List Instruction} (haccepts : fresh.accepts instructions) :
    Replays b (fresh.enter instructions) (b'.enter instructions) := by
  induction instructions generalizing fresh b' with
  | nil => exact h
  | cons instruction rest ih =>
    cases instruction with
    | leaf l => exact ih (h.append hb hf l.payload) (hf.apply _) haccepts
    | openBlock kind => exact ih (h.openBlock hb hf kind) (hf.apply _) haccepts
    | closeBlock =>
      obtain ⟨hopen, hrest⟩ := Bool.and_eq_true_iff.mp haccepts
      exact ih (h.closeBlock hb hf hopen) (hf.apply _) hrest

end Replays

end Builder
end MotionScript
