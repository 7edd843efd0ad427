import MotionScript.Proofs.BuilderEdits
import MotionScript.Proofs.PlanGrafting
import Mathlib.Logic.Function.Basic

/-!
# Graphs up to the names of their nodes

Two graphs of the same size are the same up to names when a one-to-one renaming carries each node of
the first to one of the second with the same payload and the renamed neighbours. The renaming leaves
the root and all names beyond the graphs alone, so the same renaming serves after further edits. A
plan forgets the names: graphs that are the same up to names have the same snapshots.
-/
namespace MotionScript

theorem idxOf?_map_of_injective {f : Nat → Nat} (hf : Function.Injective f) (l : List Nat)
    (x : Nat) :
    (l.map f).idxOf? (f x) = l.idxOf? x := by
  induction l with
  | nil => rfl
  | cons y l ih => simp [List.idxOf?_cons, ih, hf.eq_iff]

def Node.renamed (f : NodeId → NodeId) (node : Node) : Node where
  payload := node.payload
  owner := node.owner.map f
  children := node.children.map f

/-- The second graph is the first one with other names. -/
structure Graph.Renames (f : NodeId → NodeId) (g g' : Graph) : Prop where
  injective : Function.Injective f
  root : f Graph.root = Graph.root
  size : g'.size = g.size
  beyond : ∀ id, g.size ≤ id → f id = id
  node : ∀ id, g'.node? (f id) = (g.node? id).map (Node.renamed f)

namespace Graph

theorem Renames.refl (g : Graph) : Renames id g g := by
  refine ⟨Function.injective_id, rfl, rfl, fun _ _ => rfl, fun i => ?_⟩
  have hid : Node.renamed id = id := funext fun node => by simp [Node.renamed]
  rw [hid, Option.map_id]
  rfl

namespace Renames

variable {f : NodeId → NodeId} {g g' : Graph}

theorem payload? (h : Renames f g g') (id : NodeId) : g'.payload? (f id) = g.payload? id := by
  simp only [Graph.payload?, h.node, Option.map_map]
  rfl

theorem kind? (h : Renames f g g') (id : NodeId) : g'.kind? (f id) = g.kind? id := by
  rw [kind?_eq, kind?_eq, h.payload?]

theorem owner? (h : Renames f g g') (id : NodeId) : g'.owner? (f id) = (g.owner? id).map f := by
  simp only [Graph.owner?, h.node]
  cases g.node? id <;> rfl

theorem children (h : Renames f g g') (id : NodeId) :
    g'.children (f id) = (g.children id).map f := by
  simp only [Graph.children, h.node]
  cases g.node? id <;> rfl

theorem child? (h : Renames f g g') (id : NodeId) (branch : Nat) :
    g'.child? (f id) branch = (g.child? id branch).map f := by
  simp [Graph.child?, h.children]

theorem first? (h : Renames f g g') : g'.first? = g.first?.map f := by
  have hc := h.child? Graph.root 0
  rwa [h.root] at hc

theorem lt_size_iff (h : Renames f g g') (id : NodeId) : f id < g.size ↔ id < g.size := by
  have hiff := g'.node?_isSome_iff (f id)
  rw [h.node, Option.isSome_map, g.node?_isSome_iff, h.size] at hiff
  exact hiff.symm

theorem eq_size_iff (h : Renames f g g') (id : NodeId) : f id = g'.size ↔ id = g.size := by
  have hlast := h.beyond g.size (Nat.le_refl _)
  exact ⟨fun hf => h.injective (hf.trans (h.size.trans hlast.symm)),
    fun he => he ▸ hlast.trans h.size.symm⟩

theorem push (h : Renames f g g') (node : Node) :
    Renames f (g.push node) (g'.push (node.renamed f)) where
  injective := h.injective
  root := h.root
  size := by simp [h.size]
  beyond id hid := h.beyond id (Nat.le_of_succ_le (by simpa using hid))
  node id := by
    rw [node?_push, node?_push]
    by_cases he : id = g.size
    · rw [if_pos he, if_pos ((h.eq_size_iff id).mpr he), Option.map_some]
    · rw [if_neg he, if_neg fun hf => he ((h.eq_size_iff id).mp hf), h.node]

theorem add (h : Renames f g g') (p : Payload) : Renames f (g.add p) (g'.add p) :=
  h.push { payload := p }

theorem attach (h : Renames f g g') (parent child : NodeId) :
    Renames f (g.attach parent child) (g'.attach (f parent) (f child)) where
  injective := h.injective
  root := h.root
  size := by simp [h.size]
  beyond id hid := h.beyond id (by simpa using hid)
  node id := by
    have hroot : f child = Graph.root ↔ child = Graph.root :=
      ⟨fun hf => h.injective (hf.trans h.root.symm), fun he => he ▸ h.root⟩
    rw [node?_attach, node?_attach, h.node, Option.map_map, Option.map_map]
    congr 1
    funext node
    simp only [Function.comp_apply, Node.attached, Node.renamed, h.injective.eq_iff, hroot, ne_eq]
    congr 1
    · split
      · cases node.owner <;> rfl
      · rfl
    · split <;> simp

/-- The nodes of a plan only touch each other, and so have the same names on both sides. -/
theorem withNodes (h : Renames f g g') {base : Nat}
    (hbase : ∀ index, f (base + index) = base + index) (nodes : List PlanNode) :
    Renames f (g.withNodes base nodes) (g'.withNodes base nodes) := by
  induction nodes generalizing g g' with
  | nil => exact h
  | cons node rest ih =>
    have hnode : (Builder.shifted base node).renamed f = Builder.shifted base node := by
      have hmap : f ∘ (base + ·) = (base + ·) := funext hbase
      simp [Node.renamed, Builder.shifted, hmap]
    have hpush := h.push (Builder.shifted base node)
    rw [hnode] at hpush
    exact ih hpush

theorem withPlan (h : Renames f g g') (parent : NodeId) (plan : Plan) :
    Renames f (g.withPlan parent plan) (g'.withPlan (f parent) plan) := by
  have hbase (index : Nat) : f (g.size + index) = g.size + index :=
    h.beyond _ (Nat.le_add_right _ _)
  have hnodes := (h.withNodes hbase plan.nodes).attach parent g.size
  rw [h.beyond g.size (Nat.le_refl _)] at hnodes
  simpa only [Graph.withPlan, h.size] using hnodes

theorem lastOwned? (h : Renames f g g') (id : NodeId) :
    g'.lastOwned? (f id) = (g.lastOwned? id).map f := by
  have howns : ((fun child => g'.owner? child == some (f id)) ∘ f) = fun child =>
      g.owner? child == some id := by
    funext child
    have hiff : (g.owner? child).map f = some (f id) ↔ g.owner? child = some id := by
      cases g.owner? child <;> simp [h.injective.eq_iff]
    simp only [Function.comp_apply, h.owner?, beq_eq_beq, hiff]
  simp only [Graph.lastOwned?, h.children, ← List.map_reverse, List.find?_map, howns]

theorem followOwned (h : Renames f g g') (steps : Nat) (id : NodeId) :
    g'.followOwned steps (f id) = f (g.followOwned steps id) := by
  induction steps generalizing id with
  | zero => rfl
  | succ steps ih =>
    simp only [Graph.followOwned, h.lastOwned?]
    cases g.lastOwned? id with
    | none => rfl
    | some child => exact ih child

theorem tail (h : Renames f g g') (id : NodeId) : g'.tail (f id) = f (g.tail id) := by
  rw [Graph.tail, h.size, h.followOwned, Graph.tail]

theorem visit (h : Renames f g g') {unvisited unvisited' : List NodeId} (hnd : unvisited.Nodup)
    (hnd' : unvisited'.Nodup) (hmem : ∀ id, f id ∈ unvisited' ↔ id ∈ unvisited)
    (stack : List NodeId) :
    g'.visit unvisited' (stack.map f) = (g.visit unvisited stack).map f := by
  induction unvisited, stack using Graph.visit.induct g generalizing unvisited' with
  | case1 unvisited => simp [Graph.visit]
  | case2 unvisited id rest hid _ _ ih =>
    have hid' : f id ∈ unvisited' := (hmem id).mpr hid
    rw [List.map_cons, Graph.visit, dif_pos hid', Graph.visit, dif_pos hid, List.map_cons,
      h.children, ← List.map_append]
    congr 1
    refine ih (hnd.erase id) (hnd'.erase (f id)) fun x => ?_
    rw [hnd'.mem_erase_iff, hnd.mem_erase_iff, h.injective.ne_iff, hmem]
  | case3 unvisited id rest hid ih =>
    have hid' : f id ∉ unvisited' := fun hm => hid ((hmem id).mp hm)
    rw [List.map_cons, Graph.visit, dif_neg hid', Graph.visit, dif_neg hid]
    exact ih hnd hnd' hmem

theorem reachable (h : Renames f g g') (start : NodeId) :
    g'.reachable (f start) = (g.reachable start).map f := by
  refine h.visit List.nodup_range List.nodup_range (fun id => ?_) [start]
  rw [List.mem_range, List.mem_range, h.size, h.lt_size_iff]

/-- A plan does not show how the nodes were named. -/
theorem capture (h : Renames f g g') (entry : NodeId) :
    Plan.capture g' (f entry) = Plan.capture g entry := by
  have hidx (id : NodeId) :
      ((g.reachable entry).map f).idxOf? (f id) = (g.reachable entry).idxOf? id :=
    idxOf?_map_of_injective h.injective _ id
  simp only [Plan.capture, h.reachable, List.filterMap_map]
  congr 2
  funext id
  simp only [Function.comp_apply, h.node, Option.map_map]
  congr 1
  funext node
  simp only [Node.renamed, h.injective.eq_iff, List.filterMap_map, Option.bind_map,
    Function.comp_def, hidx]

end Renames
end Graph

namespace Builder

/-- The second builder is the first one with other names. -/
structure Renames (f : NodeId → NodeId) (b b' : Builder) : Prop where
  graph : Graph.Renames f b.graph b'.graph
  cursor : b'.cursor = f b.cursor
  pending : b'.pending = b.pending.map f

namespace Renames

variable {f : NodeId → NodeId} {b b' : Builder}

theorem nextId (h : Renames f b b') : b'.graph.nextId = f b.graph.nextId :=
  h.graph.size.trans (h.graph.beyond _ (Nat.le_refl _)).symm

theorem append (h : Renames f b b') (p : Payload) : Renames f (b.append p) (b'.append p) where
  graph := by
    simp only [Builder.append, h.cursor, h.nextId]
    exact (h.graph.add p).attach b.cursor b.graph.nextId
  cursor := h.nextId
  pending := h.pending

theorem openBlock (h : Renames f b b') (kind : NodeKind) :
    Renames f (b.settle (b.openBlock kind)) (b'.settle (b'.openBlock kind)) := by
  have hheader (kind : NodeKind) : Renames f
      { b.append (.header kind) with pending := (b.append (.header kind)).cursor ::
        (b.append (.header kind)).pending }
      { b'.append (.header kind) with
        pending := (b'.append (.header kind)).cursor :: (b'.append (.header kind)).pending } := by
    have hopened := h.append (.header kind)
    refine ⟨hopened.graph, hopened.cursor, ?_⟩
    rw [List.map_cons, ← hopened.cursor, ← hopened.pending]
  cases kind with
  | conditional => exact hheader .conditional
  | whileLoop => exact hheader .whileLoop
  | doWhileLoop =>
    have hopened := h.append .placeholder
    have hpending :
        (b'.append .placeholder).graph.nextId :: (b'.append .placeholder).cursor :: b'.pending =
        List.map f ((b.append .placeholder).graph.nextId ::
          (b.append .placeholder).cursor :: b.pending) := by
      rw [List.map_cons, List.map_cons, ← hopened.nextId, ← hopened.cursor, ← h.pending]
    exact ⟨hopened.graph.add _, hopened.cursor, hpending⟩
  | root => exact h
  | once => exact h
  | untilNear => exact h
  | speech => exact h

theorem closeBlock (h : Renames f b b') :
    Renames f (b.settle b.closeBlock) (b'.settle b'.closeBlock) := by
  have hpending := h.pending
  cases hp : b.pending with
  | nil =>
    rw [hp] at hpending
    simpa [Builder.closeBlock, hp, hpending, settle] using h
  | cons header outer =>
    rw [hp, List.map_cons] at hpending
    have hkind := h.graph.kind? header
    cases hk : b.graph.kind? header with
    | none =>
      rw [hk] at hkind
      simpa [Builder.closeBlock, hp, hpending, hk, hkind, settle] using h
    | some kind =>
      rw [hk] at hkind
      cases kind with
      | doWhileLoop =>
        cases outer with
        | nil => simpa [Builder.closeBlock, hp, hpending, hk, hkind, settle] using h
        | cons entry outer =>
          simp only [Builder.closeBlock, hp, hpending, hk, hkind, settle, List.map_cons, h.cursor]
          exact ⟨(h.graph.attach b.cursor header).attach header entry, rfl, rfl⟩
      | whileLoop =>
        simp only [Builder.closeBlock, hp, hpending, hk, hkind, settle, h.cursor]
        exact ⟨h.graph.attach b.cursor header, rfl, rfl⟩
      | conditional =>
        simp only [Builder.closeBlock, hp, hpending, hk, hkind, settle, h.cursor, h.nextId]
        exact ⟨((h.graph.add .placeholder).attach header b.graph.nextId).attach b.cursor
          b.graph.nextId, rfl, rfl⟩
      | root => simpa [Builder.closeBlock, hp, hpending, hk, hkind, settle] using h
      | once => simpa [Builder.closeBlock, hp, hpending, hk, hkind, settle] using h
      | untilNear => simpa [Builder.closeBlock, hp, hpending, hk, hkind, settle] using h
      | speech => simpa [Builder.closeBlock, hp, hpending, hk, hkind, settle] using h

theorem graft (h : Renames f b b') (plan : Plan) :
    Renames f (b.settle (b.graft plan)) (b'.settle (b'.graft plan)) := by
  cases hv : plan.validate with
  | error failure => simpa only [graft_of_fault hv, settle] using h
  | ok u =>
    have hgraph := h.graph.withPlan b.cursor plan
    have htail := hgraph.tail b.graph.size
    rw [h.graph.beyond b.graph.size (Nat.le_refl _)] at htail
    simp only [graft_of_validate hv, settle, h.cursor, h.graph.size]
    exact ⟨hgraph, htail, h.pending⟩

theorem apply (h : Renames f b b') (edit : Edit) :
    ∃ f, Renames f (b.apply edit) (b'.apply edit) := by
  cases edit with
  | append payload => exact ⟨f, h.append payload⟩
  | openBlock kind => exact ⟨f, h.openBlock kind⟩
  | closeBlock => exact ⟨f, h.closeBlock⟩
  | graft plan => exact ⟨f, h.graft plan⟩
  | clear => exact ⟨id, .refl _, rfl, rfl⟩

theorem applyAll (h : Renames f b b') (edits : List Edit) :
    ∃ f, Renames f (b.applyAll edits) (b'.applyAll edits) := by
  induction edits generalizing f b b' with
  | nil => exact ⟨f, h⟩
  | cons edit edits ih =>
    obtain ⟨f, h⟩ := h.apply edit
    exact ih h

theorem snapshot (h : Renames f b b') : b'.snapshot = b.snapshot := by
  simp only [Builder.snapshot, h.graph.first?]
  cases b.graph.first? with
  | none => rfl
  | some first => simp [h.graph.capture]

end Renames
end Builder
end MotionScript
