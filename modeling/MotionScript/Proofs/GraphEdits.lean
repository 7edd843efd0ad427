import MotionScript.Graph.Traversal
import Mathlib.Data.List.Basic

/-!
# How an edit changes a graph

A graph is observed through the payload, the owner and the children of each place in its array. The
two elementary edits, to put a node at the end and to attach a node to another, are described here
by what they do to these observations; nothing else looks into the array.
-/
namespace MotionScript.Graph

def payload? (g : Graph) (id : NodeId) : Option Payload := (g.node? id).map Node.payload

theorem kind?_eq (g : Graph) (id : NodeId) : g.kind? id = (g.payload? id).map Payload.kind := by
  simp [kind?, payload?, Function.comp_def]

theorem kind?_of_payload? {g : Graph} {id : NodeId} {p : Payload} (h : g.payload? id = some p) :
    g.kind? id = some p.kind := by rw [kind?_eq, h, Option.map_some]

theorem node?_isSome_iff (g : Graph) (id : NodeId) : (g.node? id).isSome ↔ id < g.size := by
  simp [node?, size]

theorem node?_eq_none (g : Graph) {id : NodeId} (h : g.size ≤ id) : g.node? id = none := by
  simpa [node?, size] using h

theorem exists_node {g : Graph} {id : NodeId} (h : id < g.size) : ∃ node, g.node? id = some node :=
  Option.isSome_iff_exists.mp ((g.node?_isSome_iff id).mpr h)

theorem lt_size_of_node? {g : Graph} {id : NodeId} {node : Node} (h : g.node? id = some node) :
    id < g.size := (g.node?_isSome_iff id).mp (by simp [h])

theorem lt_size_of_payload? {g : Graph} {id : NodeId} {p : Payload} (h : g.payload? id = some p) :
    id < g.size := by
  obtain ⟨node, hn, -⟩ := Option.map_eq_some_iff.mp h
  exact lt_size_of_node? hn

theorem lt_size_of_kind? {g : Graph} {id : NodeId} {k : NodeKind} (h : g.kind? id = some k) :
    id < g.size := by
  obtain ⟨node, hn, -⟩ := Option.map_eq_some_iff.mp h
  exact lt_size_of_node? hn

theorem lt_size_of_owner? {g : Graph} {id owner : NodeId} (h : g.owner? id = some owner) :
    id < g.size := by
  obtain ⟨node, hn, -⟩ := Option.bind_eq_some_iff.mp h
  exact lt_size_of_node? hn

theorem owner?_size (g : Graph) : g.owner? g.size = none := by simp [owner?, g.node?_eq_none]

theorem children_eq_nil (g : Graph) {id : NodeId} (h : g.size ≤ id) : g.children id = [] := by
  simp [children, g.node?_eq_none h]

theorem lt_size_of_mem_children {g : Graph} {id child : NodeId} (h : child ∈ g.children id) :
    id < g.size := by
  by_contra hn
  simp [g.children_eq_nil (Nat.le_of_not_lt hn)] at h

theorem mem_children_of_child? {g : Graph} {id branch child : NodeId}
    (h : g.child? id branch = some child) : child ∈ g.children id := List.mem_of_getElem? h

/-! ## A node is put at the end -/

@[simp] theorem size_push (g : Graph) (node : Node) : (g.push node).size = g.size + 1 := by
  simp [push, size]

theorem node?_push (g : Graph) (node : Node) (id : NodeId) :
    (g.push node).node? id = if id = g.size then some node else g.node? id := by
  simp only [push, node?, size, Array.getElem?_push]
  rfl

theorem payload?_push (g : Graph) (node : Node) (id : NodeId) :
    (g.push node).payload? id = if id = g.size then some node.payload else g.payload? id := by
  simp only [payload?, node?_push]
  split <;> rfl

theorem owner?_push (g : Graph) (node : Node) (id : NodeId) :
    (g.push node).owner? id = if id = g.size then node.owner else g.owner? id := by
  simp only [owner?, node?_push]
  split <;> rfl

theorem children_push (g : Graph) (node : Node) (id : NodeId) :
    (g.push node).children id = if id = g.size then node.children else g.children id := by
  simp only [children, node?_push]
  split <;> rfl

@[simp] theorem size_add (g : Graph) (p : Payload) : (g.add p).size = g.size + 1 := size_push ..

theorem size_lt_add (g : Graph) (p : Payload) : g.size < (g.add p).size := by simp

theorem lt_size_add {g : Graph} {id : NodeId} (h : id < g.size)
    (p : Payload) : id < (g.add p).size :=
  Nat.lt_trans h (g.size_lt_add p)

theorem payload?_add (g : Graph) (p : Payload) (id : NodeId) :
    (g.add p).payload? id = if id = g.size then some p else g.payload? id := payload?_push ..

theorem kind?_add (g : Graph) (p : Payload) (id : NodeId) :
    (g.add p).kind? id = if id = g.size then some p.kind else g.kind? id := by
  rw [kind?_eq, kind?_eq, payload?_add]
  split <;> rfl

theorem kind?_add_of_lt (g : Graph) (p : Payload) {id : NodeId} (h : id < g.size) :
    (g.add p).kind? id = g.kind? id := by
  rw [kind?_add, if_neg (Nat.ne_of_lt h)]

@[simp] theorem owner?_add (g : Graph) (p : Payload) (id : NodeId) :
    (g.add p).owner? id = g.owner? id := by
  simp only [add, owner?_push]
  split
  · next h => simp [h, owner?, g.node?_eq_none (Nat.le_refl g.size)]
  · rfl

@[simp] theorem children_add (g : Graph) (p : Payload) (id : NodeId) :
    (g.add p).children id = g.children id := by
  simp only [add, children_push]
  split
  · next h => simp [h, g.children_eq_nil (Nat.le_refl g.size)]
  · rfl

/-! ## A node is attached -/

def Node.attached (parent child id : NodeId) (node : Node) : Node where
  payload := node.payload
  owner := if id = child ∧ child ≠ root then node.owner.or (some parent) else node.owner
  children := if id = parent then node.children ++ [child] else node.children

theorem node?_attach (g : Graph) (parent child id : NodeId) :
    (g.attach parent child).node? id = (g.node? id).map (Node.attached parent child id) := by
  have hmod :
      (g.nodes.modify parent fun node => { node with children := node.children ++ [child] })[id]? =
      (g.nodes[id]?).map fun node =>
        { node with
          children := if id = parent then node.children ++ [child] else node.children } := by
    rw [Array.getElem?_modify]
    by_cases h : parent = id <;> simp [h, eq_comm]
  by_cases hr : child = root
  · simp only [attach, node?, if_pos hr, hmod]
    cases g.nodes[id]? <;> simp [Node.attached, hr]
  · simp only [attach, node?, if_neg hr, Array.getElem?_modify, hmod]
    by_cases h : child = id
    · subst h
      cases g.nodes[child]? <;> simp [Node.attached, Node.claim, hr]
    · have h' : ¬ id = child := fun e => h e.symm
      cases g.nodes[id]? <;> simp [Node.attached, h, h']

@[simp] theorem size_attach (g : Graph) (parent child : NodeId) :
    (g.attach parent child).size = g.size := by
  simp only [attach, size]
  split <;> simp

@[simp] theorem payload?_attach (g : Graph) (parent child id : NodeId) :
    (g.attach parent child).payload? id = g.payload? id := by
  simp [payload?, node?_attach, Function.comp_def, Node.attached]

@[simp] theorem kind?_attach (g : Graph) (parent child id : NodeId) :
    (g.attach parent child).kind? id = g.kind? id := by simp [kind?_eq]

theorem children_attach (g : Graph) {parent : NodeId} (child id : NodeId) (hp : parent < g.size) :
    (g.attach parent child).children id =
      if id = parent then g.children parent ++ [child] else g.children id := by
  simp only [children, node?_attach, Option.map_map]
  by_cases h : id = parent
  · subst h
    obtain ⟨node, hn⟩ := exists_node hp
    simp [hn, Node.attached]
  · simp [h, Function.comp_def, Node.attached]

theorem length_children_attach {g : Graph} {parent : NodeId} (hp : parent < g.size)
    (child id : NodeId) :
    ((g.attach parent child).children id).length = (g.children id).length + if id = parent
      then 1 else 0 := by
  rw [g.children_attach child id hp]
  split
  next he => simp [he]
  next => rfl

theorem mem_children_attach {g : Graph} {parent child id x : NodeId} (hp : parent < g.size) :
    x ∈ (g.attach parent child).children id ↔ x ∈ g.children id ∨ (id = parent ∧ x = child) := by
  rw [g.children_attach child id hp]
  by_cases he : id = parent
  · simp [he]
  · simp [he]

theorem owner?_attach (g : Graph) (parent : NodeId) {child : NodeId} (id : NodeId)
    (hc : child < g.size) (hr : child ≠ root) :
    (g.attach parent child).owner? id =
      if id = child then (g.owner? child).or (some parent) else g.owner? id := by
  simp only [owner?, node?_attach]
  by_cases h : id = child
  · subst h
    obtain ⟨node, hn⟩ := exists_node hc
    simp [hn, Node.attached, hr]
  · cases g.node? id <;> simp [h, Node.attached]

/-- Who owns a node after a node is attached did so before, or is the new parent of a node that was
free. -/
theorem owner?_of_attach {g : Graph} {parent child id owner : NodeId} (hc : child < g.size)
    (hr : child ≠ root) (ho : (g.attach parent child).owner? id = some owner) :
    g.owner? id = some owner ∨ owner = parent ∧ g.owner? child = none := by
  rw [g.owner?_attach parent id hc hr] at ho
  split at ho
  next he =>
    cases hown : g.owner? child with
    | none =>
      rw [hown, Option.none_or] at ho
      exact .inr ⟨(Option.some.inj ho).symm, rfl⟩
    | some above =>
      rw [hown, Option.some_or] at ho
      exact .inl (he ▸ hown.trans ho)
  next => exact .inl ho

end MotionScript.Graph
