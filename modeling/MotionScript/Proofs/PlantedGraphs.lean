import MotionScript.Proofs.GraphRenaming
import MotionScript.Proofs.OwnedTail

/-!
# A graph planted into another

A graph is planted at a node of another when its nodes, but for the root, stand beyond those of the
other with the edges and owners that they had, and the node stands in for the root: it gets the
children of the root after its own. Both to record instructions and to graft a plan of them plants
the graph that a fresh builder would have made, in different orders. Two graphs into which the same
graph was planted at the same node are the same up to names.
-/
namespace MotionScript.Graph

def Node.extended (more : List NodeId) (node : Node) : Node :=
  { node with children := node.children ++ more }

/-- The graph `p` is planted into `g` at `spot`, and its nodes are renamed on the way. -/
structure Planted (f : NodeId → NodeId) (g : Graph) (spot : NodeId) (p g' : Graph) : Prop where
  root : f Graph.root = spot
  size : g'.size + 1 = g.size + p.size
  place : ∀ id < p.size, id ≠ Graph.root → g.size ≤ f id ∧ f id < g'.size
  injective : ∀ id < p.size, ∀ other < p.size, id ≠ Graph.root → other ≠ Graph.root →
    f id = f other → id = other
  inner : ∀ id < p.size, id ≠ Graph.root → g'.node? (f id) = (p.node? id).map (Node.renamed f)
  outer : ∀ id < g.size, g'.node? id =
    (g.node? id).map (Node.extended (if id = spot then (p.children Graph.root).map f else []))

/-- The names of planted nodes when they keep their order. -/
def inOrder (spot : NodeId) (bound : Nat) : NodeId → NodeId
  | 0 => spot
  | id + 1 => bound + id

/-- The renaming that carries a graph planted in the order of its nodes into one planted by `f`. -/
def replanting (f : NodeId → NodeId) (bound limit : Nat) (id : NodeId) : NodeId :=
  if id < bound then id else if id < limit then f (id - bound + 1) else id

namespace Planted

variable {f : NodeId → NodeId} {g p g' : Graph} {spot : NodeId}

theorem size_le (h : Planted f g spot p g') (hroot : Graph.root < p.size) : g.size ≤ g'.size := by
  have hsize := h.size
  have : 0 < p.size := hroot
  omega

theorem eq_iff (h : Planted f g spot p g') (hspot : spot < g.size) {id other : NodeId}
    (hid : id < p.size) (hother : other < p.size) (hne : id ≠ Graph.root) :
    f id = f other ↔ id = other := by
  refine ⟨fun he => ?_, fun he => he ▸ rfl⟩
  by_cases hr : other = Graph.root
  · rw [hr, h.root] at he
    exact absurd (he ▸ (h.place id hid hne).1) (Nat.not_le_of_lt hspot)
  · exact h.injective id hid other hother hne hr he

theorem children (h : Planted f g spot p g') {id : NodeId} (hid : id < p.size)
    (hne : id ≠ Graph.root) :
    g'.children (f id) = (p.children id).map f := by
  simp only [Graph.children, h.inner id hid hne]
  cases p.node? id <;> rfl

theorem owner? (h : Planted f g spot p g') {id : NodeId} (hid : id < p.size)
    (hne : id ≠ Graph.root) :
    g'.owner? (f id) = (p.owner? id).map f := by
  simp only [Graph.owner?, h.inner id hid hne]
  cases p.node? id <;> rfl

theorem payload? (h : Planted f g spot p g') {id : NodeId} (hid : id < p.size)
    (hne : id ≠ Graph.root) :
    g'.payload? (f id) = p.payload? id := by
  simp only [Graph.payload?, h.inner id hid hne]
  cases p.node? id <;> rfl

theorem of_root (hsize : p.size = 1) (hchildren : p.children Graph.root = [])
    (hroot : f Graph.root = spot) :
    Planted f g spot p g := by
  have hid (id : NodeId) (hlt : id < p.size) : id = Graph.root := Nat.lt_one_iff.mp (hsize ▸ hlt)
  refine ⟨hroot, by rw [hsize], fun id hlt hne => absurd (hid id hlt) hne,
    fun id hlt _ _ hne => absurd (hid id hlt) hne, fun id hlt hne => absurd (hid id hlt) hne,
    fun id _ => ?_⟩
  have hsame : Node.extended (if id = spot then (p.children Graph.root).map f else []) =
      fun node => node := by
    funext node
    simp [Node.extended, hchildren]
  rw [hsame, Option.map_id']

/-- A new node is planted at the end, if the renaming says so. -/
theorem add (h : Planted f g spot p g') (hroot : Graph.root < p.size) (hnext : f p.size = g'.size)
    (q : Payload) :
    Planted f g spot (p.add q) (g'.add q) := by
  have hold {id : NodeId} (hid : id < (p.add q).size) (hne : id ≠ p.size) : id < p.size := by
    rw [size_add] at hid
    exact Nat.lt_of_le_of_ne (Nat.le_of_lt_succ hid) hne
  have hfar {id : NodeId} (hid : id < p.size) (hr : id ≠ Graph.root) : f id ≠ g'.size :=
    Nat.ne_of_lt (h.place id hid hr).2
  have hsize : (g'.add q).size + 1 = g.size + (p.add q).size := by
    rw [size_add, size_add, h.size, Nat.add_assoc]
  refine ⟨h.root, hsize, fun id hid hr => ?_, fun id hid other hother hr hr' he => ?_,
    fun id hid hr => ?_, fun id hid => ?_⟩
  · rw [size_add]
    by_cases hne : id = p.size
    · rw [hne, hnext]
      exact ⟨h.size_le hroot, Nat.lt_succ_self _⟩
    · exact ⟨(h.place id (hold hid hne) hr).1, Nat.lt_succ_of_lt (h.place id (hold hid hne) hr).2⟩
  · by_cases hne : id = p.size
    · by_cases hne' : other = p.size
      · exact hne.trans hne'.symm
      · exact absurd (he.symm.trans (hne ▸ hnext)) (hfar (hold hother hne') hr')
    · by_cases hne' : other = p.size
      · exact absurd (he.trans (hne' ▸ hnext)) (hfar (hold hid hne) hr)
      · exact h.injective id (hold hid hne) other (hold hother hne') hr hr' he
  · simp only [Graph.add, node?_push]
    by_cases hne : id = p.size
    · rw [if_pos hne, if_pos (hne ▸ hnext)]
      rfl
    · rw [if_neg hne, if_neg (hfar (hold hid hne) hr), h.inner id (hold hid hne) hr]
  · rw [children_add, Graph.add, node?_push,
      if_neg (Nat.ne_of_lt (Nat.lt_of_lt_of_le hid (h.size_le hroot))), h.outer id hid]

/-- A node is attached in the planted graph as it was before. -/
theorem attach (h : Planted f g spot p g') (hspot : spot < g.size) {parent child : NodeId}
    (hparent : parent < p.size) (hchild : child < p.size) (hne : child ≠ Graph.root) :
    Planted f g spot (p.attach parent child) (g'.attach (f parent) (f child)) := by
  have hfar := (h.place child hchild hne).1
  have hpos : 0 < f child := Nat.lt_of_lt_of_le (Nat.lt_of_le_of_lt (Nat.zero_le _) hspot) hfar
  refine ⟨h.root, by simpa using h.size, by simpa using h.place, by simpa using h.injective,
    fun id hid hr => ?_, fun id hid => ?_⟩
  · rw [size_attach] at hid
    rw [node?_attach, node?_attach, h.inner id hid hr, Option.map_map, Option.map_map]
    congr 1
    funext node
    simp only [Function.comp_apply, Node.attached, Node.renamed, h.eq_iff hspot hid hchild hr,
      h.eq_iff hspot hid hparent hr, hne, ne_eq, not_false_eq_true, and_true,
      show f child ≠ Graph.root from Nat.ne_of_gt hpos]
    congr 1
    · split
      · cases node.owner <;> rfl
      · rfl
    · split <;> simp
  · have hidne : id ≠ f child := Nat.ne_of_lt (Nat.lt_of_lt_of_le hid hfar)
    have hspotIff : id = f parent ↔ id = spot ∧ parent = Graph.root := by
      constructor
      · rintro rfl
        by_cases hr : parent = Graph.root
        · exact ⟨hr ▸ h.root, hr⟩
        · exact absurd hid (Nat.not_lt_of_le (h.place parent hparent hr).1)
      · rintro ⟨rfl, rfl⟩
        exact h.root.symm
    rw [node?_attach, h.outer id hid, Option.map_map, p.children_attach child Graph.root hparent]
    congr 1
    funext node
    simp only [Function.comp_apply, Node.attached, Node.extended, hidne, false_and,
      if_false, hspotIff]
    congr 1
    by_cases hs : id = spot
    · by_cases hr : parent = Graph.root
      · simp [hs, hr]
      · simp [hs, hr, Ne.symm hr]
    · simp [hs]

theorem replanting_of_lt {id bound : Nat} (h : id < bound) (f : NodeId → NodeId) (limit : Nat) :
    replanting f bound limit id = id := if_pos h

theorem replanting_inOrder (h : Planted f g spot p g') (hspot : spot < g.size) {id : NodeId}
    (hid : id < p.size) :
    replanting f g.size g'.size (inOrder spot g.size id) = f id := by
  have hsize := h.size
  cases id with
  | zero => rw [inOrder, replanting_of_lt hspot, ← h.root]; rfl
  | succ id =>
    have hid : id + 1 < p.size := hid
    have hlt : g.size + id < g'.size := by omega
    rw [inOrder, replanting, if_neg (Nat.not_lt_of_le (Nat.le_add_right _ _)), if_pos hlt,
      Nat.add_sub_cancel_left]

theorem replanting_of_le (h : Planted f g spot p g') (hroot : Graph.root < p.size) {id : NodeId}
    (hid : g'.size ≤ id) :
    replanting f g.size g'.size id = id := by
  rw [replanting, if_neg (Nat.not_lt_of_le (Nat.le_trans (h.size_le hroot) hid)),
    if_neg (Nat.not_lt_of_le hid)]

/-- A name is old, or that of a planted node, or not used yet. -/
theorem name_cases (h : Planted f g spot p g') (id : NodeId) :
    id < g.size ∨ (∃ x < p.size, x ≠ Graph.root ∧ id = inOrder spot g.size x) ∨ g'.size ≤ id := by
  have hsize := h.size
  rcases Nat.lt_or_ge id g.size with hlt | hge
  · exact .inl hlt
  rcases Nat.lt_or_ge id g'.size with hlt | hge'
  · obtain ⟨index, rfl⟩ := Nat.exists_eq_add_of_le hge
    have hindex : index + 1 < p.size := by omega
    exact .inr (.inl ⟨index + 1, hindex, Nat.succ_ne_zero _, rfl⟩)
  · exact .inr (.inr hge')

theorem replanting_injective (h : Planted f g spot p g') (hspot : spot < g.size)
    (hroot : Graph.root < p.size) :
    Function.Injective (replanting f g.size g'.size) := by
  have hmap {id : NodeId} (hid : id < p.size) := h.replanting_inOrder hspot hid
  have hlow {id : NodeId} (hid : id < g.size) : replanting f g.size g'.size id = id :=
    replanting_of_lt hid f g'.size
  have hhigh {id : NodeId} (hid : g'.size ≤ id) := h.replanting_of_le hroot hid
  have hbound := h.size_le hroot
  intro id other he
  rcases h.name_cases id with hid | ⟨x, hx, hne, rfl⟩ | hid <;>
    rcases h.name_cases other with hother | ⟨y, hy, hne', rfl⟩ | hother
  · rwa [hlow hid, hlow hother] at he
  · rw [hlow hid, hmap hy] at he
    exact absurd (h.place y hy hne').1 (Nat.not_le_of_lt (he ▸ hid))
  · rw [hlow hid, hhigh hother] at he
    exact absurd (he ▸ hid) (Nat.not_lt_of_le (Nat.le_trans hbound hother))
  · rw [hmap hx, hlow hother] at he
    exact absurd (h.place x hx hne).1 (Nat.not_le_of_lt (he ▸ hother))
  · rw [hmap hx, hmap hy] at he
    rw [h.injective x hx y hy hne hne' he]
  · rw [hmap hx, hhigh hother] at he
    exact absurd (h.place x hx hne).2 (Nat.not_lt_of_le (he ▸ hother))
  · rw [hhigh hid, hlow hother] at he
    exact absurd (he ▸ hother) (Nat.not_lt_of_le (Nat.le_trans hbound hid))
  · rw [hhigh hid, hmap hy] at he
    exact absurd (h.place y hy hne').2 (Nat.not_lt_of_le (he ▸ hid))
  · rwa [hhigh hid, hhigh hother] at he

/-- The renaming carries the planted nodes into each other. -/
theorem renamed_inner {loose : NodeId → Prop} {g₁ : Graph} (hp : p.Sound loose)
    (hspot : spot < g.size) (h₁ : Planted (inOrder spot g.size) g spot p g₁)
    (h : Planted f g spot p g') {x : NodeId} (hx : x < p.size) (hne : x ≠ Graph.root) :
    g'.node? (f x) = (g₁.node? (inOrder spot g.size x)).map
      (Node.renamed (replanting f g.size g'.size)) := by
  have hmap {id : NodeId} (hid : id < p.size) := h.replanting_inOrder hspot hid
  rw [h.inner x hx hne, h₁.inner x hx hne, Option.map_map]
  obtain ⟨node, hn⟩ := exists_node hx
  have howner : node.owner.map (replanting f g.size g'.size ∘ inOrder spot g.size) =
      node.owner.map f := by
    cases ho : node.owner with
    | none => rfl
    | some owner =>
      exact congrArg some (hmap (hp.owner_lt x owner (by simp [Graph.owner?, hn, ho])))
  have hchildren : node.children.map (replanting f g.size g'.size ∘ inOrder spot g.size) =
      node.children.map f :=
    List.map_congr_left fun child hc =>
      hmap (hp.child_lt x child (by simpa [Graph.children, hn] using hc))
  rw [hn]
  simp only [Option.map_some, Function.comp_apply, Node.renamed, Option.map_map, List.map_map,
    howner, hchildren]

/-- The renaming carries the old nodes into themselves, and the children that the spot has got into
each other. -/
theorem renamed_outer {loose loose' : NodeId → Prop} {g₁ : Graph} (hg : g.Sound loose)
    (hp : p.Sound loose') (hspot : spot < g.size) (h₁ : Planted (inOrder spot g.size) g spot p g₁)
    (h : Planted f g spot p g') {id : NodeId} (hid : id < g.size) :
    g'.node? id = (g₁.node? id).map (Node.renamed (replanting f g.size g'.size)) := by
  rw [h.outer id hid, h₁.outer id hid, Option.map_map]
  obtain ⟨node, hn⟩ := exists_node hid
  have howner : node.owner.map (replanting f g.size g'.size) = node.owner := by
    cases ho : node.owner with
    | none => rfl
    | some owner =>
      exact congrArg some
        (replanting_of_lt (hg.owner_lt id owner (by simp [Graph.owner?, hn, ho])) f _)
  have hchildren : node.children.map (replanting f g.size g'.size) = node.children := by
    refine (List.map_congr_left fun child hc => ?_).trans (List.map_id' _)
    exact replanting_of_lt (hg.child_lt id child (by simpa [Graph.children, hn] using hc)) f _
  have hmore : (p.children Graph.root).map (replanting f g.size g'.size ∘ inOrder spot g.size) =
      (p.children Graph.root).map f :=
    List.map_congr_left fun child hc => h.replanting_inOrder hspot (hp.child_lt _ child hc)
  rw [hn, Option.map_some, Option.map_some, Function.comp_apply]
  congr 1
  simp only [Node.renamed, Node.extended, howner, List.map_append, hchildren]
  congr 2
  split
  · rw [List.map_map, hmore]
  · rfl

/-- Two graphs into which the same graph was planted, in the order of its nodes and in another, are
the same up to names. -/
theorem renames {loose loose' : NodeId → Prop} {g₁ : Graph} (hg : g.Sound loose)
    (hp : p.Sound loose') (hspot : spot < g.size) (h₁ : Planted (inOrder spot g.size) g spot p g₁)
    (h : Planted f g spot p g') :
    Renames (replanting f g.size g'.size) g₁ g' := by
  have hsize : g'.size = g₁.size := Nat.succ.inj (h.size.trans h₁.size.symm)
  have hhigh {id : NodeId} (hid : g'.size ≤ id) := h.replanting_of_le hp.root_lt hid
  refine ⟨h.replanting_injective hspot hp.root_lt, replanting_of_lt hg.root_lt f _, hsize,
    fun id hid => hhigh (hsize ▸ hid), fun id => ?_⟩
  rcases h.name_cases id with hid | ⟨x, hx, hne, rfl⟩ | hid
  · rw [replanting_of_lt hid, renamed_outer hg hp hspot h₁ h hid]
  · rw [h.replanting_inOrder hspot hx, renamed_inner hp hspot h₁ h hx hne]
  · rw [hhigh hid, g'.node?_eq_none hid, g₁.node?_eq_none (hsize ▸ hid)]
    rfl

/-! ## The tail of a planted node -/

theorem lastOwned? {loose : NodeId → Prop} (h : Planted f g spot p g') (hp : p.Sound loose)
    (hspot : spot < g.size) {id : NodeId} (hid : id < p.size) (hne : id ≠ Graph.root) :
    g'.lastOwned? (f id) = (p.lastOwned? id).map f := by
  have howns (children : List NodeId) (hsub : ∀ child ∈ children, child ∈ p.children id) :
      (children.map f).find? (fun child => g'.owner? child == some (f id)) =
        (children.find? fun child => p.owner? child == some id).map f := by
    induction children with
    | nil => rfl
    | cons child rest ih =>
      have hc := hsub child List.mem_cons_self
      have hlt := hp.child_lt id child hc
      have hroot : child ≠ Graph.root := fun he => hp.root_not_child id (he ▸ hc)
      have hiff : (g'.owner? (f child) == some (f id)) = (p.owner? child == some id) := by
        rw [h.owner? hlt hroot]
        cases ho : p.owner? child with
        | none => rfl
        | some owner =>
          have hup := hp.owner_lt child owner ho
          have := h.eq_iff hspot hid hup hne
          simp [eq_comm (a := f owner), this, eq_comm (a := owner)]
      rw [List.map_cons, List.find?_cons, List.find?_cons, hiff,
        ih fun x hx => hsub x (List.mem_cons_of_mem _ hx)]
      split <;> rfl
  rw [Graph.lastOwned?, h.children hid hne, ← List.map_reverse,
    howns _ fun child hc => List.mem_reverse.mp hc, Graph.lastOwned?]

theorem followOwned {loose : NodeId → Prop} (h : Planted f g spot p g') (hp : p.Sound loose)
    (hspot : spot < g.size) (steps : Nat) {id : NodeId} (hid : id < p.size)
    (hne : id ≠ Graph.root) :
    g'.followOwned steps (f id) = f (p.followOwned steps id) := by
  induction steps generalizing id with
  | zero => rfl
  | succ steps ih =>
    simp only [Graph.followOwned, h.lastOwned? hp hspot hid hne]
    cases hc : p.lastOwned? id with
    | none => rfl
    | some child =>
      have ho := owner?_of_lastOwned? hc
      exact ih (lt_size_of_owner? ho) (hp.ne_root ho)

end Planted
end MotionScript.Graph
