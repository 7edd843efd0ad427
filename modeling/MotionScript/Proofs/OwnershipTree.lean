import MotionScript.Proofs.GraphEdits

/-!
# Ownership as a tree

A graph that is being recorded has a few loose nodes, which nobody owns and no edge touches; every
other node but the root has an owner, and the chain of owners leads to the root. The two elementary
edits keep this: a new node is loose, and a node that is attached is loose no longer.
-/
namespace MotionScript.Graph

/-- The chain of owners from a node leads to the root. -/
inductive Rooted (g : Graph) : NodeId → Prop
  | root : Rooted g root
  | step {id owner : NodeId} : g.owner? id = some owner → Rooted g owner → Rooted g id

/-- A node to which others can be attached: the root, or a node that is owned. -/
def Anchored (g : Graph) (id : NodeId) : Prop := id = root ∨ ∃ owner, g.owner? id = some owner

/-- Nodes are named by their places, edges and owners stay inside the graph, the root is apart, and
every node that is not loose hangs below the root by a chain of owners that list what they own. -/
structure Sound (g : Graph) (loose : NodeId → Prop) : Prop where
  place : ∀ id, (g.node? id).isSome ↔ id < g.size
  root_payload : g.payload? root = some .root
  root_owner : g.owner? root = none
  root_not_child : ∀ id, root ∉ g.children id
  child_lt : ∀ id, ∀ child ∈ g.children id, child < g.size
  owner_lt : ∀ id owner, g.owner? id = some owner → owner < g.size
  owner_lists : ∀ id owner, g.owner? id = some owner → id ∈ g.children owner
  owned_rooted : ∀ id owner, g.owner? id = some owner → g.Rooted id
  loose_lt : ∀ id, loose id → id < g.size ∧ id ≠ root
  unowned_iff : ∀ id < g.size, id ≠ root → (g.owner? id = none ↔ loose id)
  loose_children : ∀ id, loose id → g.children id = []
  loose_not_child : ∀ id, loose id → ∀ parent, id ∉ g.children parent

variable {g : Graph} {loose : NodeId → Prop}

theorem Rooted.mono {g' : Graph}
    (h : ∀ id owner, g.owner? id = some owner → g'.owner? id = some owner) {id : NodeId}
    (hr : g.Rooted id) : g'.Rooted id := by
  induction hr with
  | root => exact .root
  | step ho _ ih => exact .step (h _ _ ho) ih

namespace Sound

theorem root_lt (h : g.Sound loose) : root < g.size := lt_size_of_payload? h.root_payload

theorem anchored_lt (h : g.Sound loose) {id : NodeId} (ha : g.Anchored id) : id < g.size := by
  rcases ha with rfl | ⟨owner, ho⟩
  · exact h.root_lt
  · exact lt_size_of_owner? ho

theorem rooted (h : g.Sound loose) {id : NodeId} (ha : g.Anchored id) : g.Rooted id := by
  rcases ha with rfl | ⟨owner, ho⟩
  · exact .root
  · exact h.owned_rooted id owner ho

theorem owner?_of_loose (h : g.Sound loose) {id : NodeId} (hl : loose id) : g.owner? id = none :=
  (h.unowned_iff id (h.loose_lt id hl).1 (h.loose_lt id hl).2).mpr hl

theorem not_loose (h : g.Sound loose) {id : NodeId} (ha : g.Anchored id) : ¬ loose id := by
  intro hl
  rcases ha with rfl | ⟨owner, ho⟩
  · exact (h.loose_lt _ hl).2 rfl
  · simp [h.owner?_of_loose hl] at ho

theorem ne_root (h : g.Sound loose) {id owner : NodeId}
    (ho : g.owner? id = some owner) : id ≠ root := by
  rintro rfl
  simp [h.root_owner] at ho

theorem anchored (h : g.Sound loose) {id : NodeId} (hid : id < g.size)
    (hl : ¬ loose id) : g.Anchored id := by
  by_cases hr : id = root
  · exact .inl hr
  · exact .inr (Option.ne_none_iff_exists'.mp fun hn => hl ((h.unowned_iff id hid hr).mp hn))

/-- The same graph with another account of what is loose. -/
theorem congr {loose' : NodeId → Prop} (h : g.Sound loose)
    (he : ∀ id, loose' id ↔ loose id) : g.Sound loose' := by
  have : loose' = loose := funext fun id => propext (he id)
  rwa [this]

theorem add (h : g.Sound loose) (p : Payload) :
    (g.add p).Sound fun id => loose id ∨ id = g.size where
  place := node?_isSome_iff _
  root_payload := by
    rw [payload?_add, if_neg (Nat.ne_of_lt h.root_lt)]
    exact h.root_payload
  root_owner := by simpa using h.root_owner
  root_not_child id := by simpa using h.root_not_child id
  child_lt id child hc := lt_size_add (h.child_lt id child (by simpa using hc)) p
  owner_lt id owner ho := lt_size_add (h.owner_lt id owner (by simpa using ho)) p
  owner_lists id owner ho := by simpa using h.owner_lists id owner (by simpa using ho)
  owned_rooted id owner ho := (h.owned_rooted id owner (by simpa using ho)).mono fun i o hi => by
    simpa using hi
  loose_lt id hl := by
    rw [size_add]
    rcases hl with hl | rfl
    · exact ⟨Nat.lt_succ_of_lt (h.loose_lt id hl).1, (h.loose_lt id hl).2⟩
    · exact ⟨Nat.lt_succ_self _, Nat.ne_of_gt h.root_lt⟩
  unowned_iff id hid hr := by
    rw [owner?_add]
    by_cases he : id = g.size
    · have hn : g.owner? id = none := by simp [owner?, g.node?_eq_none (Nat.le_of_eq he.symm)]
      simp [he, he ▸ hn]
    · have hlt : id < g.size := by
        rw [size_add] at hid
        omega
      simp [h.unowned_iff id hlt hr, he]
  loose_children id hl := by
    rw [children_add]
    rcases hl with hl | rfl
    · exact h.loose_children id hl
    · exact g.children_eq_nil (Nat.le_refl _)
  loose_not_child id hl parent hm := by
    rw [children_add] at hm
    rcases hl with hl | rfl
    · exact h.loose_not_child id hl parent hm
    · exact Nat.lt_irrefl _ (h.child_lt parent _ hm)

/-- A loose node that is attached to an anchored one belongs to it from then on. -/
theorem attach_loose (h : g.Sound loose) {parent child : NodeId} (hp : g.Anchored parent)
    (hc : loose child) :
    (g.attach parent child).Sound fun id => loose id ∧ id ≠ child := by
  have hplt := h.anchored_lt hp
  obtain ⟨hclt, hcr⟩ := h.loose_lt child hc
  have hown (id : NodeId) :
      (g.attach parent child).owner? id = if id = child then some parent else g.owner? id := by
    rw [g.owner?_attach parent id hclt hcr, h.owner?_of_loose hc, Option.none_or]
  have hkeep (id owner : NodeId) (ho : g.owner? id = some owner) :
      (g.attach parent child).owner? id = some owner := by
    rw [hown, if_neg, ho]
    rintro rfl
    simp [h.owner?_of_loose hc] at ho
  have hne : parent ≠ child := fun he => h.not_loose hp (he ▸ hc)
  constructor
  case place => exact node?_isSome_iff _
  case root_payload => simpa using h.root_payload
  case root_owner => rw [hown, if_neg (Ne.symm hcr), h.root_owner]
  case root_not_child =>
    intro id hm
    rcases (mem_children_attach hplt).mp hm with hm | ⟨-, he⟩
    · exact h.root_not_child id hm
    · exact hcr he.symm
  case child_lt =>
    intro id x hm
    rw [size_attach]
    rcases (mem_children_attach hplt).mp hm with hm | ⟨-, rfl⟩
    · exact h.child_lt id x hm
    · exact hclt
  case owner_lt =>
    intro id owner ho
    rw [size_attach]
    rw [hown] at ho
    split at ho
    · exact Option.some.inj ho ▸ hplt
    · exact h.owner_lt id owner ho
  case owner_lists =>
    intro id owner ho
    rw [mem_children_attach hplt]
    rw [hown] at ho
    split at ho
    next he => exact .inr ⟨(Option.some.inj ho).symm, he⟩
    next => exact .inl (h.owner_lists id owner ho)
  case owned_rooted =>
    intro id owner ho
    rw [hown] at ho
    split at ho
    next he => exact .step (by rw [hown, if_pos he]) ((h.rooted hp).mono hkeep)
    next => exact (h.owned_rooted id owner ho).mono hkeep
  case loose_lt => exact fun id hl => by simpa using h.loose_lt id hl.1
  case unowned_iff =>
    intro id hid hr
    rw [size_attach] at hid
    rw [hown]
    by_cases he : id = child
    · simp [he]
    · simp [he, h.unowned_iff id hid hr]
  case loose_children =>
    intro id hl
    have : id ≠ parent := fun he => h.not_loose hp (he ▸ hl.1)
    rw [g.children_attach child id hplt, if_neg this]
    exact h.loose_children id hl.1
  case loose_not_child =>
    intro id hl p hm
    rcases (mem_children_attach hplt).mp hm with hm | ⟨-, he⟩
    · exact h.loose_not_child id hl.1 p hm
    · exact hl.2 he

/-- To attach a node that is owned already only adds an edge. -/
theorem attach_owned (h : g.Sound loose) {parent child owner : NodeId} (hp : g.Anchored parent)
    (hc : g.owner? child = some owner) : (g.attach parent child).Sound loose := by
  have hplt := h.anchored_lt hp
  have hclt := lt_size_of_owner? hc
  have hcr := h.ne_root hc
  have hown (id : NodeId) : (g.attach parent child).owner? id = g.owner? id := by
    rw [g.owner?_attach parent id hclt hcr]
    split
    next he => rw [hc, he, hc, Option.some_or]
    next => rfl
  constructor
  case place => exact node?_isSome_iff _
  case root_payload => simpa using h.root_payload
  case root_owner => rw [hown, h.root_owner]
  case root_not_child =>
    intro id hm
    rcases (mem_children_attach hplt).mp hm with hm | ⟨-, he⟩
    · exact h.root_not_child id hm
    · exact hcr he.symm
  case child_lt =>
    intro id x hm
    rw [size_attach]
    rcases (mem_children_attach hplt).mp hm with hm | ⟨-, rfl⟩
    · exact h.child_lt id x hm
    · exact hclt
  case owner_lt => exact fun id o ho => by simpa using h.owner_lt id o (hown id ▸ ho)
  case owner_lists =>
    exact fun id o ho => (mem_children_attach hplt).mpr (.inl (h.owner_lists id o (hown id ▸ ho)))
  case owned_rooted =>
    exact fun id o ho => (h.owned_rooted id o (hown id ▸ ho)).mono fun i o hi => (hown i).trans hi
  case loose_lt => exact fun id hl => by simpa using h.loose_lt id hl
  case unowned_iff =>
    intro id hid hr
    rw [size_attach] at hid
    rw [hown, h.unowned_iff id hid hr]
  case loose_children =>
    intro id hl
    have : id ≠ parent := fun he => h.not_loose hp (he ▸ hl)
    rw [g.children_attach child id hplt, if_neg this]
    exact h.loose_children id hl
  case loose_not_child =>
    intro id hl p hm
    rcases (mem_children_attach hplt).mp hm with hm | ⟨-, rfl⟩
    · exact h.loose_not_child id hl p hm
    · exact h.not_loose (.inr ⟨owner, hc⟩) hl

end Sound
end MotionScript.Graph
