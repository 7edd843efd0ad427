import MotionScript.Builder
import MotionScript.Proofs.OwnershipTree
import MotionScript.Proofs.PlanValidity

/-!
# Graphs with a plan grafted onto them

To graft a plan is to put its nodes at the end of the array, with every index moved by the size of
the graph, and to attach the entry. The grafted nodes only touch each other, so ownership remains a
tree: what the entry owns hangs below the node that the entry was attached to.
-/
namespace MotionScript

namespace Graph

def withNodes (g : Graph) (base : Nat) (nodes : List PlanNode) : Graph :=
  nodes.foldl (fun g node => g.push (Builder.shifted base node)) g

def withPlan (g : Graph) (parent : NodeId) (plan : Plan) : Graph :=
  (g.withNodes g.size plan.nodes).attach parent g.size

@[simp] theorem withNodes_cons (g : Graph) (base : Nat) (node : PlanNode) (rest : List PlanNode) :
    g.withNodes base (node :: rest) =
      (g.push (Builder.shifted base node)).withNodes base rest := rfl

theorem size_withNodes (g : Graph) (base : Nat) (nodes : List PlanNode) :
    (g.withNodes base nodes).size = g.size + nodes.length := by
  induction nodes generalizing g with
  | nil => rfl
  | cons node rest ih =>
    have h := ih (g.push (Builder.shifted base node))
    simp only [size_push] at h
    rw [withNodes_cons, h, List.length_cons]
    omega

theorem node?_withNodes_of_lt (g : Graph) (base : Nat) (nodes : List PlanNode) {id : NodeId}
    (h : id < g.size) :
    (g.withNodes base nodes).node? id = g.node? id := by
  induction nodes generalizing g with
  | nil => rfl
  | cons node rest ih =>
    have hn := ih (g.push (Builder.shifted base node))
      (by rw [size_push]; exact Nat.lt_succ_of_lt h)
    rwa [node?_push, if_neg (Nat.ne_of_lt h)] at hn

theorem node?_withNodes_add (g : Graph) (base : Nat) (nodes : List PlanNode) (index : Nat) :
    (g.withNodes base nodes).node? (g.size + index) =
      (nodes[index]?).map (Builder.shifted base) := by
  induction nodes generalizing g index with
  | nil => simpa [withNodes] using g.node?_eq_none (Nat.le_add_right _ _)
  | cons node rest ih =>
    cases index with
    | zero =>
      have hlt : g.size < (g.push (Builder.shifted base node)).size := by simp
      have hn := (g.push (Builder.shifted base node)).node?_withNodes_of_lt base rest hlt
      simpa [node?_push] using hn
    | succ index =>
      have hn := ih (g.push (Builder.shifted base node)) index
      rw [size_push, Nat.add_right_comm, Nat.add_assoc] at hn
      simpa using hn

@[simp] theorem size_withPlan (g : Graph) (parent : NodeId) (plan : Plan) :
    (g.withPlan parent plan).size = g.size + plan.nodes.length := by simp [withPlan, size_withNodes]

variable {g : Graph} {loose : NodeId → Prop} {parent : NodeId} {plan : Plan}

theorem node?_withPlan_of_lt (parent : NodeId) (plan : Plan) {id : NodeId} (h : id < g.size) :
    (g.withPlan parent plan).node? id = (g.node? id).map (Node.attached parent g.size id) := by
  rw [withPlan, node?_attach, node?_withNodes_of_lt g g.size plan.nodes h]

theorem node?_withPlan_add (g : Graph) (parent : NodeId) (plan : Plan) (index : Nat) :
    (g.withPlan parent plan).node? (g.size + index) =
      (plan.nodes[index]?).map fun node =>
        Node.attached parent g.size (g.size + index) (Builder.shifted g.size node) := by
  rw [withPlan, node?_attach, node?_withNodes_add, Option.map_map]
  rfl

theorem payload?_withPlan_of_lt (parent : NodeId) (plan : Plan) {id : NodeId} (h : id < g.size) :
    (g.withPlan parent plan).payload? id = g.payload? id := by
  simp [payload?, node?_withPlan_of_lt parent plan h, Function.comp_def, Node.attached]

theorem owner?_withPlan_of_lt (parent : NodeId) (plan : Plan) {id : NodeId} (h : id < g.size) :
    (g.withPlan parent plan).owner? id = g.owner? id := by
  have hne : id ≠ g.size := Nat.ne_of_lt h
  cases hn : g.node? id <;>
    simp [owner?, node?_withPlan_of_lt parent plan h, hn, Node.attached, hne]

theorem children_withPlan_of_lt (plan : Plan) {id : NodeId} (h : id < g.size) :
    (g.withPlan parent plan).children id =
      if id = parent then g.children parent ++ [g.size] else g.children id := by
  obtain ⟨node, hn⟩ := exists_node h
  by_cases he : id = parent
  · subst he
    simp [children, node?_withPlan_of_lt id plan h, hn, Node.attached]
  · simp [children, node?_withPlan_of_lt parent plan h, hn, Node.attached, he]

theorem children_withPlan_add (hp : parent < g.size) {index : Nat} {node : PlanNode}
    (hn : plan.nodes[index]? = some node) :
    (g.withPlan parent plan).children (g.size + index) = node.children.map (g.size + ·) := by
  have hne : g.size + index ≠ parent := Nat.ne_of_gt (Nat.lt_of_lt_of_le hp (Nat.le_add_right _ _))
  simp [children, node?_withPlan_add, hn, Node.attached, Builder.shifted, hne]

/-- The entry belongs to the node that the plan was attached to, and every other node of the plan to
the node that owned it in the plan. -/
theorem owner?_withPlan_add (hroot : root < g.size) (hv : plan.Valid) {index : Nat}
    {node : PlanNode} (hn : plan.nodes[index]? = some node) :
    (g.withPlan parent plan).owner? (g.size + index) =
      if index = 0 then some parent else node.owner.map (g.size + ·) := by
  have hne : g.size ≠ root := Nat.ne_of_gt hroot
  by_cases h0 : index = 0
  · subst h0
    rw [owner?, node?_withPlan_add, hn]
    simp [Node.attached, Builder.shifted, hv.entry_owner node hn, hne]
  · rw [owner?, node?_withPlan_add, hn]
    simp [Node.attached, Builder.shifted, h0]

/-- A node of the graph with a plan is one of the graph or one of the plan. -/
theorem lt_or_exists_of_lt_size_withPlan {id : NodeId} (h : id < (g.withPlan parent plan).size) :
    id < g.size ∨ ∃ index node, plan.nodes[index]? = some node ∧ id = g.size + index := by
  rcases Nat.lt_or_ge id g.size with hlt | hge
  · exact .inl hlt
  · obtain ⟨index, rfl⟩ := Nat.exists_eq_add_of_le hge
    rw [size_withPlan] at h
    exact .inr ⟨index, _, List.getElem?_eq_getElem (Nat.lt_of_add_lt_add_left h), rfl⟩

theorem Sound.rooted_withPlan (h : g.Sound loose) (hp : g.Anchored parent) (hv : plan.Valid)
    {index : Nat} (ho : plan.OwnedByEntry index) :
    (g.withPlan parent plan).Rooted (g.size + index) := by
  induction ho with
  | entry =>
    obtain ⟨entry, he⟩ := List.exists_cons_of_ne_nil hv.nonempty
    obtain ⟨rest, he⟩ := he
    have hn : plan.nodes[0]? = some entry := by simp [he]
    refine .step ((owner?_withPlan_add h.root_lt hv hn).trans (if_pos rfl))
      ((h.rooted hp).mono fun id owner ho => ?_)
    rw [owner?_withPlan_of_lt parent plan (lt_size_of_owner? ho), ho]
  | @step index owner node hn ho _ ih =>
    have hi : index ≠ 0 := (hv.listed_by_owner hn ho).1
    refine .step ?_ ih
    rw [owner?_withPlan_add h.root_lt hv hn, if_neg hi, ho, Option.map_some]

/-- A child in the graph with a plan was one before or is a node of the plan. -/
theorem child_of_withPlan (hp : parent < g.size) (hv : plan.Valid) {id child : NodeId}
    (hm : child ∈ (g.withPlan parent plan).children id) :
    child ∈ g.children id ∨ ∃ index < plan.nodes.length, child = g.size + index := by
  have hentry : 0 < plan.nodes.length := List.length_pos_iff.mpr hv.nonempty
  rcases lt_or_exists_of_lt_size_withPlan (lt_size_of_mem_children hm) with hlt |
    ⟨index, node, hn, rfl⟩
  · rw [children_withPlan_of_lt plan hlt] at hm
    split at hm
    next he =>
      rcases List.mem_append.mp hm with hm | hm
      · exact .inl (he ▸ hm)
      · exact .inr ⟨0, hentry, List.mem_singleton.mp hm⟩
    next => exact .inl hm
  · rw [children_withPlan_add hp hn] at hm
    obtain ⟨x, hx, rfl⟩ := List.mem_map.mp hm
    exact .inr ⟨x, hv.child_lt node (List.mem_of_getElem? hn) x hx, rfl⟩

/-- An owner in the graph with a plan was one before, or is the node that the plan was attached to,
or owns the node in the plan. -/
theorem owner_of_withPlan (hroot : root < g.size) (hv : plan.Valid) {id owner : NodeId}
    (ho : (g.withPlan parent plan).owner? id = some owner) :
    g.owner? id = some owner ∨ (id = g.size ∧ owner = parent) ∨
      ∃ index above node, index < plan.nodes.length ∧ id = g.size + index ∧ owner = g.size + above ∧
        plan.nodes[above]? = some node ∧ index ∈ node.children := by
  rcases lt_or_exists_of_lt_size_withPlan (lt_size_of_owner? ho) with hlt | ⟨index, node, hn, rfl⟩
  · rw [owner?_withPlan_of_lt parent plan hlt] at ho
    exact .inl ho
  · rw [owner?_withPlan_add hroot hv hn] at ho
    split at ho
    next h0 => exact .inr (.inl ⟨congrArg (g.size + ·) h0, (Option.some.inj ho).symm⟩)
    next h0 =>
      obtain ⟨above, parent, hno, habove, hlists⟩ := hv.owner_lists index node hn h0
      rw [hno, Option.map_some] at ho
      have hlt := (List.getElem?_eq_some_iff.mp hn).1
      exact .inr (.inr ⟨index, above, parent, hlt, rfl, (Option.some.inj ho).symm, habove, hlists⟩)

/-- Grafting a valid plan at an anchored node leaves no node loose that was not. -/
theorem Sound.withPlan (h : g.Sound loose) (hp : g.Anchored parent) (hv : plan.Valid) :
    (g.withPlan parent plan).Sound loose := by
  have hplt := h.anchored_lt hp
  constructor
  case place => exact node?_isSome_iff _
  case root_payload => rw [payload?_withPlan_of_lt parent plan h.root_lt, h.root_payload]
  case root_owner => rw [owner?_withPlan_of_lt parent plan h.root_lt, h.root_owner]
  case root_not_child =>
    intro id hm
    rcases child_of_withPlan hplt hv hm with hm | ⟨index, -, he⟩
    · exact h.root_not_child id hm
    · exact Nat.ne_of_lt (Nat.lt_of_lt_of_le h.root_lt (Nat.le_add_right _ index)) he
  case child_lt =>
    intro id child hm
    rw [size_withPlan]
    rcases child_of_withPlan hplt hv hm with hm | ⟨index, hlt, rfl⟩
    · exact Nat.lt_of_lt_of_le (h.child_lt id child hm) (Nat.le_add_right _ _)
    · exact Nat.add_lt_add_left hlt _
  case owner_lt =>
    intro id owner ho
    rw [size_withPlan]
    rcases owner_of_withPlan h.root_lt hv ho with ho | ⟨-, rfl⟩ |
      ⟨index, above, node, -, -, rfl, habove, -⟩
    · exact Nat.lt_of_lt_of_le (h.owner_lt id owner ho) (Nat.le_add_right _ _)
    · exact Nat.lt_of_lt_of_le hplt (Nat.le_add_right _ _)
    · exact Nat.add_lt_add_left (List.getElem?_eq_some_iff.mp habove).1 _
  case owner_lists =>
    intro id owner ho
    rcases owner_of_withPlan h.root_lt hv ho with ho | ⟨rfl, rfl⟩ |
      ⟨index, above, node, -, rfl, rfl, habove, hlists⟩
    · have hm := h.owner_lists id owner ho
      rw [children_withPlan_of_lt plan (h.owner_lt id owner ho)]
      split
      next he => exact List.mem_append_left _ (he ▸ hm)
      next => exact hm
    · rw [children_withPlan_of_lt plan hplt, if_pos rfl]
      exact List.mem_append_right _ (List.mem_singleton.mpr rfl)
    · rw [children_withPlan_add hplt habove]
      exact List.mem_map_of_mem hlists
  case owned_rooted =>
    intro id owner ho
    rcases owner_of_withPlan h.root_lt hv ho with ho | ⟨rfl, -⟩ | ⟨index, above, node, hlt, rfl, -⟩
    · refine (h.owned_rooted id owner ho).mono fun i o hi => ?_
      rw [owner?_withPlan_of_lt parent plan (lt_size_of_owner? hi), hi]
    · exact h.rooted_withPlan hp hv .entry
    · exact h.rooted_withPlan hp hv (hv.owned index hlt)
  case loose_lt =>
    intro id hl
    rw [size_withPlan]
    exact ⟨Nat.lt_of_lt_of_le (h.loose_lt id hl).1 (Nat.le_add_right _ _), (h.loose_lt id hl).2⟩
  case unowned_iff =>
    intro id hid hr
    rcases lt_or_exists_of_lt_size_withPlan hid with hlt | ⟨index, node, hn, rfl⟩
    · rw [owner?_withPlan_of_lt parent plan hlt, h.unowned_iff id hlt hr]
    · have hnl : ¬ loose (g.size + index) := fun hl =>
        Nat.not_lt_of_le (Nat.le_add_right _ _) (h.loose_lt _ hl).1
      rw [owner?_withPlan_add h.root_lt hv hn]
      by_cases h0 : index = 0
      · subst h0
        simpa using hnl
      · obtain ⟨above, parent, hno, -, -⟩ := hv.owner_lists index node hn h0
        simp [h0, hno, hnl]
  case loose_children =>
    intro id hl
    have : id ≠ parent := fun he => h.not_loose hp (he ▸ hl)
    rw [children_withPlan_of_lt plan (h.loose_lt id hl).1, if_neg this]
    exact h.loose_children id hl
  case loose_not_child =>
    intro id hl above hm
    rcases child_of_withPlan hplt hv hm with hm | ⟨index, -, rfl⟩
    · exact h.loose_not_child id hl above hm
    · exact Nat.not_lt_of_le (Nat.le_add_right _ _) (h.loose_lt _ hl).1

end Graph

theorem Builder.graft_of_validate {plan : Plan} (h : plan.validate = .ok ()) (b : Builder) :
    b.graft plan = .ok (b.graph.size,
      { b with graph := b.graph.withPlan b.cursor plan
               cursor := (b.graph.withPlan b.cursor plan).tail b.graph.size }) := by
  simp only [graft, h]
  rfl

theorem Builder.graft_of_fault {plan : Plan} {failure : Failure}
    (h : plan.validate = .error failure) (b : Builder) :
    b.graft plan = .error failure := by simp only [graft, h]

end MotionScript
