import MotionScript.Graph.Traversal
import MotionScript.Proofs.BuilderInvariant
import MotionScript.Proofs.OwnerChains

/-!
# What a snapshot contains

The depth-first search from a node finds the node first, everything once, and with a node all its
children. In a graph that is being recorded the search from the first node finds exactly the nodes
that are owned, so a snapshot names each of them by its place in the order of the search and drops
no edge. Such a plan is accepted.
-/
namespace MotionScript

namespace Graph

variable {g : Graph} {unvisited stack : List NodeId}

theorem mem_unvisited_of_mem_visit {id : NodeId}
    (h : id ∈ g.visit unvisited stack) : id ∈ unvisited := by
  induction unvisited, stack using visit.induct g with
  | case1 => simp [visit] at h
  | case2 unvisited first rest hfirst _ _ ih =>
    rw [visit, dif_pos hfirst] at h
    rcases List.mem_cons.mp h with rfl | h
    · exact hfirst
    · exact List.mem_of_mem_erase (ih h)
  | case3 unvisited first rest hfirst ih =>
    rw [visit, dif_neg hfirst] at h
    exact ih h

theorem nodup_visit (h : unvisited.Nodup) : (g.visit unvisited stack).Nodup := by
  induction unvisited, stack using visit.induct g with
  | case1 => simp [visit]
  | case2 unvisited first rest hfirst _ _ ih =>
    rw [visit, dif_pos hfirst]
    exact List.nodup_cons.mpr
      ⟨fun hm => h.not_mem_erase (mem_unvisited_of_mem_visit hm), ih (h.erase _)⟩
  | case3 unvisited first rest hfirst ih =>
    rw [visit, dif_neg hfirst]
    exact ih h

theorem mem_visit_of_mem_stack {id : NodeId} (hs : id ∈ stack) (hu : id ∈ unvisited) :
    id ∈ g.visit unvisited stack := by
  induction unvisited, stack using visit.induct g with
  | case1 => simp at hs
  | case2 unvisited first rest hfirst _ _ ih =>
    rw [visit, dif_pos hfirst]
    by_cases he : id = first
    · exact he ▸ List.mem_cons_self
    · have hrest : id ∈ rest := (List.mem_cons.mp hs).resolve_left he
      exact List.mem_cons_of_mem _
        (ih (List.mem_append_right _ hrest) ((List.mem_erase_of_ne he).mpr hu))
  | case3 unvisited first rest hfirst ih =>
    rw [visit, dif_neg hfirst]
    refine ih ((List.mem_cons.mp hs).resolve_left ?_) hu
    rintro rfl
    exact hfirst hu

theorem mem_visit_of_child {id child : NodeId} (h : id ∈ g.visit unvisited stack)
    (hc : child ∈ g.children id) (hu : child ∈ unvisited) : child ∈ g.visit unvisited stack := by
  induction unvisited, stack using visit.induct g with
  | case1 => simp [visit] at h
  | case2 unvisited first rest hfirst _ _ ih =>
    rw [visit, dif_pos hfirst] at h ⊢
    by_cases he : child = first
    · exact he ▸ List.mem_cons_self
    · have hleft : child ∈ unvisited.erase first := (List.mem_erase_of_ne he).mpr hu
      rcases List.mem_cons.mp h with rfl | h
      · exact List.mem_cons_of_mem _ (mem_visit_of_mem_stack (List.mem_append_left _ hc) hleft)
      · exact List.mem_cons_of_mem _ (ih h hleft)
  | case3 unvisited first rest hfirst ih =>
    rw [visit, dif_neg hfirst] at h ⊢
    exact ih h hu

/-- What holds of the stack, and of the children of that of which it holds, holds of all nodes
found. -/
theorem visit_induction {holds : NodeId → Prop} (hstack : ∀ id ∈ stack, holds id)
    (hchild : ∀ id, holds id → ∀ child ∈ g.children id, holds child) :
    ∀ id ∈ g.visit unvisited stack, holds id := by
  induction unvisited, stack using visit.induct g with
  | case1 => simp [visit]
  | case2 unvisited first rest hfirst _ _ ih =>
    have hf := hstack first List.mem_cons_self
    have hnext : ∀ id ∈ g.children first ++ rest, holds id := by
      intro id hm
      rcases List.mem_append.mp hm with hm | hm
      · exact hchild first hf id hm
      · exact hstack id (List.mem_cons_of_mem _ hm)
    rw [visit, dif_pos hfirst]
    intro id hm
    rcases List.mem_cons.mp hm with rfl | hm
    · exact hf
    · exact ih hnext id hm
  | case3 unvisited first rest hfirst ih =>
    rw [visit, dif_neg hfirst]
    exact ih fun id hm => hstack id (List.mem_cons_of_mem _ hm)

theorem nodup_reachable (g : Graph) (start : NodeId) : (g.reachable start).Nodup :=
  nodup_visit List.nodup_range

theorem reachable_eq_cons {start : NodeId} (h : start < g.size) :
    g.reachable start = start ::
      g.visit ((List.range g.size).erase start) (g.children start ++ []) := by
  rw [reachable, visit, dif_pos (List.mem_range.mpr h)]

end Graph

namespace Plan

def captured (order : List NodeId) (entry id : NodeId) (node : Node) : PlanNode where
  payload := node.payload
  owner := if id = entry then none else node.owner.bind order.idxOf?
  children := node.children.filterMap order.idxOf?

theorem idxOf?_of_mem {order : List Nat} {x : Nat} (h : x ∈ order) :
    order.idxOf? x = some (order.idxOf x) := by
  rw [List.idxOf_eq_getD_idxOf?]
  obtain ⟨k, hk⟩ := Option.isSome_iff_exists.mp (List.isSome_idxOf?.mpr h)
  simp [hk]

theorem getElem?_filterMap {α β : Type} {f : α → Option β} {l : List α} (h : ∀ x ∈ l, (f x).isSome)
    (k : Nat) :
    (l.filterMap f)[k]? = l[k]?.bind f := by
  induction l generalizing k with
  | nil => simp
  | cons x l ih =>
    obtain ⟨y, hy⟩ := Option.isSome_iff_exists.mp (h x List.mem_cons_self)
    rw [List.filterMap_cons_some hy]
    cases k with
    | zero => simp [hy]
    | succ k => simpa using ih (fun z hz => h z (List.mem_cons_of_mem _ hz)) k

theorem getElem?_capture (g : Graph) (entry : NodeId) (k : Nat) :
    (capture g entry).nodes[k]? =
      (g.reachable entry)[k]?.bind fun id =>
        (g.node? id).map (captured (g.reachable entry) entry id) := by
  refine getElem?_filterMap (fun id hm => ?_) k
  rw [Option.isSome_map, g.node?_isSome_iff]
  exact List.mem_range.mp (Graph.mem_unvisited_of_mem_visit hm)

theorem length_capture (g : Graph) (entry : NodeId) :
    (capture g entry).nodes.length = (g.reachable entry).length := by
  refine List.filterMap_length_eq_length.mpr fun id hm => ?_
  rw [Option.isSome_map, g.node?_isSome_iff]
  exact List.mem_range.mp (Graph.mem_unvisited_of_mem_visit hm)

end Plan

namespace Builder.WellFormed

variable {b : Builder} {first : NodeId}

theorem children_root (h : b.WellFormed) (hf : b.graph.first? = some first) :
    b.graph.children Graph.root = [first] := by
  have hone := h.root_children
  cases hc : b.graph.children Graph.root with
  | nil => simp [Graph.first?, Graph.child?, hc] at hf
  | cons x rest =>
    rw [hc] at hone
    obtain rfl : rest = [] :=
      List.length_eq_zero_iff.mp (Nat.le_zero.mp (Nat.le_of_succ_le_succ hone))
    have hx : x = first := by simpa [Graph.first?, Graph.child?, hc] using hf
    rw [hx]

theorem eq_first (h : b.WellFormed) (hf : b.graph.first? = some first) {id : NodeId}
    (ho : b.graph.owner? id = some Graph.root) : id = first := by
  have hm := h.sound.owner_lists id _ ho
  rw [h.children_root hf] at hm
  exact List.mem_singleton.mp hm

theorem owned_of_child (h : b.WellFormed) {id child : NodeId} (hc : child ∈ b.graph.children id) :
    ∃ owner, b.graph.owner? child = some owner := by
  have hroot : child ≠ Graph.root := fun he => h.sound.root_not_child id (he ▸ hc)
  have hloose : ¬ b.Waits child := fun hl => h.sound.loose_not_child child hl id hc
  exact (h.sound.anchored (h.sound.child_lt id child hc) hloose).resolve_left hroot

theorem first_mem_children (hf : b.graph.first? = some first) :
    first ∈ b.graph.children Graph.root :=
  Graph.mem_children_of_child? hf

theorem mem_reachable_iff (h : b.WellFormed) (hf : b.graph.first? = some first) {id : NodeId} :
    id ∈ b.graph.reachable first ↔ ∃ owner, b.graph.owner? id = some owner := by
  have hfirst := first_mem_children hf
  constructor
  · refine Graph.visit_induction (fun x hx => ?_) (fun x _ child hc => h.owned_of_child hc) id
    exact List.mem_singleton.mp hx ▸ h.owned_of_child hfirst
  · have hall (x : NodeId) (hx : b.graph.Rooted x) : x = Graph.root ∨
        x ∈ b.graph.reachable first := by
      induction hx with
      | root => exact .inl rfl
      | @step id owner ho _ ih =>
        have hmem := h.sound.owner_lists id owner ho
        have hlt := List.mem_range.mpr (Graph.lt_size_of_owner? ho)
        rcases ih with rfl | hin
        · exact .inr (Graph.mem_visit_of_mem_stack (List.mem_singleton.mpr (h.eq_first hf ho)) hlt)
        · exact .inr (Graph.mem_visit_of_child hin hmem hlt)
    rintro ⟨owner, ho⟩
    exact (hall id (h.sound.owned_rooted id owner ho)).resolve_left (h.sound.ne_root ho)

theorem reachable_first (h : b.WellFormed) (hf : b.graph.first? = some first) :
    ∃ rest, b.graph.reachable first = first :: rest :=
  ⟨_, Graph.reachable_eq_cons (h.sound.child_lt _ first (first_mem_children hf))⟩

/-- The owner of a node is the root or a node that is found as well. -/
theorem owner_mem_reachable (h : b.WellFormed) (hf : b.graph.first? = some first)
    {id owner : NodeId} (ho : b.graph.owner? id = some owner) (hne : id ≠ first) :
    owner ∈ b.graph.reachable first := by
  have hroot : owner ≠ Graph.root := fun hr => hne (h.eq_first hf (hr ▸ ho))
  have hloose : ¬ b.Waits owner := fun hl => by
    simpa [h.sound.loose_children owner hl] using h.sound.owner_lists id owner ho
  exact (h.mem_reachable_iff hf).mpr
    ((h.sound.anchored (h.sound.owner_lt id owner ho) hloose).resolve_left hroot)

/-- Each owned node stands in the plan at its place in the order of the search, with all its
edges. -/
theorem getElem?_capture (h : b.WellFormed) (hf : b.graph.first? = some first) {id owner : NodeId}
    {node : Node} (ho : b.graph.owner? id = some owner) (hn : b.graph.node? id = some node) :
    (Plan.capture b.graph first).nodes[(b.graph.reachable first).idxOf id]? = some {
      payload := node.payload
      owner := if id = first then none else some ((b.graph.reachable first).idxOf owner)
      children := node.children.map (b.graph.reachable first).idxOf } := by
  have hid := (h.mem_reachable_iff hf).mpr ⟨owner, ho⟩
  have hnode : node.owner = some owner := by simpa [Graph.owner?, hn] using ho
  have hchildren : node.children.filterMap (b.graph.reachable first).idxOf? =
      node.children.map (b.graph.reachable first).idxOf := by
    rw [← List.filterMap_eq_map']
    refine List.filterMap_congr fun child hc => Plan.idxOf?_of_mem ((h.mem_reachable_iff hf).mpr ?_)
    have hchild : child ∈ b.graph.children id := by simpa [Graph.children, hn] using hc
    exact h.owned_of_child hchild
  rw [Plan.getElem?_capture, List.getElem?_idxOf hid, Option.bind_some, hn, Option.map_some,
    Plan.captured, hchildren, hnode, Option.bind_some]
  by_cases he : id = first
  · simp [he]
  · rw [if_neg he, if_neg he, Plan.idxOf?_of_mem (h.owner_mem_reachable hf ho he)]

theorem exists_found (h : b.WellFormed) (hf : b.graph.first? = some first) {index : Nat}
    {found : PlanNode} (hi : (Plan.capture b.graph first).nodes[index]? = some found) :
    ∃ id owner node, b.graph.owner? id = some owner ∧ b.graph.node? id = some node ∧
      (b.graph.reachable first).idxOf id = index := by
  rw [Plan.getElem?_capture] at hi
  obtain ⟨id, hid, hfound⟩ := Option.bind_eq_some_iff.mp hi
  obtain ⟨node, hn, -⟩ := Option.map_eq_some_iff.mp hfound
  obtain ⟨hlt, rfl⟩ := List.getElem?_eq_some_iff.mp hid
  obtain ⟨owner, ho⟩ := (h.mem_reachable_iff hf).mp (List.getElem_mem hlt)
  exact ⟨_, owner, node, ho, hn, (b.graph.nodup_reachable first).idxOf_getElem index hlt⟩

/-- A snapshot is a plan that is accepted, unless a recorded node claims to be a root. -/
theorem valid_capture (h : b.WellFormed) (hf : b.graph.first? = some first)
    (hkind : ∀ id, b.graph.kind? id = some .root → id = Graph.root) :
    (Plan.capture b.graph first).Valid := by
  obtain ⟨rest, hrest⟩ := h.reachable_first hf
  have hfirst : (b.graph.reachable first).idxOf first = 0 := by rw [hrest, List.idxOf_cons_self]
  have hindex {id : NodeId} (hid : id ∈ b.graph.reachable first) :
      (b.graph.reachable first).idxOf id = 0 → id = first := by
    intro h0
    rw [← hfirst] at h0
    exact (List.idxOf_inj hid).mp h0
  constructor
  case nonempty =>
    intro hnil
    have hlength := Plan.length_capture b.graph first
    simp [hnil, hrest] at hlength
  case entry_owner =>
    intro found h0
    obtain ⟨id, owner, node, ho, hn, hid⟩ := h.exists_found hf h0
    have hplace := h.getElem?_capture hf ho hn
    rw [hid, h0, hindex ((h.mem_reachable_iff hf).mpr ⟨owner, ho⟩) hid, if_pos rfl] at hplace
    rw [Option.some.inj hplace]
  case kind_ne_root =>
    intro found hm hroot
    obtain ⟨index, hi⟩ := List.mem_iff_getElem?.mp hm
    obtain ⟨id, owner, node, ho, hn, hid⟩ := h.exists_found hf hi
    have hplace := h.getElem?_capture hf ho hn
    rw [hid, hi] at hplace
    rw [Option.some.inj hplace] at hroot
    exact h.sound.ne_root ho (hkind id (by simpa [Graph.kind?, hn] using hroot))
  case child_lt =>
    intro found hm child hc
    obtain ⟨index, hi⟩ := List.mem_iff_getElem?.mp hm
    obtain ⟨id, owner, node, ho, hn, hid⟩ := h.exists_found hf hi
    have hplace := h.getElem?_capture hf ho hn
    rw [hid, hi] at hplace
    rw [Option.some.inj hplace] at hc
    obtain ⟨x, hx, rfl⟩ := List.mem_map.mp hc
    have hchild : x ∈ b.graph.children id := by simpa [Graph.children, hn] using hx
    rw [Plan.length_capture, List.idxOf_lt_length_iff, h.mem_reachable_iff hf]
    exact h.owned_of_child hchild
  case owner_lists =>
    intro index found hi h0
    obtain ⟨id, owner, node, ho, hn, hid⟩ := h.exists_found hf hi
    have hne : id ≠ first := fun he => h0 (by rw [← hid, he, hfirst])
    have hplace := h.getElem?_capture hf ho hn
    rw [hid, hi, if_neg hne] at hplace
    obtain ⟨above, habove⟩ := (h.mem_reachable_iff hf).mp (h.owner_mem_reachable hf ho hne)
    obtain ⟨parent, hp⟩ := Graph.exists_node (Graph.lt_size_of_owner? habove)
    refine ⟨_, _, by rw [Option.some.inj hplace], h.getElem?_capture hf habove hp, ?_⟩
    have hlists : id ∈ parent.children := by
      simpa [Graph.children, hp] using h.sound.owner_lists id owner ho
    exact hid ▸ List.mem_map_of_mem hlists
  case owned =>
    have hall (x : NodeId) (hx : b.graph.Rooted x) :
        x = Graph.root ∨ (Plan.capture b.graph first).OwnedByEntry
          ((b.graph.reachable first).idxOf x) := by
      induction hx with
      | root => exact .inl rfl
      | @step id owner ho _ ih =>
        refine .inr ?_
        by_cases he : id = first
        · rw [he, hfirst]
          exact .entry
        · obtain ⟨node, hn⟩ := Graph.exists_node (Graph.lt_size_of_owner? ho)
          have hup := ih.resolve_left fun hr => he (h.eq_first hf (hr ▸ ho))
          exact .step (h.getElem?_capture hf ho hn) (if_neg he) hup
    intro index hi
    obtain ⟨id, owner, node, ho, hn, rfl⟩ := h.exists_found hf (List.getElem?_eq_getElem hi)
    exact (hall id (h.sound.owned_rooted id owner ho)).resolve_left (h.sound.ne_root ho)

end Builder.WellFormed
end MotionScript
