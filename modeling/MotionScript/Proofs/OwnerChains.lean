import MotionScript.Proofs.OwnershipTree
import MotionScript.Proofs.PlanValidity

/-!
# How long a chain of owners can be

Where every chain of owners ends, a node stands a certain number of steps below the end of its
chain. The nodes of a chain stand at different heights, so they are different nodes, and a chain is
shorter than the number of nodes. This is why a search along the chains needs no more steps than
there are nodes, in a graph as in a plan.
-/
namespace MotionScript

/-- Going from owner to owner, one comes from a node to the end of its chain in a number of
steps. -/
inductive Climbs (owner : Nat → Option Nat) : Nat → Nat → Prop
  | top {id : Nat} : owner id = none → Climbs owner id 0
  | step {id up steps : Nat} :
      owner id = some up → Climbs owner up steps → Climbs owner id (steps + 1)

namespace Climbs

variable {owner : Nat → Option Nat} {id steps : Nat}

theorem unique (h : Climbs owner id steps) {other : Nat}
    (h' : Climbs owner id other) : steps = other := by
  induction h generalizing other with
  | top hn =>
    cases h' with
    | top => rfl
    | step ho => simp [hn] at ho
  | step ho _ ih =>
    cases h' with
    | top hn => simp [hn] at ho
    | step ho' h' =>
      cases Option.some.inj (ho.symm.trans ho')
      exact congrArg _ (ih h')

private theorem exists_chain (h : Climbs owner id steps) {bound : Nat} (hid : id < bound)
    (hbound : ∀ id up, owner id = some up → up < bound) :
    ∃ chain : List Nat, chain.length = steps + 1 ∧ chain.Nodup ∧
      ∀ x ∈ chain, x < bound ∧ ∃ height ≤ steps, Climbs owner x height := by
  induction h with
  | top hn => exact ⟨[_], rfl, by simp, by simpa using ⟨hid, .top hn⟩⟩
  | @step id up steps ho hup ih =>
    obtain ⟨chain, hlength, hnd, hchain⟩ := ih (hbound id up ho)
    refine ⟨id :: chain, by simp [hlength], List.nodup_cons.mpr ⟨fun hm => ?_, hnd⟩, fun x hx => ?_⟩
    · -- the node itself stands lower than every node above it
      obtain ⟨-, height, hle, hc⟩ := hchain id hm
      have := hc.unique (.step ho hup)
      omega
    · rcases List.mem_cons.mp hx with rfl | hx
      · exact ⟨hid, _, Nat.le_refl _, .step ho hup⟩
      · obtain ⟨hlt, height, hle, hc⟩ := hchain x hx
        exact ⟨hlt, height, Nat.le_succ_of_le hle, hc⟩

theorem lt_bound (h : Climbs owner id steps) {bound : Nat} (hid : id < bound)
    (hbound : ∀ id up, owner id = some up → up < bound) : steps < bound := by
  obtain ⟨chain, hlength, hnd, hchain⟩ := h.exists_chain hid hbound
  have hsub : chain ⊆ List.range bound := fun x hx => List.mem_range.mpr (hchain x hx).1
  have hle := hnd.length_le_of_subset hsub
  rwa [hlength, List.length_range] at hle

end Climbs

namespace Graph

variable {g : Graph} {loose : NodeId → Prop}

theorem Rooted.climbs (hroot : g.owner? Graph.root = none) {id : NodeId} (h : g.Rooted id) :
    ∃ steps, Climbs g.owner? id steps := by
  induction h with
  | root => exact ⟨0, .top hroot⟩
  | step ho _ ih =>
    obtain ⟨steps, hc⟩ := ih
    exact ⟨steps + 1, .step ho hc⟩

/-- Every chain of owners in a sound graph is shorter than the graph. -/
theorem Sound.climbs (h : g.Sound loose) {id : NodeId} (hid : id < g.size) :
    ∃ steps < g.size, Climbs g.owner? id steps := by
  have hc : ∃ steps, Climbs g.owner? id steps := by
    by_cases hl : loose id
    · exact ⟨0, .top (h.owner?_of_loose hl)⟩
    · exact (h.rooted (h.anchored hid hl)).climbs h.root_owner
  obtain ⟨steps, hc⟩ := hc
  exact ⟨steps, hc.lt_bound hid h.owner_lt, hc⟩

end Graph

namespace Plan

def owner? (p : Plan) (index : Nat) : Option Nat := p.nodes[index]?.bind PlanNode.owner

theorem ownersEnd_of_climbs {p : Plan} {index height : Nat} (h : Climbs p.owner? index height)
    {steps : Nat} (hle : height ≤ steps) : p.ownersEnd steps index = true := by
  induction h generalizing steps with
  | top hn =>
    unfold ownersEnd
    rw [show p.nodes[_]?.bind PlanNode.owner = none from hn]
  | step ho _ ih =>
    obtain ⟨steps, rfl⟩ := Nat.exists_eq_add_of_le' (Nat.lt_of_lt_of_le (Nat.succ_pos _) hle)
    unfold ownersEnd
    rw [show p.nodes[_]?.bind PlanNode.owner = some _ from ho]
    exact ih (Nat.le_of_succ_le_succ hle)

theorem Valid.climbs {p : Plan} (h : p.Valid) {index : Nat} (ho : p.OwnedByEntry index) :
    ∃ steps, Climbs p.owner? index steps := by
  induction ho with
  | entry =>
    obtain ⟨entry, rest, he⟩ := List.exists_cons_of_ne_nil h.nonempty
    have hentry : p.nodes[0]? = some entry := by simp [he]
    exact ⟨0, .top (by simp [owner?, hentry, h.entry_owner entry hentry])⟩
  | step hn ho _ ih =>
    obtain ⟨steps, hc⟩ := ih
    exact ⟨steps + 1, .step (by simp [owner?, hn, ho]) hc⟩

private theorem checkNode_of_valid {p : Plan} (h : p.Valid) {index : Nat} {node : PlanNode}
    (hn : p.nodes[index]? = some node) : p.checkNode index node = .ok () := by
  have hm := List.mem_of_getElem? hn
  have hchildren : node.children.find? (p.nodes.length ≤ ·) = none :=
    List.find?_eq_none.mpr fun child hc => by simpa using h.child_lt node hm child hc
  simp only [checkNode, if_neg (h.kind_ne_root node hm), hchildren]
  split
  · rfl
  next hi =>
    obtain ⟨owner, parent, ho, hp, hlists⟩ := h.owner_lists index node hn hi
    simp only [ho, hp, if_pos hlists]

private theorem checkNodes_of_forall {p : Plan} {nodes : List PlanNode} {start : Nat}
    (h : ∀ k node, nodes[k]? = some node → p.checkNode (start + k) node = .ok ()) :
    p.checkNodes start nodes = .ok () := by
  induction nodes generalizing start with
  | nil => rfl
  | cons first rest ih =>
    have hfirst := h 0 first rfl
    have hrest : p.checkNodes (start + 1) rest = .ok () := ih fun k node hk => by
      have hk := h (k + 1) node (by simpa using hk)
      rwa [Nat.add_right_comm, Nat.add_assoc]
    rw [Nat.add_zero] at hfirst
    simp only [checkNodes, hfirst, Except.bind, hrest]

theorem Valid.validate {p : Plan} (h : p.Valid)
    (hversion : p.version = currentVersion) : p.validate = .ok () := by
  have hchains : p.checkChains = .ok () := by
    have hfind : (List.range p.nodes.length).find?
        (fun index => index ≠ 0 && !p.ownersEnd p.nodes.length index) = none := by
      refine List.find?_eq_none.mpr fun index hm => ?_
      obtain ⟨height, hc⟩ := h.climbs (h.owned index (List.mem_range.mp hm))
      have hbound : ∀ id up, p.owner? id = some up → up < p.nodes.length := by
        intro id up hup
        obtain ⟨node, hn, ho⟩ := Option.bind_eq_some_iff.mp hup
        obtain ⟨-, parent, hp, -⟩ := h.listed_by_owner hn ho
        exact (List.getElem?_eq_some_iff.mp hp).1
      have hlt := hc.lt_bound (List.mem_range.mp hm) hbound
      simp [ownersEnd_of_climbs hc (Nat.le_of_lt hlt)]
    simp only [checkChains, hfind]
  have hnodes : p.checkNodes 0 p.nodes = .ok () :=
    checkNodes_of_forall fun k node hk => by
      rw [Nat.zero_add]
      exact checkNode_of_valid h hk
  have hcheck : p.check = .ok () := by
    obtain ⟨entry, rest, he⟩ := List.exists_cons_of_ne_nil h.nonempty
    have howner : entry.owner = none := h.entry_owner entry (by simp [he])
    rw [he] at hnodes
    simp only [check, if_neg (not_not.mpr hversion), he, howner, Option.isSome_none,
      Bool.false_eq_true, if_false, hnodes, Except.bind, hchains]
  rw [Plan.validate, hcheck]
  rfl

end Plan
end MotionScript
