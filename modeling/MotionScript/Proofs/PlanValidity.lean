import MotionScript.Plan.Basic
import Mathlib.Data.List.Basic

/-!
# What an accepted plan is

`Plan.validate` accepts a plan node by node and then follows the chains of owners. Here the accepted
plans are described without the order in which the faults are looked for: ownership is a tree whose
root is the entry, and every owner lists what it owns.
-/
namespace MotionScript.Plan

/-- The chain of owners from a node of a plan leads to the entry. -/
inductive OwnedByEntry (p : Plan) : Nat → Prop
  | entry : OwnedByEntry p 0
  | step {index owner : Nat} {node : PlanNode} :
      p.nodes[index]? = some node → node.owner = some owner →
      OwnedByEntry p owner → OwnedByEntry p index

/-- What the nodes of an accepted plan promise. -/
structure Valid (p : Plan) : Prop where
  nonempty : p.nodes ≠ []
  entry_owner : ∀ node, p.nodes[0]? = some node → node.owner = none
  kind_ne_root : ∀ node ∈ p.nodes, node.payload.kind ≠ .root
  child_lt : ∀ node ∈ p.nodes, ∀ child ∈ node.children, child < p.nodes.length
  owner_lists : ∀ index node, p.nodes[index]? = some node → index ≠ 0 →
    ∃ owner parent, node.owner = some owner ∧ p.nodes[owner]? = some parent ∧
      index ∈ parent.children
  owned : ∀ index < p.nodes.length, OwnedByEntry p index

/-- A node with an owner is not the entry, and its owner lists it. -/
theorem Valid.listed_by_owner {p : Plan} (h : p.Valid) {index owner : Nat} {node : PlanNode}
    (hn : p.nodes[index]? = some node) (ho : node.owner = some owner) :
    index ≠ 0 ∧ ∃ parent, p.nodes[owner]? = some parent ∧ index ∈ parent.children := by
  have hi : index ≠ 0 := by
    rintro rfl
    simp [h.entry_owner node hn] at ho
  obtain ⟨above, parent, habove, hp, hlists⟩ := h.owner_lists index node hn hi
  cases ho.symm.trans habove
  exact ⟨hi, parent, hp, hlists⟩

theorem checkNode_ok {p : Plan} {index : Nat} {node : PlanNode}
    (h : p.checkNode index node = .ok ()) :
    node.payload.kind ≠ .root ∧ (∀ child ∈ node.children, child < p.nodes.length) ∧
      (index ≠ 0 → ∃ owner parent, node.owner = some owner ∧ p.nodes[owner]? = some parent ∧
        index ∈ parent.children) := by
  unfold checkNode at h
  split at h
  · cases h
  next hkind =>
  split at h
  · cases h
  next hfind =>
  refine ⟨hkind, fun child hc => by simpa using List.find?_eq_none.mp hfind child hc, fun hi => ?_⟩
  rw [if_neg hi] at h
  split at h
  · cases h
  next owner ho =>
  split at h
  next parent hp =>
    split at h
    next hmem => exact ⟨owner, parent, ho, hp, hmem⟩
    · cases h
  · cases h

theorem checkNodes_ok {p : Plan} {nodes : List PlanNode} {start : Nat}
    (h : p.checkNodes start nodes = .ok ()) (k : Nat) (node : PlanNode)
    (hk : nodes[k]? = some node) :
    p.checkNode (start + k) node = .ok () := by
  induction nodes generalizing start k with
  | nil => simp at hk
  | cons first rest ih =>
    simp only [checkNodes] at h
    cases hf : p.checkNode start first with
    | error fault => simp [hf, Except.bind] at h
    | ok u =>
      cases k with
      | zero => simpa [Option.some.inj hk] using hf
      | succ k =>
        have hrest : p.checkNodes (start + 1) rest = .ok () := by simpa [hf, Except.bind] using h
        have hnode := ih hrest k (by simpa using hk)
        rwa [Nat.add_right_comm, Nat.add_assoc] at hnode

/-- A chain of owners that ends can only end at the entry, since no other node is without an
owner. -/
private theorem ownedByEntry_of_ownersEnd {p : Plan}
    (hlists : ∀ index node, p.nodes[index]? = some node → index ≠ 0 →
      ∃ owner parent, node.owner = some owner ∧ p.nodes[owner]? = some parent ∧
        index ∈ parent.children)
    (steps index : Nat) (hi : index < p.nodes.length) (h : p.ownersEnd steps index = true) :
    OwnedByEntry p index := by
  induction steps generalizing index with
  | zero =>
    by_cases h0 : index = 0
    · exact h0 ▸ .entry
    · obtain ⟨owner, parent, ho, -, -⟩ := hlists index _ (List.getElem?_eq_getElem hi) h0
      unfold ownersEnd at h
      simp [ho, hi] at h
  | succ steps ih =>
    by_cases h0 : index = 0
    · exact h0 ▸ .entry
    · obtain ⟨owner, parent, ho, hp, -⟩ := hlists index _ (List.getElem?_eq_getElem hi) h0
      have hown : owner < p.nodes.length := (List.getElem?_eq_some_iff.mp hp).1
      refine .step (List.getElem?_eq_getElem hi) ho (ih owner hown ?_)
      unfold ownersEnd at h
      simpa [ho, hi] using h

theorem valid_of_validate {p : Plan} (h : p.validate = .ok ()) : p.Valid := by
  have hc : p.check = .ok () := by
    cases hp : p.check with
    | ok u => rfl
    | error fault => simp [validate, hp, Except.mapError] at h
  unfold check at hc
  split at hc
  · cases hc
  split at hc
  · cases hc
  next entry rest hnodes =>
  split at hc
  · cases hc
  next hentry =>
  cases hn : p.checkNodes 0 p.nodes with
  | error fault => simp [hn, Except.bind] at hc
  | ok u =>
    have hchains : p.checkChains = .ok () := by simpa [hn, Except.bind] using hc
    have hnode (index : Nat) (node : PlanNode) (hk : p.nodes[index]? = some node) := by
      have hk := checkNode_ok (checkNodes_ok hn index node hk)
      rwa [Nat.zero_add] at hk
    have hmem (node : PlanNode) (hm : node ∈ p.nodes) :
        node.payload.kind ≠ .root ∧ ∀ child ∈ node.children, child < p.nodes.length := by
      obtain ⟨index, hk⟩ := List.mem_iff_getElem?.mp hm
      exact ⟨(hnode index node hk).1, (hnode index node hk).2.1⟩
    refine ⟨by simp [hnodes], fun node h0 => ?_, fun node hm => (hmem node hm).1,
      fun node hm => (hmem node hm).2, fun index node hk => (hnode index node hk).2.2,
      fun index hi => ?_⟩
    · have : entry = node := by simpa [hnodes] using h0
      simpa [this] using hentry
    · by_cases h0 : index = 0
      · exact h0 ▸ .entry
      · refine ownedByEntry_of_ownersEnd (fun k node hk => (hnode k node hk).2.2)
          p.nodes.length index hi ?_
        unfold checkChains at hchains
        split at hchains
        · cases hchains
        next hfind => simpa [h0] using List.find?_eq_none.mp hfind index (by simpa using hi)

end MotionScript.Plan
