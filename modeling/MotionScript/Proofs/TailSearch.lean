import MotionScript.Proofs.BuilderInvariant
import Mathlib.Logic.Relation

/-!
# The search for the tail ends

The search for the tail of a node goes to the last child that the node owns, and from there on, as
long as there is one. It keeps no list of the nodes that it has seen, and nothing limits its turns.
Edges may close loops, but each turn goes one step further away from the root along the tree of
owners, so in whatever state a builder is, the search is over before it has made as many turns as
there are nodes.
-/
namespace MotionScript

namespace Graph

/-- The last child in branch order that a node owns. -/
def IsLastOwned (g : Graph) (id child : NodeId) : Prop :=
  ∃ earlier later, g.children id = earlier ++ child :: later ∧ g.owner? child = some id ∧
    ∀ other ∈ later, g.owner? other ≠ some id

/-- A node that owns none of its children, to which one comes from another by always going to the
last child that is owned. -/
def IsTail (g : Graph) (id last : NodeId) : Prop :=
  Relation.ReflTransGen g.IsLastOwned id last ∧
    ∀ child ∈ g.children last, g.owner? child ≠ some last

/-- The search for a tail, without a bound: after a number of turns it ends at a node. -/
inductive SearchEnds (g : Graph) : Nat → NodeId → NodeId → Prop
  | found {id : NodeId} : g.lastOwned? id = none → SearchEnds g 0 id id
  | turn {turns : Nat} {id child last : NodeId} :
      g.lastOwned? id = some child → SearchEnds g turns child last →
        SearchEnds g (turns + 1) id last

variable {g : Graph}

theorem lastOwned?_eq_some_iff {id child : NodeId} :
    g.lastOwned? id = some child ↔ g.IsLastOwned id child := by
  unfold lastOwned? IsLastOwned
  rw [List.find?_eq_some_iff_append]
  constructor
  · rintro ⟨ho, later, earlier, hsplit, hlater⟩
    refine ⟨earlier.reverse, later.reverse, ?_, by simpa using ho, ?_⟩
    · simpa using congrArg List.reverse hsplit
    · intro other hm
      simpa using hlater other (List.mem_reverse.mp hm)
  · rintro ⟨earlier, later, hsplit, ho, hlater⟩
    refine ⟨by simpa using ho, later.reverse, earlier.reverse, by simp [hsplit], ?_⟩
    intro other hm
    simpa using hlater other (List.mem_reverse.mp hm)

theorem lastOwned?_eq_none_iff {id : NodeId} :
    g.lastOwned? id = none ↔ ∀ child ∈ g.children id, g.owner? child ≠ some id := by
  simp [lastOwned?]

namespace SearchEnds

variable {turns : Nat} {id last : NodeId}

theorem unique (h : g.SearchEnds turns id last) {turns' : Nat} {last' : NodeId}
    (h' : g.SearchEnds turns' id last') :
    turns' = turns ∧ last' = last := by
  induction h generalizing turns' with
  | found hnone =>
    cases h' with
    | found => exact ⟨rfl, rfl⟩
    | turn hsome => simp [hnone] at hsome
  | turn hsome _ ih =>
    cases h' with
    | found hnone => simp [hnone] at hsome
    | turn hsome' h' =>
      cases Option.some.inj (hsome.symm.trans hsome')
      obtain ⟨rfl, rfl⟩ := ih h'
      exact ⟨rfl, rfl⟩

theorem isTail (h : g.SearchEnds turns id last) : g.IsTail id last := by
  induction h with
  | found hnone => exact ⟨.refl, lastOwned?_eq_none_iff.mp hnone⟩
  | turn hsome _ ih => exact ⟨.head (lastOwned?_eq_some_iff.mp hsome) ih.1, ih.2⟩

theorem climbs (h : g.SearchEnds turns id last) {height : Nat} (hid : Climbs g.owner? id height) :
    Climbs g.owner? last (height + turns) := by
  induction h generalizing height with
  | found => exact hid
  | turn hsome _ ih =>
    have hchild := ih (.step (owner?_of_lastOwned? hsome) hid)
    rwa [Nat.add_right_comm] at hchild

/-- The search stays in the graph. -/
theorem lt_size (h : g.SearchEnds turns id last) (hid : id < g.size) : last < g.size := by
  induction h with
  | found => exact hid
  | turn hsome _ ih => exact ih (lt_size_of_owner? (owner?_of_lastOwned? hsome))

end SearchEnds

/-- Where the search that counts its steps comes to a node that owns nothing, the search without a
bound ends. -/
theorem exists_searchEnds {steps : Nat} {id : NodeId}
    (h : g.lastOwned? (g.followOwned steps id) = none) :
    ∃ turns, g.SearchEnds turns id (g.followOwned steps id) := by
  induction steps generalizing id with
  | zero => exact ⟨0, .found h⟩
  | succ steps ih =>
    cases hc : g.lastOwned? id with
    | none =>
      rw [followOwned_of_none hc]
      exact ⟨0, .found hc⟩
    | some child =>
      simp only [followOwned, hc] at h ⊢
      obtain ⟨turns, hends⟩ := ih h
      exact ⟨turns + 1, .turn hc hends⟩

/-- Where ownership is a tree, the search from any node ends after fewer turns than there are
nodes. -/
theorem Sound.searchEnds {loose : NodeId → Prop} (h : g.Sound loose) {id : NodeId}
    (hid : id < g.size) :
    ∃ turns < g.size, g.SearchEnds turns id (g.tail id) := by
  obtain ⟨turns, hends⟩ := exists_searchEnds (h.lastOwned?_tail hid)
  obtain ⟨height, -, hclimbs⟩ := h.climbs hid
  have hbelow : height + turns < g.size :=
    (hends.climbs hclimbs).lt_bound (hends.lt_size hid) h.owner_lt
  exact ⟨turns, Nat.lt_of_le_of_lt (Nat.le_add_left turns height) hbelow, hends⟩

end Graph

namespace Builder

/-- In whatever state a builder is, also with plans grafted that come from elsewhere, the search for
the tail of a node ends, and in one way only: at a node that owns none of its children, to which it
came by always going to the last child in branch order that is owned. To graft a plan puts the
cursor where the search ends that begins at the entry as soon as this is attached. -/
theorem tail_search_ends (edits : List Edit) :
    let b := applyAll {} edits
    (∀ id < b.graph.size, ∃ turns < b.graph.size,
      (∀ turns' last, b.graph.SearchEnds turns' id last ↔ turns' = turns ∧ last = b.graph.tail id) ∧
        b.graph.tail id < b.graph.size ∧ b.graph.IsTail id (b.graph.tail id)) ∧
      ∀ plan entry next, b.graft plan = .ok (entry, next) →
        ∃ turns, next.graph.SearchEnds turns entry next.cursor := by
  intro b
  have h : b.WellFormed := wellFormed_after_edits edits
  constructor
  · intro id hid
    obtain ⟨turns, hturns, hends⟩ := h.sound.searchEnds hid
    refine ⟨turns, hturns, fun turns' last => ⟨fun hends' => hends.unique hends', ?_⟩,
      hends.lt_size hid, hends.isTail⟩
    rintro ⟨rfl, rfl⟩
    exact hends
  · intro plan entry next hg
    have hnext : next.WellFormed := h.graft hg
    cases hv : plan.validate with
    | error failure =>
      rw [graft_of_fault hv] at hg
      cases hg
    | ok u =>
      rw [graft_of_validate hv] at hg
      cases hg
      have hplan : 0 < plan.nodes.length :=
        List.length_pos_iff.mpr (Plan.valid_of_validate hv).nonempty
      have hentry : b.graph.size < (b.graph.withPlan b.cursor plan).size := by
        rw [Graph.size_withPlan]
        exact Nat.lt_add_of_pos_right hplan
      obtain ⟨turns, -, hends⟩ := hnext.sound.searchEnds hentry
      exact ⟨turns, hends⟩

/-- A plan that no builder records: its entry is its own last child, and the child before that one
leads back to another child and to the entry. -/
theorem tail_search_ends_grafted :
    let plan : Plan := ⟨1, [
      { payload := .placeholder, children := [1, 2, 0] },
      { payload := .placeholder, owner := some 0 },
      { payload := .placeholder, owner := some 0, children := [1, 0] }]⟩
    let b := applyAll {} [.graft plan]
    ({} : Builder).graft plan = .ok (1, b) ∧ b.graph.children 1 = [2, 3, 1] ∧
      b.graph.children 3 = [2, 1] ∧ b.cursor = 3 ∧
      (∃ turns, b.graph.SearchEnds turns 1 3) ∧ 1 < b.graph.size ∧ b.graph.tail 1 = 3 ∧
      b.graph.IsTail 1 3 := by
  intro plan b
  have hgraft : ({} : Builder).graft plan = .ok (1, b) := rfl
  have hlt : 1 < b.graph.size := by decide
  have hcursor : b.cursor = 3 := rfl
  have htail : b.graph.tail 1 = 3 := rfl
  obtain ⟨turns, hends⟩ := (tail_search_ends []).2 plan 1 b hgraft
  obtain ⟨-, -, -, -, hisTail⟩ := (tail_search_ends [.graft plan]).1 1 hlt
  exact ⟨hgraft, rfl, rfl, hcursor, ⟨turns, hcursor ▸ hends⟩, hlt, htail, htail ▸ hisTail⟩

end Builder
end MotionScript
