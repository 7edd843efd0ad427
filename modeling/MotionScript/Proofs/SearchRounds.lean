import MotionScript.Proofs.DepthFirstPreorder
import Mathlib.Logic.Relation

/-!
# The search round by round

A round of the search takes a node from the top of a stack. A node that is listed already is passed
over; any other is listed, and those of its children that are not listed yet come onto the stack in
branch order. A node may wait on the stack several times. What waits below a node has its turn only
when all that is found from the node is listed, as in the recursive search, so the rounds end with
the nodes in depth-first pre-order.
-/
namespace MotionScript

def Reaches (children : Nat → List Nat) : Nat → Nat → Prop :=
  Relation.ReflTransGen fun id child => child ∈ children id

/-- A search on its way: the nodes listed so far and the stack of those that wait. -/
structure Search where
  listed : List NodeId
  stack : List NodeId

namespace Graph

/-- One round of a search. There is none when the stack is empty, nor for a node that is not
there. -/
def round? (g : Graph) (s : Search) : Option Search :=
  match s.stack with
  | [] => none
  | id :: below =>
    if id ∈ s.listed then some ⟨s.listed, below⟩
    else (g.node? id).map fun node =>
      ⟨s.listed ++ [id], node.children.filter (· ∉ s.listed ++ [id]) ++ below⟩

def Rounds (g : Graph) : Search → Search → Prop :=
  Relation.ReflTransGen fun s s' => g.round? s = some s'

variable {g : Graph}

theorem round?_listed {listed below : List NodeId} {id : NodeId} (h : id ∈ listed) :
    g.round? ⟨listed, id :: below⟩ = some ⟨listed, below⟩ := if_pos h

theorem round?_new {listed below : List NodeId} {id : NodeId} (h : id ∉ listed)
    (hid : id < g.size) :
    g.round? ⟨listed, id :: below⟩ =
      some ⟨listed ++ [id], (g.children id).filter (· ∉ listed ++ [id]) ++ below⟩ := by
  obtain ⟨node, hn⟩ := exists_node hid
  simp only [round?, if_neg h, hn, Option.map_some, children, Option.getD_some]

/-- The rounds list what the recursive search finds from some nodes, and then what waits below them
has its turn. Of the nodes some that are listed may be missing on the stack. -/
theorem rounds_of_depthFirst (hchild : ∀ id, ∀ child ∈ g.children id, child < g.size)
    {seen todo found : List NodeId} (h : DepthFirst g.children seen todo found)
    (htodo : ∀ id ∈ todo, id < g.size) {listed missing : List NodeId}
    (hlisted : ∀ id, id ∈ listed ↔ id ∈ seen) (hmissing : ∀ id ∈ missing, id ∈ seen)
    (below : List NodeId) :
    g.Rounds ⟨listed, todo.filter (· ∉ missing) ++ below⟩ ⟨listed ++ found, below⟩ := by
  induction h generalizing listed missing below with
  | nil =>
    rw [List.filter_nil, List.nil_append, List.append_nil]
    exact .refl
  | @skip seen rest found id hid _ ih =>
    have hrest := ih (List.forall_mem_cons.mp htodo).2 hlisted hmissing below
    by_cases hm : id ∈ missing
    · rwa [List.filter_cons_of_neg (by simpa using hm)]
    · rw [List.filter_cons_of_pos (by simpa using hm)]
      exact .head (round?_listed ((hlisted id).mpr hid)) hrest
  | @visit seen rest inner outer id hid _ _ ihInner ihOuter =>
    obtain ⟨hlt, hrest⟩ := List.forall_mem_cons.mp htodo
    have hm : id ∉ missing := fun hm => hid (hmissing id hm)
    have hnew : id ∉ listed := fun hm => hid ((hlisted id).mp hm)
    have hlistedIn (x : NodeId) : x ∈ listed ++ [id] ↔ x ∈ id :: seen := by
      rw [List.mem_append, List.mem_singleton, hlisted, List.mem_cons, or_comm]
    have hlistedOut (x : NodeId) : x ∈ listed ++ [id] ++ inner ↔ x ∈ inner ++ id :: seen := by
      rw [List.mem_append, hlistedIn, List.mem_append, or_comm]
    have hmissingOut (x : NodeId) (hx : x ∈ missing) : x ∈ inner ++ id :: seen :=
      List.mem_append_right _ (List.mem_cons_of_mem _ (hmissing x hx))
    -- the children go onto what is left of the list, and what is found from them is listed before
    -- the rest
    have hinner := ihInner (hchild id) hlistedIn (fun x => (hlistedIn x).mp)
      (rest.filter (· ∉ missing) ++ below)
    have houter := ihOuter hrest hlistedOut hmissingOut below
    rw [show listed ++ [id] ++ inner ++ outer = listed ++ (id :: inner ++ outer) by simp] at houter
    rw [List.filter_cons_of_pos (by simpa using hm)]
    exact .head (round?_new hnew hlt) (hinner.trans houter)

/-- A search that can come to an end comes to it from wherever it stands. -/
theorem Rounds.goesOn {s s' : Search} (h : g.Rounds s s') {listed : List NodeId}
    (hend : g.Rounds s ⟨listed, []⟩) :
    g.Rounds s' ⟨listed, []⟩ := by
  have hunique : Relator.RightUnique fun s s' : Search => g.round? s = some s' :=
    fun _ _ _ hs hs' => Option.some.inj (hs.symm.trans hs')
  rcases Relation.ReflTransGen.total_of_right_unique hunique h hend with hon | hback
  · exact hon
  · rcases hback.cases_head with rfl | ⟨_, hround, -⟩
    · exact .refl
    · cases hround

/-- The search finds what edges lead to. -/
theorem mem_reachable_iff_reaches (hchild : ∀ id, ∀ child ∈ g.children id, child < g.size)
    {start : NodeId} (hstart : start < g.size) {id : NodeId} :
    id ∈ g.reachable start ↔ Reaches g.children start id := by
  constructor
  · have hstack : ∀ x ∈ [start], Reaches g.children start x :=
      fun x hx => List.mem_singleton.mp hx ▸ .refl
    exact visit_induction hstack (fun x hx child hc => hx.tail hc) id
  · intro h
    induction h with
    | refl => exact mem_visit_of_mem_stack List.mem_cons_self (List.mem_range.mpr hstart)
    | tail _ hc ih => exact mem_visit_of_child ih hc (List.mem_range.mpr (hchild _ _ hc))

/-- In a graph whose edges stay inside it, with loops and joined paths or without, the search from a
node goes on, wherever it stands, until nothing is left on the stack. Then it has listed the nodes
in the one order in which the recursive search finds them: the first is where it started, none comes
twice, and they are the nodes that edges lead to from there. -/
theorem reachable_in_preorder (hchild : ∀ id, ∀ child ∈ g.children id, child < g.size)
    {start : NodeId} (hstart : start < g.size) :
    (∀ s, g.Rounds ⟨[], [start]⟩ s → g.Rounds s ⟨g.reachable start, []⟩) ∧
      (∀ found, DepthFirst g.children [] [start] found ↔ found = g.reachable start) ∧
      (g.reachable start).head? = some start ∧ (g.reachable start).Nodup ∧
      ∀ id, id ∈ g.reachable start ↔ Reaches g.children start id := by
  have hfound := depthFirst_reachable hchild hstart
  have hrounds : g.Rounds ⟨[], [start]⟩ ⟨g.reachable start, []⟩ := by
    have hnone : ∀ id ∈ ([] : List NodeId), id ∈ ([] : List NodeId) := fun _ h => h
    have h := rounds_of_depthFirst hchild hfound (by simpa using hstart) (fun _ => Iff.rfl) hnone []
    simpa using h
  refine ⟨fun s hs => hs.goesOn hrounds,
    fun found => ⟨fun h => h.unique hfound, fun h => h ▸ hfound⟩, ?_, nodup_reachable g start,
    fun id => mem_reachable_iff_reaches hchild hstart⟩
  rw [reachable_eq_cons hstart, List.head?_cons]

/-- Node 3 waits on the stack below node 2 and is found from there first; the search meets a loop,
an edge from a node to itself, and a child that stands at two branches. -/
theorem reachable_in_preorder_loops :
    let g : Graph := ⟨#[
      { payload := .root, children := [1] },
      { payload := .placeholder, children := [2, 3, 2] },
      { payload := .placeholder, children := [2, 3, 1] },
      { payload := .placeholder }]⟩
    (∀ id, ∀ child ∈ g.children id, child < g.size) ∧ 1 < g.size ∧ g.reachable 1 = [1, 2, 3] ∧
      g.Rounds ⟨[], [1]⟩ ⟨[1, 2, 3], []⟩ ∧ ∀ id, id ∈ [1, 2, 3] ↔ Reaches g.children 1 id := by
  intro g
  have hchild : ∀ id, ∀ child ∈ g.children id, child < g.size := by
    intro id child hc
    have hall : ∀ id < 4, ∀ child ∈ g.children id, child < 4 := by decide
    exact hall id (lt_size_of_mem_children hc) child hc
  have hstart : 1 < g.size := by decide
  obtain ⟨hrounds, horder, -, -, hmem⟩ := reachable_in_preorder hchild hstart
  have hfound : DepthFirst g.children [] [1] [1, 2, 3] := by
    have hleaf : DepthFirst g.children [3, 2, 1] (g.children 3) [] := .nil _
    have hinner : DepthFirst g.children [2, 1] (g.children 2) [3] :=
      .skip (by decide) (.visit (by decide) hleaf (.skip (by decide) (.nil _)))
    have hchildren : DepthFirst g.children [1] (g.children 1) [2, 3] :=
      .visit (by decide) hinner (.skip (by decide) (.skip (by decide) (.nil _)))
    exact .visit (by decide) hchildren (.nil _)
  have hreachable := (horder _).mp hfound
  rw [← hreachable] at hrounds hmem
  exact ⟨hchild, hstart, hreachable.symm, hrounds _ .refl, hmem⟩

end Graph
end MotionScript
