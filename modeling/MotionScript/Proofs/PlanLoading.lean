import MotionScript.Proofs.DepthFirstOrder
import MotionScript.Proofs.RecordingReplay
import MotionScript.Proofs.RecordingTrail
import Mathlib.Data.List.Induction

/-!
# Loading a plan

The plan of a recording is grafted onto a builder instead of the instructions being entered again.
In both cases the recording is planted at the cursor, so the graphs are the same up to names; but a
plan does not tell where its recording stopped. Grafting puts the cursor at the tail of the plan,
which is where the recording stopped unless the cursor stood on a node that owns another. It does
exactly when a loop that is tested first has just ended, and owns its body.
-/
namespace MotionScript

def Builder.load (b source : Builder) : Builder :=
  match source.snapshot with
  | .ok plan => b.apply (.graft plan)
  | .error _ => b

namespace Builder

variable {b source : Builder} {first : NodeId}

theorem WellFormed.load (h : b.WellFormed) (source : Builder) : (b.load source).WellFormed := by
  unfold Builder.load
  split
  · exact h.apply _
  · exact h

namespace WellFormed

theorem exists_owned_by_root (h : b.WellFormed) {id owner : NodeId}
    (ho : b.graph.owner? id = some owner) :
    ∃ top, b.graph.owner? top = some Graph.root := by
  have hall (x : NodeId) (hx : b.graph.Rooted x) : x ≠ Graph.root →
      ∃ top, b.graph.owner? top = some Graph.root := by
    induction hx with
    | root => exact fun hne => absurd rfl hne
    | @step id owner ho _ ih =>
      intro _
      by_cases hr : owner = Graph.root
      · exact ⟨id, hr ▸ ho⟩
      · exact ih hr
  exact hall id (h.sound.owned_rooted id owner ho) (h.sound.ne_root ho)

theorem owner?_first (h : b.WellFormed) (hf : b.graph.first? = some first) :
    b.graph.owner? first = some Graph.root := by
  obtain ⟨owner, ho⟩ := h.owned_of_child (first_mem_children hf)
  obtain ⟨top, htop⟩ := h.exists_owned_by_root ho
  rwa [h.eq_first hf htop] at htop

theorem owned_of_closed (h : b.WellFormed) (hpending : b.pending = []) {id : NodeId}
    (hid : id < b.graph.size) (hne : id ≠ Graph.root) :
    ∃ owner, b.graph.owner? id = some owner := by
  refine (h.sound.anchored hid fun hw => ?_).resolve_left hne
  simpa [hpending] using hw.2

theorem length_reachable (h : b.WellFormed) (hpending : b.pending = [])
    (hf : b.graph.first? = some first) :
    (b.graph.reachable first).length + 1 = b.graph.size := by
  have hroot : Graph.root ∉ b.graph.reachable first := fun hm => by
    obtain ⟨owner, ho⟩ := (h.mem_reachable_iff hf).mp hm
    exact h.sound.ne_root ho rfl
  have hnodup : (Graph.root :: b.graph.reachable first).Nodup :=
    List.nodup_cons.mpr ⟨hroot, b.graph.nodup_reachable first⟩
  have hmem (id : NodeId) : id ∈ Graph.root :: b.graph.reachable first ↔
      id ∈ List.range b.graph.size := by
    rw [List.mem_cons, h.mem_reachable_iff hf, List.mem_range]
    constructor
    · exact h.sound.anchored_lt
    · intro hid
      by_cases hne : id = Graph.root
      · exact .inl hne
      · exact .inr (h.owned_of_closed hpending hid hne)
  simpa using ((List.perm_ext_iff_of_nodup hnodup List.nodup_range).mpr hmem).length_eq

theorem eq_empty_of_size (h : b.WellFormed) (hsize : b.graph.size = 1) : b = {} := by
  have honly {id : NodeId} (hid : id < b.graph.size) : id = Graph.root :=
    Nat.lt_one_iff.mp (hsize ▸ hid)
  obtain ⟨node, hn⟩ := Graph.exists_node h.sound.root_lt
  have hpayload : node.payload = .root := by simpa [Graph.payload?, hn] using h.sound.root_payload
  have howner : node.owner = none := by simpa [Graph.owner?, hn] using h.sound.root_owner
  have hchildren : node.children = [] := by
    refine List.eq_nil_iff_forall_not_mem.mpr fun child hc => ?_
    have hm : child ∈ b.graph.children Graph.root := by simpa [Graph.children, hn] using hc
    exact h.sound.root_not_child _ (honly (h.sound.child_lt _ child hm) ▸ hm)
  have hpending : b.pending = [] :=
    List.eq_nil_iff_forall_not_mem.mpr fun id hm => h.pending_ne_root hm (honly (h.pending_lt hm))
  have hgraph : b.graph.nodes = Graph.empty.nodes := by
    refine Array.ext hsize fun index hi _ => ?_
    obtain rfl := honly hi
    have hroot : b.graph.nodes[Graph.root] = node :=
      Option.some.inj ((Array.getElem?_eq_getElem hi).symm.trans hn)
    rw [hroot]
    cases node
    cases hpayload
    cases howner
    cases hchildren
    rfl
  obtain ⟨⟨nodes⟩, cursor, pending⟩ := b
  cases hgraph
  cases hpending
  cases honly h.cursor_lt
  rfl

theorem first?_eq_none_iff (h : b.WellFormed) : b.graph.first? = none ↔ b = {} := by
  constructor
  · intro hf
    have hnone : b.graph.children Graph.root = [] := by simpa [Graph.first?, Graph.child?] using hf
    rcases h.cursor with hroot | ⟨owner, ho⟩
    · exact h.eq_empty_of_size (h.size_of_cursor_root hroot)
    · obtain ⟨top, htop⟩ := h.exists_owned_by_root ho
      simpa [hnone] using h.sound.owner_lists top _ htop
  · rintro rfl
    rfl

end WellFormed

/-! ## A grafted recording -/

/-- The names that a recording has after its plan is grafted: the nodes stand in the order of the
search. -/
def grafted (b source : Builder) (first id : NodeId) : NodeId :=
  if id = Graph.root then b.cursor else b.graph.size + (source.graph.reachable first).idxOf id

theorem planted_withPlan (hb : b.WellFormed) (hs : source.WellFormed)
    (hpending : source.pending = []) (hf : source.graph.first? = some first) :
    Graph.Planted (b.grafted source first) b.graph b.cursor source.graph
      (b.graph.withPlan b.cursor (.capture source.graph first)) := by
  have hplace {id : NodeId} (hne : id ≠ Graph.root) :
      b.grafted source first id =
        b.graph.size + (source.graph.reachable first).idxOf id := if_neg hne
  have hfound {id : NodeId} (hid : id < source.graph.size) (hne : id ≠ Graph.root) :
      id ∈ source.graph.reachable first :=
        (hs.mem_reachable_iff hf).mpr (hs.owned_of_closed hpending hid hne)
  obtain ⟨rest, hrest⟩ := hs.reachable_first hf
  have hfirst : (source.graph.reachable first).idxOf first = 0 := by
    rw [hrest, List.idxOf_cons_self]
  refine ⟨if_pos rfl, ?_, fun id hid hne => ?_, fun id hid other hother hne hne' he => ?_,
    fun id hid hne => ?_, fun id hid => ?_⟩
  · rw [Graph.size_withPlan, Plan.length_capture, Nat.add_assoc, hs.length_reachable hpending hf]
  · rw [hplace hne, Graph.size_withPlan, Plan.length_capture]
    exact ⟨Nat.le_add_right _ _,
      Nat.add_lt_add_left (List.idxOf_lt_length_of_mem (hfound hid hne)) _⟩
  · rw [hplace hne, hplace hne'] at he
    exact (List.idxOf_inj (hfound hid hne)).mp (Nat.add_left_cancel he)
  · obtain ⟨owner, ho⟩ := hs.owned_of_closed hpending hid hne
    obtain ⟨node, hn⟩ := Graph.exists_node hid
    have hnode : node.owner = some owner := by simpa [Graph.owner?, hn] using ho
    have hchildren : node.children.map (b.grafted source first) =
        (node.children.map (source.graph.reachable first).idxOf).map (b.graph.size + ·) := by
      rw [List.map_map]
      refine List.map_congr_left fun child hc => hplace fun hr => ?_
      exact hs.sound.root_not_child id (by simpa [Graph.children, hn, hr] using hc)
    have hcur : b.graph.size + (source.graph.reachable first).idxOf id ≠ b.cursor :=
      Nat.ne_of_gt (Nat.lt_of_lt_of_le hb.cursor_lt (Nat.le_add_right _ _))
    rw [hplace hne, Graph.node?_withPlan_add, hs.getElem?_capture hf ho hn, hn, Option.map_some,
      Option.map_some]
    simp only [Graph.Node.attached, shifted, Node.renamed, hnode, Option.map_some, hchildren,
      hcur, if_false]
    congr 2
    by_cases he : id = first
    · have hr : owner = Graph.root := by
        rw [he, hs.owner?_first hf] at ho
        exact (Option.some.inj ho).symm
      have hroot : b.graph.size ≠ Graph.root := Nat.ne_of_gt hb.sound.root_lt
      simp [he, hfirst, hr, hroot, grafted]
    · have hr : owner ≠ Graph.root := fun hr => he (hs.eq_first hf (hr ▸ ho))
      have hindex : (source.graph.reachable first).idxOf id ≠ 0 := fun h0 =>
        he ((List.idxOf_inj (hfound hid hne)).mp (h0.trans hfirst.symm))
      simp [he, hindex, hplace hr]
  · rw [Graph.node?_withPlan_of_lt b.cursor _ hid, hs.children_root hf]
    congr 1
    funext node
    have hroot : first ≠ Graph.root := hs.sound.ne_root (hs.owner?_first hf)
    simp only [Graph.Node.attached, Graph.Node.extended, Nat.ne_of_lt hid, false_and, if_false,
      List.map_cons, List.map_nil, hplace hroot, hfirst, Nat.add_zero]
    congr 1
    split <;> simp

theorem tail_withPlan (hb : b.WellFormed) (hs : source.WellFormed) (hone : source.graph.OneRoot)
    (hpending : source.pending = []) (hf : source.graph.first? = some first) {path : List NodeId}
    (ht : source.Trailed path) :
    (b.graph.withPlan b.cursor (.capture source.graph first)).tail b.graph.size =
      b.grafted source first source.cursor ↔
      source.graph.lastOwned? source.cursor = none := by
  have hplanted := planted_withPlan hb hs hpending hf
  have howner := hs.owner?_first hf
  have hne : first ≠ Graph.root := hs.sound.ne_root howner
  have hlt : first < source.graph.size := Graph.lt_size_of_owner? howner
  have hcur : source.cursor ≠ Graph.root := fun hc => by
    simpa [hs.root_children_of_cursor_root hc] using WellFormed.first_mem_children hf
  have hroot : source.graph.lastOwned? Graph.root = some first := by
    simp [Graph.lastOwned?, hs.children_root hf, howner]
  -- the search from the root passes the first node and then the cursor
  obtain ⟨steps, hsteps⟩ : ∃ steps, source.graph.followOwned steps first = source.cursor := by
    obtain ⟨steps, hsteps⟩ := ht.trail.exists_followOwned
    cases steps with
    | zero => exact absurd hsteps.symm hcur
    | succ steps => exact ⟨steps, by simpa [Graph.followOwned, hroot] using hsteps⟩
  obtain ⟨rest, hrest⟩ := hs.reachable_first hf
  have hentry : b.grafted source first first = b.graph.size := by
    rw [grafted, if_neg hne, hrest, List.idxOf_cons_self, Nat.add_zero]
  have hpath := hplanted.followOwned hs.sound hb.cursor_lt steps hlt hne
  rw [hsteps, hentry] at hpath
  have hsound := hb.sound.withPlan hb.cursor (hs.valid_capture hf hone)
  have hentryLt := (hplanted.place first hlt hne).2
  rw [hentry] at hentryLt
  rw [hsound.tail_eq_iff hentryLt hpath,
    hplanted.lastOwned? hs.sound hb.cursor_lt hs.cursor_lt hcur, Option.map_eq_none_iff]

/-- After a load the recording stands at the cursor, and the cursor is where the recording stopped
if nothing belongs to that node. -/
theorem planted_load (hb : b.WellFormed) (hs : source.WellFormed) (hone : source.graph.OneRoot)
    (hpending : source.pending = []) {path : List NodeId} (ht : source.Trailed path) :
    ∃ f, Graph.Planted f b.graph b.cursor source.graph (b.load source).graph ∧
      (b.load source).pending = b.pending ∧
      ((b.load source).cursor = f source.cursor ↔
        source.graph.lastOwned? source.cursor = none) := by
  cases hf : source.graph.first? with
  | none =>
    obtain rfl := hs.first?_eq_none_iff.mp hf
    have hload : b.load {} = b := by simp [load, snapshot, hf]
    refine ⟨fun _ => b.cursor, ?_, ?_, ?_⟩ <;> rw [hload]
    · exact .of_root rfl rfl rfl
    · exact iff_of_true rfl rfl
  | some first =>
    have hvalid := (hs.valid_capture hf hone).validate rfl
    have hload : b.load source = { b with
        graph := b.graph.withPlan b.cursor (.capture source.graph first)
        cursor := (b.graph.withPlan b.cursor (.capture source.graph first)).tail
            b.graph.size } := by
      simp [load, snapshot, hf, Builder.apply, graft_of_validate hvalid, settle]
    refine ⟨b.grafted source first, ?_, ?_, ?_⟩ <;> rw [hload]
    · exact planted_withPlan hb hs hpending hf
    · exact tail_withPlan hb hs hone hpending hf ht

/-- A load gives the same builder as entering the instructions, up to names and perhaps the
cursor. -/
theorem load_renames (hb : b.WellFormed) {instructions : List Instruction}
    (haccepts : accepts {} instructions) (hpending : (enter {} instructions).pending = []) :
    ∃ f, Graph.Renames f (b.enter instructions).graph (b.load (enter {} instructions)).graph ∧
      (b.load (enter {} instructions)).pending = (b.enter instructions).pending.map f ∧
      ((b.load (enter {} instructions)).cursor = f (b.enter instructions).cursor ↔
        (enter {} instructions).graph.lastOwned? (enter {} instructions).cursor = none) := by
  have hs : (enter {} instructions).WellFormed := wellFormed_empty.enter instructions
  obtain ⟨path, ht⟩ := exists_trail instructions
  obtain ⟨f, hplanted, hsame, hcursor⟩ :=
    planted_load hb hs (oneRoot_enter instructions) hpending ht
  have hreplays := (replays_empty b).enter hb wellFormed_empty haccepts
  refine ⟨_, hreplays.graph.renames hb.sound hs.sound hb.cursor_lt hplanted, ?_, ?_⟩
  · rw [hsame, hreplays.pending, hpending, List.map_nil, List.nil_append]
    refine ((List.map_congr_left fun id hm => ?_).trans (List.map_id _)).symm
    exact if_pos (hb.pending_lt hm)
  · rw [hreplays.cursor, hplanted.replanting_inOrder hb.cursor_lt hs.cursor_lt]
    exact hcursor

/-! ## How the next instruction shows where the cursor is -/

/-- In two recordings with the same plan, nodes that have the same place in it have children that
have the same places. -/
theorem WellFormed.map_children_of_capture {b' : Builder} {first' id id' owner owner' : NodeId}
    (hb : b.WellFormed) (hb' : b'.WellFormed) (hf : b.graph.first? = some first)
    (hf' : b'.graph.first? = some first')
    (hplan : Plan.capture b'.graph first' = Plan.capture b.graph first)
    (ho : b.graph.owner? id = some owner) (ho' : b'.graph.owner? id' = some owner')
    (hplace : (b'.graph.reachable first').idxOf id' = (b.graph.reachable first).idxOf id) :
    (b'.graph.children id').map (b'.graph.reachable first').idxOf =
      (b.graph.children id).map (b.graph.reachable first).idxOf := by
  obtain ⟨node, hn⟩ := Graph.exists_node (Graph.lt_size_of_owner? ho)
  obtain ⟨node', hn'⟩ := Graph.exists_node (Graph.lt_size_of_owner? ho')
  have hfound := hb.getElem?_capture hf ho hn
  have hfound' := hb'.getElem?_capture hf' ho' hn'
  rw [hplan, hplace, hfound] at hfound'
  simpa [Graph.children, hn, hn'] using congrArg PlanNode.children (Option.some.inj hfound').symm

theorem children_append_eq (hcur : b.cursor < b.graph.size) (p : Payload) (id : NodeId) :
    (b.append p).graph.children id = b.graph.children id ++ if id = b.cursor
      then [b.graph.size] else [] := by
  rw [children_append hcur]
  split
  next he => rw [he]
  next => rw [List.append_nil]

theorem WellFormed.exists_first (h : b.WellFormed) (hcur : b.cursor ≠ Graph.root) :
    ∃ first, b.graph.first? = some first := by
  obtain ⟨owner, ho⟩ := h.cursor.resolve_left hcur
  obtain ⟨top, htop⟩ := h.exists_owned_by_root ho
  have hm := h.sound.owner_lists top _ htop
  exact ⟨_, List.getElem?_eq_getElem (List.length_pos_of_mem hm)⟩

theorem first?_append (h : b.WellFormed) (hcur : b.cursor ≠ Graph.root) (p : Payload) :
    (b.append p).graph.first? = b.graph.first? := by
  rw [Graph.first?, Graph.child?, children_append_eq h.cursor_lt, if_neg hcur.symm, List.append_nil]
  rfl

section

variable {f : NodeId → NodeId} {b' : Builder} {p : Payload}
variable (h : Graph.Renames f b.graph b'.graph) (hb : b.WellFormed) (hb' : b'.WellFormed)
variable (hf : (b.append p).graph.first? = some first)
  (hf' : (b'.append p).graph.first? = some (f first))
variable (hplan : Plan.capture (b'.append p).graph (f first) =
  Plan.capture (b.append p).graph first)

include h hb hb' hf hf' hplan

private theorem places_of_children {id owner : NodeId} (ho : b.graph.owner? id = some owner)
    (hplace : ((b'.append p).graph.reachable (f first)).idxOf (f id) =
      ((b.append p).graph.reachable first).idxOf id) :
    (((b.graph.children id).map f) ++ if f id = b'.cursor then [b'.graph.size] else []).map
        ((b'.append p).graph.reachable (f first)).idxOf =
      (b.graph.children id ++ if id = b.cursor then [b.graph.size] else []).map
        ((b.append p).graph.reachable first).idxOf := by
  have hlt : id < b.graph.size := Graph.lt_size_of_owner? ho
  have hown : (b.append p).graph.owner? id = some owner := by
    rw [owner?_append hb.sound.root_lt, if_neg (Nat.ne_of_lt hlt), ho]
  have hown' : (b'.append p).graph.owner? (f id) = some (f owner) := by
    rw [owner?_append hb'.sound.root_lt,
      if_neg fun he => Nat.ne_of_lt hlt ((h.eq_size_iff id).mp he), h.owner?, ho, Option.map_some]
  have hmap := (hb.append p).map_children_of_capture (hb'.append p) hf hf' hplan hown hown' hplace
  rwa [children_append_eq hb'.cursor_lt, children_append_eq hb.cursor_lt, h.children] at hmap

/-- Every node has the same place on both sides, since it has the same slot below its owner. -/
private theorem place_of_rooted {id : NodeId} (hx : b.graph.Rooted id) (hne : id ≠ Graph.root)
    (hfirst : b.graph.first? = some first) :
    ((b'.append p).graph.reachable (f first)).idxOf (f id) =
      ((b.append p).graph.reachable first).idxOf id := by
  induction hx with
  | root => exact absurd rfl hne
  | @step id owner ho hup ih =>
    by_cases hr : owner = Graph.root
    · obtain ⟨rest, hrest⟩ := (hb.append p).reachable_first hf
      obtain ⟨rest', hrest'⟩ := (hb'.append p).reachable_first hf'
      have hid : id = first := hb.eq_first hfirst (hr ▸ ho)
      rw [hid, hrest, hrest', List.idxOf_cons_self, List.idxOf_cons_self]
    · obtain ⟨above, habove⟩ : ∃ above, b.graph.owner? owner = some above := by
        cases hup with
        | root => exact absurd rfl hr
        | step habove _ => exact ⟨_, habove⟩
      have hmap := places_of_children h hb hb' hf hf' hplan habove (ih hr)
      rw [List.map_append, List.map_append, List.map_map] at hmap
      exact List.map_inj_left.mp (List.append_inj_left hmap (by simp)) id
        (hb.sound.owner_lists id owner ho)

end

/-- If two builders that are the same up to names still have the same plan after one more
instruction, then their cursors are the same as well. -/
theorem cursor_of_snapshot {f : NodeId → NodeId} {b' : Builder}
    (h : Graph.Renames f b.graph b'.graph) (hb : b.WellFormed) (hb' : b'.WellFormed)
    (hcur : b.cursor ≠ Graph.root) {p : Payload}
    (hsnapshot : (b'.append p).snapshot = (b.append p).snapshot) : b'.cursor = f b.cursor := by
  have hcur' : b'.cursor ≠ Graph.root := fun hc => by
    have hlt := hb.cursor_lt
    rw [← h.size, hb'.size_of_cursor_root hc] at hlt
    exact hcur (Nat.lt_one_iff.mp hlt)
  obtain ⟨first, hfirst⟩ := hb.exists_first hcur
  have hf : (b.append p).graph.first? = some first := (first?_append hb hcur p).trans hfirst
  have hf' : (b'.append p).graph.first? = some (f first) := by
    rw [first?_append hb' hcur' p, h.first?, hfirst, Option.map_some]
  have hplan : Plan.capture (b'.append p).graph (f first) =
      Plan.capture (b.append p).graph first := by
    simpa [snapshot, hf, hf'] using hsnapshot
  obtain ⟨owner, ho⟩ := hb.cursor.resolve_left hcur
  have hplace := place_of_rooted h hb hb' hf hf' hplan (hb.sound.rooted hb.cursor) hcur hfirst
  -- the new node is one more child of the cursor, so the other cursor must have got it too
  have hlength := congrArg List.length (places_of_children h hb hb' hf hf' hplan ho hplace)
  by_contra hne
  simp [Ne.symm hne] at hlength

/-! ## Where a recording stops -/

/-- Whether the end of a block would now end a loop that is tested first and has a body. -/
def EndsLoop (b : Builder) : Prop := ∃ header outer, b.pending = header :: outer ∧
  b.graph.kind? header = some .whileLoop ∧ b.cursor ≠ header

/-- Whether instructions stop after the end of such a loop: what is entered later is refused. -/
def StopsAfterLoop (instructions : List Instruction) : Prop := ∃ before after,
  instructions = before ++ .closeBlock :: after ∧ (enter {} before).EndsLoop ∧
    enter {} instructions = enter {} (before ++ [.closeBlock])

/-- A header under the cursor that owns a node is not that of an open block. -/
def StopsAtClosed (b : Builder) : Prop :=
  ∀ id, b.graph.owner? id = some b.cursor → b.cursor ∉ b.pending

theorem owner?_append_ne (h : b.WellFormed) (p : Payload) (id : NodeId) :
    (b.append p).graph.owner? id ≠ some (b.append p).cursor := by
  rw [owner?_append h.sound.root_lt, cursor_append]
  split
  · exact fun he => Nat.ne_of_lt h.cursor_lt (Option.some.inj he)
  · exact fun ho => Nat.lt_irrefl _ (h.sound.owner_lt id _ ho)

theorem owner?_merge_ne (h : b.WellFormed) {header : NodeId} (hm : header ∈ b.pending)
    (id : NodeId) :
    (((b.graph.add .placeholder).attach header b.graph.size).attach b.cursor
      b.graph.size).owner? id ≠ some b.graph.size := by
  have hroot : b.graph.size ≠ Graph.root := Nat.ne_of_gt h.sound.root_lt
  intro ho
  rcases Graph.owner?_of_attach (by simp) hroot ho with ho | ⟨he, -⟩
  · rcases Graph.owner?_of_attach (by simp) hroot ho with ho | ⟨he, -⟩
    · rw [Graph.owner?_add] at ho
      exact Nat.lt_irrefl _ (h.sound.owner_lt id _ ho)
    · exact Nat.ne_of_gt (h.pending_lt hm) he
  · exact Nat.ne_of_gt h.cursor_lt he

/-- Nothing belongs to the header of a loop that is tested last: its body belongs to what comes
before. -/
theorem owner?_doWhile_ne (h : b.WellFormed) {header entry : NodeId} (hloose : b.Waits header)
    (hme : entry ∈ b.pending) (he : b.graph.payload? entry = some .placeholder) (id : NodeId) :
    ((b.graph.attach b.cursor header).attach header entry).owner? id ≠ some header := by
  have hne : header ≠ b.cursor := fun hc => h.sound.not_loose h.cursor (hc ▸ hloose)
  have hlt := h.pending_lt hloose.2
  have hroot := h.pending_ne_root hloose.2
  have hentry : ∃ owner, b.graph.owner? entry = some owner :=
    h.owned_of_pending hme (by rw [Graph.kind?_of_payload? he]; decide)
  intro ho
  rcases Graph.owner?_of_attach (by simpa using h.pending_lt hme) (h.pending_ne_root hme)
    ho with ho | ⟨-, hfree⟩
  · rcases Graph.owner?_of_attach hlt hroot ho with ho | ⟨hc, -⟩
    · simpa [h.sound.loose_children header hloose] using h.sound.owner_lists id header ho
    · exact hne hc
  · obtain ⟨owner, hown⟩ := hentry
    rw [Graph.owner?_attach _ _ _ hlt hroot] at hfree
    split at hfree
    · simp at hfree
    · simp [hown] at hfree

/-- If the cursor stands on a node that owns another, then nothing was done, or a loop that is
tested first has ended. -/
theorem Step.of_owner? {b' : Builder} (h : b.WellFormed) (hs : b.Step b') {id : NodeId}
    (ho : b'.graph.owner? id = some b'.cursor) :
    b' = b ∨ ∃ header outer, b.pending = header :: outer ∧ b.graph.kind? header = some .whileLoop ∧
      b' = { graph := b.graph.attach b.cursor header, cursor := header, pending := outer } := by
  cases hs with
  | refused => exact .inl rfl
  | leaf l => exact absurd ho (owner?_append_ne h _ id)
  | openHeader => exact absurd ho (owner?_append_ne h _ id)
  | openPair =>
    exact absurd ((Graph.owner?_add _ _ id).symm.trans ho) (owner?_append_ne h .placeholder id)
  | closeConditional hp => exact absurd ho (owner?_merge_ne h (hp ▸ List.mem_cons_self) id)
  | closeWhile hp hk => exact .inr ⟨_, _, hp, hk, rfl⟩
  | @closeDoWhile header entry outer hp hk he =>
    have hm : header ∈ b.pending := hp ▸ List.mem_cons_self
    have hme : entry ∈ b.pending := hp ▸ List.mem_cons_of_mem _ List.mem_cons_self
    exact absurd ho (owner?_doWhile_ne h ⟨hk, hm⟩ hme he id)

theorem stopsAtClosed_enter (instructions : List Instruction) :
    (enter {} instructions).StopsAtClosed := by
  refine enter_induction (fun id ho => ?_) (fun b b' h hs hstops id ho => ?_) instructions
  · exact absurd (wellFormed_empty.sound.owner_lists id _ ho) List.not_mem_nil
  · rcases hs.of_owner? h ho with rfl | ⟨header, outer, hp, -, rfl⟩
    · exact hstops id ho
    · exact (List.nodup_cons.mp (hp ▸ h.nodup)).1

/-- The header of a loop that is tested first owns something when it ends, unless its body is
empty. -/
theorem owner?_while_iff {path : List NodeId} (ht : b.Trailed path) (h : b.WellFormed)
    (hstops : b.StopsAtClosed) {header : NodeId} {outer : List NodeId}
    (hp : b.pending = header :: outer) (hk : b.graph.kind? header = some .whileLoop) :
    (∃ id, (b.graph.attach b.cursor header).owner? id = some header) ↔ b.cursor ≠ header := by
  have hm : header ∈ b.pending := hp ▸ List.mem_cons_self
  have hlt := h.pending_lt hm
  have hroot := h.pending_ne_root hm
  obtain ⟨owner, ho⟩ := h.owned_of_pending hm (by simp [hk])
  constructor
  · rintro ⟨id, hid⟩ hcur
    rcases Graph.owner?_of_attach hlt hroot hid with hid | ⟨-, hfree⟩
    · exact hstops id (hcur ▸ hid) (hcur ▸ hm)
    · simp [ho] at hfree
  · intro hcur
    have hentries : b.entries = header :: outer.filter fun id =>
        b.graph.kind? id ≠ some .doWhileLoop := by
      rw [Builder.entries, hp, List.filter_cons_of_pos (by simp [hk])]
    obtain ⟨before, rest, hsplit, -⟩ := ht.exists_entry hentries
    have hbefore : before ≠ [] :=
      fun hnil => hcur (by simpa [hnil] using congrArg List.head? hsplit)
    -- the trail goes on below the header
    obtain ⟨between, child, rfl⟩ := (List.eq_nil_or_concat before).resolve_left hbefore
    have htrail := ht.trail
    rw [hsplit, List.concat_eq_append, List.append_assoc, List.singleton_append] at htrail
    cases htrail.of_append with
    | step _ hchild =>
      have hown := Graph.owner?_of_lastOwned? hchild
      refine ⟨child, ?_⟩
      rw [Graph.owner?_attach _ _ _ hlt hroot]
      split
      next he => rw [he, ho] at hown; rw [ho, hown, Option.some_or]
      next => exact hown

theorem enter_snoc (before : List Instruction) (instruction : Instruction) :
    enter {} (before ++ [instruction]) = (enter {} before).apply instruction.edit := by
  simp [enter, applyAll]

theorem Instruction.eq_closeBlock {instruction : Instruction}
    (hlt : (b.apply instruction.edit).pending.length < b.pending.length) :
    instruction = .closeBlock := by
  cases instruction with
  | leaf l => exact absurd hlt (Nat.lt_irrefl _)
  | openBlock kind =>
    refine absurd hlt (Nat.not_lt.mpr ?_)
    cases kind <;>
      simp [edit, Builder.apply, settle, Builder.openBlock, Builder.append, Nat.add_assoc]
  | closeBlock => rfl

/-- The cursor of a recording stands on a node that owns another exactly after the end of a loop
that is tested first and has a body. -/
theorem exists_owned_by_cursor_iff (instructions : List Instruction) :
    (∃ id, (enter {} instructions).graph.owner? id = some (enter {} instructions).cursor) ↔
      StopsAfterLoop instructions := by
  have hbody (before : List Instruction) {header : NodeId} {outer : List NodeId}
      (hp : (enter {} before).pending = header :: outer)
      (hk : (enter {} before).graph.kind? header = some .whileLoop) :
      (∃ id, ((enter {} before).graph.attach (enter {} before).cursor header).owner? id =
        some header) ↔
        (enter {} before).cursor ≠ header := by
    obtain ⟨path, ht⟩ := exists_trail before
    exact owner?_while_iff ht (wellFormed_empty.enter before) (stopsAtClosed_enter before) hp hk
  constructor
  · -- from the last instruction back: refused ones do not matter, and no other leaves such a cursor
    rintro ⟨id, ho⟩
    induction instructions using List.reverseRecOn with
    | nil => exact absurd (wellFormed_empty.sound.owner_lists id _ ho) List.not_mem_nil
    | append_singleton before instruction ih =>
      have hwf : (enter {} before).WellFormed := wellFormed_empty.enter before
      rw [enter_snoc] at ho
      rcases (hwf.step instruction).of_owner? hwf ho with hsame | ⟨header, outer, hp, hk, hended⟩
      · rw [hsame] at ho
        obtain ⟨earlier, after, rfl, hends, henter⟩ := ih ho
        refine ⟨earlier, after ++ [instruction], by simp, hends, ?_⟩
        rw [enter_snoc, hsame, henter]
      · have hclose : instruction = .closeBlock := by
          refine Instruction.eq_closeBlock (b := enter {} before) ?_
          simp [hended, hp]
        rw [hended] at ho
        refine ⟨before, [], by rw [hclose], ⟨header, outer, hp, hk, ?_⟩, by rw [hclose]⟩
        exact (hbody before hp hk).mp ⟨id, ho⟩
  · rintro ⟨before, after, -, ⟨header, outer, hp, hk, hcur⟩, henter⟩
    have hended : (enter {} before).apply .closeBlock = {
        graph := (enter {} before).graph.attach (enter {} before).cursor header
        cursor := header
        pending := outer } := by
      simp only [Builder.apply, Builder.closeBlock, hp, hk, settle]
    rw [henter, enter_snoc, Instruction.edit, hended]
    exact (hbody before hp hk).mpr hcur

/-! ## Loading against entering -/

/-- To load the plan of a recording is the same as to enter its instructions, whatever is entered
afterwards, exactly when the recording does not stop on a node that owns another, that is, not after
the end of a loop that is tested first and has a body. -/
theorem load_eq_enter_iff {instructions : List Instruction} (haccepts : accepts {} instructions)
    (hpending : (enter {} instructions).pending = []) (edits : List Edit) :
    ((∀ more : List Instruction,
        (((applyAll {} edits).load (enter {} instructions)).enter more).snapshot =
        (((applyAll {} edits).enter instructions).enter more).snapshot) ↔
      ∀ id, (enter {} instructions).graph.owner? id ≠ some (enter {} instructions).cursor) ∧
    ((∀ id, (enter {} instructions).graph.owner? id ≠ some (enter {} instructions).cursor) ↔
      ¬ StopsAfterLoop instructions) := by
  have hb : (applyAll {} edits).WellFormed := wellFormed_empty.applyAll edits
  have hs : (enter {} instructions).WellFormed := wellFormed_empty.enter instructions
  obtain ⟨f, hgraph, hsame, hcursor⟩ := load_renames hb haccepts hpending
  refine ⟨?_, not_exists.symm.trans (not_congr (exists_owned_by_cursor_iff instructions))⟩
  rw [← hs.sound.lastOwned?_eq_none_iff, ← hcursor]
  constructor
  · intro hmore
    by_cases hroot : ((applyAll {} edits).enter instructions).cursor = Graph.root
    · have hlt := (hb.load (enter {} instructions)).cursor_lt
      rw [hgraph.size, (hb.enter instructions).size_of_cursor_root hroot] at hlt
      rw [hroot, hgraph.root]
      exact Nat.lt_one_iff.mp hlt
    · exact cursor_of_snapshot hgraph (hb.enter instructions) (hb.load _) hroot
        (hmore [.leaf ⟨.placeholder, .inl rfl⟩])
  · intro hcur more
    obtain ⟨f, h⟩ := Renames.applyAll ⟨hgraph, hcur, hsame⟩ (more.map Instruction.edit)
    exact h.snapshot

def greeting : Instruction := .leaf ⟨.ofSpeech "hello", .inr (.inr rfl)⟩

def greetingIn (kind : NodeKind) : List Instruction := [.openBlock kind, greeting, .closeBlock]

theorem load_eq_enter_greeting :
    accepts {} (greetingIn .doWhileLoop) ∧ (enter {} (greetingIn .doWhileLoop)).pending = [] ∧
      ¬ StopsAfterLoop (greetingIn .doWhileLoop) ∧
      ∀ more : List Instruction,
        (((applyAll {} []).load (enter {} (greetingIn .doWhileLoop))).enter more).snapshot =
        (((applyAll {} []).enter (greetingIn .doWhileLoop)).enter more).snapshot := by
  have hsound := (wellFormed_empty.enter (greetingIn .doWhileLoop)).sound
  have hnone := (hsound.lastOwned?_eq_none_iff (enter {} (greetingIn .doWhileLoop)).cursor).mp
    (by decide)
  have haccepts : accepts {} (greetingIn .doWhileLoop) := by decide
  obtain ⟨hsame, hstops⟩ := load_eq_enter_iff haccepts (by decide) []
  exact ⟨haccepts, by decide, hstops.mp hnone, hsame.mpr hnone⟩

/-- Of a loop that is tested first, only the entered one goes on behind the loop. After a load the
next statement hangs on a second branch of the statement in the loop, which nothing ever takes. -/
theorem load_ne_enter_greeting :
    accepts {} (greetingIn .whileLoop) ∧ (enter {} (greetingIn .whileLoop)).pending = [] ∧
      (((applyAll {} []).load (enter {} (greetingIn .whileLoop))).enter [greeting]).snapshot ≠
        (((applyAll {} []).enter (greetingIn .whileLoop)).enter [greeting]).snapshot := by
  refine ⟨by decide, by decide, fun he => ?_⟩
  have hbranches := congrArg
    (fun plan => plan.toOption.map fun p => p.nodes.map PlanNode.children) he
  have hloaded :
      (((applyAll {} []).load (enter {} (greetingIn .whileLoop))).enter
        [greeting]).snapshot.toOption.map
      (fun p => p.nodes.map PlanNode.children) = some [[1], [0, 2], []] := by cbv
  have hentered :
      (((applyAll {} []).enter (greetingIn .whileLoop)).enter [greeting]).snapshot.toOption.map
      (fun p => p.nodes.map PlanNode.children) = some [[1, 2], [0], []] := by cbv
  rw [hloaded, hentered] at hbranches
  revert hbranches
  decide

end Builder
end MotionScript
