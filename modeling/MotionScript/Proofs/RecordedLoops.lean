import MotionScript.Proofs.BlockNesting
import MotionScript.Proofs.EndingLoops
import MotionScript.Proofs.SearchRounds

/-!
# Cycles are the loops that are recorded

Edges lead in a circle only where a loop was closed: a cycle goes through the header of a loop, and
each loop that is closed has a cycle through its header. Plans that come from elsewhere may have
cycles of other kinds, but ownership is a tree in any case, so whoever goes around a cycle follows
an edge that is not owned, and by this a back edge is told from other edges.
-/
namespace MotionScript

/-- Edges lead from a node through others back to it. A node may be met more than once on the
way. -/
def Graph.IsCycle (g : Graph) (first : NodeId) (rest : List NodeId) : Prop :=
  (first :: (rest ++ [first])).IsChain fun id child => child ∈ g.children id

section

variable {α : Type} {r r' : α → α → Prop} {first : α} {rest : List α}

theorem transGen_of_isChain (h : (first :: (rest ++ [first])).IsChain r) :
    Relation.TransGen r first first :=
  have hpairs := (h.imp fun _ _ => Relation.TransGen.single).pairwise
  List.rel_of_pairwise_cons hpairs (List.mem_append_right rest List.mem_cons_self)

theorem exists_isChain_of_transGen (h : Relation.TransGen r first first) :
    ∃ rest, (first :: (rest ++ [first])).IsChain r := by
  obtain ⟨before, hwalk, hlast⟩ := Relation.TransGen.tail'_iff.mp h
  obtain ⟨rest, hchain, hend⟩ := List.exists_isChain_cons_of_relationReflTransGen hwalk
  refine ⟨rest, ?_⟩
  rw [← List.cons_append]
  refine hchain.append (.singleton first) fun x hx y hy => ?_
  rw [List.getLast?_eq_some_getLast (List.cons_ne_nil first rest), hend] at hx
  cases hx
  cases hy
  exact hlast

/-- Whoever comes back takes a step that does not belong to a relation that never leads back. -/
theorem exists_step_of_isChain (h : (first :: (rest ++ [first])).IsChain r)
    (hr' : ¬ Relation.TransGen r' first first) :
    ∃ before x y after, first :: (rest ++ [first]) = before ++ x :: y :: after ∧ r x y ∧
      ¬ r' x y := by
  by_contra hnone
  have hchain : (first :: (rest ++ [first])).IsChain r' := by
    rw [List.isChain_iff_forall_rel_of_append_cons_cons] at h ⊢
    intro x y before after hsplit
    by_contra hstep
    exact hnone ⟨before, x, y, after, hsplit, h hsplit, hstep⟩
  exact hr' (transGen_of_isChain hchain)

end

/-! ## What is on a cycle -/

namespace Graph

variable {g : Graph} {loose : NodeId → Prop} {first : NodeId} {rest : List NodeId}

theorem climbs_of_owns {id last height : NodeId}
    (h : Relation.TransGen (fun id child => g.owner? child = some id) id last)
    (hid : Climbs g.owner? id height) :
    ∃ below > height, Climbs g.owner? last below := by
  induction h with
  | single ho => exact ⟨height + 1, Nat.lt_succ_self height, .step ho hid⟩
  | tail _ ho ih =>
    obtain ⟨below, hlt, hc⟩ := ih
    exact ⟨below + 1, Nat.lt_succ_of_lt hlt, .step ho hc⟩

theorem Sound.not_owns_self (h : g.Sound loose) (id : NodeId) :
    ¬ Relation.TransGen (fun id child => g.owner? child = some id) id id := by
  intro howns
  obtain ⟨child, ho, -⟩ := Relation.TransGen.head'_iff.mp howns
  obtain ⟨height, -, hclimbs⟩ := h.climbs (h.owner_lt _ _ ho)
  obtain ⟨below, hlt, hclimbs'⟩ := climbs_of_owns howns hclimbs
  exact Nat.ne_of_lt hlt (hclimbs.unique hclimbs')

theorem Sound.back_edge_of_isCycle (h : g.Sound loose) (hcycle : g.IsCycle first rest) :
    ∃ before parent child after, first :: (rest ++ [first]) = before ++ parent :: child :: after ∧
      child ∈ g.children parent ∧ g.isBackEdge parent child = true := by
  obtain ⟨before, parent, child, after, hsplit, hedge, hback⟩ :=
    exists_step_of_isChain hcycle (h.not_owns_self first)
  exact ⟨before, parent, child, after, hsplit, hedge, by simpa [isBackEdge] using hback⟩

/-- If without the edges that leave the headers of loops there is no loop, then a cycle goes through
a header. -/
theorem LoopFree.header_of_isCycle
    (h : g.LoopFree fun p _ => ¬ (p.kind = .whileLoop ∨ p.kind = .doWhileLoop))
    (hcycle : g.IsCycle first rest) :
    ∃ header ∈ first :: rest, g.kind? header = some .whileLoop ∨
      g.kind? header = some .doWhileLoop := by
  obtain ⟨before, parent, child, after, hsplit, hedge, hleads⟩ :=
    exists_step_of_isChain hcycle (h first)
  have hm : parent ∈ first :: (rest ++ [first]) := by simp [hsplit]
  refine ⟨parent, by simpa [or_comm, or_assoc] using hm, ?_⟩
  obtain ⟨node, hn⟩ := exists_node (lt_size_of_mem_children hedge)
  obtain ⟨branch, hbranch⟩ := List.mem_iff_getElem?.mp hedge
  by_contra hplain
  exact hleads ⟨node.payload, branch,
    by simp [payload?, hn], by simpa [kind?, hn] using hplain, hbranch⟩

end Graph

/-! ## Closed loops -/

namespace Builder

/-- Edges lead from what is on the stack to the cursor, except from the header of a loop that is
tested last, and from the header of a loop that is closed back to it. -/
structure Looping (b : Builder) : Prop where
  pending : ∀ id ∈ b.pending, ¬ b.Waits id → Reaches b.graph.children id b.cursor
  closed : ∀ header kind, b.graph.kind? header = some kind → kind = .whileLoop ∨
    kind = .doWhileLoop →
    header ∉ b.pending →
    Relation.TransGen (fun id child => child ∈ b.graph.children id) header header

variable {b b' : Builder}

theorem Step.cursor_edge (h : b.WellFormed) (hs : b.Step b') :
    b' = b ∨ b'.cursor ∈ b'.graph.children b.cursor := by
  have happend (p : Payload) : (b.append p).cursor ∈ (b.append p).graph.children b.cursor := by
    rw [children_append h.cursor_lt, if_pos rfl]
    exact List.mem_append_right _ List.mem_cons_self
  cases hs with
  | refused => exact .inl rfl
  | leaf l => exact .inr (happend _)
  | openHeader => exact .inr (happend _)
  | openPair =>
    right
    rw [Graph.children_add]
    exact happend .placeholder
  | closeConditional =>
    right
    exact (Graph.mem_children_attach (by simpa using Nat.lt_succ_of_lt h.cursor_lt)).mpr
      (.inr ⟨rfl, rfl⟩)
  | closeWhile => exact .inr ((Graph.mem_children_attach h.cursor_lt).mpr (.inr ⟨rfl, rfl⟩))
  | @closeDoWhile header entry _ =>
    right
    have hback : header ∈ (b.graph.attach b.cursor header).children b.cursor :=
      (Graph.mem_children_attach h.cursor_lt).mpr (.inr ⟨rfl, rfl⟩)
    exact (Graph.GrowsInto.attach _ header entry).mem_children hback

/-- What a step puts on the stack is the cursor, or it waits. -/
theorem Step.mem_pending (hs : b.Step b') {id : NodeId} (hm : id ∈ b'.pending) :
    id ∈ b.pending ∨ id = b'.cursor ∨ b'.Waits id := by
  cases hs with
  | refused => exact .inl hm
  | leaf l => exact .inl hm
  | openHeader =>
    rcases List.mem_cons.mp hm with rfl | hm
    · exact .inr (.inl rfl)
    · exact .inl hm
  | openPair =>
    rcases List.mem_cons.mp hm with rfl | hm
    · refine .inr (.inr ⟨?_, List.mem_cons_self⟩)
      rw [Graph.kind?_add, Graph.nextId, if_pos rfl]
      rfl
    · rcases List.mem_cons.mp hm with rfl | hm
      · exact .inr (.inl rfl)
      · exact .inl hm
  | closeConditional hp => exact .inl (hp ▸ List.mem_cons_of_mem _ hm)
  | closeWhile hp => exact .inl (hp ▸ List.mem_cons_of_mem _ hm)
  | closeDoWhile hp => exact .inl (hp ▸ List.mem_cons_of_mem _ (List.mem_cons_of_mem _ hm))

namespace Looping

theorem empty : Looping {} := by
  constructor
  · nofun
  · intro header kind hk hloop
    obtain rfl : header = 0 := Nat.lt_one_iff.mp (Graph.lt_size_of_kind? hk)
    cases hk
    rcases hloop with hloop | hloop <;> cases hloop

/-- The end of a loop leads from the last node of its body back to the header. -/
theorem closed_now (hl : b.Looping) (h : b.WellFormed) (hs : b.Step b') {header : NodeId}
    {kind : NodeKind} (hk : b.graph.kind? header = some kind)
    (hloop : kind = .whileLoop ∨ kind = .doWhileLoop) (hm : header ∈ b.pending)
    (hclosed : header ∉ b'.pending) :
    Relation.TransGen (fun id child => child ∈ b'.graph.children id) header header := by
  obtain ⟨outer, hp⟩ :=
    (hs.header_cases (hs.growsInto.kind? hk) (by rcases hloop with rfl | rfl <;> rfl) hclosed).2 hm
  have hgrows (id child : NodeId) : child ∈ b.graph.children id → child ∈ b'.graph.children id :=
    hs.growsInto.mem_children
  have hback := (hs.cursor_edge h).resolve_left fun he => hclosed (he ▸ hm)
  cases hs with
  | refused => exact absurd hm hclosed
  | leaf l => exact absurd hm hclosed
  | openHeader => exact absurd (List.mem_cons_of_mem _ hm) hclosed
  | openPair => exact absurd (List.mem_cons_of_mem _ (List.mem_cons_of_mem _ hm)) hclosed
  | closeConditional hp' hk' =>
    cases hp.symm.trans hp'
    cases hk.symm.trans hk'
    rcases hloop with hloop | hloop <;> cases hloop
  | closeWhile hp' hk' =>
    cases hp.symm.trans hp'
    have hbody := hl.pending header hm fun hw => by cases hk'.symm.trans hw.1
    exact .tail' (Relation.ReflTransGen.mono hgrows _ _ hbody) hback
  | @closeDoWhile _ entry _ hp' hk' he =>
    cases hp.symm.trans hp'
    have hkind := Graph.kind?_of_payload? he
    have hentry : entry ∈ b.pending := hp ▸ List.mem_cons_of_mem _ List.mem_cons_self
    have hbody := hl.pending entry hentry fun hw => by cases hkind.symm.trans hw.1
    -- until now the header led nowhere, so the body is followed from its entry
    have hfirst : entry ∈ ((b.graph.attach b.cursor header).attach header entry).children header :=
      (Graph.mem_children_attach (by simpa using h.pending_lt hm)).mpr (.inr ⟨rfl, rfl⟩)
    exact .head hfirst (.tail' (Relation.ReflTransGen.mono hgrows _ _ hbody) hback)

theorem step (hl : b.Looping) (h : b.WellFormed) (hs : b.Step b') : b'.Looping := by
  have hgrows (id child : NodeId) : child ∈ b.graph.children id → child ∈ b'.graph.children id :=
    hs.growsInto.mem_children
  constructor
  · intro id hm hwaits
    rcases hs.mem_pending hm with hold | rfl | hw
    · have hwaited : ¬ b.Waits id := fun hw => hwaits ⟨hs.growsInto.kind? hw.1, hm⟩
      have hreaches := Relation.ReflTransGen.mono hgrows _ _ (hl.pending id hold hwaited)
      rcases hs.cursor_edge h with rfl | hedge
      · exact hreaches
      · exact hreaches.tail hedge
    · exact .refl
    · exact absurd hw hwaits
  · intro header kind hk hloop hclosed
    have hopens : kind.opensBlock := by rcases hloop with rfl | rfl <;> rfl
    obtain ⟨hold, -⟩ := hs.header_cases hk hopens hclosed
    by_cases hm : header ∈ b.pending
    · exact hl.closed_now h hs hold hloop hm hclosed
    · exact Relation.TransGen.mono hgrows _ _ (hl.closed header kind hold hloop hm)

end Looping

theorem looping_after_edits {edits : List Edit} (hedits : ∀ edit ∈ edits, edit.IsEntered) :
    (applyAll {} edits).Looping :=
  entered_induction hedits .empty fun _ _ h hs hl => hl.step h hs

/-- Cycles are the loops that were recorded: in what is put together from recordings each cycle goes
through the header of a loop, and where instructions were entered one by one each loop that is
closed has a cycle through its header. In whatever state a builder is, also with plans grafted that
come from elsewhere, each cycle has a back edge. -/
theorem cycles_are_loops :
    (∀ b : Builder, b.Composed → ∀ first rest, b.graph.IsCycle first rest →
      ∃ header ∈ first :: rest, b.graph.kind? header = some .whileLoop ∨
        b.graph.kind? header = some .doWhileLoop) ∧
    (∀ edits, (∀ edit ∈ edits, edit.IsEntered) →
      let b := applyAll {} edits
      ∀ header kind, b.graph.kind? header = some kind → kind = .whileLoop ∨ kind = .doWhileLoop →
        header ∉ b.pending →
        ∃ rest, b.graph.IsCycle header rest) ∧
    ∀ edits, let b := applyAll {} edits
      ∀ first rest, b.graph.IsCycle first rest →
        ∃ before parent child after, first :: (rest ++ [first]) = before ++ parent ::
          child :: after ∧
          child ∈ b.graph.children parent ∧ b.graph.isBackEdge parent child = true := by
  refine ⟨fun b hb first rest hcycle => ?_, fun edits hedits => ?_, fun edits => ?_⟩
  · exact (hb.loopFree fun p hloop hplain => hplain hloop).header_of_isCycle hcycle
  · intro b header kind hk hloop hclosed
    exact exists_isChain_of_transGen
      ((looping_after_edits hedits).closed header kind hk hloop hclosed)
  · intro b first rest hcycle
    exact (wellFormed_after_edits edits).sound.back_edge_of_isCycle hcycle

/-- A loop that is recorded, and a plan after it in which a motion leads to itself. -/
theorem cycles_are_loops_grafted :
    let edits : List Edit := [.openBlock .doWhileLoop, .append (.ofSpeech "hello"), .closeBlock]
    let foreign : Plan := ⟨1, [{ payload := .placeholder, children := [0] }]⟩
    let b := applyAll {} edits
    let grafted := applyAll {} (edits ++ [.graft foreign])
    (b.Composed ∧ b.graph.IsCycle 1 [3, 2] ∧
        ∃ header ∈ [1, 3, 2], b.graph.kind? header = some .whileLoop ∨
          b.graph.kind? header = some .doWhileLoop) ∧
      ((∀ edit ∈ edits, edit.IsEntered) ∧ b.graph.kind? 2 = some .doWhileLoop ∧ 2 ∉ b.pending ∧
        ∃ rest, b.graph.IsCycle 2 rest) ∧
      grafted.graph.IsCycle 4 [] ∧
        ∃ before parent child after, [4, 4] = before ++ parent :: child :: after ∧
        child ∈ grafted.graph.children parent ∧ grafted.graph.isBackEdge parent child = true := by
  intro edits foreign b grafted
  obtain ⟨hheader, hclosed, hback⟩ := cycles_are_loops
  have hb : b.Composed :=
    .closeBlock (.append (.ofSpeech "hello") (.openBlock .doWhileLoop .empty rfl)) rfl
  have hcycle : b.graph.IsCycle 1 [3, 2] := by
    have hchildren : b.graph.children 1 = [3] ∧ b.graph.children 3 = [2] ∧
      b.graph.children 2 = [1] := ⟨rfl, rfl, rfl⟩
    simp [Graph.IsCycle, hchildren]
  have hedits : ∀ edit ∈ edits, edit.IsEntered := by simp [edits, Edit.IsEntered, Payload.ofSpeech]
  have hpending : 2 ∉ b.pending := by
    have hnone : b.pending = [] := rfl
    simp [hnone]
  have hself : grafted.graph.IsCycle 4 [] := by
    have hchildren : grafted.graph.children 4 = [4] := rfl
    simp [Graph.IsCycle, hchildren]
  have hkind : b.graph.kind? 2 = some .doWhileLoop := rfl
  exact ⟨⟨hb, hcycle, hheader b hb 1 [3, 2] hcycle⟩,
    ⟨hedits, hkind, hpending, hclosed edits hedits 2 .doWhileLoop hkind (.inr rfl) hpending⟩,
    hself, hback _ 4 [] hself⟩

end Builder
end MotionScript
