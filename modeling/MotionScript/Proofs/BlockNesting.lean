import MotionScript.Proofs.GraphGrowth

/-!
# Blocks close in the order opposite to that in which they were opened

A builder keeps nodes on its stack and reads the kind of a block off its graph; a do-while block has
two nodes on the stack and any other block one. Here the blocks are told from the answers of the
builder alone: a kind is put on a plain stack when a block is opened, and the last one is taken off
when a block is closed. Both stacks agree whatever edits a builder sees, so a block is closed
exactly if one is open, and it is the innermost one.
-/
namespace MotionScript

def NodeKind.opensBlock : NodeKind → Bool
  | .whileLoop | .doWhileLoop | .conditional => true
  | _ => false

def Graph.blockKinds (g : Graph) (pending : List NodeId) : List NodeKind :=
  pending.filterMap fun id => (g.kind? id).filter NodeKind.opensBlock

/-- What the answers of a builder tell of its blocks since it was last cleared: how many were
opened, how many were closed, and of which kinds those are that were opened and not closed, the last
one first. -/
structure Ledger where
  opened : Nat := 0
  closed : Nat := 0
  kinds : List NodeKind := []

def Ledger.enter (ledger : Ledger) (b : Builder) : Builder.Edit → Ledger
  | .openBlock kind =>
    if (b.openBlock kind).isOk then
      { opened := ledger.opened + 1, closed := ledger.closed, kinds := kind :: ledger.kinds }
    else ledger
  | .closeBlock =>
    if b.closeBlock.isOk then
      { opened := ledger.opened, closed := ledger.closed + 1, kinds := ledger.kinds.tail }
    else ledger
  | .clear => {}
  | .append _ | .graft _ => ledger

def Ledger.enterAll : Ledger → Builder → List Builder.Edit → Ledger
  | ledger, _, [] => ledger
  | ledger, b, edit :: edits => (ledger.enter b edit).enterAll (b.apply edit) edits

namespace Graph

variable {g g' : Graph}

theorem GrowsInto.kind? (h : g.GrowsInto g') {id : NodeId} {kind : NodeKind}
    (hk : g.kind? id = some kind) :
    g'.kind? id = some kind := by
  obtain ⟨node, hn, hnode⟩ := Option.map_eq_some_iff.mp hk
  obtain ⟨node', hn', hbecomes⟩ := h.kept id node hn
  simp [Graph.kind?, hn', hbecomes.payload, hnode]

theorem blockKinds_cons {id : NodeId} {kind : NodeKind} (hk : g.kind? id = some kind)
    (pending : List NodeId) :
    g.blockKinds (id :: pending) = if kind.opensBlock then kind :: g.blockKinds pending
      else g.blockKinds pending := by
  cases hopens : kind.opensBlock <;> simp [blockKinds, Option.filter, hk, hopens]

theorem GrowsInto.blockKinds (h : g.GrowsInto g') {pending : List NodeId}
    (hpending : OpenBlocks g pending) :
    g'.blockKinds pending = g.blockKinds pending := by
  refine List.filterMap_congr fun id hm => ?_
  obtain ⟨kind, hk, -⟩ := hpending.kind_of_mem hm
  rw [hk, h.kind? hk]

end Graph

namespace Builder

def openKinds (b : Builder) : List NodeKind := b.graph.blockKinds b.pending

variable {b : Builder}

theorem openKinds_openBlock (h : b.WellFormed) {kind : NodeKind} {header : NodeId} {next : Builder}
    (ho : b.openBlock kind = .ok (header, next)) : next.openKinds = kind :: b.openKinds := by
  have hgrows : b.graph.GrowsInto (b.apply (.openBlock kind)).graph := h.growsInto_apply (by simp)
  rw [apply, ho] at hgrows
  have hkept := hgrows.blockKinds h.blocks
  have hsingle {kind : NodeKind} (hopens : kind.opensBlock)
      (hkept : (b.append (.header kind)).graph.blockKinds b.pending = b.openKinds) :
      (b.append (.header kind)).graph.blockKinds (b.graph.size :: b.pending) = kind ::
        b.openKinds := by
    rw [Graph.blockKinds_cons (b.kind?_append_new (.header kind)), hkept]
    exact if_pos hopens
  cases kind with
  | conditional =>
    cases ho
    exact hsingle rfl hkept
  | whileLoop =>
    cases ho
    exact hsingle rfl hkept
  | doWhileLoop =>
    cases ho
    -- the entry of the body lies between the header and the blocks around
    have hheader := (b.append .placeholder).graph.kind?_add (.header .doWhileLoop)
      (b.append .placeholder).graph.size
    have hentry := (Graph.GrowsInto.add (b.append .placeholder).graph (.header .doWhileLoop)).kind?
      (b.kind?_append_new .placeholder)
    rw [if_pos rfl] at hheader
    exact (Graph.blockKinds_cons hheader _).trans
      (congrArg (_ :: ·) ((Graph.blockKinds_cons hentry _).trans hkept))
  | root | once | untilNear | speech => cases ho

theorem pending_openBlock (b : Builder) (kind : NodeKind) {id : NodeId} (hm : id ∈ b.pending) :
    id ∈ (b.apply (.openBlock kind)).pending := by
  cases kind with
  | conditional | whileLoop => exact List.mem_cons_of_mem _ hm
  | doWhileLoop => exact List.mem_cons_of_mem _ (List.mem_cons_of_mem _ hm)
  | root | once | untilNear | speech => exact hm

/-- A header whose block is closed after an instruction was there before, and its block was closed
or the innermost one. -/
theorem Step.header_cases {next : Builder} (hs : b.Step next) {header : NodeId} {kind : NodeKind}
    (hk : next.graph.kind? header = some kind) (hopens : kind.opensBlock)
    (hclosed : header ∉ next.pending) :
    b.graph.kind? header = some kind ∧
      (header ∈ b.pending → ∃ outer, b.pending = header :: outer) := by
  cases hs with
  | refused => exact ⟨hk, fun hm => absurd hm hclosed⟩
  | leaf l =>
    rcases kind?_append_cases hk with hk | ⟨-, rfl⟩
    · exact ⟨hk, fun hm => absurd hm hclosed⟩
    · rcases l.kind_mem with hl | hl | hl <;> rw [hl] at hopens <;> cases hopens
  | openHeader =>
    rcases kind?_append_cases hk with hk | ⟨rfl, -⟩
    · exact ⟨hk, fun hm => absurd (List.mem_cons_of_mem _ hm) hclosed⟩
    · exact absurd List.mem_cons_self hclosed
  | openPair =>
    rw [Graph.kind?_add] at hk
    split at hk
    next he => exact absurd (he ▸ List.mem_cons_self) hclosed
    next =>
      rcases kind?_append_cases hk with hk | ⟨-, rfl⟩
      · exact ⟨hk, fun hm => absurd (List.mem_cons_of_mem _ (List.mem_cons_of_mem _ hm)) hclosed⟩
      · cases hopens
  | closeConditional hp =>
    rw [Graph.kind?_attach, Graph.kind?_attach, Graph.kind?_add] at hk
    split at hk
    · cases hk
      cases hopens
    · refine ⟨hk, fun hm => ?_⟩
      rw [hp] at hm ⊢
      obtain rfl := (List.mem_cons.mp hm).resolve_right hclosed
      exact ⟨_, rfl⟩
  | closeWhile hp =>
    rw [Graph.kind?_attach] at hk
    refine ⟨hk, fun hm => ?_⟩
    rw [hp] at hm ⊢
    obtain rfl := (List.mem_cons.mp hm).resolve_right hclosed
    exact ⟨_, rfl⟩
  | closeDoWhile hp _ he =>
    rw [Graph.kind?_attach, Graph.kind?_attach] at hk
    refine ⟨hk, fun hm => ?_⟩
    rw [hp] at hm ⊢
    rcases List.mem_cons.mp hm with rfl | hm
    · exact ⟨_, rfl⟩
    · obtain rfl := (List.mem_cons.mp hm).resolve_right hclosed
      cases (Graph.kind?_of_payload? he).symm.trans hk
      cases hopens

theorem WellFormed.closeBlock_cases (h : b.WellFormed) :
    b.pending = [] ∧ b.closeBlock = .error .unbalancedBlock ∨
      ∃ header outer kind next, b.pending = header :: outer ∧ b.graph.kind? header = some kind ∧
        kind.opensBlock ∧ (kind = .doWhileLoop → outer ≠ []) ∧
        b.closeBlock = .ok (kind, next) ∧ b.openKinds = kind :: next.openKinds := by
  have hkept {kind : NodeKind} {next : Builder} (hc : b.closeBlock = .ok (kind, next))
      (hb : OpenBlocks b.graph next.pending) :
      next.openKinds = b.graph.blockKinds next.pending := by
    have hgrows : b.graph.GrowsInto (b.apply .closeBlock).graph := h.growsInto_apply (by simp)
    rw [Builder.apply, hc] at hgrows
    exact hgrows.blockKinds hb
  have hblocks := h.blocks
  cases hp : b.pending with
  | nil => exact .inl ⟨rfl, by rw [Builder.closeBlock, hp]⟩
  | cons header outer =>
    right
    rw [hp] at hblocks
    cases hblocks with
    | single hk hb =>
      have hclosed : ∃ kind next, b.graph.kind? header = some kind ∧ kind.opensBlock ∧
          kind ≠ .doWhileLoop ∧
          b.closeBlock = .ok (kind, next) ∧ next.pending = outer := by
        simp only [Builder.closeBlock, hp]
        rcases hk with hk | hk <;> simp only [hk] <;> exact ⟨_, _, rfl, rfl, by decide, rfl, rfl⟩
      obtain ⟨kind, next, hk, hopens, hne, hc, rfl⟩ := hclosed
      refine ⟨header, _, kind, next, rfl, hk, hopens, fun he => absurd he hne, hc, ?_⟩
      rw [hkept hc hb, openKinds, hp, Graph.blockKinds_cons hk, if_pos hopens]
    | @pair _ entry outer hk he hb =>
      have hclosed : ∃ next, b.closeBlock = .ok (.doWhileLoop, next) ∧ next.pending = outer := by
        simp only [Builder.closeBlock, hp, hk]
        exact ⟨_, rfl, rfl⟩
      obtain ⟨next, hc, rfl⟩ := hclosed
      refine ⟨header, _, _, next, rfl, hk, rfl, fun _ => List.cons_ne_nil _ _, hc, ?_⟩
      rw [hkept hc hb, openKinds, hp, Graph.blockKinds_cons hk,
        Graph.blockKinds_cons (Graph.kind?_of_payload? he)]
      rfl

structure Tells (ledger : Ledger) (b : Builder) : Prop where
  kinds : ledger.kinds = b.openKinds
  closed : ledger.kinds.length + ledger.closed = ledger.opened

theorem WellFormed.openKinds_apply (h : b.WellFormed) (edit : Edit) (hedit : edit ≠ .clear)
    (hpending : (b.apply edit).pending = b.pending) : (b.apply edit).openKinds = b.openKinds := by
  rw [openKinds, openKinds, hpending, (h.growsInto_apply hedit).blockKinds h.blocks]

namespace Tells

variable {ledger : Ledger}

theorem openBlock (ht : Tells ledger b) (h : b.WellFormed) (kind : NodeKind) :
    Tells (ledger.enter b (.openBlock kind)) (b.apply (.openBlock kind)) := by
  simp only [Ledger.enter, Builder.apply]
  cases ho : b.openBlock kind with
  | error failure => exact ht
  | ok r =>
    have hlength := ht.closed
    constructor
    · exact (congrArg (kind :: ·) ht.kinds).trans (openKinds_openBlock h ho).symm
    · simp only [Except.isOk, Except.toBool, if_true, List.length_cons]
      omega

theorem closeBlock (ht : Tells ledger b) (h : b.WellFormed) :
    Tells (ledger.enter b .closeBlock) (b.apply .closeBlock) := by
  simp only [Ledger.enter, Builder.apply]
  rcases h.closeBlock_cases with ⟨-, hc⟩ | ⟨header, outer, kind, next, -, -, -, -, hc, hopen⟩
  · rw [hc]
    exact ht
  · have hkinds : ledger.kinds = kind :: next.openKinds := ht.kinds.trans hopen
    have hlength := ht.closed
    rw [hkinds, List.length_cons] at hlength
    simp only [hc, settle, hkinds, Except.isOk, Except.toBool, if_true, List.tail_cons]
    exact ⟨rfl, by dsimp only; omega⟩

theorem enter (ht : Tells ledger b) (h : b.WellFormed) (edit : Edit) :
    Tells (ledger.enter b edit) (b.apply edit) := by
  cases edit with
  | append payload =>
    exact ⟨ht.kinds.trans (h.openKinds_apply (.append payload) (by simp) rfl).symm, ht.closed⟩
  | openBlock kind => exact ht.openBlock h kind
  | closeBlock => exact ht.closeBlock h
  | graft plan =>
    have hpending : (b.apply (.graft plan)).pending = b.pending := by
      cases hv : plan.validate with
      | error failure => simp [apply, settle, graft_of_fault hv]
      | ok u => simp [apply, settle, graft_of_validate hv]
    exact ⟨ht.kinds.trans (h.openKinds_apply (.graft plan) (by simp) hpending).symm, ht.closed⟩
  | clear => exact ⟨rfl, rfl⟩

theorem enterAll (ht : Tells ledger b) (h : b.WellFormed) (edits : List Edit) :
    Tells (ledger.enterAll b edits) (b.applyAll edits) := by
  induction edits generalizing b ledger with
  | nil => exact ht
  | cons edit edits ih => exact ih (ht.enter h edit) (h.apply edit)

end Tells

/-- Whatever edits a builder has seen, it closes a block exactly if more blocks were opened than
closed since it was last cleared, and this is the last one that was opened and not closed. Otherwise
it answers that no block is open and stays as it is. On top of the stack there is always a header,
and below that of a do-while block the entry of its body, so no end of a block is refused for
another reason. -/
theorem closes_innermost (edits : List Edit) :
    let b := applyAll {} edits
    let ledger := Ledger.enterAll {} {} edits
    (b.closeBlock.isOk ↔ ledger.closed < ledger.opened) ∧
      (∀ kind next, b.closeBlock = .ok (kind, next) → ledger.kinds.head? = some kind) ∧
      (∀ failure, b.closeBlock = .error failure →
        b.pending = [] ∧ b.closeBlock = .error .unbalancedBlock ∧ b.apply .closeBlock = b) ∧
      ∀ header outer, b.pending = header :: outer →
        ∃ kind, b.graph.kind? header = some kind ∧ kind.opensBlock ∧
          (kind = .doWhileLoop → outer ≠ []) := by
  intro b ledger
  have h : b.WellFormed := wellFormed_after_edits edits
  have ht : Tells ledger b := Tells.enterAll ⟨rfl, rfl⟩ wellFormed_empty edits
  obtain ⟨hkinds, hclosed⟩ := ht
  rcases h.closeBlock_cases with ⟨hp, hc⟩ |
    ⟨header, outer, kind, next, hp, hk, hopens, hentry, hc, hopen⟩
  · have hnone : ledger.kinds = [] := by rw [hkinds, openKinds, hp]; rfl
    rw [hnone, List.length_nil, Nat.zero_add] at hclosed
    rw [hc, hp, hclosed]
    refine ⟨by simp [Except.isOk, Except.toBool], by simp, fun failure _ => ⟨rfl, rfl, ?_⟩, by simp⟩
    rw [apply, hc, settle]
  · have hlength : ledger.kinds.length = next.openKinds.length + 1 := by
      rw [hkinds, hopen, List.length_cons]
    rw [hc, hp]
    refine ⟨iff_of_true rfl (by omega), fun kind' next' he => ?_,
      by simp, fun header' outer' he => ?_⟩
    · cases he
      rw [hkinds, hopen, List.head?_cons]
    · cases he
      exact ⟨kind, hk, hopens, hentry⟩

end Builder
end MotionScript
