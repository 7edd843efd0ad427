import MotionScript.Proofs.BuilderEdits
import MotionScript.Proofs.OwnedTail
import MotionScript.Proofs.PlanGrafting

/-!
# The states of a builder

Whatever edits a builder has seen, its graph is an ownership tree below the root with further edges
across it. The only nodes outside the tree are the headers of do-while blocks that are still open:
they stand on the stack of pending nodes, above the entries of their bodies, and no edge touches
them.
-/
namespace MotionScript

/-- The nodes that wait for the end of a block, the innermost first: for a conditional or a while
block its header, and for a do-while block its header above the placeholder that its body begins
with. -/
inductive OpenBlocks (g : Graph) : List NodeId → Prop
  | none : OpenBlocks g []
  | single {header : NodeId} {outer : List NodeId} :
      g.kind? header = some .conditional ∨ g.kind? header = some .whileLoop → OpenBlocks g outer →
      OpenBlocks g (header :: outer)
  | pair {header entry : NodeId} {outer : List NodeId} :
      g.kind? header = some .doWhileLoop → g.payload? entry = some .placeholder →
        OpenBlocks g outer →
      OpenBlocks g (header :: entry :: outer)

namespace OpenBlocks

variable {g g' : Graph} {pending : List NodeId}

theorem mono (h : OpenBlocks g pending)
    (hg : ∀ id p, g.payload? id = some p → g'.payload? id = some p) :
    OpenBlocks g' pending := by
  have hk (id : NodeId) (k : NodeKind) (hk : g.kind? id = some k) : g'.kind? id = some k := by
    rw [Graph.kind?_eq, Option.map_eq_some_iff] at hk ⊢
    exact hk.imp fun p hp => ⟨hg id p hp.1, hp.2⟩
  induction h with
  | none => exact .none
  | single hh _ ih => exact .single (hh.imp (hk _ _) (hk _ _)) ih
  | pair hh he _ ih => exact .pair (hk _ _ hh) (hg _ _ he) ih

theorem kind_of_mem (h : OpenBlocks g pending) {id : NodeId} (hm : id ∈ pending) :
    ∃ kind, g.kind? id = some kind ∧ kind ≠ .root := by
  induction h with
  | none => cases hm
  | single hh _ ih =>
    rcases List.mem_cons.mp hm with rfl | hm
    · rcases hh with hh | hh <;> exact ⟨_, hh, by decide⟩
    · exact ih hm
  | pair hh he _ ih =>
    rcases List.mem_cons.mp hm with rfl | hm
    · exact ⟨_, hh, by decide⟩
    rcases List.mem_cons.mp hm with rfl | hm
    · exact ⟨.once, Graph.kind?_of_payload? he, by decide⟩
    · exact ih hm

theorem lt_of_mem (h : OpenBlocks g pending) {id : NodeId} (hm : id ∈ pending) : id < g.size := by
  obtain ⟨kind, hk, -⟩ := h.kind_of_mem hm
  exact Graph.lt_size_of_kind? hk

end OpenBlocks

namespace Builder

/-- A do-while header whose block is still open. -/
def Waits (b : Builder) (id : NodeId) : Prop :=
  b.graph.kind? id = some .doWhileLoop ∧ id ∈ b.pending

/-- What holds of a builder whatever edits it has seen. -/
structure WellFormed (b : Builder) : Prop where
  sound : b.graph.Sound b.Waits
  root_children : (b.graph.children Graph.root).length ≤ 1
  /-- The cursor only stands on the root as long as nothing is recorded. -/
  size_of_cursor_root : b.cursor = Graph.root → b.graph.size = 1
  cursor : b.graph.Anchored b.cursor
  blocks : OpenBlocks b.graph b.pending
  nodup : b.pending.Nodup

theorem wellFormed_empty : WellFormed {} := by
  have hn (id : NodeId) : Graph.empty.node? id = if id = 0 then some { payload := .root }
      else none := by
    cases id <;> rfl
  have hc (id : NodeId) : Graph.empty.children id = [] := by
    simp only [Graph.children, hn]
    split <;> rfl
  have ho (id : NodeId) : Graph.empty.owner? id = none := by
    simp only [Graph.owner?, hn]
    split <;> rfl
  have hw (id : NodeId) : ¬ Waits {} id := by simp [Waits]
  refine ⟨?_, by simp [hc], fun _ => rfl, .inl rfl, .none, List.nodup_nil⟩
  constructor
  case place => exact Graph.node?_isSome_iff _
  case root_payload => rfl
  case unowned_iff =>
    intro id hid hr
    exact absurd (Nat.lt_one_iff.mp hid) hr
  all_goals simp [hc, ho, hw]

variable {b : Builder}

namespace WellFormed

theorem pending_lt (h : b.WellFormed) {id : NodeId} (hm : id ∈ b.pending) : id < b.graph.size :=
  h.blocks.lt_of_mem hm

theorem pending_ne_root (h : b.WellFormed) {id : NodeId}
    (hm : id ∈ b.pending) : id ≠ Graph.root := by
  rintro rfl
  obtain ⟨kind, hk, hr⟩ := h.blocks.kind_of_mem hm
  rw [Graph.kind?_eq, h.sound.root_payload] at hk
  exact hr (Option.some.inj hk).symm

theorem cursor_lt (h : b.WellFormed) : b.cursor < b.graph.size := h.sound.anchored_lt h.cursor

theorem owned_of_pending (h : b.WellFormed) {id : NodeId} (hm : id ∈ b.pending)
    (hk : b.graph.kind? id ≠ some .doWhileLoop) : ∃ owner, b.graph.owner? id = some owner :=
  (h.sound.anchored (h.pending_lt hm) fun hw => hk hw.1).resolve_left (h.pending_ne_root hm)

theorem root_children_of_cursor_root (h : b.WellFormed) (hc : b.cursor = Graph.root) :
    b.graph.children Graph.root = [] := by
  refine List.eq_nil_iff_forall_not_mem.mpr fun child hm => ?_
  have hlt := h.sound.child_lt _ _ hm
  rw [h.size_of_cursor_root hc] at hlt
  exact h.sound.root_not_child _ (Nat.lt_one_iff.mp hlt ▸ hm)

/-- An edge from the cursor leaves at most one node below the root. -/
theorem root_children_attach (h : b.WellFormed) {g : Graph}
    (hg : g.children Graph.root = b.graph.children Graph.root) (hs : b.graph.size ≤ g.size)
    (child : NodeId) :
    ((g.attach b.cursor child).children Graph.root).length ≤ 1 := by
  rw [g.children_attach child _ (Nat.lt_of_lt_of_le h.cursor_lt hs)]
  split
  next he => simp [← he, hg, h.root_children_of_cursor_root he.symm]
  next => exact hg ▸ h.root_children

theorem append (h : b.WellFormed) (p : Payload) : (b.append p).WellFormed := by
  have hcur : (b.graph.add p).Anchored b.cursor := by simpa [Graph.Anchored] using h.cursor
  have hs := (h.sound.add p).attach_loose hcur (.inr rfl)
  have hpay (id : NodeId) (q : Payload) (hq : b.graph.payload? id = some q) :
      (b.append p).graph.payload? id = some q := by
    rw [payload?_append, if_neg (Nat.ne_of_lt (Graph.lt_size_of_payload? hq)), hq]
  have hown : (b.append p).graph.owner? b.graph.size = some b.cursor := by
    rw [owner?_append h.sound.root_lt, if_pos rfl]
  refine ⟨hs.congr fun id => ?_, ?_, fun hc => ?_, .inr ⟨_, hown⟩, h.blocks.mono hpay, h.nodup⟩
  · constructor
    · rintro ⟨hkind, hm⟩
      have hlt := h.pending_lt hm
      exact ⟨.inl ⟨b.kind?_append p hlt ▸ hkind, hm⟩, Nat.ne_of_lt hlt⟩
    · rintro ⟨⟨hkind, hm⟩ | he, hne⟩
      · exact ⟨(b.kind?_append p (h.pending_lt hm)).trans hkind, hm⟩
      · exact absurd he hne
  · exact h.root_children_attach (by simp) (by simp) _
  · exact absurd hc (Nat.ne_of_gt h.sound.root_lt)

theorem push_header (h : b.WellFormed) {kind : NodeKind}
    (hkind : kind = .conditional ∨ kind = .whileLoop) :
    WellFormed { b.append (.header kind) with
      pending := (b.append (.header kind)).cursor :: (b.append (.header kind)).pending } := by
  have h₁ := h.append (.header kind)
  have hk : (b.append (.header kind)).graph.kind? b.graph.size = some kind :=
    b.kind?_append_new (.header kind)
  refine ⟨h₁.sound.congr fun id => ?_, h₁.root_children, h₁.size_of_cursor_root, h₁.cursor,
    .single ?_ h₁.blocks, ?_⟩
  · refine and_congr_right fun hw =>
      ⟨fun hm => (List.mem_cons.mp hm).resolve_left ?_, List.mem_cons_of_mem _⟩
    rintro rfl
    have := Option.some.inj (hk.symm.trans hw)
    rcases hkind with rfl | rfl <;> cases this
  · rcases hkind with rfl | rfl
    · exact .inl hk
    · exact .inr hk
  · exact List.nodup_cons.mpr ⟨fun hm => Nat.lt_irrefl _ (h.pending_lt hm), h.nodup⟩

/-- Opening a block whose header stays apart until the block is closed. -/
theorem push_pair (h : b.WellFormed) :
    let opened := b.append .placeholder
    WellFormed { opened with
      graph := opened.graph.add (.header .doWhileLoop)
      pending := opened.graph.nextId :: opened.cursor :: opened.pending } := by
  intro opened
  have h₁ : opened.WellFormed := h.append .placeholder
  have hlt : b.graph.size < opened.graph.size := h₁.cursor_lt
  have hpay (id : NodeId) (p : Payload) (hp : opened.graph.payload? id = some p) :
      (opened.graph.add (.header .doWhileLoop)).payload? id = some p := by
    rw [Graph.payload?_add, if_neg (Nat.ne_of_lt (Graph.lt_size_of_payload? hp)), hp]
  have hheader : (opened.graph.add (.header .doWhileLoop)).kind? opened.graph.size =
      some .doWhileLoop := by
    rw [Graph.kind?_add, if_pos rfl]
    rfl
  have hentry : opened.graph.payload? opened.cursor = some .placeholder :=
    (b.payload?_append .placeholder _).trans (if_pos rfl)
  refine ⟨(h₁.sound.add _).congr fun id => ?_, by simpa using h₁.root_children, ?_, ?_,
    .pair hheader (hpay _ _ hentry) (h₁.blocks.mono hpay), ?_⟩
  · have hk (hne : id ≠ opened.graph.size) :
        (opened.graph.add (.header .doWhileLoop)).kind? id = opened.graph.kind? id := by
      rw [Graph.kind?_add, if_neg hne]
    constructor
    · rintro ⟨hkind, hm⟩
      rcases List.mem_cons.mp hm with he | hm
      · exact .inr he
      rcases List.mem_cons.mp hm with rfl | hm
      · rw [hk (Nat.ne_of_lt hlt), Graph.kind?_eq, hentry] at hkind
        cases hkind
      · exact .inl ⟨hk (Nat.ne_of_lt (h₁.pending_lt hm)) ▸ hkind, hm⟩
    · rintro (⟨hkind, hm⟩ | rfl)
      · exact ⟨(hk (Nat.ne_of_lt (h₁.pending_lt hm))).trans hkind,
          List.mem_cons_of_mem _ (List.mem_cons_of_mem _ hm)⟩
      · exact ⟨hheader, List.mem_cons_self⟩
  · exact fun hc => absurd hc (Nat.ne_of_gt h.sound.root_lt)
  · exact h₁.cursor.imp_right (Exists.imp fun owner ho => by simpa using ho)
  · have hpend : opened.graph.size ∉ opened.cursor :: opened.pending := by
      rintro hm
      rcases List.mem_cons.mp hm with he | hm
      · exact Nat.ne_of_gt hlt he
      · exact Nat.lt_irrefl _ (h₁.pending_lt hm)
    exact List.nodup_cons.mpr
      ⟨hpend, List.nodup_cons.mpr ⟨fun hm => Nat.lt_irrefl _ (h.pending_lt hm), h.nodup⟩⟩

theorem openBlock (h : b.WellFormed) {kind : NodeKind} {id : NodeId} {b' : Builder}
    (ho : b.openBlock kind = .ok (id, b')) : b'.WellFormed := by
  cases kind with
  | conditional => cases ho; exact h.push_header (.inl rfl)
  | whileLoop => cases ho; exact h.push_header (.inr rfl)
  | doWhileLoop => cases ho; exact h.push_pair
  | root => cases ho
  | once => cases ho
  | untilNear => cases ho
  | speech => cases ho

theorem close_while (h : b.WellFormed) {header : NodeId} {outer : List NodeId}
    (hp : b.pending = header :: outer) (hk : b.graph.kind? header = some .whileLoop)
    (hb : OpenBlocks b.graph outer) :
    WellFormed { graph := b.graph.attach b.cursor header, cursor := header, pending := outer } := by
  have hm : header ∈ b.pending := hp ▸ List.mem_cons_self
  obtain ⟨owner, ho⟩ := h.owned_of_pending hm (by simp [hk])
  have hs := h.sound.attach_owned h.cursor ho
  refine ⟨hs.congr fun id => ?_, h.root_children_attach rfl (Nat.le_refl _) _,
    fun hc => absurd hc (h.pending_ne_root hm), .inr ⟨owner, ?_⟩,
    hb.mono fun id p hi => by simpa using hi, (List.nodup_cons.mp (hp ▸ h.nodup)).2⟩
  · simp only [Waits, Graph.kind?_attach, hp, List.mem_cons]
    refine and_congr_right fun hw => ⟨.inr, fun hi => hi.resolve_left ?_⟩
    rintro rfl
    cases Option.some.inj (hk.symm.trans hw)
  · rw [b.graph.owner?_attach b.cursor header (h.pending_lt hm) (h.pending_ne_root hm), if_pos rfl,
      ho, Option.some_or]

/-- Closing a loop that is tested last: its header is attached and is loose no longer. -/
theorem close_doWhile (h : b.WellFormed) {header entry : NodeId} {outer : List NodeId}
    (hp : b.pending = header :: entry :: outer) (hk : b.graph.kind? header = some .doWhileLoop)
    (he : b.graph.payload? entry = some .placeholder) (hb : OpenBlocks b.graph outer) :
    WellFormed {
      graph := (b.graph.attach b.cursor header).attach header entry, cursor := header,
      pending := outer } := by
  have hm : header ∈ b.pending := hp ▸ List.mem_cons_self
  have hme : entry ∈ b.pending := hp ▸ List.mem_cons_of_mem _ List.mem_cons_self
  have hnd := hp ▸ h.nodup
  have hekind : b.graph.kind? entry ≠ some .doWhileLoop := by
    rw [Graph.kind?_of_payload? he]
    decide
  have hloose : b.Waits header := ⟨hk, hm⟩
  have hs := h.sound.attach_loose h.cursor hloose
  have hown : (b.graph.attach b.cursor header).owner? header = some b.cursor := by
    rw [b.graph.owner?_attach b.cursor header (h.pending_lt hm) (h.pending_ne_root hm), if_pos rfl,
      h.sound.owner?_of_loose hloose, Option.none_or]
  have hne : entry ≠ header := by
    rintro rfl
    exact hekind hk
  obtain ⟨owner, ho⟩ := h.owned_of_pending hme hekind
  have ho' : (b.graph.attach b.cursor header).owner? entry = some owner := by
    rw [b.graph.owner?_attach b.cursor entry (h.pending_lt hm) (h.pending_ne_root hm),
      if_neg hne, ho]
  have hs' := hs.attach_owned (.inr ⟨_, hown⟩) ho'
  refine ⟨hs'.congr fun id => ?_, ?_, fun hc => absurd hc (h.pending_ne_root hm),
    .inr ⟨b.cursor, ?_⟩, hb.mono fun id p hi => by simpa using hi,
    (List.nodup_cons.mp (List.nodup_cons.mp hnd).2).2⟩
  · simp only [Waits, Graph.kind?_attach, hp, List.mem_cons]
    constructor
    · rintro ⟨hw, hi⟩
      refine ⟨⟨hw, .inr (.inr hi)⟩, ?_⟩
      rintro rfl
      exact (List.nodup_cons.mp hnd).1 (List.mem_cons_of_mem _ hi)
    · rintro ⟨⟨hw, hi⟩, hi'⟩
      refine ⟨hw, (hi.resolve_left hi').resolve_left ?_⟩
      rintro rfl
      exact hekind hw
  · rw [Graph.children_attach _ _ _ (by simpa using h.pending_lt hm),
      if_neg (Ne.symm (h.pending_ne_root hm))]
    exact h.root_children_attach rfl (Nat.le_refl _) _
  · rw [Graph.owner?_attach _ _ _ (by simpa using h.pending_lt hme) (h.pending_ne_root hme),
      if_neg (Ne.symm hne), hown]

theorem close_conditional (h : b.WellFormed) {header : NodeId} {outer : List NodeId}
    (hp : b.pending = header :: outer) (hk : b.graph.kind? header = some .conditional)
    (hb : OpenBlocks b.graph outer) :
    WellFormed {
      graph := ((b.graph.add .placeholder).attach header b.graph.nextId).attach b.cursor
        b.graph.nextId
      cursor := b.graph.nextId
      pending := outer } := by
  have hm : header ∈ b.pending := hp ▸ List.mem_cons_self
  have hroot : b.graph.size ≠ Graph.root := Nat.ne_of_gt h.sound.root_lt
  obtain ⟨owner, ho⟩ := h.owned_of_pending hm (by simp [hk])
  have hlt : b.graph.size < (b.graph.add .placeholder).size := b.graph.size_lt_add _
  have hanchor : (b.graph.add .placeholder).Anchored header := .inr ⟨owner, by simpa using ho⟩
  have hs := (h.sound.add .placeholder).attach_loose hanchor (.inr rfl)
  have hown (id : NodeId) : ((b.graph.add .placeholder).attach header b.graph.size).owner? id =
      if id = b.graph.size then some header else b.graph.owner? id := by
    rw [Graph.owner?_attach _ _ _ hlt hroot, Graph.owner?_add, Graph.owner?_add]
    simp [Graph.owner?, Graph.node?_eq_none]
  have hcur : ((b.graph.add .placeholder).attach header b.graph.size).Anchored b.cursor := by
    rcases h.cursor with hc | ⟨o, hc⟩
    · exact .inl hc
    · exact .inr ⟨o, by rw [hown, if_neg (Nat.ne_of_lt h.cursor_lt), hc]⟩
  have hs' := hs.attach_owned hcur ((hown b.graph.size).trans (if_pos rfl))
  have hpay (id : NodeId) (p : Payload) (hi : b.graph.payload? id = some p) :
      (((b.graph.add .placeholder).attach header b.graph.size).attach b.cursor
        b.graph.size).payload? id = some p := by
    simp [Graph.payload?_add, hi, Nat.ne_of_lt (Graph.lt_size_of_payload? hi)]
  have hmerge : (((b.graph.add .placeholder).attach header b.graph.size).attach b.cursor
      b.graph.size).owner? b.graph.size = some header := by
    rw [Graph.owner?_attach _ _ _ (by simp) hroot, if_pos rfl, hown, if_pos rfl, Option.some_or]
  refine ⟨hs'.congr fun id => ?_, ?_, fun hc => absurd hc hroot, .inr ⟨header, hmerge⟩,
    hb.mono hpay, (List.nodup_cons.mp (hp ▸ h.nodup)).2⟩
  · have hkind (hi : id < b.graph.size) : (b.graph.add .placeholder).kind? id = b.graph.kind? id :=
      b.graph.kind?_add_of_lt _ hi
    simp only [Waits, Graph.nextId, Graph.kind?_attach, hp, List.mem_cons]
    constructor
    · rintro ⟨hw, hi⟩
      have hlt := hb.lt_of_mem hi
      exact ⟨.inl ⟨hkind hlt ▸ hw, .inr hi⟩, Nat.ne_of_lt hlt⟩
    · rintro ⟨⟨hw, hi⟩ | he, hne⟩
      · refine ⟨(hkind (Graph.lt_size_of_kind? hw)).trans hw, hi.resolve_left ?_⟩
        rintro rfl
        cases Option.some.inj (hk.symm.trans hw)
      · exact absurd he hne
  · refine h.root_children_attach ?_ (by simp) _
    rw [Graph.children_attach _ _ _ (by simpa using Nat.lt_succ_of_lt (h.pending_lt hm)),
      if_neg (Ne.symm (h.pending_ne_root hm)), Graph.children_add]

theorem closeBlock (h : b.WellFormed) {kind : NodeKind} {b' : Builder}
    (hc : b.closeBlock = .ok (kind, b')) :
    b'.WellFormed := by
  have hblocks := h.blocks
  unfold Builder.closeBlock at hc
  cases hp : b.pending with
  | nil =>
    rw [hp] at hc
    cases hc
  | cons header outer =>
    rw [hp] at hc hblocks
    cases hblocks with
    | single hk hb =>
      rcases hk with hk | hk <;> simp only [hk] at hc <;> cases hc
      · exact h.close_conditional hp hk hb
      · exact h.close_while hp hk hb
    | pair hk he hb =>
      simp only [hk] at hc
      cases hc
      exact h.close_doWhile hp hk he hb

theorem graft (h : b.WellFormed) {plan : Plan} {entry : NodeId} {b' : Builder}
    (hg : b.graft plan = .ok (entry, b')) :
    b'.WellFormed := by
  cases hv : plan.validate with
  | error failure =>
    rw [graft_of_fault hv] at hg
    cases hg
  | ok u =>
    rw [graft_of_validate hv] at hg
    cases hg
    have hvalid := Plan.valid_of_validate hv
    have hs := h.sound.withPlan h.cursor hvalid
    obtain ⟨node, hn⟩ : ∃ node, plan.nodes[0]? = some node :=
      ⟨_, List.getElem?_eq_getElem (List.length_pos_iff.mpr hvalid.nonempty)⟩
    have hentry : (b.graph.withPlan b.cursor plan).owner? b.graph.size = some b.cursor :=
      (Graph.owner?_withPlan_add h.sound.root_lt hvalid hn).trans (if_pos rfl)
    obtain ⟨owner, htail⟩ :=
      Graph.owned_followOwned (b.graph.withPlan b.cursor plan).size ⟨_, hentry⟩
    have hpay (id : NodeId) (p : Payload) (hi : b.graph.payload? id = some p) :
        (b.graph.withPlan b.cursor plan).payload? id = some p := by
      rw [Graph.payload?_withPlan_of_lt b.cursor plan (Graph.lt_size_of_payload? hi), hi]
    refine ⟨hs.congr fun id => ?_, ?_, fun hc => absurd hc (hs.ne_root htail), .inr ⟨owner, htail⟩,
      h.blocks.mono hpay, h.nodup⟩
    · refine and_congr_left fun hm => ?_
      simp only [Graph.kind?_eq, Graph.payload?_withPlan_of_lt b.cursor plan (h.pending_lt hm)]
    · rw [Graph.children_withPlan_of_lt plan h.sound.root_lt]
      split
      next he => simp [← he, h.root_children_of_cursor_root he.symm]
      next => exact h.root_children

theorem apply (h : b.WellFormed) (edit : Edit) : (b.apply edit).WellFormed := by
  cases edit with
  | append payload => exact h.append payload
  | openBlock kind =>
    cases ho : b.openBlock kind with
    | error failure => simpa [Builder.apply, settle, ho] using h
    | ok r => simpa [Builder.apply, settle, ho] using h.openBlock ho
  | closeBlock =>
    cases hc : b.closeBlock with
    | error failure => simpa [Builder.apply, settle, hc] using h
    | ok r => simpa [Builder.apply, settle, hc] using h.closeBlock hc
  | graft plan =>
    cases hg : b.graft plan with
    | error failure => simpa [Builder.apply, settle, hg] using h
    | ok r => simpa [Builder.apply, settle, hg] using h.graft hg
  | clear => exact wellFormed_empty

theorem applyAll (h : b.WellFormed) (edits : List Edit) : (b.applyAll edits).WellFormed :=
  applyAll_induction (fun _ edit hb => hb.apply edit) h edits

end WellFormed

/-- Whatever edits a builder has seen, accepted or refused, its state is well formed. -/
theorem wellFormed_after_edits (edits : List Edit) : (applyAll {} edits).WellFormed :=
  wellFormed_empty.applyAll edits

/-- What holds of a fresh builder and is kept by each of some edits holds after them. -/
theorem edits_induction {motive : Builder → Prop} {edits : List Edit} (empty : motive {})
    (step : ∀ b : Builder, b.WellFormed → motive b → ∀ edit ∈ edits, motive (b.apply edit)) :
    motive (applyAll {} edits) := by
  have hall (b : Builder) (h : b.WellFormed) (hb : motive b) : motive (b.applyAll edits) := by
    induction edits generalizing b with
    | nil => exact hb
    | cons edit edits ih =>
      refine ih (fun b h hb edit hm => step b h hb edit (List.mem_cons_of_mem _ hm)) _
        (h.apply edit) ?_
      exact step b h hb edit List.mem_cons_self
  exact hall {} wellFormed_empty empty

end Builder
end MotionScript
