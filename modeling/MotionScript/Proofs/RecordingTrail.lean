import MotionScript.Proofs.InstructionSteps
import MotionScript.Proofs.OwnedTail

/-!
# The trail of a recording

While instructions are entered into a fresh builder, the cursor is found from the root by always
going to the last owned child. The nodes on the way are the trail of the recording; the blocks that
are still open have been entered by nodes on the trail, the outer ones before the inner ones. To
close a block goes back on the trail to where the block began, and perhaps one node further.
-/
namespace MotionScript

namespace Graph

variable {g g' : Graph}

/-- A path, last node first, on which each node is the last one that the node before it owns. -/
inductive Trail (g : Graph) : List NodeId → Prop
  | root : Trail g [root]
  | step {child parent : NodeId} {rest : List NodeId} :
      Trail g (parent :: rest) → g.lastOwned? parent = some child →
        Trail g (child :: parent :: rest)

namespace Trail

/-- A trail does not depend on what its last node owns. -/
theorem congr {id : NodeId} {rest : List NodeId} (h : g.Trail (id :: rest))
    (hsame : ∀ x ∈ rest, g'.lastOwned? x = g.lastOwned? x) : g'.Trail (id :: rest) := by
  induction rest generalizing id with
  | nil =>
    cases h
    exact .root
  | cons parent rest ih =>
    cases h with
    | step htrail ho =>
      exact .step (ih htrail fun x hx => hsame x (List.mem_cons_of_mem _ hx))
        ((hsame parent List.mem_cons_self).trans ho)

theorem of_append {before : List NodeId} {id : NodeId} {rest : List NodeId}
    (h : g.Trail (before ++ id :: rest)) :
    g.Trail (id :: rest) := by
  induction before with
  | nil => exact h
  | cons x before ih =>
    cases before with
    | nil =>
      cases h with
      | step htrail _ => exact htrail
    | cons y before =>
      cases h with
      | step htrail _ => exact ih htrail

theorem anchored {path : List NodeId} (h : g.Trail path) : ∀ x ∈ path, g.Anchored x := by
  induction h with
  | root => exact fun x hx => .inl (List.mem_singleton.mp hx)
  | step _ ho ih =>
    intro x hx
    rcases List.mem_cons.mp hx with rfl | hx
    · exact .inr ⟨_, owner?_of_lastOwned? ho⟩
    · exact ih x hx

/-- The search for the tail of the root passes every node of a trail. -/
theorem exists_followOwned {id : NodeId} {rest : List NodeId} (h : g.Trail (id :: rest)) :
    ∃ steps, g.followOwned steps Graph.root = id := by
  induction rest generalizing id with
  | nil =>
    cases h
    exact ⟨0, rfl⟩
  | cons parent rest ih =>
    cases h with
    | step htrail ho =>
      obtain ⟨steps, hsteps⟩ := ih htrail
      refine ⟨steps + 1, ?_⟩
      rw [followOwned_add, hsteps]
      simp [followOwned, ho]

end Trail
end Graph

namespace Builder

/-- The nodes by which the open blocks were entered, the innermost first. The header of a loop that
is tested last waits as well, but is not part of the graph yet. -/
def entries (b : Builder) : List NodeId :=
  b.pending.filter fun id => b.graph.kind? id ≠ some .doWhileLoop

/-- The cursor stands at the end of a trail, on which the entries of the open blocks come in their
order. -/
structure Trailed (b : Builder) (path : List NodeId) : Prop where
  trail : b.graph.Trail (b.cursor :: path)
  nodup : (b.cursor :: path).Nodup
  entries : List.Sublist b.entries (b.cursor :: path)

theorem trailed_empty : Trailed {} [] := ⟨.root, by simp, by simp [entries]⟩

theorem lastOwned?_append {b : Builder} (h : b.WellFormed) (p : Payload) (id : NodeId) :
    (b.append p).graph.lastOwned? id = if id = b.cursor then some b.graph.size
      else b.graph.lastOwned? id := by
  have hattach := Graph.lastOwned?_attach (Graph.lt_size_add h.cursor_lt p) (b.graph.size_lt_add p)
    (Nat.ne_of_gt h.sound.root_lt) id
  simpa [b.graph.owner?_size, Builder.append, Graph.nextId] using hattach

theorem entries_congr {b b' : Builder} (hp : b'.pending = b.pending)
    (hk : ∀ id ∈ b.pending, b'.graph.kind? id = b.graph.kind? id) : b'.entries = b.entries := by
  rw [entries, entries, hp]
  exact List.filter_congr fun id hm => by rw [hk id hm]

namespace Trailed

variable {b : Builder} {path : List NodeId}

theorem not_mem (ht : b.Trailed path) (h : b.WellFormed) {id : NodeId} (hid : b.graph.size ≤ id) :
    id ∉ b.cursor :: path :=
  fun hm => Nat.not_lt_of_le hid (h.sound.anchored_lt (ht.trail.anchored id hm))

theorem append (ht : b.Trailed path) (h : b.WellFormed) (p : Payload) :
    (b.append p).Trailed (b.cursor :: path) := by
  have hown := lastOwned?_append h p
  have hcur : b.cursor ∉ path := (List.nodup_cons.mp ht.nodup).1
  refine ⟨.step (ht.trail.congr fun x hx => ?_) ((hown _).trans (if_pos rfl)),
    List.nodup_cons.mpr ⟨ht.not_mem h (Nat.le_refl _), ht.nodup⟩, ?_⟩
  · rw [hown, if_neg]
    rintro rfl
    exact hcur hx
  · have hentries : (b.append p).entries = b.entries :=
      entries_congr rfl fun id hm => b.kind?_append p (h.pending_lt hm)
    exact hentries ▸ ht.entries.cons _

theorem push_header (ht : b.Trailed path) (h : b.WellFormed) {kind : NodeKind}
    (hk : kind ≠ .doWhileLoop) :
    Trailed { b.append (.header kind) with
      pending := (b.append (.header kind)).cursor ::
          (b.append (.header kind)).pending } (b.cursor :: path) := by
  have happend := ht.append h (.header kind)
  have hnew : (b.append (.header kind)).graph.kind? b.graph.size = some kind :=
    kind?_append_new b (.header kind)
  have hentries : (b.append (.header kind)).entries = b.entries :=
    entries_congr rfl fun id hm => b.kind?_append _ (h.pending_lt hm)
  refine ⟨happend.trail, happend.nodup, ?_⟩
  rw [Builder.entries, List.filter_cons_of_pos (by simp [hnew, hk])]
  rw [Builder.entries] at hentries
  exact List.Sublist.cons_cons _ (hentries ▸ ht.entries)

theorem push_pair (ht : b.Trailed path) (h : b.WellFormed) :
    let opened := b.append .placeholder
    Trailed { opened with
      graph := opened.graph.add (.header .doWhileLoop)
      pending := opened.graph.nextId :: opened.cursor :: opened.pending } (b.cursor :: path) := by
  intro opened
  have happend : opened.Trailed (b.cursor :: path) := ht.append h .placeholder
  have hold {id : NodeId} (hid : id < opened.graph.size) :
      (opened.graph.add (.header .doWhileLoop)).kind? id = opened.graph.kind? id :=
        opened.graph.kind?_add_of_lt _ hid
  have hheader : (opened.graph.add (.header .doWhileLoop)).kind? opened.graph.size =
      some .doWhileLoop := by
    rw [Graph.kind?_add, if_pos rfl]
    rfl
  have hentry : (opened.graph.add (.header .doWhileLoop)).kind? opened.cursor = some .once := by
    rw [hold (h.append .placeholder).cursor_lt]
    exact kind?_append_new b .placeholder
  have hentries : opened.entries = b.entries :=
    entries_congr rfl fun id hm => b.kind?_append _ (h.pending_lt hm)
  have hrest : (opened.pending.filter fun id =>
      (opened.graph.add (.header .doWhileLoop)).kind? id ≠ some .doWhileLoop) = b.entries :=
    hentries ▸ List.filter_congr fun id hm => by rw [hold ((h.append .placeholder).pending_lt hm)]
  refine ⟨happend.trail.congr fun x _ => by simp, happend.nodup, ?_⟩
  rw [Builder.entries, Graph.nextId, List.filter_cons_of_neg (by simp [hheader]),
    List.filter_cons_of_pos (by simp [hentry]), hrest]
  exact List.Sublist.cons_cons _ ht.entries

/-- A block was entered on the trail, and the blocks around it before. -/
theorem exists_entry (ht : b.Trailed path) {entry : NodeId} {outer : List NodeId}
    (he : b.entries = entry :: outer) :
    ∃ before rest, b.cursor :: path = before ++ entry :: rest ∧ List.Sublist outer rest := by
  obtain ⟨first, last, hsplit, hmem, hsub⟩ := List.cons_sublist_iff.mp (he ▸ ht.entries)
  obtain ⟨before, after, rfl⟩ := List.append_of_mem hmem
  exact ⟨before, after ++ last, by simp [hsplit], hsub.trans (List.sublist_append_right _ _)⟩

theorem back_to (ht : b.Trailed path) {before rest : List NodeId} {entry : NodeId}
    (hsplit : b.cursor :: path = before ++ entry :: rest) :
    b.graph.Trail (entry :: rest) ∧ (entry :: rest).Nodup := by
  have htrail := ht.trail
  have hnd := ht.nodup
  rw [hsplit] at htrail hnd
  exact ⟨htrail.of_append, (List.nodup_append.mp hnd).2.1⟩

/-- The cursor is no node between the root and the entry of a block. -/
theorem cursor_not_mem (ht : b.Trailed path) {before rest : List NodeId} {entry : NodeId}
    (hsplit : b.cursor :: path = before ++ entry :: rest) : b.cursor ∉ rest := by
  have hnd := ht.nodup
  cases before with
  | nil =>
    obtain ⟨-, rfl⟩ := List.cons_eq_cons.mp hsplit
    exact (List.nodup_cons.mp hnd).1
  | cons x before =>
    obtain ⟨-, rfl⟩ := List.cons_eq_cons.mp hsplit
    exact fun hm => (List.nodup_cons.mp hnd).1 (List.mem_append_right _ (List.mem_cons_of_mem _ hm))

theorem close_while (ht : b.Trailed path) (h : b.WellFormed) {header : NodeId} {outer : List NodeId}
    (hp : b.pending = header :: outer) (hk : b.graph.kind? header = some .whileLoop) :
    ∃ path, Trailed { graph := b.graph.attach b.cursor header, cursor := header, pending := outer }
      path := by
  have hm : header ∈ b.pending := hp ▸ List.mem_cons_self
  have hentries : b.entries = header :: outer.filter fun id =>
      b.graph.kind? id ≠ some .doWhileLoop := by
    rw [Builder.entries, hp, List.filter_cons_of_pos (by simp [hk])]
  obtain ⟨before, rest, hsplit, hsub⟩ := ht.exists_entry hentries
  obtain ⟨htrail, hnd⟩ := ht.back_to hsplit
  refine ⟨rest, htrail.congr fun x hx => ?_, hnd, ?_⟩
  · rw [Graph.lastOwned?_attach h.cursor_lt (h.pending_lt hm) (h.pending_ne_root hm), if_neg]
    rintro ⟨rfl, -⟩
    exact ht.cursor_not_mem hsplit hx
  · simp only [Builder.entries, Graph.kind?_attach]
    exact hsub.cons _

theorem close_doWhile (ht : b.Trailed path) (h : b.WellFormed) {header entry : NodeId}
    {outer : List NodeId} (hp : b.pending = header :: entry :: outer)
    (hk : b.graph.kind? header = some .doWhileLoop)
    (he : b.graph.payload? entry = some .placeholder) :
    ∃ path,
      Trailed {
        graph := (b.graph.attach b.cursor header).attach header entry, cursor := header,
        pending := outer } path := by
  have hm : header ∈ b.pending := hp ▸ List.mem_cons_self
  have hme : entry ∈ b.pending := hp ▸ List.mem_cons_of_mem _ List.mem_cons_self
  have hloose : b.Waits header := ⟨hk, hm⟩
  have hentry : b.graph.kind? entry = some .once := Graph.kind?_of_payload? he
  have hentries : b.entries = entry :: outer.filter fun id =>
      b.graph.kind? id ≠ some .doWhileLoop := by
    rw [Builder.entries, hp, List.filter_cons_of_neg (by simp [hk]),
      List.filter_cons_of_pos (by simp [hentry])]
  have hheader : header ∉ b.cursor :: path :=
    fun hx => h.sound.not_loose (ht.trail.anchored header hx) hloose
  have hcur : b.cursor ∉ path := (List.nodup_cons.mp ht.nodup).1
  have hown (x : NodeId) (hx : x ≠ header) :
      ((b.graph.attach b.cursor header).attach header entry).lastOwned? x =
      if x = b.cursor then some header else b.graph.lastOwned? x := by
    rw [Graph.lastOwned?_attach (by simpa using h.pending_lt hm) (by simpa using h.pending_lt hme)
      (h.pending_ne_root hme), if_neg fun hc => hx hc.1,
      Graph.lastOwned?_attach h.cursor_lt (h.pending_lt hm) (h.pending_ne_root hm),
      h.sound.owner?_of_loose hloose]
    simp
  refine ⟨b.cursor :: path, .step (ht.trail.congr fun x hx => ?_) ?_,
    List.nodup_cons.mpr ⟨hheader, ht.nodup⟩, ?_⟩
  · rw [hown x fun hc => hheader (hc ▸ List.mem_cons_of_mem _ hx), if_neg]
    rintro rfl
    exact hcur hx
  · rw [hown _ fun hc => hheader (hc ▸ List.mem_cons_self), if_pos rfl]
  · simp only [Builder.entries, Graph.kind?_attach]
    exact ((List.sublist_cons_self _ _).trans (hentries ▸ ht.entries)).cons _

theorem close_conditional (ht : b.Trailed path) (h : b.WellFormed) {header : NodeId}
    {outer : List NodeId} (hp : b.pending = header :: outer)
    (hk : b.graph.kind? header = some .conditional) :
    ∃ path, Trailed {
      graph := ((b.graph.add .placeholder).attach header b.graph.nextId).attach b.cursor
        b.graph.nextId
      cursor := b.graph.nextId
      pending := outer } path := by
  have hm : header ∈ b.pending := hp ▸ List.mem_cons_self
  have hroot : b.graph.size ≠ Graph.root := Nat.ne_of_gt h.sound.root_lt
  have hentries : b.entries = header :: outer.filter fun id =>
      b.graph.kind? id ≠ some .doWhileLoop := by
    rw [Builder.entries, hp, List.filter_cons_of_pos (by simp [hk])]
  obtain ⟨before, rest, hsplit, hsub⟩ := ht.exists_entry hentries
  obtain ⟨htrail, hnd⟩ := ht.back_to hsplit
  have hmerge : b.graph.size ∉ header :: rest := fun hx =>
    ht.not_mem h (Nat.le_refl _) (hsplit ▸ List.mem_append_right _ hx)
  have hlt := Graph.lt_size_add (h.pending_lt hm) .placeholder
  have hlt' := Graph.lt_size_add h.cursor_lt .placeholder
  have hown (x : NodeId) : (((b.graph.add .placeholder).attach header b.graph.size).attach b.cursor
      b.graph.size).lastOwned? x = if x = header then some b.graph.size
          else b.graph.lastOwned? x := by
    rw [Graph.lastOwned?_attach (by simpa using hlt') (by simp) hroot,
      Graph.owner?_attach _ _ _ (by simp) hroot, Graph.lastOwned?_attach hlt (by simp) hroot,
      Graph.owner?_add, b.graph.owner?_size]
    simp only [if_true, Option.none_or, Option.some_or, Option.some.injEq,
      Graph.lastOwned?_add, and_true]
    by_cases hx : x = header
    · simp [hx]
    · rw [if_neg hx, if_neg]
      rintro ⟨rfl, he⟩
      exact hx he.symm
  refine ⟨header :: rest, .step (htrail.congr fun x hx => ?_) ((hown header).trans (if_pos rfl)),
    List.nodup_cons.mpr ⟨hmerge, hnd⟩, ?_⟩
  · rw [Graph.nextId, hown, if_neg]
    rintro rfl
    exact (List.nodup_cons.mp hnd).1 hx
  · have hrest :
        (outer.filter fun id =>
          (((b.graph.add .placeholder).attach header b.graph.nextId).attach b.cursor
        b.graph.nextId).kind? id ≠ some .doWhileLoop) = outer.filter fun id =>
            b.graph.kind? id ≠ some .doWhileLoop := by
      refine List.filter_congr fun id hi => ?_
      have hid := h.pending_lt (hp ▸ List.mem_cons_of_mem _ hi)
      rw [Graph.kind?_attach, Graph.kind?_attach, Graph.kind?_add_of_lt _ _ hid]
    rw [Builder.entries, hrest]
    exact (hsub.cons _).cons _

/-- Every instruction keeps the cursor at the end of a trail. -/
theorem step {b' : Builder} (ht : b.Trailed path) (h : b.WellFormed) (hs : b.Step b') :
    ∃ path, b'.Trailed path := by
  cases hs with
  | refused => exact ⟨_, ht⟩
  | leaf l => exact ⟨_, ht.append h l.payload⟩
  | openHeader hk =>
    refine ⟨_, ht.push_header h ?_⟩
    rcases hk with rfl | rfl <;> decide
  | openPair => exact ⟨_, ht.push_pair h⟩
  | closeConditional hp hk => exact ht.close_conditional h hp hk
  | closeWhile hp hk => exact ht.close_while h hp hk
  | closeDoWhile hp hk he => exact ht.close_doWhile h hp hk he

end Trailed

theorem exists_trail (instructions : List Instruction) :
    ∃ path, (enter {} instructions).Trailed path :=
  enter_induction (motive := fun b => ∃ path, b.Trailed path) ⟨[], trailed_empty⟩
    (fun _ _ h hs ⟨_, ht⟩ => ht.step h hs) instructions

end Builder
end MotionScript
