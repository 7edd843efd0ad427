import MotionScript.Proofs.BlockNesting
import MotionScript.Proofs.EndingLoops
import MotionScript.Proofs.ThumbSticks
import MotionScript.Proofs.UncancelledRuns

/-!
# Which branches are taken

A header has two branches, and any other node has one. When instructions are entered one by one,
each node gets the children that it has branches for, one at a time: what is entered next takes the
branch of the cursor that is free, and the end of a block takes those that its header has left. So
it is known for each node how many of its branches are taken, and nothing is ever attached where no
walk goes.
-/
namespace MotionScript

/-- How many branches a walk can leave a node by. -/
def NodeKind.branches : NodeKind → Nat
  | .whileLoop | .doWhileLoop | .conditional => 2
  | .root | .once | .untilNear | .speech => 1

theorem NodeKind.branches_eq (kind : NodeKind) :
    kind.branches = if kind.opensBlock then 2 else 1 := by
  cases kind <;> rfl

theorem NodeKind.branch_cases {kind : NodeKind} {branch : Nat} (h : branch < kind.branches) :
    branch = kind.branch false ∨ kind.branch false = 1 ∧ branch = kind.branch true := by
  cases kind <;> simp [branches, NodeKind.branch] at h ⊢ <;> omega

/-! ## Branches in an execution -/

/-- Where a face is seen, or where none is, an execution that arrives at a node goes on to another
one. -/
def Graph.GoesOn (g : Graph) (face : Bool) (id child : NodeId) : Prop :=
  ∃ (e next : Execution) (o after : Outside), e.stage = .arriving (some id) ∧
    o.surroundings.controller.landmarks.face = face ∧ e.Comes g {} o [id] next after ∧
    next.stage = .arriving (some child)

/-- Nobody cancels, and the robot sees the same all the time. -/
def Outside.still (landmarks : Landmarks) : Outside where
  schedule := .atRests []
  surroundings := { controller := { landmarks } }

/-- A turn does not change what the robot sees, so where no signal comes it stays clear. -/
theorem Execution.clearFrom_of_keeps {g : Graph} {settings : Settings} {e : Execution} {o : Outside}
    (h : o.Keeps Surroundings.Clear fun _ => False) : e.ClearFrom g settings o := by
  intro turns later now hnow
  induction turns generalizing e o with
  | zero =>
    cases hnow
    exact h.now
  | succ turns ih =>
    obtain ⟨next, after, hfollow, hnow⟩ := exists_follow_of_stateAfter hnow
    have hlandmarks := (writes_turn g settings e o.surroundings).landmarks
    have hclear : (e.turn g settings o.surroundings).surroundings.Clear := {
      uncancelled := (cancelled_turn g settings e o.surroundings).trans h.now.uncancelled
      face := hlandmarks ▸ h.now.face
      near := hlandmarks ▸ h.now.near }
    exact ih (h.follow (fun _ _ _ hno => hno.elim) hclear hfollow) hnow

theorem Graph.goesOn_of_child? {g : Graph} {id child : NodeId} {kind : NodeKind} {branch : Nat}
    (hk : g.kind? id = some kind) (hbranch : branch < kind.branches)
    (hchild : g.child? id branch = some child) :
    ∃ face, branch = kind.branch face ∧ g.GoesOn face id child := by
  obtain ⟨p, hp, rfl⟩ := Option.map_eq_some_iff.mp (g.kind?_eq id ▸ hk)
  let e : Execution := { stage := .arriving (some id) }
  have hmax : ({} : Settings).maxSteps = 0 := rfl
  rcases NodeKind.branch_cases hbranch with rfl | ⟨hheader, rfl⟩
  · have hclear : e.ClearFrom g {} (.still { near := true }) :=
      Execution.clearFrom_of_keeps ⟨⟨rfl, rfl, rfl⟩, by nofun⟩
    obtain ⟨next, after, hcomes, hstage⟩ := Execution.comes_of_visit rfl hp hmax hclear
    exact ⟨false, rfl, e, next, _, after, rfl, rfl, hcomes, hchild ▸ hstage⟩
  · have huncancelled : (Outside.still { face := true }).surroundings.cancelled = false := rfl
    obtain ⟨next, after, hcomes, hstage⟩ :=
      Execution.comes_of_header (e := e) rfl hp hheader hmax huncancelled
    exact ⟨true, rfl, e, next, _, after, rfl, rfl, hcomes, hchild ▸ hstage⟩

/-! ## How many branches are taken -/

namespace Builder

/-- How many branches of a node are taken once the cursor has gone on from it: all of them, unless
it is a header that waits for the end of its block. -/
def due (b : Builder) (id : NodeId) : Nat :=
  match b.graph.kind? id with
  | none => 0
  | some kind =>
    if kind.opensBlock ∧ id ∈ b.pending then if kind = .doWhileLoop then 0 else 1
    else kind.branches

/-- At the cursor one more branch is to be taken, and otherwise every node has the children that are
due. A conditional that is closed has been left. -/
structure Filled (b : Builder) : Prop where
  length_children : ∀ id, (b.graph.children id).length + (if id = b.cursor then 1 else 0) = b.due id
  cursor : b.graph.kind? b.cursor = some .conditional → b.cursor ∈ b.pending

variable {b b' : Builder}

section

variable {id : NodeId} {kind : NodeKind}

theorem due_of_waits (hw : b.Waits id) : b.due id = 0 := by
  rw [due, hw.1]
  exact if_pos ⟨rfl, hw.2⟩

theorem due_of_open (hk : b.graph.kind? id = some .conditional ∨ b.graph.kind? id = some .whileLoop)
    (hm : id ∈ b.pending) : b.due id = 1 := by
  rcases hk with hk | hk <;> rw [due, hk] <;> exact if_pos ⟨rfl, hm⟩

variable (kind) in
theorem due_of_left (hk : b.graph.kind? id = some kind) (hleft : kind.opensBlock → id ∉ b.pending) :
    b.due id = kind.branches := by
  rw [due, hk]
  exact if_neg fun hw => hleft hw.1 hw.2

theorem due_le_one (hk : b.graph.kind? id = some kind)
    (hfirst : kind.opensBlock → id ∈ b.pending) : b.due id ≤ 1 := by
  by_cases hopens : kind.opensBlock
  · rw [due, hk]
    simp only [if_pos (And.intro hopens (hfirst hopens))]
    split <;> decide
  · rw [due_of_left _ hk fun ho => absurd ho hopens, NodeKind.branches_eq, if_neg hopens]

theorem due_le_branches (hk : b.graph.kind? id = some kind) : b.due id ≤ kind.branches := by
  by_cases hfirst : kind.opensBlock → id ∈ b.pending
  · refine Nat.le_trans (due_le_one hk hfirst) ?_
    rw [NodeKind.branches_eq]
    split <;> decide
  · obtain ⟨-, hm⟩ := Classical.not_imp.mp hfirst
    exact Nat.le_of_eq (due_of_left _ hk fun _ => hm)

theorem due_congr (hk : b'.graph.kind? id = b.graph.kind? id)
    (hp : ∀ kind, b.graph.kind? id = some kind → kind.opensBlock →
      (id ∈ b'.pending ↔ id ∈ b.pending)) :
    b'.due id = b.due id := by
  unfold due
  rw [hk]
  cases hkind : b.graph.kind? id with
  | none => rfl
  | some kind =>
    cases hopens : kind.opensBlock with
    | false => simp [hopens]
    | true => simp only [hp kind hkind hopens]

end

theorem filled_empty : Filled {} := by
  constructor
  · intro id
    have hchildren : Graph.empty.children id = [] := by cases id <;> rfl
    rw [hchildren]
    by_cases hid : id = 0
    · subst hid
      rfl
    · have hkind : Graph.empty.kind? id = none := by
        obtain ⟨k, rfl⟩ := Nat.exists_eq_succ_of_ne_zero hid
        rfl
      rw [due, hkind]
      simp [hid, Graph.root]
  · intro hk
    cases hk

namespace Filled

theorem append (hf : b.Filled) (h : b.WellFormed) {p : Payload}
    (hgraph : b'.graph = (b.append p).graph) (hcursor : b'.cursor = b.graph.size)
    (hpending : ∀ id, id ≠ b.graph.size → (id ∈ b'.pending ↔ id ∈ b.pending))
    (hdue : b'.due b.graph.size = 1)
    (hmerge : p.kind = .conditional → b.graph.size ∈ b'.pending) : b'.Filled := by
  constructor
  · intro id
    by_cases hid : id = b.graph.size
    · subst hid
      rw [hdue, hgraph, h.children_append_new p, hcursor, if_pos rfl]
      rfl
    · have hkind : b'.graph.kind? id = b.graph.kind? id := by
        rw [hgraph, Graph.kind?_eq, payload?_append, if_neg hid, ← Graph.kind?_eq]
      rw [due_congr hkind fun _ _ _ => hpending id hid, ← hf.length_children id, hcursor,
        if_neg hid, hgraph, children_append h.cursor_lt]
      split
      next he => simp [he]
      next => rfl
  · intro hk
    rw [hcursor, hgraph, kind?_append_new] at hk
    exact hcursor ▸ hmerge (Option.some.inj hk)

theorem append_leaf (hf : b.Filled) (h : b.WellFormed) {p : Payload}
    (hp : p.kind = .once ∨ p.kind = .untilNear ∨ p.kind = .speech) : (b.append p).Filled := by
  refine hf.append h rfl rfl (fun _ _ => Iff.rfl) ?_ ?_
  · rw [due_of_left _ (b.kind?_append_new p)]
    · rcases hp with hp | hp | hp <;> rw [hp] <;> rfl
    · rcases hp with hp | hp | hp <;> rw [hp] <;> nofun
  · intro hk
    rcases hp with hp | hp | hp <;> rw [hp] at hk <;> cases hk

theorem push_header (hf : b.Filled) (h : b.WellFormed) {kind : NodeKind}
    (hkind : kind = .conditional ∨ kind = .whileLoop) :
    Filled { b.append (.header kind) with
      pending := (b.append (.header kind)).cursor :: (b.append (.header kind)).pending } := by
  refine hf.append h rfl rfl (fun id hid => List.mem_cons.trans (or_iff_right hid)) ?_ fun _ =>
    List.mem_cons_self
  refine due_of_open ?_ List.mem_cons_self
  have hnew := b.kind?_append_new (.header kind)
  rcases hkind with rfl | rfl
  · exact .inl hnew
  · exact .inr hnew

theorem push_pair (hf : b.Filled) (h : b.WellFormed) :
    let opened := b.append .placeholder
    Filled { opened with
      graph := opened.graph.add (.header .doWhileLoop)
      pending := opened.graph.nextId :: opened.cursor :: opened.pending } := by
  intro opened
  have hopened : opened.Filled := hf.append_leaf h (.inl rfl)
  have hcursor : opened.cursor < opened.graph.size := (h.append .placeholder).cursor_lt
  have hentry : opened.graph.kind? opened.cursor = some .once := b.kind?_append_new .placeholder
  have hkind (id : NodeId) (hid : id ≠ opened.graph.size) :
      (opened.graph.add (.header .doWhileLoop)).kind? id = opened.graph.kind? id := by
    rw [Graph.kind?_add, if_neg hid]
  constructor
  · intro id
    simp only [Graph.children_add]
    by_cases hid : id = opened.graph.size
    · subst hid
      rw [due_of_waits ⟨by rw [Graph.kind?_add, if_pos rfl]; rfl, List.mem_cons_self⟩,
        opened.graph.children_eq_nil (Nat.le_refl _), if_neg (Nat.ne_of_gt hcursor)]
      rfl
    · refine (hopened.length_children id).trans
        (due_congr (hkind id hid) fun kind hk hopens => ?_).symm
      have hne : id ≠ opened.cursor := by
        rintro rfl
        cases hentry.symm.trans hk
        cases hopens
      rw [Graph.nextId, List.mem_cons, List.mem_cons, or_iff_right hid, or_iff_right hne]
  · intro hk
    rw [hkind _ (Nat.ne_of_lt hcursor), hentry] at hk
    cases hk

/-- The header is left by its second branch, and the last node of the body leads back to it. -/
theorem close_while (hf : b.Filled) (h : b.WellFormed) {header : NodeId} {outer : List NodeId}
    (hp : b.pending = header :: outer) (hk : b.graph.kind? header = some .whileLoop) :
    Filled { graph := b.graph.attach b.cursor header, cursor := header, pending := outer } := by
  have hout : header ∉ outer := (List.nodup_cons.mp (hp ▸ h.nodup)).1
  constructor
  · intro id
    have hnow := hf.length_children id
    rw [Graph.length_children_attach h.cursor_lt]
    by_cases hid : id = header
    · subst hid
      rw [due_of_open (.inr hk) (hp ▸ List.mem_cons_self)] at hnow
      rw [due_of_left .whileLoop (by simpa using hk) fun _ => hout]
      simp only [if_true, NodeKind.branches]
      omega
    · rw [due_congr (b := b) (by simp) fun _ _ _ => by simp [hp, hid], ← hnow]
      simp [hid]
  · simp [hk]

/-- The header gets the edge that closes the loop and is left by its second branch. -/
theorem close_doWhile (hf : b.Filled) (h : b.WellFormed) {header entry : NodeId}
    {outer : List NodeId} (hp : b.pending = header :: entry :: outer)
    (hk : b.graph.kind? header = some .doWhileLoop)
    (he : b.graph.payload? entry = some .placeholder) :
    Filled {
      graph := (b.graph.attach b.cursor header).attach header entry, cursor := header,
      pending := outer } := by
  have hm : header ∈ b.pending := hp ▸ List.mem_cons_self
  have hout : header ∉ outer :=
    fun hm => (List.nodup_cons.mp (hp ▸ h.nodup)).1 (List.mem_cons_of_mem _ hm)
  have hentry : b.graph.kind? entry = some .once := Graph.kind?_of_payload? he
  constructor
  · intro id
    have hnow := hf.length_children id
    rw [Graph.length_children_attach (by simpa using h.pending_lt hm),
      Graph.length_children_attach h.cursor_lt]
    by_cases hid : id = header
    · subst hid
      rw [due_of_waits ⟨hk, hm⟩] at hnow
      rw [due_of_left .doWhileLoop (by simpa using hk) fun _ => hout]
      simp only [if_true, NodeKind.branches]
      omega
    · rw [due_congr (b := b) (by simp), ← hnow]
      · simp [hid]
      · intro kind hkind hopens
        have hne : id ≠ entry := by
          rintro rfl
          cases hentry.symm.trans hkind
          cases hopens
        simp [hp, hid, hne]
  · simp [hk]

/-- Both branches of the header are taken, the second by the node at which they meet. -/
theorem close_conditional (hf : b.Filled) (h : b.WellFormed) {header : NodeId} {outer : List NodeId}
    (hp : b.pending = header :: outer) (hk : b.graph.kind? header = some .conditional) :
    Filled {
      graph := ((b.graph.add .placeholder).attach header b.graph.nextId).attach b.cursor
        b.graph.nextId
      cursor := b.graph.nextId
      pending := outer } := by
  have hm : header ∈ b.pending := hp ▸ List.mem_cons_self
  have hout : header ∉ outer := (List.nodup_cons.mp (hp ▸ h.nodup)).1
  have hmerge : (b.graph.add .placeholder).kind? b.graph.size = some .once := by
    rw [Graph.kind?_add, if_pos rfl]
    rfl
  constructor
  · intro id
    have hnow := hf.length_children id
    rw [Graph.length_children_attach (by simpa using Nat.lt_succ_of_lt h.cursor_lt),
      Graph.length_children_attach (Graph.lt_size_add (h.pending_lt hm) _), Graph.children_add]
    by_cases hid : id = b.graph.size
    · subst hid
      rw [due_of_left .once (by simpa using hmerge) nofun, b.graph.children_eq_nil (Nat.le_refl _),
        if_neg (Nat.ne_of_gt (h.pending_lt hm)), if_neg (Nat.ne_of_gt h.cursor_lt)]
      simp [Graph.nextId, NodeKind.branches]
    · have hkind : (b.graph.add .placeholder).kind? id = b.graph.kind? id := by
        rw [Graph.kind?_add, if_neg hid]
      by_cases hh : id = header
      · subst hh
        rw [due_of_open (.inl hk) hm] at hnow
        rw [due_of_left .conditional (by simpa [hkind] using hk) fun _ => hout]
        simp only [Graph.nextId, hid, if_true, if_false, NodeKind.branches]
        omega
      · rw [due_congr (b := b) (by simpa using hkind) fun _ _ _ => by simp [hp, hh], ← hnow]
        simp [hh, hid, Graph.nextId]
  · intro hk
    rw [Graph.kind?_attach, Graph.kind?_attach] at hk
    cases hmerge.symm.trans hk

theorem step (hf : b.Filled) (h : b.WellFormed) (hs : b.Step b') : b'.Filled := by
  cases hs with
  | refused => exact hf
  | leaf l => exact hf.append_leaf h l.kind_mem
  | openHeader hkind => exact hf.push_header h hkind
  | openPair => exact hf.push_pair h
  | closeConditional hp hk => exact hf.close_conditional h hp hk
  | closeWhile hp hk => exact hf.close_while h hp hk
  | closeDoWhile hp hk he => exact hf.close_doWhile h hp hk he

theorem length_le (hf : b.Filled) {id : NodeId} {kind : NodeKind}
    (hk : b.graph.kind? id = some kind) :
    (b.graph.children id).length ≤ kind.branches := by
  have hnow := hf.length_children id
  have hdue := due_le_branches hk
  omega

/-- The branch of the cursor that is free is its first, unless the cursor is the header of a loop
that is closed. -/
theorem children_cursor (hf : b.Filled) {kind : NodeKind}
    (hk : b.graph.kind? b.cursor = some kind) :
    (¬ kind.opensBlock ∨ b.cursor ∈ b.pending → b.graph.children b.cursor = []) ∧
      (kind.opensBlock → b.cursor ∉ b.pending →
        (kind = .whileLoop ∨ kind = .doWhileLoop) ∧
          ∃ child, b.graph.children b.cursor = [child]) := by
  have hnow := hf.length_children b.cursor
  rw [if_pos rfl] at hnow
  constructor
  · intro hfirst
    have hdue := due_le_one hk fun hopens => hfirst.resolve_left (not_not.mpr hopens)
    refine List.length_eq_zero_iff.mp ?_
    omega
  · intro hopens hm
    have hloop : kind = .whileLoop ∨ kind = .doWhileLoop := by
      cases kind with
      | whileLoop => exact .inl rfl
      | doWhileLoop => exact .inr rfl
      | conditional => exact absurd (hf.cursor hk) hm
      | root | once | untilNear | speech => cases hopens
    rw [due_of_left _ hk fun _ => hm, NodeKind.branches_eq, if_pos hopens] at hnow
    exact ⟨hloop, List.length_eq_one_iff.mp (Nat.succ.inj hnow)⟩

end Filled

/-! ## Where the branches of a conditional meet -/

/-- The node at which both branches of a conditional meet: the cursor was put there when the block
of the header was closed, and the graph was not cleared since. -/
def IsMerge (edits : List Edit) (header merge : NodeId) : Prop :=
  ∃ earlier later next, edits = earlier ++ .closeBlock :: later ∧ .clear ∉ later ∧
    (applyAll {} earlier).pending.head? = some header ∧
    (applyAll {} earlier).closeBlock = .ok (.conditional, next) ∧ next.cursor = merge

theorem IsMerge.snoc {edits : List Edit} {header merge : NodeId} (hm : IsMerge edits header merge)
    {edit : Edit} (hedit : edit ≠ .clear) : IsMerge (edits ++ [edit]) header merge := by
  obtain ⟨earlier, later, next, rfl, hlater, hhead, hclose, hnext⟩ := hm
  refine ⟨earlier, later ++ [edit], next, by simp, fun hm => ?_, hhead, hclose, hnext⟩
  rcases List.mem_append.mp hm with hm | hm
  · exact hlater hm
  · exact hedit (List.mem_singleton.mp hm).symm

/-- The end of a conditional puts the cursor on a new node, which takes the second branch of the
header. -/
theorem Filled.children_of_close (hf : b.Filled) (h : b.WellFormed) {header : NodeId}
    {outer : List NodeId} (hp : b.pending = header :: outer)
    (hk : b.graph.kind? header = some .conditional) :
    ∃ next inner, b.closeBlock = .ok (.conditional, next) ∧
      next.graph.children header = [inner, next.cursor] := by
  let merge := b.graph.nextId
  let next : Builder := {
    graph := ((b.graph.add .placeholder).attach header merge).attach b.cursor merge
    cursor := merge
    pending := outer }
  have hclose : b.closeBlock = .ok (.conditional, next) := by
    simp only [closeBlock, hp, hk, next, merge]
  have hm : header ∈ b.pending := hp ▸ List.mem_cons_self
  have hheader := Graph.lt_size_add (h.pending_lt hm) .placeholder
  have hcursor := Graph.lt_size_add h.cursor_lt .placeholder
  have hchildren : next.graph.children header =
      b.graph.children header ++ [merge] ++ if header = b.cursor then [merge] else [] := by
    rw [Graph.children_attach _ _ _ (by simpa using hcursor)]
    split
    next he => rw [← he, Graph.children_attach _ _ _ hheader, if_pos rfl, Graph.children_add]
    next =>
      rw [Graph.children_attach _ _ _ hheader, if_pos rfl, Graph.children_add, List.append_nil]
  have hnow := hf.length_children header
  rw [due_of_open (.inl hk) hm] at hnow
  split at hnow
  next he =>
    rw [if_pos he, List.length_eq_zero_iff.mp (Nat.succ.inj hnow)] at hchildren
    exact ⟨next, merge, hclose, hchildren⟩
  next he =>
    obtain ⟨inner, hone⟩ := List.length_eq_one_iff.mp hnow
    rw [if_neg he, hone] at hchildren
    exact ⟨next, inner, hclose, hchildren⟩

theorem filled_after_edits {edits : List Edit} (hedits : ∀ edit ∈ edits, edit.IsEntered) :
    (applyAll {} edits).Filled :=
  entered_induction hedits filled_empty fun _ _ h hs hf => hf.step h hs

/-- The branches of a header meet. -/
def Meets (edits : List Edit) (header : NodeId) : Prop :=
  ∃ inner merge, (applyAll {} edits).graph.children header = [inner, merge] ∧
    IsMerge edits header merge

section

variable {edits : List Edit} {edit : Edit} (hedits : ∀ each ∈ edits ++ [edit], each.IsEntered)
  {header : NodeId} (hk : (applyAll {} (edits ++ [edit])).graph.kind? header = some .conditional)
include hedits hk

theorem Meets.snoc (hmeets : Meets edits header) (hedit : edit ≠ .clear) :
    Meets (edits ++ [edit]) header := by
  obtain ⟨inner, merge, hchildren, hmerge⟩ := hmeets
  refine ⟨inner, merge, ?_, hmerge.snoc hedit⟩
  have hgrows := (wellFormed_after_edits edits).growsInto_apply hedit
  have hkept := hgrows.children header
  have hlength := (filled_after_edits hedits).length_le hk
  rw [hchildren] at hkept
  rw [applyAll_snoc] at hlength ⊢
  exact (hkept.eq_of_length_le hlength).symm

theorem meets_snoc (hclosed : header ∉ (applyAll {} (edits ++ [edit])).pending)
    (hbefore : (applyAll {} edits).graph.kind? header = some .conditional →
      header ∉ (applyAll {} edits).pending →
      Meets edits header) : Meets (edits ++ [edit]) header := by
  have h := wellFormed_after_edits edits
  obtain ⟨hearlier, hlast⟩ := List.forall_mem_append.mp hedits
  have hedit := hlast edit List.mem_cons_self
  have hsnoc := applyAll_snoc {} edits edit
  by_cases hclear : edit = .clear
  · subst hclear
    rw [hsnoc] at hk
    obtain rfl : header = 0 := Nat.lt_one_iff.mp (Graph.lt_size_of_kind? hk)
    cases hk
  have hs := (h.step_or_clear hedit).resolve_left hclear
  obtain ⟨hold, hfirst⟩ := hs.header_cases (hsnoc ▸ hk) rfl (hsnoc ▸ hclosed)
  by_cases hm : header ∈ (applyAll {} edits).pending
  · -- the header has been closed just now
    rw [hsnoc] at hclosed
    cases edit with
    | append payload => exact absurd hm hclosed
    | openBlock kind => exact absurd (pending_openBlock _ kind hm) hclosed
    | closeBlock =>
      obtain ⟨outer, hp⟩ := hfirst hm
      obtain ⟨next, inner, hclose, hchildren⟩ :=
        (filled_after_edits hearlier).children_of_close h hp hold
      refine ⟨inner, next.cursor, ?_, edits, [], next, rfl, nofun, by rw [hp]; rfl, hclose, rfl⟩
      rw [hsnoc, apply, hclose]
      exact hchildren
    | graft plan => exact hedit.elim
    | clear => exact absurd rfl hclear
  · exact (hbefore hold hm).snoc hedits hk hclear

end

theorem meets_after_edits {edits : List Edit} (hedits : ∀ edit ∈ edits, edit.IsEntered)
    {header : NodeId} (hk : (applyAll {} edits).graph.kind? header = some .conditional)
    (hclosed : header ∉ (applyAll {} edits).pending) :
    Meets edits header := by
  induction edits using List.reverseRecOn generalizing header with
  | nil =>
    obtain rfl : header = 0 := Nat.lt_one_iff.mp (Graph.lt_size_of_kind? hk)
    cases hk
  | append_singleton edits edit ih =>
    exact meets_snoc hedits hk hclosed (ih (List.forall_mem_append.mp hedits).1)

/-- Whatever is entered, accepted or refused, no node gets more children than it has branches, so
every child stands at a branch by which an execution comes to it. The cursor has no child yet,
unless it stands on the header of a loop that is closed, and then it has one. A conditional that is
closed has two, and the second is the node where its branches meet. -/
theorem branches_suffice_after_edits {edits : List Edit} (hedits : ∀ edit ∈ edits, edit.IsEntered) :
    let b := applyAll {} edits
    (∀ id kind, b.graph.kind? id = some kind → (b.graph.children id).length ≤ kind.branches) ∧
      (∀ id branch child, b.graph.child? id branch = some child →
        ∃ kind face, b.graph.kind? id = some kind ∧ branch = kind.branch face ∧
          b.graph.GoesOn face id child) ∧
      (∃ kind, b.graph.kind? b.cursor = some kind ∧
        (¬ kind.opensBlock ∨ b.cursor ∈ b.pending → b.graph.children b.cursor = []) ∧
        (kind.opensBlock → b.cursor ∉ b.pending →
          (kind = .whileLoop ∨ kind = .doWhileLoop) ∧
            ∃ child, b.graph.children b.cursor = [child])) ∧
      ∀ header, b.graph.kind? header = some .conditional → header ∉ b.pending →
        ∃ inner merge, b.graph.children header = [inner, merge] ∧ IsMerge edits header merge := by
  intro b
  have h : b.WellFormed := wellFormed_after_edits edits
  have hf : b.Filled := filled_after_edits hedits
  refine ⟨fun id kind hk => hf.length_le hk, fun id branch child hchild => ?_, ?_,
    fun header hk hclosed => meets_after_edits hedits hk hclosed⟩
  · obtain ⟨node, hn⟩ :=
      Graph.exists_node (Graph.lt_size_of_mem_children (Graph.mem_children_of_child? hchild))
    have hk : b.graph.kind? id = some node.payload.kind := by simp [Graph.kind?, hn]
    have hlt : branch < (b.graph.children id).length := (List.getElem?_eq_some_iff.mp hchild).1
    obtain ⟨face, hface, hgoes⟩ :=
      Graph.goesOn_of_child? hk (Nat.lt_of_lt_of_le hlt (hf.length_le hk)) hchild
    exact ⟨_, face, hk, hface, hgoes⟩
  · obtain ⟨node, hn⟩ := Graph.exists_node h.cursor_lt
    have hk : b.graph.kind? b.cursor = some node.payload.kind := by simp [Graph.kind?, hn]
    exact ⟨_, hk, hf.children_cursor hk⟩

/-- A conditional around a loop without a body, and after it a loop that is tested last. -/
theorem branches_suffice_nested :
    let edits : List Edit :=
      [.openBlock .conditional, .openBlock .whileLoop, .closeBlock, .closeBlock,
      .openBlock .doWhileLoop, .append (.ofSpeech "hello"), .closeBlock]
    let b := applyAll {} edits
    (∀ edit ∈ edits, edit.IsEntered) ∧
      (b.graph.kind? 5 = some .doWhileLoop ∧ b.cursor = 5 ∧ 5 ∉ b.pending ∧
        ∃ child, b.graph.children 5 = [child]) ∧
      (b.graph.kind? 2 = some .whileLoop ∧ (b.graph.children 2).length ≤ 2 ∧
        b.graph.child? 2 0 = some 2 ∧
        ∃ face, b.graph.GoesOn face 2 2) ∧
      b.graph.kind? 1 = some .conditional ∧ 1 ∉ b.pending ∧
        ∃ inner merge, b.graph.children 1 = [inner, merge] ∧ IsMerge edits 1 merge := by
  intro edits b
  have hedits : ∀ edit ∈ edits, edit.IsEntered := by simp [edits, Edit.IsEntered, Payload.ofSpeech]
  have hpending : b.pending = [] := rfl
  have hcursor : b.cursor = 5 := rfl
  have hnone (id : NodeId) : id ∉ b.pending := by simp [hpending]
  obtain ⟨hlength, hread, ⟨kind, hk, -, hclosed⟩, hmeets⟩ := branches_suffice_after_edits hedits
  obtain rfl : kind = .doWhileLoop := (Option.some.inj hk).symm
  have hchild : b.graph.child? 2 0 = some 2 := rfl
  obtain ⟨-, face, -, -, hgoes⟩ := hread 2 0 2 hchild
  exact ⟨hedits, ⟨rfl, hcursor, hnone 5, hcursor ▸ (hclosed rfl (hnone _)).2⟩,
    ⟨rfl, hlength 2 _ rfl, hchild, face, hgoes⟩, rfl, hnone 1, hmeets 1 rfl (hnone 1)⟩

end Builder
end MotionScript
