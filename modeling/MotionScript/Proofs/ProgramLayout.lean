import MotionScript.Proofs.BuilderInvariant
import MotionScript.Proofs.StructuredProgram

/-!
# Where a program lies in a graph

A walk looks up its next node at a point, which is a branch of a node. A program lies between two
points of a graph when the nodes in between are those that its statements call for, with the edges
that its blocks call for; this is said without a builder. A builder that records a program lays it
between the points at which it stands before and after.
-/
namespace MotionScript

abbrev Point := NodeId × Nat

namespace Graph

def at? (g : Graph) (pt : Point) : Option NodeId := g.child? pt.1 pt.2

/-- A program lies between two points. The edges at the first point and inside are in place, and
what follows the program is what follows the last point. -/
inductive Lays (g : Graph) : Program → Point → Point → Prop
  | done {pt : Point} : Lays g .done pt pt
  | leaf {l : Leaf} {rest : Program} {pt last : Point} {id : NodeId} :
      g.at? pt = some id → g.payload? id = some l.payload → Lays g rest (id, 0) last →
      Lays g (.leaf l rest) pt last
  | whileLoop {body rest : Program} {pt inner last : Point} {header : NodeId} :
      g.at? pt = some header → g.payload? header = some (.header .whileLoop) →
      Lays g body (header, 0) inner → g.at? inner = some header → Lays g rest (header, 1) last →
      Lays g (.block .whileLoop body rest) pt last
  | doWhileLoop {body rest : Program} {pt inner last : Point} {entry header : NodeId} :
      g.at? pt = some entry → g.payload? entry = some .placeholder → Lays g body (entry, 0) inner →
      g.at? inner = some header → g.payload? header = some (.header .doWhileLoop) →
      g.at? (header, 0) = some entry → Lays g rest (header, 1) last →
      Lays g (.block .doWhileLoop body rest) pt last
  | conditional {body rest : Program} {pt inner last : Point} {header merge : NodeId} :
      g.at? pt = some header → g.payload? header = some (.header .conditional) →
      Lays g body (header, 0) inner → g.at? inner = some merge → g.at? (header, 1) = some merge →
      g.payload? merge = some .placeholder → Lays g rest (merge, 0) last →
      Lays g (.block .conditional body rest) pt last

/-- The payloads and edges of a graph are there in another. -/
structure Extends (g g' : Graph) : Prop where
  payload : ∀ id p, g.payload? id = some p → g'.payload? id = some p
  edge : ∀ pt id, g.at? pt = some id → g'.at? pt = some id

variable {g g' g'' : Graph}

namespace Extends

theorem refl (g : Graph) : g.Extends g := ⟨fun _ _ h => h, fun _ _ h => h⟩

theorem trans (h : g.Extends g') (h' : g'.Extends g'') : g.Extends g'' :=
  ⟨fun id p hp => h'.payload id p (h.payload id p hp),
    fun pt id he => h'.edge pt id (h.edge pt id he)⟩

theorem add (g : Graph) (p : Payload) : g.Extends (g.add p) where
  payload id q h := by rw [payload?_add, if_neg (Nat.ne_of_lt (lt_size_of_payload? h)), h]
  edge pt id h := by simpa [at?, child?] using h

theorem attach (g : Graph) {parent : NodeId} (child : NodeId) (hp : parent < g.size) :
    g.Extends (g.attach parent child) where
  payload id q h := by simpa using h
  edge pt id h := by
    have hlt := (List.getElem?_eq_some_iff.mp h).1
    simp only [at?, child?, g.children_attach child pt.1 hp]
    split
    next he =>
      rw [he] at hlt
      rw [List.getElem?_append_left hlt, ← he]
      exact h
    next => exact h

end Extends

theorem Lays.mono {p : Program} {pt last : Point} (h : g.Lays p pt last)
    (he : g.Extends g') : g'.Lays p pt last := by
  induction h with
  | done => exact .done
  | leaf hat hp _ ih => exact .leaf (he.edge _ _ hat) (he.payload _ _ hp) ih
  | whileLoop hat hp _ hback _ ihb ihr =>
    exact .whileLoop (he.edge _ _ hat) (he.payload _ _ hp) ihb (he.edge _ _ hback) ihr
  | doWhileLoop hat hp _ hend hh hback _ ihb ihr =>
    exact .doWhileLoop (he.edge _ _ hat) (he.payload _ _ hp) ihb (he.edge _ _ hend)
      (he.payload _ _ hh)
      (he.edge _ _ hback) ihr
  | conditional hat hp _ hend hskip hm _ ihb ihr =>
    exact .conditional (he.edge _ _ hat) (he.payload _ _ hp) ihb (he.edge _ _ hend)
      (he.edge _ _ hskip)
      (he.payload _ _ hm) ihr

theorem at?_attach_last (g : Graph) {parent : NodeId} (child : NodeId) (hp : parent < g.size) :
    (g.attach parent child).at? (parent, (g.children parent).length) = some child := by
  simp [at?, child?, g.children_attach child parent hp]

end Graph

namespace Builder

def point (b : Builder) : Point := (b.cursor, (b.graph.children b.cursor).length)

/-- What the recording of statements does to what was there before: nothing is lost, and no edge is
added but one at the cursor, which then is left for a new node. -/
structure Grows (b b' : Builder) : Prop where
  size_le : b.graph.size ≤ b'.graph.size
  keeps : b.graph.Extends b'.graph
  children_eq : ∀ id < b.graph.size, id ≠ b.cursor → b'.graph.children id = b.graph.children id
  cursor : (b'.cursor = b.cursor ∧ b'.graph.children b.cursor = b.graph.children b.cursor) ∨
    (b.graph.size ≤ b'.cursor ∧
      ∃ id, b'.graph.children b.cursor = b.graph.children b.cursor ++ [id])

/-- A program was recorded: it lies where the builder has been. -/
structure Recorded (b : Builder) (p : Program) (b' : Builder) : Prop where
  wellFormed : b'.WellFormed
  pending : b'.pending = b.pending
  grows : Grows b b'
  lays : b'.graph.Lays p b.point b'.point

/-- A block was recorded: whatever lies after it makes the block complete. -/
structure Closed (b : Builder) (kind : BlockKind) (body : Program) (b' : Builder) : Prop where
  wellFormed : b'.WellFormed
  pending : b'.pending = b.pending
  grows : Grows b b'
  lays : ∀ g rest last, b'.graph.Extends g → g.Lays rest b'.point last →
    g.Lays (.block kind body rest) b.point last

variable {b b' b'' : Builder}

namespace Grows

theorem refl (b : Builder) : Grows b b :=
  ⟨Nat.le_refl _, .refl _, fun _ _ _ => rfl, .inl ⟨rfl, rfl⟩⟩

theorem trans (hcur : b.cursor < b.graph.size) (h : Grows b b')
    (h' : Grows b' b'') : Grows b b'' where
  size_le := Nat.le_trans h.size_le h'.size_le
  keeps := h.keeps.trans h'.keeps
  children_eq id hid hne := by
    rw [← h.children_eq id hid hne]
    refine h'.children_eq id (Nat.lt_of_lt_of_le hid h.size_le) ?_
    rintro rfl
    rcases h.cursor with ⟨he, -⟩ | ⟨hge, -⟩
    · exact hne he
    · exact Nat.not_lt_of_le hge hid
  cursor := by
    rcases h.cursor with ⟨he, hch⟩ | ⟨hge, id, hch⟩
    · rw [← hch, ← he]
      exact h'.cursor.imp id fun ⟨hge, hch'⟩ => ⟨Nat.le_trans h.size_le hge, hch'⟩
    · have hsame : b''.graph.children b.cursor = b'.graph.children b.cursor :=
        h'.children_eq _ (Nat.lt_of_lt_of_le hcur h.size_le)
          (Nat.ne_of_lt (Nat.lt_of_lt_of_le hcur hge))
      refine .inr ⟨?_, id, hsame.trans hch⟩
      rcases h'.cursor with ⟨he', -⟩ | ⟨hge', -⟩
      · exact he' ▸ hge
      · exact Nat.le_trans h.size_le hge'

/-- A cursor that stands beyond some nodes does not come back to them. -/
theorem beyond (h : Grows b b') {bound : Nat} (hcur : bound ≤ b.cursor)
    (hsize : bound ≤ b.graph.size) :
    bound ≤ b'.cursor := by
  rcases h.cursor with ⟨he, -⟩ | ⟨hge, -⟩
  · exact he ▸ hcur
  · exact Nat.le_trans hsize hge

/-- What a block does when it is closed stays inside the block. -/
theorem close (h : Grows b b') (hcur : b.cursor < b.graph.size) (hbeyond : b.graph.size ≤ b'.cursor)
    (hkeeps : b'.graph.Extends b''.graph) (hsize : b'.graph.size ≤ b''.graph.size)
    (hchildren : ∀ id < b.graph.size, b''.graph.children id = b'.graph.children id)
    (hcur' : b.graph.size ≤ b''.cursor) : Grows b b'' where
  size_le := Nat.le_trans h.size_le hsize
  keeps := h.keeps.trans hkeeps
  children_eq id hid hne := (hchildren id hid).trans (h.children_eq id hid hne)
  cursor := by
    rcases h.cursor with ⟨he, -⟩ | ⟨-, id, hch⟩
    · exact absurd (he ▸ hbeyond) (Nat.not_le_of_lt hcur)
    · exact .inr ⟨hcur', id, (hchildren _ hcur).trans hch⟩

end Grows

/-- A node was put at the cursor, which now stands on it. -/
structure Entered (b : Builder) (p : Payload) (b' : Builder) : Prop where
  grows : Grows b b'
  cursor : b'.cursor = b.graph.size
  unused : b'.graph.children b.graph.size = []
  edge : b'.graph.at? b.point = some b.graph.size
  payload : b'.graph.payload? b.graph.size = some p

theorem Entered.point (h : Entered b p b') :
    b'.point = (b.graph.size, 0) := by simp [Builder.point, h.cursor, h.unused]

theorem entered_append (h : b.WellFormed) (p : Payload) : Entered b p (b.append p) := by
  have hch := children_append h.cursor_lt p
  have hlt : b.cursor < (b.graph.add p).size := Graph.lt_size_add h.cursor_lt p
  have hedge := (b.graph.add p).at?_attach_last b.graph.size hlt
  rw [Graph.children_add] at hedge
  refine ⟨⟨by simp, (Graph.Extends.add ..).trans (.attach _ _ hlt), fun id _ hne => ?_,
    .inr ⟨?_, b.graph.size, ?_⟩⟩, rfl, ?_, hedge, ?_⟩
  · rw [hch, if_neg hne]
  · exact Nat.le_refl _
  · rw [hch, if_pos rfl]
  · rw [hch, if_neg (Nat.ne_of_gt h.cursor_lt)]
    exact b.graph.children_eq_nil (Nat.le_refl _)
  · rw [payload?_append, if_pos rfl]

/-- The block of a header that is attached at once is entered. -/
theorem Entered.congr (h : Entered b p b') {pending : List NodeId} :
    Entered b p { b' with pending := pending } :=
  ⟨⟨h.grows.size_le, h.grows.keeps, h.grows.children_eq, h.grows.cursor⟩, h.cursor, h.unused,
    h.edge, h.payload⟩

/-- A header that waits apart changes nothing at the cursor. -/
theorem Entered.add (h : Entered b p b') (q : Payload) {pending : List NodeId} :
    Entered b p { b' with graph := b'.graph.add q, pending := pending } := by
  have hadd := Graph.Extends.add b'.graph q
  refine ⟨⟨?_, h.grows.keeps.trans hadd, fun id hid hne => ?_, ?_⟩, h.cursor, ?_,
    hadd.edge _ _ h.edge, hadd.payload _ _ h.payload⟩
  · rw [Graph.size_add]
    exact Nat.le_succ_of_le h.grows.size_le
  · rw [Graph.children_add, h.grows.children_eq id hid hne]
  · simpa using h.grows.cursor
  · rw [Graph.children_add, h.unused]

/-- After the body of a block that was entered, the builder still stands inside the block, and the
entry of the block has at most the one edge into the body. -/
theorem Entered.after_body (h : Entered b p b') {body : Program} (hr : Recorded b' body b'') :
    b.graph.size ≤ b''.cursor ∧
      ((b''.cursor = b.graph.size ∧ b''.graph.children b.graph.size = []) ∨
        (b''.cursor ≠ b.graph.size ∧ ∃ id, b''.graph.children b.graph.size = [id])) := by
  have hlt : b.graph.size < b'.graph.size := Graph.lt_size_of_payload? h.payload
  refine ⟨hr.grows.beyond (Nat.le_of_eq h.cursor.symm) (Nat.le_of_lt hlt), ?_⟩
  have hcur := hr.grows.cursor
  rw [h.cursor, h.unused] at hcur
  exact hcur.imp id fun ⟨hge, hone⟩ => ⟨Nat.ne_of_gt (Nat.lt_of_lt_of_le hlt hge), hone⟩

theorem Closed.whileLoop (h : b.WellFormed) (he : Entered b (.header .whileLoop) b')
    {body : Program} (hp : b'.pending = b.graph.size :: b.pending) (hr : Recorded b' body b'') :
    ∃ closed, b''.closeBlock = .ok (.whileLoop, closed) ∧ Closed b .whileLoop body closed := by
  obtain ⟨hbeyond, hbody⟩ := he.after_body hr
  have hpayload := hr.grows.keeps.payload _ _ he.payload
  have hkind : b''.graph.kind? b.graph.size = some .whileLoop := Graph.kind?_of_payload? hpayload
  have hclose : b''.closeBlock = .ok (.whileLoop,
      { graph := b''.graph.attach b''.cursor b.graph.size, cursor := b.graph.size,
        pending := b.pending }) := by
    simp [closeBlock, hr.pending, hp, hkind]
  have hcur := hr.wellFormed.cursor_lt
  have hext := Graph.Extends.attach b''.graph b.graph.size hcur
  have hpoint : ((b''.graph.attach b''.cursor b.graph.size).children b.graph.size).length = 1 := by
    rw [Graph.children_attach _ _ _ hcur]
    rcases hbody with ⟨hc, hnone⟩ | ⟨hc, id, hone⟩
    · rw [if_pos hc.symm, hc, hnone]
      rfl
    · rw [if_neg (Ne.symm hc), hone]
      rfl
  refine ⟨_, hclose, hr.wellFormed.closeBlock hclose, rfl, ?_, fun g rest last hg hrest => ?_⟩
  · refine (he.grows.trans h.cursor_lt hr.grows).close h.cursor_lt hbeyond hext (by simp)
      (fun id hid => ?_) (Nat.le_refl _)
    rw [Graph.children_attach _ _ _ hcur, if_neg (Nat.ne_of_lt (Nat.lt_of_lt_of_le hid hbeyond))]
  · have hall := hext.trans hg
    rw [point, hpoint] at hrest
    exact .whileLoop (hall.edge _ _ (hr.grows.keeps.edge _ _ he.edge)) (hall.payload _ _ hpayload)
      (he.point ▸ hr.lays.mono hall) (hg.edge _ _ (b''.graph.at?_attach_last _ hcur)) hrest

theorem Closed.doWhileLoop (h : b.WellFormed) (he : Entered b .placeholder b') {body : Program}
    {header : NodeId} (hheader : b'.graph.payload? header = some (.header .doWhileLoop))
    (hgt : b.graph.size < header) (hunused : b'.graph.children header = [])
    (hp : b'.pending = header :: b.graph.size :: b.pending) (hr : Recorded b' body b'') :
    ∃ closed, b''.closeBlock = .ok (.doWhileLoop, closed) ∧ Closed b .doWhileLoop body closed := by
  obtain ⟨hbeyond, -⟩ := he.after_body hr
  have hne : header ≠ b'.cursor := he.cursor ▸ Nat.ne_of_gt hgt
  have hlt' := Graph.lt_size_of_payload? hheader
  have hpayload := hr.grows.keeps.payload _ _ hheader
  have hlt := Graph.lt_size_of_payload? hpayload
  have hunused' : b''.graph.children header = [] :=
    (hr.grows.children_eq header hlt' hne).trans hunused
  have hcurne : header ≠ b''.cursor := by
    rcases hr.grows.cursor with ⟨hc, -⟩ | ⟨hge, -⟩
    · exact hc ▸ hne
    · exact Nat.ne_of_lt (Nat.lt_of_lt_of_le hlt' hge)
  have hkind : b''.graph.kind? header = some .doWhileLoop := Graph.kind?_of_payload? hpayload
  have hclose : b''.closeBlock = .ok (.doWhileLoop,
      { graph := (b''.graph.attach b''.cursor header).attach header b.graph.size
        cursor := header, pending := b.pending }) := by
    simp [closeBlock, hr.pending, hp, hkind]
  have hcur := hr.wellFormed.cursor_lt
  have hext := Graph.Extends.attach b''.graph header hcur
  have hlast : header < (b''.graph.attach b''.cursor header).size := by simpa using hlt
  have hext' := Graph.Extends.attach (b''.graph.attach b''.cursor header) b.graph.size hlast
  have hnone : (b''.graph.attach b''.cursor header).children header = [] := by
    rw [Graph.children_attach _ _ _ hcur, if_neg hcurne, hunused']
  have hback := (b''.graph.attach b''.cursor header).at?_attach_last b.graph.size hlast
  rw [hnone] at hback
  refine ⟨_, hclose, hr.wellFormed.closeBlock hclose, rfl, ?_, fun g rest last hg hrest => ?_⟩
  · refine (he.grows.trans h.cursor_lt hr.grows).close h.cursor_lt hbeyond
      (hext.trans hext') (by simp)
      (fun id hid => ?_) (Nat.le_of_lt hgt)
    rw [Graph.children_attach _ _ _ hlast, if_neg (Nat.ne_of_lt (Nat.lt_trans hid hgt)),
      Graph.children_attach _ _ _ hcur, if_neg (Nat.ne_of_lt (Nat.lt_of_lt_of_le hid hbeyond))]
  · have hall := (hext.trans hext').trans hg
    have hpoint : point {
        graph := (b''.graph.attach b''.cursor header).attach header b.graph.size
        cursor := header
        pending := b.pending } = (header, 1) := by
      simp only [point, Graph.children_attach _ _ _ hlast, if_true, hnone]
      rfl
    rw [hpoint] at hrest
    exact .doWhileLoop (hall.edge _ _ (hr.grows.keeps.edge _ _ he.edge))
      (hall.payload _ _ (hr.grows.keeps.payload _ _ he.payload)) (he.point ▸ hr.lays.mono hall)
      ((hext'.trans hg).edge _ _ (b''.graph.at?_attach_last _ hcur)) (hall.payload _ _ hpayload)
      (hg.edge _ _ hback) hrest

theorem Closed.conditional (h : b.WellFormed) (he : Entered b (.header .conditional) b')
    {body : Program} (hp : b'.pending = b.graph.size :: b.pending) (hr : Recorded b' body b'') :
    ∃ closed, b''.closeBlock = .ok (.conditional, closed) ∧ Closed b .conditional body closed := by
  obtain ⟨hbeyond, hbody⟩ := he.after_body hr
  have hpayload := hr.grows.keeps.payload _ _ he.payload
  have hkind : b''.graph.kind? b.graph.size = some .conditional := Graph.kind?_of_payload? hpayload
  have hclose : b''.closeBlock = .ok (.conditional, {
      graph := ((b''.graph.add .placeholder).attach b.graph.size b''.graph.size).attach b''.cursor
        b''.graph.size
      cursor := b''.graph.size
      pending := b.pending }) := by
    simp [closeBlock, hr.pending, hp, hkind, Graph.nextId]
  have hheader := Graph.lt_size_add (Graph.lt_size_of_payload? hpayload) .placeholder
  have hcur : b''.cursor <
      ((b''.graph.add .placeholder).attach b.graph.size b''.graph.size).size := by
    rw [Graph.size_attach]
    exact Graph.lt_size_add hr.wellFormed.cursor_lt _
  have hadd := Graph.Extends.add b''.graph .placeholder
  have hext := Graph.Extends.attach (b''.graph.add .placeholder) b''.graph.size hheader
  have hext' := Graph.Extends.attach
    ((b''.graph.add .placeholder).attach b.graph.size b''.graph.size) b''.graph.size hcur
  have hmerge : (b''.graph.add .placeholder).payload? b''.graph.size = some .placeholder := by
    rw [Graph.payload?_add, if_pos rfl]
  have hskip := (b''.graph.add .placeholder).at?_attach_last b''.graph.size hheader
  have hend := ((b''.graph.add .placeholder).attach b.graph.size b''.graph.size).at?_attach_last
    b''.graph.size hcur
  rw [Graph.children_add] at hskip
  rw [Graph.children_attach _ _ _ hheader, Graph.children_add, Graph.children_add] at hend
  -- an empty body leaves both edges of the header to the merge, which then are made one after the
  -- other
  have hedges : (((b''.graph.add .placeholder).attach b.graph.size b''.graph.size).attach b''.cursor
        b''.graph.size).at? b''.point = some b''.graph.size ∧
      (((b''.graph.add .placeholder).attach b.graph.size b''.graph.size).attach b''.cursor
        b''.graph.size).at?
        (b.graph.size, 1) = some b''.graph.size := by
    rcases hbody with ⟨hc, hnone⟩ | ⟨hc, id, hone⟩
    · rw [hnone] at hskip
      rw [if_pos hc, hnone, hc] at hend
      have hpoint : b''.point = (b.graph.size, 0) := by simp [point, hc, hnone]
      rw [hpoint]
      exact ⟨hext'.edge _ _ hskip, by simpa [hc] using hend⟩
    · rw [hone] at hskip
      rw [if_neg hc] at hend
      exact ⟨hend, hext'.edge _ _ hskip⟩
  refine ⟨_, hclose, hr.wellFormed.closeBlock hclose, rfl, ?_, fun g rest last hg hrest => ?_⟩
  · refine (he.grows.trans h.cursor_lt hr.grows).close h.cursor_lt hbeyond
      ((hadd.trans hext).trans hext') (by simp)
      (fun id hid => ?_) (Nat.le_of_lt (Graph.lt_size_of_payload? hpayload))
    rw [Graph.children_attach _ _ _ hcur, if_neg (Nat.ne_of_lt (Nat.lt_of_lt_of_le hid hbeyond)),
      Graph.children_attach _ _ _ hheader, if_neg (Nat.ne_of_lt hid), Graph.children_add]
  · have hall := ((hadd.trans hext).trans hext').trans hg
    have hpoint : point {
        graph := ((b''.graph.add .placeholder).attach b.graph.size b''.graph.size).attach b''.cursor
          b''.graph.size
        cursor := b''.graph.size
        pending := b.pending } = (b''.graph.size, 0) := by
      rw [point, Graph.children_attach _ _ _ hcur, if_neg (Nat.ne_of_gt hr.wellFormed.cursor_lt),
        Graph.children_attach _ _ _ hheader,
        if_neg (Nat.ne_of_gt (Graph.lt_size_of_payload? hpayload)), Graph.children_add,
        b''.graph.children_eq_nil (Nat.le_refl _)]
      rfl
    rw [hpoint] at hrest
    exact .conditional (hall.edge _ _ (hr.grows.keeps.edge _ _ he.edge)) (hall.payload _ _ hpayload)
      (he.point ▸ hr.lays.mono hall) (hg.edge _ _ hedges.1) (hg.edge _ _ hedges.2)
      (((hext.trans hext').trans hg).payload _ _ hmerge) hrest

/-- A program can be recorded wherever a builder stands, and then lies where the builder has
been. -/
theorem recorded (p : Program) (b : Builder) (h : b.WellFormed) :
    ∃ b', p.record b = .ok b' ∧ Recorded b p b' := by
  induction p generalizing b with
  | done => exact ⟨b, rfl, h, rfl, .refl b, .done⟩
  | leaf l rest ih =>
    have he := entered_append h l.payload
    obtain ⟨b', hrec, hr⟩ := ih _ (h.append l.payload)
    refine ⟨b', hrec, hr.wellFormed, hr.pending, he.grows.trans h.cursor_lt hr.grows, ?_⟩
    exact .leaf (hr.grows.keeps.edge _ _ he.edge) (hr.grows.keeps.payload _ _ he.payload)
      (he.point ▸ hr.lays)
  | block kind body rest ihb ihr =>
    obtain ⟨id, opened, inside, closed, hopen, hbody, hclose, hc⟩ : ∃ id opened inside closed,
        b.openBlock kind.header = .ok (id, opened) ∧ body.record opened = .ok inside ∧
        inside.closeBlock = .ok (kind.header, closed) ∧ Closed b kind body closed := by
      cases kind with
      | whileLoop =>
        obtain ⟨inside, hbody, hr⟩ := ihb _ (h.push_header (.inr rfl))
        obtain ⟨closed, hclose, hc⟩ := Closed.whileLoop h (entered_append h _).congr rfl hr
        exact ⟨_, _, inside, closed, rfl, hbody, hclose, hc⟩
      | doWhileLoop =>
        obtain ⟨inside, hbody, hr⟩ := ihb _ h.push_pair
        have hlt : b.graph.size < (b.append .placeholder).graph.size := by simp
        obtain ⟨closed, hclose, hc⟩ :=
          Closed.doWhileLoop h ((entered_append h _).add (.header .doWhileLoop))
          (by rw [Graph.payload?_add, if_pos rfl]) hlt
          (by rw [Graph.children_add, Graph.children_eq_nil _ (Nat.le_refl _)]) rfl hr
        exact ⟨_, _, inside, closed, rfl, hbody, hclose, hc⟩
      | conditional =>
        obtain ⟨inside, hbody, hr⟩ := ihb _ (h.push_header (.inl rfl))
        obtain ⟨closed, hclose, hc⟩ := Closed.conditional h (entered_append h _).congr rfl hr
        exact ⟨_, _, inside, closed, rfl, hbody, hclose, hc⟩
    obtain ⟨b', hrest, hr⟩ := ihr closed hc.wellFormed
    refine ⟨b', ?_, hr.wellFormed, hr.pending.trans hc.pending, hc.grows.trans h.cursor_lt hr.grows,
      hc.lays _ _ _ hr.grows.keeps hr.lays⟩
    simpa only [Program.record, bind, Except.bind, hopen, hbody, hclose] using hrest

end Builder
end MotionScript
