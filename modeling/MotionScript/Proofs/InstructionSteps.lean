import MotionScript.Proofs.BuilderInvariant
import MotionScript.Proofs.StructuredProgram

/-!
# What an instruction does

Instructions are the edits that a user enters one by one. Here they are told apart by what they do
to a builder: an instruction that does not fit is refused, and any other one records a statement,
opens a block or closes one. Whatever each of these steps keeps holds of every recording.
-/
namespace MotionScript

/-- What is entered into a builder: a statement, or the begin or the end of a block. -/
inductive Builder.Instruction
  | leaf (l : Leaf)
  | openBlock (kind : NodeKind)
  | closeBlock

def Builder.Instruction.edit : Instruction → Edit
  | .leaf l => .append l.payload
  | .openBlock kind => .openBlock kind
  | .closeBlock => .closeBlock

/-- Edits other than grafts, where only motions and speech are appended: an instruction, or a new
begin. -/
def Builder.Edit.IsEntered : Edit → Prop
  | .append payload => payload.kind = .once ∨ payload.kind = .untilNear ∨ payload.kind = .speech
  | .openBlock _ | .closeBlock | .clear => True
  | .graft _ => False

def Builder.enter (b : Builder) (instructions : List Instruction) : Builder :=
  b.applyAll (instructions.map Instruction.edit)

namespace Builder

def accepts : Builder → List Instruction → Bool
  | _, [] => true
  | b, .closeBlock :: rest => b.closeBlock.isOk && accepts (b.apply .closeBlock) rest
  | b, instruction :: rest => accepts (b.apply instruction.edit) rest

theorem WellFormed.enter {b : Builder} (h : b.WellFormed) (instructions : List Instruction) :
    (b.enter instructions).WellFormed := h.applyAll _

/-- An instruction is refused, or records a statement, or opens a block, or closes the innermost
one. -/
inductive Step (b : Builder) : Builder → Prop
  | refused : Step b b
  | leaf (l : Leaf) : Step b (b.append l.payload)
  | openHeader {kind : NodeKind} : kind = .conditional ∨ kind = .whileLoop →
      Step b { b.append (.header kind) with
        pending := (b.append (.header kind)).cursor :: (b.append (.header kind)).pending }
  | openPair :
      Step b { b.append .placeholder with
        graph := (b.append .placeholder).graph.add (.header .doWhileLoop)
        pending := (b.append .placeholder).graph.nextId :: (b.append .placeholder).cursor ::
          (b.append .placeholder).pending }
  | closeConditional {header : NodeId} {outer : List NodeId} :
      b.pending = header :: outer → b.graph.kind? header = some .conditional →
      Step b {
        graph := ((b.graph.add .placeholder).attach header b.graph.nextId).attach b.cursor
          b.graph.nextId
        cursor := b.graph.nextId
        pending := outer }
  | closeWhile {header : NodeId} {outer : List NodeId} :
      b.pending = header :: outer → b.graph.kind? header = some .whileLoop →
      Step b { graph := b.graph.attach b.cursor header, cursor := header, pending := outer }
  | closeDoWhile {header entry : NodeId} {outer : List NodeId} :
      b.pending = header :: entry :: outer → b.graph.kind? header = some .doWhileLoop →
      b.graph.payload? entry = some .placeholder →
      Step b {
        graph := (b.graph.attach b.cursor header).attach header entry, cursor := header,
        pending := outer }

theorem WellFormed.step {b : Builder} (h : b.WellFormed) (instruction : Instruction) :
    b.Step (b.apply instruction.edit) := by
  cases instruction with
  | leaf l => exact .leaf l
  | openBlock kind =>
    cases kind with
    | conditional => exact .openHeader (.inl rfl)
    | whileLoop => exact .openHeader (.inr rfl)
    | doWhileLoop => exact .openPair
    | root => exact .refused
    | once => exact .refused
    | untilNear => exact .refused
    | speech => exact .refused
  | closeBlock =>
    simp only [Instruction.edit, Builder.apply, Builder.closeBlock]
    have hblocks := h.blocks
    cases hp : b.pending with
    | nil => exact .refused
    | cons header outer =>
      rw [hp] at hblocks
      cases hblocks with
      | single hk =>
        rcases hk with hk | hk <;> simp only [hk]
        · exact .closeConditional hp hk
        · exact .closeWhile hp hk
      | pair hk he =>
        simp only [hk]
        exact .closeDoWhile hp hk he

/-- An edit appends a node, is a step, grafts a plan that is accepted, or begins anew. -/
theorem WellFormed.apply_cases {b : Builder} (h : b.WellFormed) {motive : Builder → Prop}
    {edit : Edit} (append : ∀ payload, edit = .append payload → motive (b.append payload))
    (step : ∀ b', b.Step b' → motive b')
    (graft : ∀ plan, edit = .graft plan → plan.Valid → motive { b with
      graph := b.graph.withPlan b.cursor plan
      cursor := (b.graph.withPlan b.cursor plan).tail b.graph.size })
    (clear : motive {}) : motive (b.apply edit) := by
  cases edit with
  | append payload => exact append payload rfl
  | openBlock kind => exact step _ (h.step (.openBlock kind))
  | closeBlock => exact step _ (h.step .closeBlock)
  | graft plan =>
    cases hv : plan.validate with
    | error failure => simpa [Builder.apply, graft_of_fault hv, settle] using step b .refused
    | ok u =>
      simpa [Builder.apply, graft_of_validate hv, settle]
        using graft plan rfl (Plan.valid_of_validate hv)
  | clear => exact clear

/-- What holds of a fresh builder and is kept by every step holds of every recording. -/
theorem enter_induction {motive : Builder → Prop} (empty : motive {})
    (step : ∀ b b' : Builder, b.WellFormed → b.Step b' → motive b → motive b')
    (instructions : List Instruction) :
    motive (enter {} instructions) := by
  have hall (b : Builder) (h : b.WellFormed) (hb : motive b) : motive (b.enter instructions) := by
    induction instructions generalizing b with
    | nil => exact hb
    | cons instruction rest ih => exact ih _ (h.apply _) (step _ _ h (h.step instruction) hb)
  exact hall {} wellFormed_empty empty

theorem WellFormed.step_or_clear {b : Builder} (h : b.WellFormed) {edit : Edit}
    (hedit : edit.IsEntered) :
    edit = .clear ∨ b.Step (b.apply edit) := by
  cases edit with
  | append payload => exact .inr (.leaf ⟨payload, hedit⟩)
  | openBlock kind => exact .inr (h.step (.openBlock kind))
  | closeBlock => exact .inr (h.step .closeBlock)
  | graft plan => exact hedit.elim
  | clear => exact .inl rfl

/-- What holds of a fresh builder and is kept by every step holds after instructions and new
begins. -/
theorem entered_induction {motive : Builder → Prop} {edits : List Edit}
    (hedits : ∀ edit ∈ edits, edit.IsEntered) (empty : motive {})
    (step : ∀ b b' : Builder, b.WellFormed → b.Step b' → motive b → motive b') :
    motive (applyAll {} edits) := by
  refine edits_induction empty fun b h hb edit hm => ?_
  rcases h.step_or_clear (hedits edit hm) with rfl | hs
  · exact empty
  · exact step b _ h hs hb

end Builder

/-! ## Only the root is a root -/

def Graph.OneRoot (g : Graph) : Prop := ∀ id, g.kind? id = some .root → id = root

namespace Graph.OneRoot

variable {g : Graph}

theorem add (h : g.OneRoot) {p : Payload} (hp : p.kind ≠ .root) : (g.add p).OneRoot := by
  intro id hk
  rw [kind?_add] at hk
  split at hk
  · exact absurd (Option.some.inj hk) hp
  · exact h id hk

theorem attach (h : g.OneRoot) (parent child : NodeId) : (g.attach parent child).OneRoot :=
  fun id hk => h id (by rwa [kind?_attach] at hk)

theorem withPlan (h : g.OneRoot) (parent : NodeId) {plan : Plan} (hv : plan.Valid) :
    (g.withPlan parent plan).OneRoot := by
  intro id hk
  rw [kind?_eq] at hk
  obtain ⟨p, hp, hkind⟩ := Option.map_eq_some_iff.mp hk
  rcases lt_or_exists_of_lt_size_withPlan (lt_size_of_payload? hp) with hlt | ⟨index, node, hn, rfl⟩
  · rw [payload?_withPlan_of_lt parent plan hlt] at hp
    exact h id (by rw [kind?_of_payload? hp, hkind])
  · rw [payload?, node?_withPlan_add, hn] at hp
    cases hp
    exact absurd hkind (hv.kind_ne_root node (List.mem_of_getElem? hn))

end Graph.OneRoot

namespace Builder

theorem oneRoot_step {b b' : Builder} (hone : b.graph.OneRoot)
    (hs : b.Step b') : b'.graph.OneRoot := by
  have happend {p : Payload} (hp : p.kind ≠ .root) : (b.append p).graph.OneRoot :=
    (hone.add hp).attach _ _
  cases hs with
  | refused => exact hone
  | leaf l => exact happend (by rcases l.kind_mem with hk | hk | hk <;> simp [hk])
  | openHeader hk => exact happend (by rcases hk with rfl | rfl <;> decide)
  | openPair => exact (happend (by decide)).add (by decide)
  | closeConditional => exact ((hone.add (by decide)).attach _ _).attach _ _
  | closeWhile => exact hone.attach _ _
  | closeDoWhile => exact (hone.attach _ _).attach _ _

theorem oneRoot_enter (instructions : List Instruction) : (enter {} instructions).graph.OneRoot :=
  enter_induction (fun _ hk => Nat.lt_one_iff.mp (Graph.lt_size_of_kind? hk))
    (fun _ _ _ hs hone => oneRoot_step hone hs)
    instructions

/-- If nothing that is appended claims to be a root, then nothing recorded does. -/
theorem oneRoot_after_edits {edits : List Edit}
    (hkinds : ∀ payload, Edit.append payload ∈ edits → payload.kind ≠ .root) :
    (applyAll {} edits).graph.OneRoot := by
  refine edits_induction (oneRoot_enter []) fun b h hone edit hm =>
    h.apply_cases (motive := (·.graph.OneRoot))
    (fun payload he => ?append) (fun b' hs => oneRoot_step hone hs)
      (fun plan _ hv => hone.withPlan b.cursor hv)
    (oneRoot_enter [])
  case append => exact (hone.add (hkinds payload (he ▸ hm))).attach _ _

end Builder
end MotionScript
