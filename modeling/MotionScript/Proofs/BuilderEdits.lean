import MotionScript.Builder
import MotionScript.Proofs.GraphEdits

/-!
# Edits of a builder

Everything that can be asked of a builder is an edit, and an edit that is refused leaves the builder
as it is. The states of a builder are those that a list of edits leads to from the empty one.
-/
namespace MotionScript

inductive Builder.Edit
  | append (payload : Payload)
  | openBlock (kind : NodeKind)
  | closeBlock
  | graft (plan : Plan)
  | clear

namespace Builder

def settle {α : Type} (b : Builder) : Except Failure (α × Builder) → Builder
  | .ok (_, next) => next
  | .error _ => b

def apply (b : Builder) : Edit → Builder
  | .append payload => b.append payload
  | .openBlock kind => b.settle (b.openBlock kind)
  | .closeBlock => b.settle b.closeBlock
  | .graft plan => b.settle (b.graft plan)
  | .clear => b.clear

def applyAll (b : Builder) (edits : List Edit) : Builder := edits.foldl apply b

theorem applyAll_snoc (b : Builder) (edits : List Edit) (edit : Edit) :
    b.applyAll (edits ++ [edit]) = (b.applyAll edits).apply edit := by
  simp [applyAll]

theorem applyAll_induction {motive : Builder → Prop}
    (step : ∀ b edit, motive b → motive (b.apply edit)) {b : Builder} (h : motive b)
    (edits : List Edit) : motive (b.applyAll edits) := by
  induction edits generalizing b with
  | nil => exact h
  | cons edit edits ih => exact ih (step b edit h)

/-! ## What an instruction adds -/

@[simp] theorem size_append (b : Builder) (p : Payload) :
    (b.append p).graph.size = b.graph.size + 1 := by
  simp [append]

@[simp] theorem cursor_append (b : Builder) (p : Payload) : (b.append p).cursor = b.graph.size :=
  rfl

theorem payload?_append (b : Builder) (p : Payload) (id : NodeId) :
    (b.append p).graph.payload? id = if id = b.graph.size then some p else b.graph.payload? id := by
  simp [append, Graph.nextId, Graph.payload?_add]

theorem kind?_append (b : Builder) (p : Payload) {id : NodeId} (hid : id < b.graph.size) :
    (b.append p).graph.kind? id = b.graph.kind? id := by
  rw [Graph.kind?_eq, payload?_append, if_neg (Nat.ne_of_lt hid), ← Graph.kind?_eq]

theorem kind?_append_new (b : Builder) (p : Payload) :
    (b.append p).graph.kind? b.graph.size = some p.kind :=
  Graph.kind?_of_payload? ((b.payload?_append p _).trans (if_pos rfl))

theorem kind?_append_cases {b : Builder} {p : Payload} {id : NodeId} {kind : NodeKind}
    (hk : (b.append p).graph.kind? id = some kind) :
    b.graph.kind? id = some kind ∨ id = b.graph.size ∧ p.kind = kind := by
  by_cases hid : id = b.graph.size
  · subst hid
    exact .inr ⟨rfl, Option.some.inj ((b.kind?_append_new p).symm.trans hk)⟩
  · rw [Graph.kind?_eq, payload?_append, if_neg hid, ← Graph.kind?_eq] at hk
    exact .inl hk

theorem children_append {b : Builder} (hcur : b.cursor < b.graph.size) (p : Payload) (id : NodeId) :
    (b.append p).graph.children id =
      if id = b.cursor then b.graph.children b.cursor ++ [b.graph.size]
        else b.graph.children id := by
  simp [append, Graph.nextId, Graph.children_attach _ _ _ (Graph.lt_size_add hcur p)]

theorem owner?_append {b : Builder} (hroot : Graph.root < b.graph.size) (p : Payload)
    (id : NodeId) :
    (b.append p).graph.owner? id = if id = b.graph.size then some b.cursor
      else b.graph.owner? id := by
  simp [append, Graph.nextId,
    Graph.owner?_attach _ _ _ (b.graph.size_lt_add p) (Nat.ne_of_gt hroot), b.graph.owner?_size]

end Builder
end MotionScript
