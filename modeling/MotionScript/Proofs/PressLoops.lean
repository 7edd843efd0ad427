import MotionScript.Proofs.BranchLoops

/-!
# Loops of presses

A press of the gripper is the only visit that writes a frame and does not rest, so a walk is without
rests only as long as it goes from press to press. A recording never leads from presses back to
them: whatever closes a loop in it goes through a header, and a conditional ends in a placeholder. A
plan that was made otherwise can contain such a loop, and keeps it where it is grafted.
-/
namespace MotionScript

def Payload.IsPress (p : Payload) : Prop := p.kind = .once ∧ p.motion = some .gripper

instance : DecidablePred Payload.IsPress :=
  fun p => inferInstanceAs (Decidable (p.kind = .once ∧ p.motion = some .gripper))

def Graph.PressLeads (g : Graph) (id next : NodeId) : Prop :=
  (∃ p, g.payload? id = some p ∧ p.IsPress) ∧ g.child? id 0 = some next

def Graph.PressLoop (g : Graph) (id : NodeId) : Prop := Relation.TransGen g.PressLeads id id

def Graph.PressFree (g : Graph) : Prop := ∀ id, ¬ g.PressLoop id

def Plan.PressLeads (plan : Plan) (index next : Nat) : Prop :=
  ∃ node, plan.nodes[index]? = some node ∧ node.payload.IsPress ∧ node.children[0]? = some next

def Plan.PressLoop (plan : Plan) (index : Nat) : Prop :=
  Relation.TransGen plan.PressLeads index index

def Plan.PressFree (plan : Plan) : Prop := ∀ index, ¬ plan.PressLoop index

/-- A press is left by its first branch, and nothing else is left at all. -/
def Payload.PressedOn (p : Payload) (branch : Nat) : Prop := p.IsPress ∧ branch = 0

theorem Graph.PressLoop.exists_next {g : Graph} {id : NodeId} (h : g.PressLoop id) :
    ∃ next, g.PressLeads id next ∧ g.PressLoop next := by
  obtain ⟨next, hnext, hback⟩ := Relation.TransGen.head'_iff.mp h
  exact ⟨next, hnext, .tail' hback hnext⟩

theorem Graph.pressLeads_eq (g : Graph) : g.PressLeads = g.Leads Payload.PressedOn := by
  funext id next
  refine propext ⟨?_, ?_⟩
  · rintro ⟨⟨p, hp, hpress⟩, hchild⟩
    exact ⟨p, 0, hp, ⟨hpress, rfl⟩, hchild⟩
  · rintro ⟨p, _, hp, ⟨hpress, rfl⟩, hchild⟩
    exact ⟨⟨p, hp, hpress⟩, hchild⟩

theorem Plan.pressLeads_eq (plan : Plan) : plan.PressLeads = plan.Leads Payload.PressedOn := by
  funext index next
  refine propext ⟨?_, ?_⟩
  · rintro ⟨node, hn, hpress, hchild⟩
    exact ⟨node, 0, hn, ⟨hpress, rfl⟩, hchild⟩
  · rintro ⟨node, _, hn, ⟨hpress, rfl⟩, hchild⟩
    exact ⟨node, hn, hpress, hchild⟩

theorem Graph.pressFree_iff (g : Graph) : g.PressFree ↔ g.LoopFree Payload.PressedOn := by
  simp only [PressFree, PressLoop, LoopFree, pressLeads_eq]

theorem Plan.pressFree_iff (plan : Plan) : plan.PressFree ↔ plan.LoopFree Payload.PressedOn := by
  simp only [PressFree, PressLoop, LoopFree, pressLeads_eq]

/-- If no plan that is grafted has a loop of presses, then no recording has one. -/
theorem Builder.pressFree_after_edits {edits : List Edit}
    (hplans : ∀ plan, Edit.graft plan ∈ edits → plan.PressFree) :
    (applyAll {} edits).graph.PressFree := by
  refine (Graph.pressFree_iff _).mpr
    (loopFree_after_edits ?header fun plan hm => plan.pressFree_iff.mp (hplans plan hm))
  case header =>
    rintro p hkind ⟨⟨honce, -⟩, -⟩
    rw [honce] at hkind
    rcases hkind with hkind | hkind <;> cases hkind

end MotionScript
