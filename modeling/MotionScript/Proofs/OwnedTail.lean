import MotionScript.Graph.Traversal
import MotionScript.Proofs.OwnerChains

/-!
# The tail of a node

From a node the search for the tail goes to the last child that the node owns, and so on.
-/
namespace MotionScript.Graph

variable {g : Graph}

theorem owner?_of_lastOwned? {id child : NodeId} (h : g.lastOwned? id = some child) :
    g.owner? child = some id := by
  simpa using List.find?_some h

theorem Sound.lastOwned?_eq_none_iff {loose : NodeId → Prop} (h : g.Sound loose) (id : NodeId) :
    g.lastOwned? id = none ↔ ∀ child, g.owner? child ≠ some id := by
  constructor
  · intro hnone child ho
    simpa [ho] using List.find?_eq_none.mp hnone child (by simpa using h.owner_lists child id ho)
  · exact fun hno => List.find?_eq_none.mpr fun child _ => by simpa using hno child

@[simp] theorem lastOwned?_add (g : Graph) (p : Payload) (id : NodeId) :
    (g.add p).lastOwned? id = g.lastOwned? id := by
  simp [lastOwned?]

/-- A node that belongs to the one it is attached to becomes its last owned child; nothing else
changes. -/
theorem lastOwned?_attach {parent child : NodeId} (hp : parent < g.size) (hc : child < g.size)
    (hr : child ≠ root) (id : NodeId) : (g.attach parent child).lastOwned? id =
      if id = parent ∧ (g.owner? child).or (some parent) = some parent then some child
        else g.lastOwned? id := by
  have hown (x : NodeId) := g.owner?_attach parent x hc hr
  by_cases h : id = parent ∧ (g.owner? child).or (some parent) = some parent
  · obtain ⟨rfl, ho⟩ := h
    simp [lastOwned?, g.children_attach child id hp, hown, ho]
  · have hsame : (fun x => (g.attach parent child).owner? x == some id) = fun x =>
      g.owner? x == some id := by
      funext x
      rw [hown]
      by_cases hx : x = child
      · rw [if_pos hx, hx]
        cases ho : g.owner? child with
        | none =>
          have hne : id ≠ parent := fun he => h ⟨he, by simp [ho]⟩
          simp [Ne.symm hne]
        | some owner => rfl
      · rw [if_neg hx]
    rw [if_neg h, lastOwned?, hsame, g.children_attach child id hp]
    split
    next he =>
      have hno : g.owner? child ≠ some id := fun ho => h ⟨he, by simp [ho, he]⟩
      simp [lastOwned?, he, he ▸ hno]
    next => rfl

theorem owned_followOwned (steps : Nat) {id : NodeId} (h : ∃ owner, g.owner? id = some owner) :
    ∃ owner, g.owner? (g.followOwned steps id) = some owner := by
  induction steps generalizing id with
  | zero => exact h
  | succ steps ih =>
    unfold followOwned
    split
    next child hc => exact ih ⟨id, owner?_of_lastOwned? hc⟩
    next => exact h

/-- A search that has as many steps as there can be nodes below comes to a node that owns
nothing. -/
theorem Sound.lastOwned?_followOwned {loose : NodeId → Prop} (h : g.Sound loose) {id height : Nat}
    (hc : Climbs g.owner? id height) (hid : id < g.size) {steps : Nat}
    (hsteps : g.size ≤ height + steps) :
    g.lastOwned? (g.followOwned steps id) = none := by
  induction steps generalizing id height with
  | zero => exact absurd (hc.lt_bound hid h.owner_lt) (Nat.not_lt_of_le hsteps)
  | succ steps ih =>
    unfold followOwned
    split
    next child hchild =>
      have ho := owner?_of_lastOwned? hchild
      exact ih (.step ho hc) (lt_size_of_owner? ho) (by omega)
    next hnone => exact hnone

/-- The tail of a node owns nothing. -/
theorem Sound.lastOwned?_tail {loose : NodeId → Prop} (h : g.Sound loose) {id : NodeId}
    (hid : id < g.size) :
    g.lastOwned? (g.tail id) = none := by
  obtain ⟨height, -, hc⟩ := h.climbs hid
  exact h.lastOwned?_followOwned hc hid (Nat.le_add_left ..)

theorem followOwned_of_none {id : NodeId} (h : g.lastOwned? id = none) (steps : Nat) :
    g.followOwned steps id = id := by
  cases steps with
  | zero => rfl
  | succ steps => simp [followOwned, h]

theorem followOwned_add (first second : Nat) (id : NodeId) :
    g.followOwned (first + second) id = g.followOwned second (g.followOwned first id) := by
  induction first generalizing id with
  | zero => rw [Nat.zero_add, followOwned]
  | succ first ih =>
    rw [Nat.add_right_comm]
    simp only [followOwned]
    cases h : g.lastOwned? id with
    | none => exact (followOwned_of_none h second).symm
    | some child => exact ih child

theorem Sound.tail_eq_iff {loose : NodeId → Prop} (h : g.Sound loose) {id target : NodeId}
    (hid : id < g.size) {steps : Nat} (hpath : g.followOwned steps id = target) :
    g.tail id = target ↔ g.lastOwned? target = none := by
  constructor
  · rintro rfl
    exact h.lastOwned?_tail hid
  · intro hnone
    rcases Nat.le_total steps g.size with hle | hle
    · obtain ⟨more, hmore⟩ := Nat.exists_eq_add_of_le hle
      rw [tail, hmore, followOwned_add, hpath, followOwned_of_none hnone]
    · obtain ⟨more, hmore⟩ := Nat.exists_eq_add_of_le hle
      rw [← hpath, hmore, followOwned_add]
      exact (followOwned_of_none (h.lastOwned?_tail hid) more).symm

end MotionScript.Graph
