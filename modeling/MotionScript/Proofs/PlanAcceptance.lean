import MotionScript.Proofs.PlanRoundTrip
import MotionScript.Proofs.SearchRounds

/-!
# Which plans are accepted

The check of a plan is exact: it accepts the plans of the version of this library in which ownership
is a tree below the entry, and no others. It looks nodes up as it follows the chains of owners, and
it would have no answer if one of them were not there. But a chain is only followed after each node
was seen to have an owner inside the plan, so it never leaves the plan; and a chain that ends is
shorter than the plan, so that the bound on its steps only stops chains that have no end.
-/
namespace MotionScript.Plan

/-- Whether the chain of owners from a node ends within a number of steps. There is no answer if the
chain comes to a node that is not there. -/
def followOwners? (p : Plan) : Nat → Nat → Option Bool
  | steps, index =>
    match p.nodes[index]? with
    | none => none
    | some node =>
      match node.owner with
      | none => some true
      | some owner =>
        match steps with
        | 0 => some false
        | steps + 1 => p.followOwners? steps owner

/-- Follows the chains of owners from some nodes, up to the first that does not end. -/
def followAll? (p : Plan) : List Nat → Option (Except PlanFault Unit)
  | [] => some (.ok ())
  | index :: rest => (p.followOwners? p.nodes.length index).bind fun ends =>
      if ends then p.followAll? rest else some (.error (.ownershipCycle index))

/-- The check of a plan. There is no answer if a node is looked up that is not there. -/
def check? (p : Plan) : Option (Except PlanFault Unit) :=
  if p.version ≠ currentVersion then some (.error (.version p.version currentVersion))
  else
    match p.nodes with
    | [] => some (.error .noNodes)
    | entry :: rest =>
      if entry.owner.isSome then some (.error .ownedEntry)
      else
        match p.checkNodes 0 p.nodes with
        | .error fault => some (.error fault)
        | .ok () => p.followAll? (List.range' 1 rest.length)

variable {p : Plan}

theorem followOwners?_eq
    (howner : ∀ index owner, p.owner? index = some owner → owner < p.nodes.length) (steps : Nat)
    {index : Nat} (hi : index < p.nodes.length) :
    p.followOwners? steps index = some (p.ownersEnd steps index) := by
  induction steps generalizing index with
  | zero =>
    unfold followOwners? ownersEnd
    cases ho : p.nodes[index].owner <;> simp [hi, ho]
  | succ steps ih =>
    unfold followOwners? ownersEnd
    cases ho : p.nodes[index].owner with
    | none => simp [hi, ho]
    | some owner =>
      have hlt : owner < p.nodes.length := howner index owner (by simp [owner?, hi, ho])
      simp [hi, ho, ih hlt]

theorem followAll?_eq (howner : ∀ index owner, p.owner? index = some owner → owner < p.nodes.length)
    {indices : List Nat} (hindices : ∀ index ∈ indices, index < p.nodes.length) :
    p.followAll? indices =
      some (match indices.find? fun index => !p.ownersEnd p.nodes.length index with
      | some index => .error (.ownershipCycle index)
      | none => .ok ()) := by
  induction indices with
  | nil => rfl
  | cons index rest ih =>
    obtain ⟨hi, hrest⟩ := List.forall_mem_cons.mp hindices
    rw [followAll?, followOwners?_eq howner _ hi, Option.bind_some, ih hrest]
    cases hends : p.ownersEnd p.nodes.length index <;> simp [hends]

/-- After the nodes are checked the chains of owners can be followed from all nodes but the
entry. -/
theorem followAll?_eq_checkChains
    (howner : ∀ index owner, p.owner? index = some owner → owner < p.nodes.length) {count : Nat}
    (hcount : p.nodes.length = count + 1) :
    p.followAll? (List.range' 1 count) = some p.checkChains := by
  have hindices : ∀ index ∈ List.range' 1 count, index ≠ 0 ∧ index < p.nodes.length := by
    intro index hm
    obtain ⟨hle, hlt⟩ := List.mem_range'_1.mp hm
    omega
  have hfind : (List.range p.nodes.length).find?
      (fun index => index ≠ 0 && !p.ownersEnd p.nodes.length index) =
      (List.range' 1 count).find? fun index => !p.ownersEnd p.nodes.length index := by
    rw [hcount, List.range_eq_range', List.range'_succ, List.find?_cons_of_neg (by simp),
      ← List.head?_filter, ← List.head?_filter]
    refine congrArg List.head? (List.filter_congr fun index hm => ?_)
    simp [(hindices index hm).1]
  have hfollow := followAll?_eq howner fun index hm => (hindices index hm).2
  rw [← hfind] at hfollow
  exact hfollow

/-- The check of a plan only looks up nodes that are there. -/
theorem check?_eq (p : Plan) : p.check? = some p.check := by
  unfold check? check
  split
  · rfl
  cases hnodes : p.nodes with
  | nil => rfl
  | cons entry rest =>
    dsimp only
    split
    · rfl
    next hentry =>
      rw [← hnodes]
      cases hn : p.checkNodes 0 p.nodes with
      | error fault => rfl
      | ok u =>
        refine followAll?_eq_checkChains (fun index owner ho => ?_)
          (by rw [hnodes, List.length_cons])
        obtain ⟨node, hnode, hown⟩ := Option.bind_eq_some_iff.mp ho
        have hi : index ≠ 0 := by
          rintro rfl
          obtain rfl : entry = node := by simpa [hnodes] using hnode
          simp [hown] at hentry
        have hchecked := checkNode_ok (checkNodes_ok hn index node hnode)
        rw [Nat.zero_add] at hchecked
        obtain ⟨above, parent, habove, hparent, -⟩ := hchecked.2.2 hi
        cases hown.symm.trans habove
        exact (List.getElem?_eq_some_iff.mp hparent).1

/-- An owner lists what it owns, so edges lead to each node along the chain of its owners. -/
theorem Valid.reaches (hv : p.Valid) {index : Nat} (ho : p.OwnedByEntry index) :
    Reaches p.childrenAt 0 index := by
  induction ho with
  | entry => exact .refl
  | @step index owner node hn ho _ ih =>
    obtain ⟨-, parent, hparent, hlists⟩ := hv.listed_by_owner hn ho
    exact ih.tail (by simpa [childrenAt, hparent] using hlists)

/-- Every plan gets an answer, and no node is looked up for it that is not there. A plan is accepted
exactly if it has the version of this library and ownership is a tree: there is an entry, which has
no owner, every other node is listed by its owner, and the chains of owners lead to the entry;
besides, every child is inside the plan and no node claims to be a root. Then edges lead from the
entry to every node. -/
theorem validate_eq_ok_iff (p : Plan) :
    p.check? = some p.check ∧ (p.validate = .ok () ↔ p.version = 1 ∧ p.Valid) ∧
      (p.validate = .ok () → ∀ index < p.nodes.length, Reaches p.childrenAt 0 index) := by
  refine ⟨p.check?_eq,
    ⟨fun h => ⟨version_of_validate h, valid_of_validate h⟩, fun h => h.2.validate h.1⟩, ?_⟩
  intro h index hi
  have hv := valid_of_validate h
  exact hv.reaches (hv.owned index hi)

/-- A loop whose header is entered by its own body is accepted; two nodes that own each other are
not, though each has an owner that lists it. -/
theorem validate_eq_ok_iff_loops :
    let loop : List PlanNode := [
      { payload := .header .whileLoop, children := [1] },
      { payload := .placeholder, owner := some 0, children := [0] }]
    let apart : List PlanNode := [
      { payload := .placeholder, owner := some 3, children := [3] },
      { payload := .placeholder, owner := some 2, children := [2] }]
    Valid ⟨1, loop⟩ ∧ Reaches (childrenAt ⟨1, loop⟩) 0 1 ∧ ¬ Valid ⟨1, loop ++ apart⟩ ∧
      check? ⟨1, loop ++ apart⟩ = some (.error (.ownershipCycle 2)) := by
  intro loop apart
  have haccepted : validate ⟨1, loop⟩ = .ok () := rfl
  have hrefused : check ⟨1, loop ++ apart⟩ = .error (.ownershipCycle 2) := rfl
  obtain ⟨-, hloop, hreaches⟩ := validate_eq_ok_iff ⟨1, loop⟩
  obtain ⟨hlooks, hapart, -⟩ := validate_eq_ok_iff ⟨1, loop ++ apart⟩
  refine ⟨(hloop.mp haccepted).2, hreaches haccepted 1 (by decide), fun hv => ?_,
    hlooks.trans (by rw [hrefused])⟩
  have hvalid := hapart.mpr ⟨rfl, hv⟩
  rw [validate, hrefused] at hvalid
  cases hvalid

end MotionScript.Plan
