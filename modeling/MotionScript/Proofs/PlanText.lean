import MotionScript.Store.Memory
import MotionScript.Proofs.FiniteNumbers
import MotionScript.Proofs.PlanRoundTrip

/-!
# What is read of a written plan

A plan that is written and read again is the same plan up to the numbers of its motions, which are
read one by one. Each of them is read if it is finite, and an infinite one makes the whole plan
unreadable. Whether a plan is accepted does not depend on its numbers.
-/
namespace MotionScript

namespace Json

theorem rereadItems_eq_map (items : List Json) : rereadItems items = items.map reread := by
  induction items with
  | nil => rfl
  | cons item items ih => simp [rereadItems, ih]

theorem rereadMembers_eq_map (members : List (List Piece × Json)) :
    rereadMembers members = members.map fun (key, value) =>
      (key.map Piece.reread, value.reread) := by
  induction members with
  | nil => rfl
  | cons member members ih => simp [rereadMembers, ih]

theorem areLegal_iff {items : List Json} : AreLegal items ↔ ∀ item ∈ items, item.IsLegal := by
  induction items with
  | nil => simp [AreLegal]
  | cons item items ih => simp [AreLegal, ih]

@[simp]
theorem isNamed_reread (name key : String) :
    isNamed name ((pieces key).map Piece.reread) = (key == name) := by
  simp only [isNamed, text?_reread]
  rfl

@[simp]
theorem reread_ofFloat (x : Float) : (ofFloat x).reread = ofFloat x := by
  unfold ofFloat
  split <;> rfl

@[simp]
theorem reread_ofNat (n : Nat) : (ofNat n).reread = ofNat n := rfl

theorem isLegal_ofNat (n : Nat) : (ofNat n).IsLegal := legal_toDigits false n

theorem isLegal_ofText (text : String) : (ofText text).IsLegal := ⟨text, rfl⟩

theorem asNatBelow?_ofNat (bound n : Nat) :
    asNatBelow? bound (ofNat n) = if n < bound then some n else none := by
  simp [asNatBelow?, ofNat, natBelow?, isInteger, Number.digitsToNat_toDigits]

/-- A number is gathered in any case: an infinite one is nothing. -/
theorem isReadable_ofFloat (depth : Nat) (x : Float) : isReadable depth (ofFloat x) := by
  have hread := asFloat?_ofFloat x
  cases hview : Number.view x with
  | finite =>
    simp only [ofFloat, Number.isFinite, hview] at hread ⊢
    exact hread
  | _ =>
    simp only [ofFloat, hview]
    rfl

section

variable {α : Type} {write : α → Json}

/-- What may be nothing is read back, if what is written is never taken for nothing. -/
theorem optional?_reread {read : Json → Option α} (hread : ∀ a, read (write a).reread = some a)
    (hsome : ∀ a, optional? read (write a).reread = (read (write a).reread).map some)
    (value : Option α) :
    optional? read ((value.map write).getD .null).reread = some value := by
  cases value with
  | none => rfl
  | some a =>
    rw [Option.map_some, Option.getD_some, hsome, hread]
    rfl

theorem isReadable_getD {depth : Nat} (hwrite : ∀ a, isReadable depth (write a).reread)
    (value : Option α) :
    isReadable depth ((value.map write).getD .null).reread := by
  cases value with
  | none => rfl
  | some a => exact hwrite a

theorem isLegal_getD (hwrite : ∀ a, (write a).IsLegal) (value : Option α) :
    ((value.map write).getD .null).IsLegal := by
  cases value with
  | none => trivial
  | some a => exact hwrite a

end

end Json

open Json Number

namespace MotionParams

def IsFinite (p : MotionParams) : Prop :=
  isFinite p.dx ∧ isFinite p.dy ∧ isFinite p.dz ∧ isFinite p.velocity

instance (p : MotionParams) : Decidable p.IsFinite := inferInstanceAs (Decidable (_ ∧ _ ∧ _ ∧ _))

def reread? (p : MotionParams) : Option MotionParams := do
  return {
    dx := ← asFloat? (ofFloat p.dx), dy := ← asFloat? (ofFloat p.dy),
    dz := ← asFloat? (ofFloat p.dz), velocity := ← asFloat? (ofFloat p.velocity) }

theorem isSome_reread? (p : MotionParams) : p.reread?.isSome ↔ p.IsFinite := by
  simp only [reread?, IsFinite, ← asFloat?_ofFloat]
  cases asFloat? (ofFloat p.dx) <;> cases asFloat? (ofFloat p.dy) <;>
    cases asFloat? (ofFloat p.dz) <;>
    cases asFloat? (ofFloat p.velocity) <;> simp

theorem ofJson?_reread (p : MotionParams) : ofJson? p.toJson.reread = p.reread? := by
  simp only [ofJson?, toJson, Json.reread, rereadMembers_eq_map, List.map_cons, List.map_nil]
  simp [fields?, lookup?, reread?]

end MotionParams

theorem NodeKind.ofJson?_reread (gathered : Bool) (kind : NodeKind) :
    ofJson? gathered kind.toJson.reread = some kind := by
  cases kind <;> rfl

theorem Motion.ofJson?_reread (gathered : Bool) (motion : Motion) :
    ofJson? gathered motion.toJson.reread = some motion := by
  cases motion <;> rfl

theorem Sense.ofJson?_reread (gathered : Bool) (sense : Sense) :
    ofJson? gathered sense.toJson.reread = some sense := by
  cases sense
  rfl

theorem Payload.members_reread (p : Payload) : rereadMembers p.members =
    [((pieces "kind").map Piece.reread, p.kind.toJson.reread),
     ((pieces "action").map Piece.reread, ((p.motion.map Motion.toJson).getD .null).reread),
     ((pieces "params").map Piece.reread, p.params.toJson.reread),
     ((pieces "sense").map Piece.reread, ((p.sense.map Sense.toJson).getD .null).reread),
     ((pieces "say").map Piece.reread, ((p.speech.map ofText).getD .null).reread)] := rfl

theorem Payload.ofJson?_reread (gathered : Bool) (p : Payload) :
    ofJson? gathered (.object (rereadMembers p.members)) = p.params.reread?.map fun params =>
      { p with params } := by
  have hmotion := optional?_reread (Motion.ofJson?_reread gathered) (fun _ => rfl) p.motion
  have hsense := optional?_reread (Sense.ofJson?_reread gathered) (fun _ => rfl) p.sense
  have hspeech := @optional?_reread _ ofText asText? text?_reread (fun _ => rfl) p.speech
  rw [members_reread]
  simp only [ofJson?, fields?, lookup?, fieldOr?]
  simp only [List.all_cons, text?_reread, Option.isSome_some, List.all_nil, Bool.and_self,
    ↓reduceIte, List.mapM_cons, isNamed_reread, BEq.rfl, List.filter_cons_of_pos, String.reduceBEq,
    Bool.false_eq_true, not_false_eq_true, List.filter_cons_of_neg, List.filter_nil, List.mapM_nil,
    Option.pure_def, Option.bind_eq_bind, Option.bind_some, NodeKind.ofJson?_reread, hmotion,
    MotionParams.ofJson?_reread, hsense, hspeech]
  cases p.params.reread? <;> rfl

theorem MotionParams.isReadable_reread (depth : Nat) (p : MotionParams) :
    isReadable (depth + 1) p.toJson.reread := by
  simp only [toJson, Json.reread, rereadMembers_eq_map, List.map_cons, List.map_nil]
  simp [isReadable, areMembersReadable, isReadable_ofFloat]

theorem Payload.areMembersReadable_reread (depth : Nat) (p : Payload) :
    areMembersReadable (depth + 1) (rereadMembers p.members) := by
  have htext (text : String) : isReadable (depth + 1) (ofText text).reread := by
    show (text? ((pieces text).map Piece.reread)).isSome
    rw [text?_reread]
    rfl
  have hmotion := @isReadable_getD _ Motion.toJson (depth + 1)
    (fun motion => htext motion.name) p.motion
  have hsense := @isReadable_getD _ Sense.toJson (depth + 1) (fun sense => htext sense.name) p.sense
  have hspeech := isReadable_getD htext p.speech
  have hkind : isReadable (depth + 1) p.kind.toJson.reread := htext p.kind.name
  rw [members_reread]
  simp [areMembersReadable, hkind, hmotion, hsense, hspeech, MotionParams.isReadable_reread]

namespace PlanNode

/-- Whether the owner and the children of a node can be written in 64 bits. -/
def IsIndexed (node : PlanNode) : Prop :=
  (∀ owner ∈ node.owner, owner < indexBound) ∧ ∀ child ∈ node.children, child < indexBound

def shape (node : PlanNode) : NodeKind × Option Nat × List Nat :=
  (node.payload.kind, node.owner, node.children)

theorem shape_eq_iff {node other : PlanNode} : node.shape = other.shape ↔
    node.payload.kind = other.payload.kind ∧ node.owner = other.owner ∧
      node.children = other.children := by
  simp [shape]

def reread? (node : PlanNode) : Option PlanNode :=
  node.payload.params.reread?.map fun params =>
    { node with payload := { node.payload with params } }

instance (node : PlanNode) : Decidable node.IsIndexed := inferInstanceAs (Decidable (_ ∧ _))

theorem owner_reread (owner : Option Nat) :
    optional? (asNatBelow? indexBound) ((owner.map ofNat).getD .null).reread =
    if ∀ index ∈ owner, index < indexBound then some owner else none := by
  cases owner with
  | none => rfl
  | some index =>
    show (asNatBelow? indexBound (ofNat index)).map some = _
    rw [asNatBelow?_ofNat]
    by_cases h : index < indexBound <;> simp [h]

theorem children_reread (children : List Nat) : (children.map ofNat).mapM (asNatBelow? indexBound) =
    if ∀ index ∈ children, index < indexBound then some children else none := by
  induction children with
  | nil => rfl
  | cons index children ih =>
    rw [List.map_cons, List.mapM_cons, ih, asNatBelow?_ofNat]
    by_cases hrest : ∀ index ∈ children, index < indexBound
    · rw [if_pos hrest]
      by_cases h : index < indexBound
      · rw [if_pos h, if_pos (by simpa [h] using hrest)]
        rfl
      · simp [h]
    · have hall : ¬ ∀ i ∈ index :: children, i < indexBound :=
        fun hall => hrest fun i hi => hall i (List.mem_cons_of_mem _ hi)
      rw [if_neg hrest, if_neg hall]
      by_cases h : index < indexBound <;> simp [h]

theorem lookup?_members (p : Payload) (owner children : Json) :
    let members := rereadMembers p.members ++
      [((pieces "owner").map Piece.reread, owner), ((pieces "children").map Piece.reread, children)]
    lookup? (isNamed "owner") members = some (some owner) ∧
      lookup? (isNamed "children") members = some (some children) ∧
      members.filter (fun (key, _) => !isNamed "owner" key && !isNamed "children" key) =
        rereadMembers p.members := by
  simp [lookup?, Payload.members_reread]

/-- An object is read as a node if its members are: the indices must fit 64 bits, and the numbers be
finite. -/
theorem ofJson?_object {node : PlanNode} {members gathered : List (List Piece × Json)}
    {owner children : Option Json} (howner : lookup? (isNamed "owner") members = some owner)
    (hchildren : lookup? (isNamed "children") members = some children)
    (hgathered : members.filter
      (fun (key, _) => !isNamed "owner" key && !isNamed "children" key) = gathered)
    (hreadable : areMembersReadable depthBound gathered)
    (hpayload : Payload.ofJson? true (.object gathered) =
      node.payload.params.reread?.map fun params => { node.payload with params })
    (howner' : fieldOr? none (optional? (asNatBelow? indexBound)) owner =
      if ∀ index ∈ node.owner, index < indexBound then some node.owner else none)
    (hchildren' : fieldOr? []
      (fun value => do (← asArray? value).mapM (asNatBelow? indexBound)) children =
      if ∀ index ∈ node.children, index < indexBound then some node.children else none) :
    ofJson? (.object members) = if node.IsIndexed then node.reread? else none := by
  rw [ofJson?, howner, hchildren]
  simp only [Option.bind_eq_bind, Option.bind_some] at hchildren' ⊢
  rw [hgathered, if_pos hreadable, hpayload, howner', hchildren', reread?]
  by_cases howners : ∀ index ∈ node.owner, index < indexBound
  · by_cases hlisted : ∀ index ∈ node.children, index < indexBound
    · rw [if_pos howners, if_pos hlisted, if_pos ⟨howners, hlisted⟩]
      cases node.payload.params.reread? <;> rfl
    · rw [if_neg hlisted, if_neg fun h : node.IsIndexed => hlisted h.2]
      cases node.payload.params.reread? <;> simp
  · rw [if_neg howners, if_neg fun h : node.IsIndexed => howners h.1]
    cases node.payload.params.reread? <;> rfl

/-- What is read of a node that was written. -/
theorem ofJson?_reread (node : PlanNode) :
    ofJson? node.toJson.reread = if node.IsIndexed then node.reread? else none := by
  have hmembers : node.toJson.reread = .object (rereadMembers node.payload.members ++
      [((pieces "owner").map Piece.reread, ((node.owner.map ofNat).getD .null).reread),
       ((pieces "children").map Piece.reread, .array (node.children.map ofNat))]) := by
    simp [toJson, Json.reread, rereadMembers_eq_map, rereadItems_eq_map]
  obtain ⟨howner, hchildren, hgathered⟩ :=
    lookup?_members node.payload ((node.owner.map ofNat).getD .null).reread
    (.array (node.children.map ofNat))
  have hreadable : areMembersReadable depthBound (rereadMembers node.payload.members) :=
    node.payload.areMembersReadable_reread 123
  rw [hmembers]
  exact ofJson?_object howner hchildren hgathered hreadable (node.payload.ofJson?_reread true)
    (owner_reread node.owner)
    (children_reread node.children)

end PlanNode

/-! ## Written values are legal -/

theorem MotionParams.isLegal_toJson (p : MotionParams) : p.toJson.IsLegal := by
  simp only [toJson, IsLegal, AreMembersLegal]
  exact ⟨⟨_, rfl⟩, isLegal_ofFloat _, ⟨_, rfl⟩, isLegal_ofFloat _, ⟨_, rfl⟩, isLegal_ofFloat _,
    ⟨_, rfl⟩, isLegal_ofFloat _, trivial⟩

theorem PlanNode.isLegal_toJson (node : PlanNode) : node.toJson.IsLegal := by
  simp only [toJson, Payload.members, List.cons_append, List.nil_append, IsLegal, AreMembersLegal]
  exact ⟨⟨_, rfl⟩, isLegal_ofText _, ⟨_, rfl⟩, isLegal_getD (fun _ => isLegal_ofText _) _, ⟨_, rfl⟩,
    node.payload.params.isLegal_toJson, ⟨_, rfl⟩, isLegal_getD (fun _ => isLegal_ofText _) _,
    ⟨_, rfl⟩, isLegal_getD isLegal_ofText _, ⟨_, rfl⟩, isLegal_getD isLegal_ofNat _, ⟨_, rfl⟩,
    areLegal_iff.2 (by simp [isLegal_ofNat]), trivial⟩

namespace Plan

variable {p : Plan}

theorem isLegal_toJson (p : Plan) : p.toJson.IsLegal := by
  simp only [toJson, IsLegal, AreMembersLegal]
  exact ⟨⟨_, rfl⟩, isLegal_ofNat _, ⟨_, rfl⟩,
    areLegal_iff.2 (by simp [PlanNode.isLegal_toJson]), trivial⟩

/-! ## Plans -/

/-- What is read of a written plan: a node that cannot be read makes the whole plan unreadable. -/
theorem read_write (hversion : p.version < versionBound) : read p.write =
    match p.nodes.mapM fun node => PlanNode.ofJson? node.toJson.reread with
    | some nodes => .ok { p with nodes }
    | none => .error (.persistence .unreadableText) := by
  have hobject : p.toJson.reread = .object [((pieces "version").map Piece.reread, ofNat p.version),
      ((pieces "nodes").map Piece.reread,
        .array (p.nodes.map fun node => node.toJson.reread))] := by
    simp [toJson, Json.reread, rereadMembers_eq_map, rereadItems_eq_map]
  have hread : ofJson? p.toJson.reread =
      (p.nodes.mapM fun node => PlanNode.ofJson? node.toJson.reread).map fun nodes =>
        { p with nodes } := by
    rw [hobject]
    simp only [ofJson?, fields?, lookup?, List.all_cons, text?_reread, Option.isSome_some,
      List.all_nil, Bool.and_self, ↓reduceIte, List.mapM_cons, isNamed_reread, BEq.rfl,
      List.filter_cons_of_pos, String.reduceBEq, Bool.false_eq_true, not_false_eq_true,
      List.filter_cons_of_neg, List.filter_nil, List.mapM_nil, Option.pure_def, Option.bind_eq_bind,
      Option.bind_some, asArray?, asNatBelow?_ofNat, hversion, List.mapM_map, Function.comp_def]
    cases p.nodes.mapM fun node => PlanNode.ofJson? node.toJson.reread <;> rfl
  rw [read, write, parse?_pretty (isLegal_toJson p), Option.bind_some, hread]
  cases p.nodes.mapM fun node => PlanNode.ofJson? node.toJson.reread <;> rfl

variable {q : Plan}

theorem exists_of_shape (h : q.nodes.map PlanNode.shape = p.nodes.map PlanNode.shape) {index : Nat}
    {node : PlanNode} (hn : q.nodes[index]? = some node) :
    ∃ other, p.nodes[index]? = some other ∧ other.shape = node.shape := by
  have hat := congrArg (·[index]?) h
  simp only [List.getElem?_map, hn, Option.map_some] at hat
  exact Option.map_eq_some_iff.1 hat.symm

/-- Whether a plan is accepted depends only on the kinds of its nodes, their owners and their
children. -/
theorem Valid.of_shape (hv : p.Valid)
    (h : q.nodes.map PlanNode.shape = p.nodes.map PlanNode.shape) : q.Valid := by
  have hlength : q.nodes.length = p.nodes.length := by simpa using congrArg List.length h
  have hmem (node : PlanNode) (hn : node ∈ q.nodes) :
      ∃ other ∈ p.nodes, other.shape = node.shape := by
    obtain ⟨index, hat⟩ := List.mem_iff_getElem?.1 hn
    obtain ⟨other, hother, hshape⟩ := exists_of_shape h hat
    exact ⟨other, List.mem_of_getElem? hother, hshape⟩
  have howned {index : Nat} (ho : p.OwnedByEntry index) : q.OwnedByEntry index := by
    induction ho with
    | entry => exact .entry
    | step hn ho _ ih =>
      obtain ⟨other, hother, hshape⟩ := exists_of_shape h.symm hn
      exact .step hother ((PlanNode.shape_eq_iff.1 hshape).2.1.trans ho) ih
  refine ⟨fun hnil => hv.nonempty ?_, fun node hn => ?_, fun node hn => ?_,
    fun node hn child hc => ?_, fun index node hn hi => ?_,
    fun index hi => howned (hv.owned index (by rwa [← hlength]))⟩
  · rw [hnil] at hlength
    exact List.length_eq_zero_iff.1 hlength.symm
  · obtain ⟨other, hother, hshape⟩ := exists_of_shape h hn
    exact (PlanNode.shape_eq_iff.1 hshape).2.1.symm.trans (hv.entry_owner other hother)
  · obtain ⟨other, hother, hshape⟩ := hmem node hn
    rw [← (PlanNode.shape_eq_iff.1 hshape).1]
    exact hv.kind_ne_root other hother
  · obtain ⟨other, hother, hshape⟩ := hmem node hn
    rw [hlength]
    exact hv.child_lt other hother child (by rwa [(PlanNode.shape_eq_iff.1 hshape).2.2])
  · obtain ⟨other, hother, hshape⟩ := exists_of_shape h hn
    obtain ⟨owner, parent, howner, hparent, hlists⟩ := hv.owner_lists index other hother hi
    obtain ⟨parent', hparent', hshape'⟩ := exists_of_shape h.symm hparent
    refine ⟨owner, parent', (PlanNode.shape_eq_iff.1 hshape).2.1.symm.trans howner, hparent', ?_⟩
    rwa [(PlanNode.shape_eq_iff.1 hshape').2.2]

theorem isSome_mapM {α β : Type} {f : α → Option β} {l : List α} :
    (l.mapM f).isSome ↔ ∀ a ∈ l, (f a).isSome := by
  induction l with
  | nil => simp
  | cons a l ih =>
    rw [List.mapM_cons]
    cases hf : f a <;> cases hl : l.mapM f <;> simp [hf, hl, ← ih]

theorem map_of_mapM {α β γ : Type} {f : α → Option β} {g : α → γ} {g' : β → γ}
    (hf : ∀ a b, f a = some b → g' b = g a) {l : List α} {l' : List β}
    (h : l.mapM f = some l') : l'.map g' = l.map g := by
  induction l generalizing l' with
  | nil => cases h; rfl
  | cons a l ih =>
    rw [List.mapM_cons] at h
    obtain ⟨b, hb, hrest⟩ := Option.bind_eq_some_iff.1 h
    obtain ⟨rest, hl, hl'⟩ := Option.bind_eq_some_iff.1 hrest
    cases hl'
    rw [List.map_cons, List.map_cons, hf a b hb, ih hl]

theorem shape_of_reread? {node node' : PlanNode}
    (h : PlanNode.ofJson? node.toJson.reread = some node') :
    node'.shape = node.shape := by
  rw [PlanNode.ofJson?_reread] at h
  split at h
  · obtain ⟨params, -, rfl⟩ := Option.map_eq_some_iff.1 h
    rfl
  · cases h

/-- An accepted plan that was written is restored if all its nodes are read. -/
theorem isOk_restore_write_iff (hv : p.Valid) (hversion : p.version = currentVersion) :
    (restore p.write).isOk ↔ ∀ node ∈ p.nodes, node.IsIndexed ∧ node.payload.params.IsFinite := by
  have hnode (node : PlanNode) : (PlanNode.ofJson? node.toJson.reread).isSome ↔
      node.IsIndexed ∧ node.payload.params.IsFinite := by
    rw [PlanNode.ofJson?_reread, ← MotionParams.isSome_reread?]
    split
    next hindex => simp [PlanNode.reread?, hindex]
    next hindex => simp [hindex]
  simp only [← hnode]
  rw [← isSome_mapM, restore, read_write (by rw [hversion]; decide)]
  cases hnodes : p.nodes.mapM fun node => PlanNode.ofJson? node.toJson.reread with
  | none => simp [Except.bind, Except.isOk, Except.toBool]
  | some nodes =>
    have hvalid : ({ p with nodes } : Plan).validate = .ok () :=
      (hv.of_shape (map_of_mapM (fun _ _ => shape_of_reread?) hnodes)).validate hversion
    simp [Except.bind, hvalid, Except.map, Except.isOk, Except.toBool]

/-- The indices of an accepted plan fit 64 bits if it has few enough nodes: every node but the entry
is listed. -/
theorem Valid.isIndexed_iff (hv : p.Valid) :
    (∀ node ∈ p.nodes, node.IsIndexed) ↔ p.nodes.length ≤ PlanNode.indexBound := by
  constructor
  · intro hindexed
    by_contra hlarge
    have hlt : PlanNode.indexBound < p.nodes.length := Nat.lt_of_not_le hlarge
    obtain ⟨owner, parent, -, hparent, hlists⟩ :=
      hv.owner_lists PlanNode.indexBound _ (List.getElem?_eq_getElem hlt) (by decide)
    exact Nat.lt_irrefl _ ((hindexed parent (List.mem_of_getElem? hparent)).2 _ hlists)
  · intro hfew node hn
    refine ⟨fun owner ho => ?_,
      fun child hc => Nat.lt_of_lt_of_le (hv.child_lt node hn child hc) hfew⟩
    obtain ⟨index, hat⟩ := List.mem_iff_getElem?.1 hn
    exact Nat.lt_of_lt_of_le (hv.owner_lt hat ho) hfew

/-- A plan that is accepted and written can be restored exactly if its numbers are finite and its
indices fit 64 bits. -/
theorem isOk_restore_write (hv : p.Valid)
    (hversion : p.version = currentVersion) : (restore p.write).isOk ↔
    (∀ node ∈ p.nodes, node.payload.params.IsFinite) ∧ p.nodes.length ≤ PlanNode.indexBound := by
  rw [isOk_restore_write_iff hv hversion, ← hv.isIndexed_iff]
  exact ⟨fun h => ⟨fun node hn => (h node hn).2, fun node hn => (h node hn).1⟩,
    fun h node hn => ⟨h.2 node hn, h.1 node hn⟩⟩

end Plan
end MotionScript
