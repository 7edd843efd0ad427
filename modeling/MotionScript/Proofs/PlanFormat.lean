import MotionScript.Proofs.PlanText
import MotionScript.Proofs.ReadNumbers

/-!
# The format of plans

What is written of a plan is read as the plan, up to how its numbers are read. Whatever is read has
numbers that can be written and indices of the right width, so it is accepted when it is written
again. The fields of a node may stand in any order and among others, and all but its kind may be
missing where they say nothing new.
-/
namespace MotionScript
open Json Number

namespace Json

theorem isFinite_of_asFloat? {value : Json} {x : Float}
    (h : asFloat? value = some x) : isFinite x :=
  match value, h with
  | .number _, h => isFinite_of_float? h

theorem lt_of_asNatBelow? {bound n : Nat} {value : Json}
    (h : asNatBelow? bound value = some n) : n < bound :=
  match value, h with
  | .number numeral, h => by
    obtain ⟨⟨-, -, hlt⟩, hn⟩ :=
      Option.ite_none_right_eq_some.1 (h : natBelow? bound numeral = some n)
    cases hn
    exact hlt

theorem fieldOr?_cases {α : Type} {absent a : α} {read : Json → Option α} {field : Option Json}
    (h : fieldOr? absent read field = some a) : a = absent ∨ ∃ value, read value = some a :=
  match field, h with
  | none, h => .inl (Option.some.inj h).symm
  | some value, h => .inr ⟨value, h⟩

theorem mem_of_optional? {α : Type} {read : Json → Option α} {value : Json} {a : α}
    (h : optional? read value = some (some a)) :
    read value = some a := by
  unfold optional? at h
  split at h
  next => cases h
  next =>
    obtain ⟨b, hb, hab⟩ := Option.map_eq_some_iff.1 h
    cases hab
    exact hb

theorem exists_of_mem_mapM {α β : Type} {f : α → Option β} {l : List α} {l' : List β}
    (h : l.mapM f = some l') {b : β} (hb : b ∈ l') : ∃ a ∈ l, f a = some b := by
  induction l generalizing l' with
  | nil =>
    cases h
    cases hb
  | cons a l ih =>
    rw [List.mapM_cons] at h
    obtain ⟨first, hfirst, hrest⟩ := Option.bind_eq_some_iff.1 h
    obtain ⟨rest, hl, hl'⟩ := Option.bind_eq_some_iff.1 hrest
    cases hl'
    rcases List.mem_cons.1 hb with rfl | hb
    · exact ⟨a, List.mem_cons_self, hfirst⟩
    · obtain ⟨a', ha', hf⟩ := ih hl hb
      exact ⟨a', List.mem_cons_of_mem _ ha', hf⟩

theorem mapM_eq_self {α : Type} {f : α → Option α} {l : List α}
    (h : ∀ a ∈ l, f a = some a) : l.mapM f = some l := by
  induction l with
  | nil => rfl
  | cons a l ih =>
    rw [List.mapM_cons, h a List.mem_cons_self, ih fun b hb => h b (List.mem_cons_of_mem _ hb)]
    rfl

end Json

/-! ## Numbers that are read as they were written -/

/-- Whether a number is read as it was written. Not every finite number is, since reading is fast
rather than exact. -/
def Number.ReadsBack (x : Float) : Prop := asFloat? (ofFloat x) = some x

instance (x : Float) : Decidable (ReadsBack x) := inferInstanceAs (Decidable (_ = _))

example : ReadsBack 90.285714 ∧ ¬ ReadsBack 90.28571428571429 := by decide +kernel

namespace MotionParams

def numbers (p : MotionParams) : List Float := [p.dx, p.dy, p.dz, p.velocity]

theorem isFinite_iff_numbers {p : MotionParams} : p.IsFinite ↔ ∀ x ∈ p.numbers, isFinite x := by
  simp [IsFinite, numbers]

theorem reread?_eq_self {p : MotionParams}
    (h : ∀ x ∈ p.numbers, ReadsBack x) : p.reread? = some p := by
  simp only [numbers, List.forall_mem_cons, ReadsBack] at h
  obtain ⟨hx, hy, hz, hv, -⟩ := h
  simp [reread?, hx, hy, hz, hv]

theorem reread?_default : reread? {} = some {} := reread?_eq_self (by decide +kernel)

end MotionParams

/-! ## What is read can be written -/

namespace MotionParams

theorem isFinite_of_ofJson? {value : Json} {p : MotionParams}
    (h : ofJson? value = some p) : p.IsFinite := by
  obtain ⟨fields, -, h⟩ := Option.bind_eq_some_iff.1 h
  split at h
  next dx dy dz velocity =>
    obtain ⟨x, hx, h⟩ := Option.bind_eq_some_iff.1 h
    obtain ⟨y, hy, h⟩ := Option.bind_eq_some_iff.1 h
    obtain ⟨z, hz, h⟩ := Option.bind_eq_some_iff.1 h
    obtain ⟨v, hv, h⟩ := Option.bind_eq_some_iff.1 h
    cases h
    exact ⟨isFinite_of_asFloat? hx, isFinite_of_asFloat? hy, isFinite_of_asFloat? hz,
      isFinite_of_asFloat? hv⟩
  next => cases h

theorem isFinite_default : IsFinite {} := by decide +kernel

end MotionParams

theorem Payload.isFinite_of_ofJson? {gathered : Bool} {value : Json} {p : Payload}
    (h : ofJson? gathered value = some p) :
    p.params.IsFinite := by
  obtain ⟨fields, -, h⟩ := Option.bind_eq_some_iff.1 h
  split at h
  next kind motion params sense speech =>
    obtain ⟨_, -, h⟩ := Option.bind_eq_some_iff.1 h
    obtain ⟨_, -, h⟩ := Option.bind_eq_some_iff.1 h
    obtain ⟨vector, hvector, h⟩ := Option.bind_eq_some_iff.1 h
    obtain ⟨_, -, h⟩ := Option.bind_eq_some_iff.1 h
    obtain ⟨_, -, h⟩ := Option.bind_eq_some_iff.1 h
    cases h
    rcases fieldOr?_cases hvector with rfl | ⟨given, hgiven⟩
    · exact MotionParams.isFinite_default
    · exact MotionParams.isFinite_of_ofJson? hgiven
  next => cases h

theorem PlanNode.of_ofJson? {value : Json} {node : PlanNode} (h : ofJson? value = some node) :
    node.IsIndexed ∧ node.payload.params.IsFinite := by
  unfold ofJson? at h
  split at h
  next members =>
    obtain ⟨owner, -, h⟩ := Option.bind_eq_some_iff.1 h
    obtain ⟨children, -, h⟩ := Option.bind_eq_some_iff.1 h
    obtain ⟨-, h⟩ := Option.ite_none_right_eq_some.1 h
    obtain ⟨payload, hpayload, h⟩ := Option.bind_eq_some_iff.1 h
    obtain ⟨owner', howner, h⟩ := Option.bind_eq_some_iff.1 h
    obtain ⟨children', hchildren, h⟩ := Option.bind_eq_some_iff.1 h
    cases h
    refine ⟨⟨fun index hindex => ?_, fun index hindex => ?_⟩, Payload.isFinite_of_ofJson? hpayload⟩
    · have hsome : owner' = some index := hindex
      rw [hsome] at howner
      rcases fieldOr?_cases howner with hnone | ⟨given, hgiven⟩
      · cases hnone
      · exact lt_of_asNatBelow? (mem_of_optional? hgiven)
    · rcases fieldOr?_cases hchildren with hnone | ⟨given, hgiven⟩
      · rw [hnone] at hindex
        cases hindex
      · obtain ⟨items, -, hitems⟩ := Option.bind_eq_some_iff.1 hgiven
        obtain ⟨item, -, hitem⟩ := exists_of_mem_mapM hitems hindex
        exact lt_of_asNatBelow? hitem
  next => cases h

/-! ## Fields in any order -/

namespace PlanNode

/-- The fields of a node: the name, what is written for it, and what is taken if it is missing. -/
def fields (node : PlanNode) : List (String × Json × Option Json) := [
  ("kind", node.payload.kind.toJson.reread, none),
  ("action", ((node.payload.motion.map Motion.toJson).getD .null).reread, some .null),
  ("params", node.payload.params.toJson.reread, some (MotionParams.toJson {}).reread),
  ("sense", ((node.payload.sense.map Sense.toJson).getD .null).reread, some .null),
  ("say", ((node.payload.speech.map ofText).getD .null).reread, some .null),
  ("owner", ((node.owner.map ofNat).getD .null).reread, some .null),
  ("children", .array (node.children.map ofNat), some (.array []))]

/-- Whether a value is an object that says what a node says: it has each field once, with the value
that is written, or lacks it where this is what is taken then. The order does not matter, and there
may be other members that can be gathered. -/
def IsGivenBy (node : PlanNode) (value : Json) : Prop := ∃ members, value = .object members ∧
  areMembersReadable depthBound
    (members.filter fun (key, _) => !isNamed "owner" key && !isNamed "children" key) ∧
  ∀ field ∈ node.fields, lookup? (isNamed field.1) members = some (some field.2.1) ∨
    field.2.2 = some field.2.1 ∧ lookup? (isNamed field.1) members = some none

variable {node : PlanNode} {members : List (List Piece × Json)}

theorem lookup?_gathered {name : String} (howner : name ≠ "owner") (hchildren : name ≠ "children") :
    lookup? (isNamed name)
      (members.filter fun (key, _) => !isNamed "owner" key && !isNamed "children" key) =
      lookup? (isNamed name) members := by
  have hkeep : ∀ member ∈ members, isNamed name member.1 = true →
      (!isNamed "owner" member.1 && !isNamed "children" member.1) = true := by
    intro member _ hname
    have htext : text? member.1 = some name := eq_of_beq hname
    simp [isNamed, htext, howner, hchildren]
  rw [lookup?, lookup?, List.filter_filter, List.filter_congr]
  intro member hmember
  cases hname : isNamed name member.1 with
  | false => rfl
  | true => exact hkeep member hmember hname

theorem exists_field {α : Type} (read : Json → Option α) {absent : α} {name : String}
    {value taken : Json} (h : lookup? (isNamed name) members = some (some value) ∨
      some taken = some value ∧ lookup? (isNamed name) members = some none)
    (htaken : read taken = some absent) :
    ∃ field, lookup? (isNamed name) members = some field ∧
      fieldOr? absent read field = read value := by
  rcases h with h | ⟨heq, h⟩
  · exact ⟨some value, h, rfl⟩
  · cases heq
    exact ⟨none, h, htaken.symm⟩

theorem all_keys_of_areMembersReadable {depth : Nat} (h : areMembersReadable depth members) :
    members.all fun (key, _) => (text? key).isSome := by
  induction members with
  | nil => rfl
  | cons member members ih =>
    rw [areMembersReadable, Bool.and_eq_true, Bool.and_eq_true] at h
    rw [List.all_cons, ih h.2, Bool.and_true]
    exact h.1.1

/-- An object that says what a node says is read like what is written of the node. -/
theorem ofJson?_of_isGivenBy {value : Json} (h : node.IsGivenBy value) :
    ofJson? value = ofJson? node.toJson.reread := by
  obtain ⟨members, rfl, hreadable, hfields⟩ := h
  simp only [fields, List.forall_mem_cons] at hfields
  obtain ⟨hkind, hmotion, hparams, hsense, hspeech, howner, hchildren, -⟩ := hfields
  replace hkind : lookup? (isNamed "kind") members = some (some node.payload.kind.toJson.reread) :=
    hkind.resolve_right fun hnone => Option.some_ne_none _ hnone.1.symm
  obtain ⟨motion, hmotion, hmotion'⟩ := exists_field (optional? (Motion.ofJson? true)) hmotion rfl
  obtain ⟨params, hparams, hparams'⟩ := exists_field MotionParams.ofJson? hparams
    ((MotionParams.ofJson?_reread {}).trans MotionParams.reread?_default)
  obtain ⟨sense, hsense, hsense'⟩ := exists_field (optional? (Sense.ofJson? true)) hsense rfl
  obtain ⟨speech, hspeech, hspeech'⟩ := exists_field (optional? asText?) hspeech rfl
  obtain ⟨owner, howner, howner'⟩ := exists_field (optional? (asNatBelow? indexBound)) howner rfl
  obtain ⟨children, hchildren, hchildren'⟩ :=
    exists_field (fun value => do (← asArray? value).mapM (asNatBelow? indexBound)) hchildren rfl
  rw [optional?_reread (Motion.ofJson?_reread true) fun _ => rfl] at hmotion'
  rw [MotionParams.ofJson?_reread] at hparams'
  rw [optional?_reread (Sense.ofJson?_reread true) fun _ => rfl] at hsense'
  rw [@optional?_reread _ ofText asText? text?_reread fun _ => rfl] at hspeech'
  rw [ofJson?_reread]
  refine ofJson?_object howner hchildren rfl hreadable ?_ (howner'.trans (owner_reread node.owner))
    (hchildren'.trans (children_reread node.children))
  have hrecord : fields? ["kind", "action", "params", "sense", "say"] (.object
      (members.filter fun (key, _) => !isNamed "owner" key && !isNamed "children" key)) =
        some [some node.payload.kind.toJson.reread, motion, params, sense, speech] := by
    rw [fields?, if_pos (all_keys_of_areMembersReadable hreadable)]
    simp only [List.mapM_cons, List.mapM_nil, lookup?_gathered, ne_eq, String.reduceEq,
      not_false_eq_true, hkind, hmotion, hparams, hsense, hspeech]
    rfl
  rw [Payload.ofJson?, hrecord]
  simp only [Option.bind_eq_bind, Option.bind_some, NodeKind.ofJson?_reread, hmotion', hparams',
    hsense', hspeech']
  cases node.payload.params.reread? <;> rfl

end PlanNode

/-! ## Plans -/

namespace Plan

/-- Whether the version and the indices of a plan fit their 32 and 64 bits. -/
def IsSized (p : Plan) : Prop := p.version < versionBound ∧ ∀ node ∈ p.nodes, node.IsIndexed

def IsFinite (p : Plan) : Prop := ∀ node ∈ p.nodes, node.payload.params.IsFinite

/-- Whether the finite numbers of a plan are read as they are written. -/
def ReadsBack (p : Plan) : Prop :=
  ∀ node ∈ p.nodes, ∀ x ∈ node.payload.params.numbers, isFinite x → Number.ReadsBack x

instance (p : Plan) : Decidable p.IsSized := inferInstanceAs (Decidable (_ ∧ _))
instance (p : Plan) : Decidable p.IsFinite := inferInstanceAs (Decidable (∀ _ ∈ _, _))
instance (p : Plan) : Decidable p.ReadsBack := inferInstanceAs (Decidable (∀ _ ∈ _, ∀ _ ∈ _, _ → _))

/-- Whether a value is an object that says what a plan says, with its members in any order and among
others. -/
def IsGivenBy (p : Plan) (value : Json) : Prop := ∃ members items, value = .object members ∧
  (members.all fun (key, _) => (text? key).isSome) ∧
  lookup? (isNamed "version") members = some (some (ofNat p.version)) ∧
  lookup? (isNamed "nodes") members = some (some (.array items)) ∧
  List.Forall₂ PlanNode.IsGivenBy p.nodes items

variable {p : Plan} {t : String}

theorem read_eq_ok_iff :
    read t = .ok p ↔ ∃ value, parse? t = some value ∧ ofJson? value = some p := by
  rw [← Option.bind_eq_some_iff, read]
  split
  next q hq => rw [hq, Except.ok.injEq, Option.some.injEq]
  next hnone => exact iff_of_false (fun h => by cases h) fun h => by rw [hnone] at h; cases h

/-- What is read fits its fields, and its numbers are finite. -/
theorem isSized_and_isFinite_of_read (h : read t = .ok p) : p.IsSized ∧ p.IsFinite := by
  obtain ⟨value, -, h⟩ := read_eq_ok_iff.1 h
  obtain ⟨fields, -, h⟩ := Option.bind_eq_some_iff.1 h
  split at h
  next version nodes =>
    obtain ⟨number, hversion, h⟩ := Option.bind_eq_some_iff.1 h
    obtain ⟨items, -, h⟩ := Option.bind_eq_some_iff.1 h
    obtain ⟨read, hnodes, h⟩ := Option.bind_eq_some_iff.1 h
    cases h
    have hnode (node : PlanNode) (hn : node ∈ read) : node.IsIndexed ∧
        node.payload.params.IsFinite := by
      obtain ⟨item, -, hitem⟩ := exists_of_mem_mapM hnodes hn
      exact PlanNode.of_ofJson? hitem
    exact ⟨⟨lt_of_asNatBelow? hversion, fun node hn => (hnode node hn).1⟩,
      fun node hn => (hnode node hn).2⟩
  next => cases h

/-- The text of a plan is read exactly if its numbers are finite: the others are written as
nothing. -/
theorem isOk_read_write_iff (hsized : p.IsSized) : (read p.write).isOk ↔ p.IsFinite := by
  have hnode (node : PlanNode) (hn : node ∈ p.nodes) :
      (PlanNode.ofJson? node.toJson.reread).isSome ↔ node.payload.params.IsFinite := by
    rw [PlanNode.ofJson?_reread, if_pos (hsized.2 node hn), PlanNode.reread?, Option.isSome_map,
      MotionParams.isSome_reread?]
  rw [read_write hsized.1, IsFinite, ← forall₂_congr hnode, ← isSome_mapM]
  cases p.nodes.mapM fun node => PlanNode.ofJson? node.toJson.reread <;>
    simp [Except.isOk, Except.toBool]

theorem read_write_eq (hsized : p.IsSized) (hfinite : p.IsFinite)
    (hreads : p.ReadsBack) : read p.write = .ok p := by
  have hnode (node : PlanNode) (hn : node ∈ p.nodes) :
      PlanNode.ofJson? node.toJson.reread = some node := by
    have hparams : node.payload.params.reread? = some node.payload.params :=
      MotionParams.reread?_eq_self fun x hx =>
        hreads node hn x hx (MotionParams.isFinite_iff_numbers.1 (hfinite node hn) x hx)
    rw [PlanNode.ofJson?_reread, if_pos (hsized.2 node hn), PlanNode.reread?, hparams]
    rfl
  have hnodes : (p.nodes.mapM fun node => PlanNode.ofJson? node.toJson.reread) = some p.nodes :=
    mapM_eq_self hnode
  rw [read_write hsized.1, hnodes]

theorem restore_write_eq (hsized : p.IsSized) (hfinite : p.IsFinite) (hreads : p.ReadsBack) :
    restore p.write = p.validate.map fun _ => p := by
  rw [restore, read_write_eq hsized hfinite hreads]
  rfl

theorem isOk_restore_write_of_not_isFinite (hsized : p.IsSized) (hfinite : ¬ p.IsFinite) :
    (restore p.write).isOk = false := by
  have hread := mt (isOk_read_write_iff hsized).1 hfinite
  rw [restore]
  cases hp : read p.write with
  | error failure => rfl
  | ok q =>
    rw [hp] at hread
    exact absurd rfl hread

/-- An object that says what a plan says is read like what is written of the plan. -/
theorem read_of_isGivenBy (hversion : p.version < versionBound) {value : Json}
    (ht : parse? t = some value) (h : p.IsGivenBy value) : read t = read p.write := by
  obtain ⟨members, items, rfl, hkeys, hgiven, hlisted, hitems⟩ := h
  have hnodes : items.mapM PlanNode.ofJson? = p.nodes.mapM fun node =>
      PlanNode.ofJson? node.toJson.reread := by
    clear hlisted
    generalize p.nodes = nodes at hitems
    induction hitems with
    | nil => rfl
    | cons hitem _ ih =>
      rw [List.mapM_cons, List.mapM_cons, ih, PlanNode.ofJson?_of_isGivenBy hitem]
  have hrecord : fields? ["version", "nodes"] (.object members) =
      some [some (ofNat p.version), some (.array items)] := by
    rw [fields?, if_pos hkeys]
    simp only [List.mapM_cons, List.mapM_nil, hgiven, hlisted]
    rfl
  have hread : ofJson? (.object members) =
      (p.nodes.mapM fun node => PlanNode.ofJson? node.toJson.reread).map fun nodes =>
        { p with nodes } := by
    rw [ofJson?, hrecord]
    simp only [Option.bind_eq_bind, Option.bind_some, asArray?, asNatBelow?_ofNat,
      if_pos hversion, hnodes]
    cases p.nodes.mapM fun node => PlanNode.ofJson? node.toJson.reread <;> rfl
  rw [read_write hversion, read, ht, Option.bind_some, hread]
  cases p.nodes.mapM fun node => PlanNode.ofJson? node.toJson.reread <;> rfl

/-- What is written of a plan whose numbers are finite is read as the plan. Whatever is read can be
written, and is read again, as the same plan. The members of the plan and of its nodes may stand in
any order and among others, and those that say nothing new may be missing. That a number is read as
it was written is asked of the numbers of the plan only. -/
theorem format_round_trips (p : Plan) :
    (p.IsSized → p.IsFinite → p.ReadsBack → read p.write = .ok p) ∧
      (∀ t, read t = .ok p → p.IsSized ∧ p.IsFinite ∧ (read p.write).isOk ∧
        (p.ReadsBack → read p.write = .ok p)) ∧
      (p.IsSized → p.IsFinite → p.ReadsBack → ∀ t value, parse? t = some value → p.IsGivenBy value →
        read t = .ok p) := by
  refine ⟨read_write_eq, fun t h => ?_, fun hsized hfinite hreads t value ht hvalue => ?_⟩
  · obtain ⟨hsized, hfinite⟩ := isSized_and_isFinite_of_read h
    exact ⟨hsized, hfinite, (isOk_read_write_iff hsized).2 hfinite, read_write_eq hsized hfinite⟩
  · exact (read_of_isGivenBy hsized.1 ht hvalue).trans (read_write_eq hsized hfinite hreads)

/-- A plan of one motion, and a text that gives it with its members the other way round, without
what says nothing new, and with a member that means nothing. -/
theorem format_round_trips_reordered :
    let p : Plan := {
      version := 7
      nodes := [{
        payload := { kind := .once, motion := some .left, params := { dx := 2.5, velocity := 0.1 } }
        children := [0, 9] }] }
    let node : Json := .object
      [(pieces "note", .array []), (pieces "children", .array [ofNat 0, ofNat 9]),
      (pieces "params", MotionParams.toJson { dx := 2.5, velocity := 0.1 }),
      (pieces "action", ofText "Left"),
      (pieces "kind", ofText "Do")]
    let value : Json := .object [(pieces "nodes", .array [node]), (pieces "version", ofNat 7)]
    p.IsSized ∧ p.IsFinite ∧ p.ReadsBack ∧ parse? value.pretty = some value ∧ p.IsGivenBy value ∧
      read p.write = .ok p ∧
      read value.pretty = .ok p ∧ (read p.write).isOk := by
  intro p node value
  have hsized : p.IsSized := by decide
  have hfinite : p.IsFinite := by decide +kernel
  have hreads : p.ReadsBack := by decide +kernel
  have hparse : parse? value.pretty = some value := by
    have hlegal : value.IsLegal :=
      ⟨⟨_, rfl⟩,
        ⟨⟨⟨_, rfl⟩, trivial, ⟨_, rfl⟩, ⟨isLegal_ofNat 0, isLegal_ofNat 9, trivial⟩, ⟨_, rfl⟩,
          MotionParams.isLegal_toJson _, ⟨_, rfl⟩, isLegal_ofText _, ⟨_, rfl⟩, isLegal_ofText _,
          trivial⟩, trivial⟩,
        ⟨_, rfl⟩, isLegal_ofNat 7, trivial⟩
    exact parse?_pretty hlegal
  have hgiven : p.IsGivenBy value := by
    refine ⟨_, _, rfl, rfl, rfl, rfl, .cons ⟨_, rfl, by decide +kernel, ?_⟩ .nil⟩
    simp only [PlanNode.fields, List.forall_mem_cons]
    exact ⟨.inl rfl, .inl rfl, .inl rfl, .inr ⟨rfl, rfl⟩, .inr ⟨rfl, rfl⟩, .inr ⟨rfl, rfl⟩,
      .inl rfl, fun _ h => absurd h List.not_mem_nil⟩
  obtain ⟨hwritten, hread, hgives⟩ := format_round_trips p
  have hvalue := hgives hsized hfinite hreads value.pretty value hparse hgiven
  exact ⟨hsized, hfinite, hreads, hparse, hgiven, hwritten hsized hfinite hreads, hvalue,
    (hread value.pretty hvalue).2.2.1⟩

end Plan
end MotionScript
