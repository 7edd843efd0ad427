import MotionScript.Graph.Rendering
import MotionScript.Proofs.FiniteNumbers
import MotionScript.Proofs.GraphEdits
import MotionScript.Text.Split

/-!
# One line for each walk

A graph is shown by the walks from a node, of which there may be many to the same node. A walk is
given by the branches that it takes, so the order of the lines is the lexicographic one: a walk
comes before those that go on from its end, and these come by the branch that they take there. What
a node says is written in printable characters only. So no text that a node holds ends a line or
indents one, and where lines begin and how far they are indented depends on the edges alone.
-/
namespace MotionScript

/-! ## Printable texts -/

namespace Text

def Printable (text : List Char) : Prop := ∀ c ∈ text, isPrintable c

instance (text : List Char) : Decidable (Printable text) := List.decidableBAll _ text

theorem Printable.append {first second : List Char} (h : Printable first) (h' : Printable second) :
    Printable (first ++ second) := fun c hc => (List.mem_append.mp hc).elim (h c) (h' c)

theorem Printable.not_mem {text : List Char} (h : Printable text) {c : Char}
    (hc : isPrintable c = false) : c ∉ text :=
  fun hm => by simp [h c hm] at hc

theorem Printable.intercalate {separator : String} (hseparator : Printable separator.toList)
    {texts : List String} (h : ∀ text ∈ texts, Printable text.toList) :
    Printable (separator.intercalate texts).toList := by
  induction texts with
  | nil => simp [Printable]
  | cons text texts ih =>
    obtain ⟨htext, htexts⟩ := List.forall_mem_cons.mp h
    cases texts with
    | nil => simpa using htext
    | cons next texts =>
      rw [String.intercalate_cons_cons, String.toList_append, String.toList_append]
      exact (htext.append hseparator).append (ih htexts)

theorem isPrintable_of_isDigit {c : Char} (h : c.isDigit) : isPrintable c := by
  have hcode := toNat_of_isDigit h
  simp only [isPrintable, Bool.or_eq_true, Bool.and_eq_true, decide_eq_true_eq]
  exact .inl (by omega)

theorem printable_toDigits {base : Nat} (hone : 1 < base) (hbase : base ≤ 16) (n : Nat) :
    Printable (Nat.toDigits base n) := by
  have hdigit : ∀ d < 16, isPrintable d.digitChar := by decide
  induction n using Nat.strongRecOn with
  | ind n ih =>
    rcases Nat.lt_or_ge n base with hlt | hle
    · rw [Nat.toDigits_of_lt_base hlt]
      simpa [Printable] using hdigit n (by omega)
    · rw [Nat.toDigits_of_base_le hone hle]
      refine (ih (n / base) (Nat.div_lt_self (by omega) hone)).append ?_
      have hlast := Nat.mod_lt n (Nat.lt_trans Nat.zero_lt_one hone)
      simpa [Printable] using hdigit (n % base) (by omega)

theorem printable_quoteChar (c : Char) : Printable (quoteChar c) := by
  unfold quoteChar
  split
  case h_7 c _ _ _ _ _ _ =>
    split
    next =>
      have hopen : Printable ['\\', 'u', '{'] := by decide
      have hclose : Printable ['}'] := by decide
      exact (hopen.append (printable_toDigits (by decide) (by decide) _)).append hclose
    next hshown =>
      rw [Bool.or_eq_true, not_or, Bool.not_eq_true', Bool.not_eq_false] at hshown
      simpa [Printable] using hshown.2
  all_goals decide

theorem printable_quoted (text : String) : Printable (quoted text).toList := by
  have hquote : Printable ['"'] := by decide
  rw [quoted, String.toList_ofList]
  refine (hquote.append fun c hc => ?_).append hquote
  obtain ⟨d, -, hd⟩ := List.mem_flatMap.mp hc
  exact printable_quoteChar d c hd

end Text

open Text

namespace Number

theorem Numeral.Legal.printable {n : Numeral} (hn : n.Legal) : Printable n.chars := by
  have hdigits {digits : List Char} (h : AreDigits digits) : Printable digits :=
    fun c hc => isPrintable_of_isDigit (h.2 c hc)
  have hcons {c : Char} (hc : isPrintable c) {rest : List Char} (h : Printable rest) :
      Printable (c :: rest) :=
    List.forall_mem_cons.mpr ⟨hc, h⟩
  have hnil : Printable [] := by decide
  rw [chars]
  refine ((Printable.append ?_ (hdigits hn.whole)).append ?_).append ?_
  · split <;> decide
  · cases hfraction : n.fraction with
    | none => exact hnil
    | some digits => exact hcons (by decide) (hdigits (hn.fraction digits hfraction))
  · cases hexponent : n.exponent with
    | none => exact hnil
    | some power =>
      refine hcons (by decide) (Printable.append ?_ (hdigits (hn.exponent power hexponent)))
      rcases power.sign with _ | _ | _ <;> decide

theorem printable_display (x : Float) : Printable (display x).toList := by
  unfold display
  split
  next => decide
  next negative _ => cases negative <;> decide
  next negative mantissa exponent hview =>
    obtain ⟨hm, he, he'⟩ := bounds_of_view hview
    rw [String.toList_ofList]
    exact (displayLayout.legal_numeral negative hm he he').printable

end Number

theorem MotionParams.printable_text (p : MotionParams) : Printable p.text.toList := by
  have hopen : Printable "[".toList := by decide
  have hclose : Printable "]".toList := by decide
  have hcomma : Printable ", ".toList := by decide
  rw [text, String.toList_append, String.toList_append]
  refine (hopen.append (hcomma.intercalate fun x hx => ?_)).append hclose
  obtain ⟨number, -, rfl⟩ := List.mem_map.mp hx
  exact Number.printable_display number

namespace Graph

/-- The fields of a node are written in characters that show as themselves, whatever the node
says. -/
theorem printable_describe (id : NodeId) (p : Payload) : Printable (describe id p).toList := by
  have hnone : Printable "None".toList := by decide
  have hor (text : Option String) (h : ∀ shown ∈ text, Printable shown.toList) :
      Printable (text.getD "None").toList := by
    cases text with
    | none => exact hnone
    | some shown => exact h shown rfl
  have hblank : Printable " ".toList := by decide
  refine hblank.intercalate ?_
  simp only [List.forall_mem_cons, List.not_mem_nil, false_implies, implies_true, and_true]
  refine ⟨?_, ?_, hor _ fun shown hshown => ?_, ?_, hor _ fun shown hshown => ?_,
    hor _ fun shown hshown => ?_⟩
  · change Printable (String.ofList (Nat.toDigits 10 id)).toList
    rw [String.toList_ofList]
    exact printable_toDigits (by decide) (by decide) id
  · cases p.kind <;> decide
  · obtain ⟨motion, -, rfl⟩ := Option.map_eq_some_iff.mp hshown
    cases motion <;> decide
  · split
    · exact p.params.printable_text
    · exact hnone
  · obtain ⟨sense, -, rfl⟩ := Option.map_eq_some_iff.mp hshown
    cases sense
    decide
  · obtain ⟨speech, -, rfl⟩ := Option.map_eq_some_iff.mp hshown
    exact printable_quoted speech

/-! ## Walks and their lines -/

/-- Where a walk ends that takes a branch at each of its nodes, if each of them has the branch. -/
def walk? (g : Graph) : NodeId → List Nat → Option NodeId
  | start, [] => some start
  | start, branch :: walk => (g.child? start branch).bind fun child => g.walk? child walk

/-- The walks of up to a number of edges: one that ends at once, and then those by each branch. -/
def walks (g : Graph) : Nat → NodeId → List (List Nat)
  | 0, _ => [[]]
  | edges + 1, start =>
    [] :: (g.children start).zipIdx.flatMap fun (child, branch) =>
      (g.walks edges child).map (branch :: ·)

/-- The line of a walk whose first line is at a level: one tab more for each edge, and the fields of
the node at its end. -/
def line? (g : Graph) (level : Nat) (start : NodeId) (walk : List Nat) : Option String := do
  let id ← g.walk? start walk
  let p ← g.payload? id
  return String.ofList (List.replicate (level + walk.length) '\t') ++ describe id p

def indentation (line : String) : Nat := (line.toList.takeWhile (· == '\t')).length

/-- The nodes of two graphs have the same children, whatever they say. -/
def SameEdges (g g' : Graph) : Prop :=
  ∀ id, (g.node? id).map Node.children = (g'.node? id).map Node.children

variable {g g' : Graph}

theorem mem_walks {edges : Nat} {start : NodeId} {walk : List Nat} :
    walk ∈ g.walks edges start ↔ walk.length ≤ edges ∧ (g.walk? start walk).isSome := by
  induction edges generalizing start walk with
  | zero =>
    simp only [walks, List.mem_singleton, Nat.le_zero, List.length_eq_zero_iff]
    exact ⟨fun h => ⟨h, by rw [h]; rfl⟩, And.left⟩
  | succ edges ih =>
    cases walk with
    | nil => simp [walks, walk?]
    | cons branch walk =>
      simp only [walks, List.mem_cons, reduceCtorEq, false_or, List.mem_flatMap, List.mem_map,
        List.cons.injEq, existsAndEq, and_true, Prod.exists, List.mem_zipIdx_iff_getElem?, ih,
        List.length_cons, Nat.add_le_add_iff_right, walk?]
      cases hchild : g.child? start branch with
      | none => simp_all [child?]
      | some child => simp_all [child?]

/-- A walk comes before those that go on from its end, and these come in the order of their
branches. -/
theorem pairwise_walks (edges : Nat) (start : NodeId) : (g.walks edges start).Pairwise (· < ·) := by
  induction edges generalizing start with
  | zero => exact List.pairwise_singleton _ _
  | succ edges ih =>
    rw [walks, List.pairwise_cons, List.pairwise_flatMap]
    refine ⟨fun walk hwalk => ?_, fun (child, branch) _ => ?_, ?_⟩
    · obtain ⟨_, -, hwalk⟩ := List.mem_flatMap.mp hwalk
      obtain ⟨rest, -, rfl⟩ := List.mem_map.mp hwalk
      exact List.nil_lt_cons _ _
    · exact List.pairwise_map.mpr
        ((ih child).imp fun h => List.cons_lt_cons_iff.mpr (.inr ⟨rfl, h⟩))
    · have hbranches : ((g.children start).zipIdx.map Prod.snd).Pairwise (· < ·) := by
        rw [List.zipIdx_map_snd]
        exact List.pairwise_lt_range'
      refine (List.pairwise_map.mp hbranches).imp fun hlt walk hwalk later hlater => ?_
      obtain ⟨rest, -, rfl⟩ := List.mem_map.mp hwalk
      obtain ⟨rest', -, rfl⟩ := List.mem_map.mp hlater
      exact List.cons_lt_cons_iff.mpr (.inl hlt)

theorem line?_cons (level : Nat) {start child : NodeId} {branch : Nat}
    (h : g.child? start branch = some child) (walk : List Nat) :
    g.line? level start (branch :: walk) = g.line? (level + 1) child walk := by
  simp only [line?, walk?, h, Option.bind_some, List.length_cons, Nat.add_right_comm level,
    Nat.add_assoc]

theorem renderLines_eq (hchild : ∀ id, ∀ child ∈ g.children id, child < g.size) {start : NodeId}
    (hstart : start < g.size) (edges level : Nat) :
    (g.renderLines (edges + 1) level start).map some =
      (g.walks edges start).map (g.line? level start) := by
  induction edges generalizing level start with
  | zero =>
    obtain ⟨node, hnode⟩ := exists_node hstart
    simp [renderLines, walks, line?, walk?, payload?, hnode]
  | succ edges ih =>
    obtain ⟨node, hnode⟩ := exists_node hstart
    have hchildren : g.children start = node.children := by simp [children, hnode]
    have hhead : g.line? level start [] =
        some (String.ofList (List.replicate level '\t') ++ describe start node.payload) := by
      simp [line?, walk?, payload?, hnode]
    have hbranch : ∀ edge ∈ (g.children start).zipIdx,
        ((g.walks edges edge.1).map (edge.2 :: ·)).map (g.line? level start) =
        (g.renderLines (edges + 1) (level + 1) edge.1).map some := by
      rintro ⟨child, branch⟩ hedge
      have hat : g.child? start branch = some child := List.mem_zipIdx_iff_getElem?.mp hedge
      rw [ih (hchild start child (mem_children_of_child? hat)), List.map_map]
      exact List.map_congr_left fun walk _ => line?_cons level hat walk
    calc (g.renderLines (edges + 2) level start).map some
        = g.line? level start [] ::
            (g.children start).flatMap fun child =>
              (g.renderLines (edges + 1) (level + 1) child).map some := by
          rw [hhead, hchildren, renderLines, hnode, List.map_cons, List.map_flatMap]
      _ = g.line? level start [] ::
            (g.children start).zipIdx.flatMap fun edge =>
              (g.renderLines (edges + 1) (level + 1) edge.1).map some := by
          conv_lhs => rw [← List.zipIdx_map_fst 0 (g.children start), List.flatMap_map]
      _ = (g.walks (edges + 1) start).map (g.line? level start) := by
          rw [walks, List.map_cons, List.map_flatMap, List.flatMap_congr hbranch]

/-! ## The lines of a rendering -/

/-- A line is indented by one tab for each edge of its walk and by none for what a node says. -/
theorem indentation_of_line? {level : Nat} {start : NodeId} {walk : List Nat} {line : String}
    (h : g.line? level start walk = some line) : indentation line = level + walk.length := by
  simp only [line?, Option.bind_eq_bind, Option.bind_eq_some_iff, Option.pure_def,
    Option.some.injEq] at h
  obtain ⟨id, -, p, -, rfl⟩ := h
  have htab : '\t' ∉ (describe id p).toList := (printable_describe id p).not_mem (by decide)
  have hfields : (describe id p).toList.takeWhile (· == '\t') = [] := by
    rw [List.takeWhile_eq_nil_iff]
    exact fun hpos he => htab (beq_iff_eq.mp he ▸ List.getElem_mem hpos)
  rw [indentation, String.toList_append, String.toList_ofList, List.takeWhile_append_of_pos,
    hfields, List.append_nil, List.length_replicate]
  exact fun c hc => beq_iff_eq.mpr (List.eq_of_mem_replicate hc)

theorem not_mem_of_line? {level : Nat} {start : NodeId} {walk : List Nat} {line : String}
    (h : g.line? level start walk = some line) : '\n' ∉ line.toList := by
  simp only [line?, Option.bind_eq_bind, Option.bind_eq_some_iff, Option.pure_def,
    Option.some.injEq] at h
  obtain ⟨id, -, p, -, rfl⟩ := h
  rw [String.toList_append, String.toList_ofList, List.mem_append, not_or]
  exact ⟨fun hm => absurd (List.eq_of_mem_replicate hm) (by decide),
    (printable_describe id p).not_mem (by decide)⟩

end Graph

theorem Text.lines_join {texts : List String} (h : ∀ text ∈ texts, '\n' ∉ text.toList) :
    lines (String.join (texts.map (· ++ "\n"))) = texts := by
  have hsplit : splitAt '\n' (String.join (texts.map (· ++ "\n"))).toList =
      texts.map String.toList ++ [[]] := by
    induction texts with
    | nil => rfl
    | cons text texts ih =>
      obtain ⟨htext, htexts⟩ := List.forall_mem_cons.mp h
      have hchars : (String.join ((text :: texts).map (· ++ "\n"))).toList =
          text.toList ++ '\n' :: (String.join (texts.map (· ++ "\n"))).toList := by
            simp [String.toList_join]
      rw [hchars, splitAt_append, splitAt_of_not_mem htext, ih htexts]
      rfl
  simp only [lines, hsplit, List.getLast?_append, List.getLast?_singleton, Option.some_or, if_true,
    List.dropLast_concat, List.map_map]
  exact List.map_id'' (fun _ => String.ofList_toList) texts

namespace Graph

variable {g g' : Graph}

namespace SameEdges

variable (h : g.SameEdges g')
include h

theorem children_eq : g'.children = g.children := by
  funext id
  rw [children, children, h id]

theorem lt_size {id : NodeId} (hid : id < g.size) : id < g'.size := by
  rw [← node?_isSome_iff] at hid ⊢
  rwa [← Option.isSome_map, ← h id, Option.isSome_map]

theorem walks_eq (edges : Nat) (start : NodeId) : g'.walks edges start = g.walks edges start := by
  induction edges generalizing start with
  | zero => rfl
  | succ edges ih => simp only [walks, h.children_eq, ih]

end SameEdges

/-- Each line ends where the next begins. -/
theorem lines_render (hchild : ∀ id, ∀ child ∈ g.children id, child < g.size) {start : NodeId}
    (hstart : start < g.size) :
    Text.lines (g.render start) = g.renderLines 10 0 start := by
  refine Text.lines_join fun line hline => ?_
  have hmem : some line ∈ (g.walks 9 start).map (g.line? 0 start) := by
    rw [← renderLines_eq hchild hstart]
    exact List.mem_map_of_mem hline
  obtain ⟨walk, -, hwalk⟩ := List.mem_map.mp hmem
  exact not_mem_of_line? hwalk

theorem map_indentation_renderLines (hchild : ∀ id, ∀ child ∈ g.children id, child < g.size)
    {start : NodeId} (hstart : start < g.size) (edges : Nat) :
    (g.renderLines (edges + 1) 0 start).map indentation =
      (g.walks edges start).map List.length := by
  have hlines := renderLines_eq hchild hstart edges 0
  calc (g.renderLines (edges + 1) 0 start).map indentation
      = ((g.renderLines (edges + 1) 0 start).map some).map (·.elim 0 indentation) := by
        rw [List.map_map]
        rfl
    _ = (g.walks edges start).map fun walk => (g.line? 0 start walk).elim 0 indentation := by
        rw [hlines, List.map_map]
        rfl
    _ = (g.walks edges start).map List.length := by
        refine List.map_congr_left fun walk hwalk => ?_
        have hmem : g.line? 0 start walk ∈ (g.renderLines (edges + 1) 0 start).map some := by
          rw [hlines]
          exact List.mem_map_of_mem hwalk
        obtain ⟨line, -, hline⟩ := List.mem_map.mp hmem
        rw [← hline, Option.elim_some, indentation_of_line? hline.symm, Nat.zero_add]

/-- A rendering has one line for each walk of up to nine edges, in pre-order and branch order. The
line is indented by the length of the walk and shows the node at its end. How many lines there are
and how far each is indented is the same for every graph with the same edges, whatever its nodes
say. -/
theorem render_by_walks (hchild : ∀ id, ∀ child ∈ g.children id, child < g.size) {start : NodeId}
    (hstart : start < g.size) :
    ∃ walks : List (List Nat), walks.Pairwise (· < ·) ∧
      (∀ walk, walk ∈ walks ↔ walk.length ≤ 9 ∧ (g.walk? start walk).isSome) ∧
      (Text.lines (g.render start)).map some = walks.map (g.line? 0 start) ∧
      ∀ g' : Graph, g.SameEdges g' →
        (Text.lines (g'.render start)).map indentation = walks.map List.length := by
  refine ⟨g.walks 9 start, pairwise_walks 9 start, fun walk => mem_walks, ?_, fun g' h => ?_⟩
  · rw [lines_render hchild hstart, renderLines_eq hchild hstart]
  · have hchild' : ∀ id, ∀ child ∈ g'.children id, child < g'.size := by
      rw [h.children_eq]
      exact fun id child hmem => h.lt_size (hchild id child hmem)
    rw [lines_render hchild' (h.lt_size hstart),
      map_indentation_renderLines hchild' (h.lt_size hstart), h.walks_eq]

/-- A loop says a text with line ends, tabs and quotes, and there are two ways back from it. -/
theorem render_by_walks_loop :
    let g : Graph := ⟨#[{ payload := .root, children := [1] },
      { payload := .header .whileLoop, children := [2, 1] },
      { payload := .ofSpeech "a\n\t\"b\"\n", children := [1, 1] }]⟩
    (∀ id, ∀ child ∈ g.children id, child < g.size) ∧ 1 < g.size ∧
      g.line? 0 1 [0] = some "\t2 Say None None None \"a\\n\\t\\\"b\\\"\\n\"" ∧
      ∃ walks : List (List Nat), walks.Pairwise (· < ·) ∧
        (∀ walk, walk ∈ walks ↔ walk.length ≤ 9 ∧ (g.walk? 1 walk).isSome) ∧
        (Text.lines (g.render 1)).map some = walks.map (g.line? 0 1) ∧
        ∀ g' : Graph, g.SameEdges g' →
          (Text.lines (g'.render 1)).map indentation = walks.map List.length := by
  intro g
  have hchild : ∀ id, ∀ child ∈ g.children id, child < g.size := by
    intro id child hc
    have hall : ∀ id < 3, ∀ child ∈ g.children id, child < 3 := by decide
    exact hall id (lt_size_of_mem_children hc) child hc
  exact ⟨hchild, by decide, by decide +kernel, render_by_walks hchild (by decide)⟩

end Graph
end MotionScript
