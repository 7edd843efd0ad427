import MotionScript.Proofs.DepthFirstOrder

/-!
# Depth-first pre-order

The search of a graph keeps a stack. Here its order is described without one, as the recursive
search has it: a node comes before what is found from its children, and this comes before what is
found from the nodes beside it; what has been found is passed over. This determines the order, and
it only depends on the lists of children, so it is carried along by a renaming.
-/
namespace MotionScript

/-- What is found from a list of nodes in depth-first pre-order, when some have been found
already. -/
inductive DepthFirst (children : Nat → List Nat) : List Nat → List Nat → List Nat → Prop
  | nil (seen : List Nat) : DepthFirst children seen [] []
  | skip {seen rest found : List Nat} {id : Nat} : id ∈ seen → DepthFirst children seen rest found →
      DepthFirst children seen (id :: rest) found
  | visit {seen rest inner outer : List Nat} {id : Nat} : id ∉ seen →
      DepthFirst children (id :: seen) (children id) inner →
      DepthFirst children (inner ++ id :: seen) rest outer →
      DepthFirst children seen (id :: rest) (id :: inner ++ outer)

namespace DepthFirst

variable {children children' : Nat → List Nat} {seen todo found : List Nat}

theorem congr (h : DepthFirst children seen todo found) {seen' : List Nat}
    (hseen : ∀ id, id ∈ seen' ↔ id ∈ seen) :
    DepthFirst children seen' todo found := by
  induction h generalizing seen' with
  | nil => exact .nil _
  | skip hid _ ih => exact .skip ((hseen _).mpr hid) (ih hseen)
  | visit hid _ _ ihInner ihOuter =>
    refine .visit (fun hm => hid ((hseen _).mp hm)) (ihInner fun id => ?_) (ihOuter fun id => ?_)
    · rw [List.mem_cons, List.mem_cons, hseen]
    · rw [List.mem_append, List.mem_append, List.mem_cons, List.mem_cons, hseen]

theorem unique (h : DepthFirst children seen todo found) {found' : List Nat}
    (h' : DepthFirst children seen todo found') :
    found = found' := by
  induction h generalizing found' with
  | nil =>
    cases h'
    rfl
  | skip hid _ ih =>
    cases h' with
    | skip _ h' => exact ih h'
    | visit hid' => exact absurd hid hid'
  | visit hid _ _ ihInner ihOuter =>
    cases h' with
    | skip hid' => exact absurd hid' hid
    | visit _ hinner houter =>
      obtain rfl := ihInner hinner
      obtain rfl := ihOuter houter
      rfl

/-- What is found from two lists is what is found from the first, and then from the second. -/
theorem of_append {first second : List Nat} (h : DepthFirst children seen (first ++ second) found) :
    ∃ inner outer, found = inner ++ outer ∧ DepthFirst children seen first inner ∧
      DepthFirst children (inner ++ seen) second outer := by
  generalize htodo : first ++ second = todo at h
  induction h generalizing first with
  | nil =>
    obtain ⟨rfl, rfl⟩ := List.append_eq_nil_iff.mp htodo
    exact ⟨[], [], rfl, .nil _, .nil _⟩
  | @skip seen rest found id hid hrest ih =>
    cases first with
    | nil =>
      cases htodo
      exact ⟨[], found, rfl, .nil _, .skip hid hrest⟩
    | cons x first =>
      cases htodo
      obtain ⟨inner, outer, rfl, hfirst, hsecond⟩ := ih rfl
      exact ⟨inner, outer, rfl, .skip hid hfirst, hsecond⟩
  | @visit seen rest inside beside id hid hinside hbeside _ ih =>
    cases first with
    | nil =>
      cases htodo
      exact ⟨[], _, rfl, .nil _, .visit hid hinside hbeside⟩
    | cons x first =>
      cases htodo
      obtain ⟨inner, outer, rfl, hfirst, hsecond⟩ := ih rfl
      refine ⟨id :: inside ++ inner, outer,
        by simp, .visit hid hinside hfirst, hsecond.congr fun y => ?_⟩
      simp only [List.mem_append, List.mem_cons]
      tauto

theorem forall_found {holds : Nat → Prop}
    (hclosed : ∀ id, holds id → ∀ child ∈ children id, holds child)
    (h : DepthFirst children seen todo found)
    (htodo : ∀ id ∈ todo, holds id) : ∀ id ∈ found, holds id := by
  induction h with
  | nil => simp
  | skip _ _ ih => exact ih fun id hid => htodo id (List.mem_cons_of_mem _ hid)
  | visit _ _ _ ihInner ihOuter =>
    have hid := htodo _ List.mem_cons_self
    have hinner := ihInner (hclosed _ hid)
    have houter := ihOuter fun x hx => htodo x (List.mem_cons_of_mem _ hx)
    simpa only [List.cons_append, List.forall_mem_cons, List.forall_mem_append]
      using ⟨hid, hinner, houter⟩

theorem map {holds : Nat → Prop} {f : Nat → Nat}
    (hclosed : ∀ id, holds id → ∀ child ∈ children id, holds child)
    (hf : ∀ id other, holds id → holds other → f id = f other → id = other)
    (hchildren : ∀ id, holds id → children' (f id) = (children id).map f)
    (h : DepthFirst children seen todo found) (hseen : ∀ id ∈ seen, holds id)
    (htodo : ∀ id ∈ todo, holds id) :
    DepthFirst children' (seen.map f) (todo.map f) (found.map f) := by
  induction h with
  | nil => exact .nil _
  | skip hid _ ih =>
    exact .skip (List.mem_map_of_mem hid) (ih hseen fun x hx => htodo x (List.mem_cons_of_mem _ hx))
  | @visit seen rest inner outer id hid hinner houter ihInner ihOuter =>
    have hholds := htodo id List.mem_cons_self
    have hseen' : ∀ x ∈ id :: seen, holds x := List.forall_mem_cons.mpr ⟨hholds, hseen⟩
    have hfound : ∀ x ∈ inner, holds x := forall_found hclosed hinner (hclosed id hholds)
    have hnew : f id ∉ seen.map f := by
      intro hm
      obtain ⟨x, hx, he⟩ := List.mem_map.mp hm
      exact hid (hf x id (hseen x hx) hholds he ▸ hx)
    have hin := ihInner hseen' (hclosed id hholds)
    have hout := ihOuter (List.forall_mem_append.mpr ⟨hfound, hseen'⟩) fun x hx =>
      htodo x (List.mem_cons_of_mem _ hx)
    rw [← hchildren id hholds] at hin
    rw [List.map_append] at hout
    simpa only [List.map_cons, List.map_append] using visit hnew hin hout

end DepthFirst

namespace Graph

variable {g : Graph}

/-- The search with a stack finds the nodes in depth-first pre-order. -/
theorem depthFirst_visit (hchild : ∀ id, ∀ child ∈ g.children id, child < g.size)
    {unvisited stack seen : List NodeId} (hnodup : unvisited.Nodup)
    (hseen : ∀ id < g.size, id ∈ seen ↔ id ∉ unvisited) (hstack : ∀ id ∈ stack, id < g.size) :
    DepthFirst g.children seen stack (g.visit unvisited stack) := by
  induction unvisited, stack using visit.induct g generalizing seen with
  | case1 unvisited =>
    rw [visit]
    exact .nil _
  | case2 unvisited id rest hid _ _ ih =>
    obtain ⟨hlt, hrest⟩ := List.forall_mem_cons.mp hstack
    rw [visit, dif_pos hid]
    have hnew : ∀ x < g.size, x ∈ id :: seen ↔ x ∉ unvisited.erase id := by
      intro x hx
      rw [hnodup.mem_erase_iff, List.mem_cons, hseen x hx]
      tauto
    -- the stack has the children before what was owed, and what is found from both comes apart
    -- again
    have hstack' : ∀ x ∈ g.children id ++ rest, x < g.size :=
      List.forall_mem_append.mpr ⟨hchild id, hrest⟩
    obtain ⟨inner, outer, hfound, hinner, houter⟩ := (ih (hnodup.erase id) hnew hstack').of_append
    rw [hfound]
    exact .visit (fun hm => (hseen id hlt).mp hm hid) hinner houter
  | case3 unvisited id rest hid ih =>
    obtain ⟨hlt, hrest⟩ := List.forall_mem_cons.mp hstack
    rw [visit, dif_neg hid]
    exact .skip ((hseen id hlt).mpr hid) (ih hnodup hseen hrest)

theorem depthFirst_reachable (hchild : ∀ id, ∀ child ∈ g.children id, child < g.size)
    {start : NodeId} (hstart : start < g.size) :
    DepthFirst g.children [] [start] (g.reachable start) :=
  depthFirst_visit hchild List.nodup_range (by simp) (by simpa using hstart)

end Graph
end MotionScript
