import MotionScript.Proofs.InstructionSteps
import MotionScript.Proofs.PlanNames
import MotionScript.Proofs.PlanText

/-!
# What becomes of stored plans

A session that has been told that its program was stored keeps the plan until it is told so again
for the same name. The plan is accepted whenever it is looked at again, since nothing a session
records claims to be a root. Its text is readable too unless one of its numbers is infinite: digits
in a line may be worth more than every finite number, and the plan is stored nevertheless.
-/
namespace MotionScript

theorem MemoryStore.text?_saved (store : MemoryStore) (name text : String) :
    MemoryStore.text? ⟨(name, text) :: store.plans.filter (·.1 != name)⟩ name = some text := by
  simp [text?]

theorem MemoryStore.text?_saved_of_ne (store : MemoryStore) {name other : String}
    (hne : other ≠ name) (text : String) :
    MemoryStore.text? ⟨(name, text) :: store.plans.filter (·.1 != name)⟩ other =
      store.text? other := by
  have hother : (other == name) = false := beq_eq_false_iff_ne.2 hne
  have hkept : (store.plans.filter (·.1 != name)).lookup other = store.plans.lookup other := by
    induction store.plans with
    | nil => rfl
    | cons plan plans ih =>
      obtain ⟨key, kept⟩ := plan
      by_cases hkey : key = name
      · subst hkey
        simp [List.lookup_cons, hother, ih]
      · simp [List.lookup_cons, hkey, ih]
  simp [text?, List.lookup_cons, hother, hkept]

/-- What is loaded from memory is the text under the name. -/
theorem MemoryStore.load_of_text? {store : MemoryStore} {name text : String}
    (hname : Plan.checkName name = .ok ()) (h : store.text? name = some text) :
    store.load name = Plan.restore text := by
  simp only [load, hname, h, Except.bind]

namespace Session

variable {s t : Session} {store : MemoryStore} {turns : Nat} {schedule : Schedule} {typed : String}
  {r : Reaction LineOutcome}

/-! ## One line after the other -/

/-- Lines that lead from one session to another, with reactions that pass a test. -/
inductive Hears (test : Session → Reaction LineOutcome → Prop) : Session → Session → Prop
  | nothing (s : Session) : Hears test s s
  | line {s t : Session} {turns : Nat} {schedule : Schedule} {typed : String}
      {r : Reaction LineOutcome} :
      s.handleLine turns schedule typed = some r → test s r → Hears test r.session t →
        Hears test s t

/-- What one line may do: at most one edit, and a change of the plans only if it is told. -/
theorem change_of_handleLine (hs : s.store = .memory store)
    (hr : s.handleLine turns schedule typed = some r) :
    (r.session.builder = s.builder ∨
      ∃ edit : Builder.Edit, edit.AppendsNoRoot ∧ r.session.builder = s.builder.apply edit) ∧
      (r.session.store = .memory store ∨
        ∃ name text, r.events.back? = some (.feedback (s.savedText name)) ∧
        r.session.store = .memory ⟨(name, text) :: store.plans.filter (·.1 != name)⟩) := by
  unfold handleLine at hr
  cases htyped : Request.ofLine typed with
  | nothing =>
    rw [htyped] at hr
    cases hr
    exact ⟨.inl rfl, .inl hs⟩
  | shutdown =>
    rw [htyped] at hr
    cases hr
    exact ⟨.inl rfl, .inl hs⟩
  | instruction line =>
    rw [htyped] at hr
    obtain ⟨processed, hprocessed, rfl⟩ := Option.map_eq_some_iff.mp hr
    cases hreply : s.reply line with
    | edited result after =>
      have hdoes := does_reply s line
      rw [process_of_edited hreply] at hprocessed
      cases hprocessed
      rw [hreply] at hdoes
      cases hdoes with
      | fail => exact ⟨.inl rfl, .inl hs⟩
      | hear => exact ⟨.inl rfl, .inl hs⟩
      | edit edit hkind => exact ⟨.inr ⟨edit, hkind, rfl⟩, .inl hs⟩
      | save _ _ hsave =>
        rw [hs] at hsave
        rcases PlanStore.save_memory_cases hsave with ⟨_, -, hstore⟩ | ⟨rfl, hstore⟩
        · exact ⟨.inl rfl, .inl hstore⟩
        · exact ⟨.inl rfl, .inr ⟨_, _, by simp [answer, Except.map], hstore⟩⟩
    | execution =>
      simp only [process, hreply] at hprocessed
      obtain ⟨ending, -, rfl⟩ := Option.map_eq_some_iff.mp hprocessed
      exact ⟨.inl rfl, .inl hs⟩

/-- A session that keeps its plans in memory and whose program was recorded by edits. -/
structure Recording (s : Session) : Prop where
  store : ∃ store, s.store = .memory store
  edits : ∃ edits, (∀ edit ∈ edits, edit.AppendsNoRoot) ∧ s.builder = Builder.applyAll {} edits

theorem Recording.step (h : s.Recording)
    (hr : s.handleLine turns schedule typed = some r) : r.session.Recording := by
  obtain ⟨⟨store, hs⟩, edits, hkinds, hbuilder⟩ := h
  obtain ⟨hedit, hstore⟩ := change_of_handleLine hs hr
  constructor
  · rcases hstore with h | ⟨name, text, -, h⟩ <;> exact ⟨_, h⟩
  · rcases hedit with h | ⟨edit, hkind, h⟩
    · exact ⟨edits, hkinds, h.trans hbuilder⟩
    · refine ⟨edits ++ [edit], fun e he => ?_, by rw [h, hbuilder]; simp [Builder.applyAll]⟩
      rcases List.mem_append.1 he with he | he
      · exact hkinds e he
      · exact List.mem_singleton.1 he ▸ hkind

theorem Recording.hears {test : Session → Reaction LineOutcome → Prop} (h : s.Recording)
    (hlines : Hears test s t) : t.Recording := by
  induction hlines with
  | nothing => exact h
  | line hr _ _ ih => exact ih (h.step hr)

/-- The plan that is recorded is accepted. -/
theorem Recording.valid_snapshot (h : s.Recording) {plan : Plan}
    (hplan : s.builder.snapshot = .ok plan) :
    plan.Valid ∧ plan.version = Plan.currentVersion := by
  obtain ⟨-, edits, hkinds, hbuilder⟩ := h
  rw [hbuilder] at hplan
  have hone := Builder.oneRoot_after_edits fun payload he => hkinds (.append payload) he
  cases hf : (Builder.applyAll {} edits).graph.first? with
  | none => simp [Builder.snapshot, hf] at hplan
  | some first =>
    simp only [Builder.snapshot, hf] at hplan
    cases hplan
    exact ⟨(Builder.wellFormed_after_edits edits).valid_capture hf hone, rfl⟩

/-- The text of a plan stays until the session says that a plan was stored under its name. -/
theorem text?_of_hears {name : String}
    (hlines : Hears (fun u r => r.events.back? ≠ some (.feedback (u.savedText name))) s t)
    (hs : s.store = .memory store) :
    ∃ store', t.store = .memory store' ∧ store'.text? name = store.text? name := by
  induction hlines generalizing store with
  | nothing => exact ⟨store, hs, rfl⟩
  | line hr hquiet _ ih =>
    rcases (change_of_handleLine hs hr).2 with h | ⟨other, text, hsaid, h⟩
    · exact ih h
    · have hne : name ≠ other := by
        rintro rfl
        exact hquiet hsaid
      obtain ⟨store', hstore, htext⟩ := ih h
      exact ⟨store', hstore, htext.trans (store.text?_saved_of_ne hne text)⟩

theorem exists_handleLine_of_motion {line : String} {kind : NodeKind} {motion : Motion}
    {params : MotionParams} (htyped : Request.ofLine typed = .instruction line)
    (hline : Instruction.classify line = .move kind (some motion))
    (hparams : motion.params line = .ok params) (s : Session) (turns : Nat) (schedule : Schedule) :
    ∃ r, s.handleLine turns schedule typed = some r ∧ r.session =
      { s.atBegin schedule with builder := s.builder.append (.ofMotion kind motion params) } := by
  have hreply : s.reply line = .edited (.ok s.prompt)
      { s with builder := s.builder.append (.ofMotion kind motion params) } := by
    simp only [reply, hline, move, hparams]
    rfl
  exact ⟨_, handleLine_of_instruction htyped (process_of_edited hreply turns schedule), rfl⟩

theorem snapshot_append (payload : Payload) :
    (({} : Builder).append payload).snapshot =
      .ok { version := Plan.currentVersion, nodes := [{ payload }] } := by
  have hreachable : (({} : Builder).append payload).graph.reachable 1 = [1] := by
    rw [Graph.reachable_eq_cons (show 1 < 2 by decide)]
    show 1 :: Graph.visit _ _ [] = [1]
    rw [Graph.visit]
  show Except.ok (Plan.capture _ 1) = _
  rw [Plan.capture, hreachable]
  rfl

end Session

/-! ## Distances in a line

In a line of `go up` and digits the digits are the only literal, and no keyword reaches into them.
The distance is what they are worth, however many they are. -/

open Text Number

theorem Text.not_isBlank_of_isDigit {c : Char} (h : c.isDigit) : isBlank c = false := by
  have hcode := toNat_of_isDigit h
  simp [isBlank]
  omega

/-- A word without digits does not reach into the digits at the end of a text. -/
theorem Text.occurs_append_digits {word before digits : List Char}
    (hword : word.any Char.isDigit = false) (hbefore : before.any Char.isDigit = false)
    (hdigits : ∀ c ∈ digits, c.isDigit) :
    occurs word (before ++ digits) = occurs word before := by
  refine Bool.eq_iff_iff.2 ⟨fun h => ?_, fun h => ?_⟩ <;> rw [occurs_iff] at h ⊢
  · -- without all digits the word is still the same, and the text ends where the digits began
    have hkept := h.filter (fun c => !c.isDigit)
    have hnone : digits.filter (fun c => !c.isDigit) = [] := List.filter_eq_nil_iff.2 fun c hc => by
      simp [hdigits c hc]
    have hall {l : List Char} (hl : l.any Char.isDigit = false) :
        l.filter (fun c => !c.isDigit) = l :=
      List.filter_eq_self.2 fun c hc => by simpa using List.any_eq_false.1 hl c hc
    rwa [List.filter_append, hnone, List.append_nil, hall hword, hall hbefore] at hkept
  · exact h.trans (List.prefix_append _ _).isInfix

theorem Literal.take?_digits {digits : List Char} (hdigits : ∀ c ∈ digits, c.isDigit)
    (hne : digits ≠ []) :
    take? digits = some (⟨false, digits, []⟩, []) := by
  have hall : ∀ c ∈ digits, isDecimalDigit c := fun c hc => isDecimalDigit_of_isDigit (hdigits c hc)
  have hsign : splitSign digits = (false, digits) := by
    unfold splitSign
    split
    · exact absurd (hdigits '-' (by simp)) (by decide)
    · exact absurd (hdigits '+' (by simp)) (by decide)
    · rfl
  have hrun : takeDigits? digits = some (digits, []) := by
    rw [takeDigits?, List.takeWhile_eq_self_iff.2 hall, List.dropWhile_eq_nil_iff.2 hall]
    cases digits with
    | nil => exact absurd rfl hne
    | cons => rfl
  simp [take?, hsign, hrun, takeFraction]

/-- The words that make a line anything but a motion that is made once. -/
def Instruction.keywords : List String :=
  ["stop", "clear", "save", "load", "execute", "say", "end while", "end loop", "end if", "do while",
    "while", "if", "until"]

theorem Instruction.classify_of_unmentioned {line : String}
    (h : ∀ word ∈ keywords, occurs word.toList line.toList = false) :
    classify line = .move .once (Motion.ofText? line) := by
  simp only [keywords, List.mem_cons, List.not_mem_nil, or_false, forall_eq_or_imp, forall_eq] at h
  simp only [classify, h, Bool.or_self, Bool.false_eq_true, if_false]

def upLine (digits : List Char) : String := String.ofList ("go up ".toList ++ digits)

theorem toList_upLine (digits : List Char) : (upLine digits).toList = "go up ".toList ++ digits :=
  String.toList_ofList

section UpLine

variable {digits : List Char} (hdigits : ∀ c ∈ digits, c.isDigit) (hne : digits ≠ [])
include hdigits

theorem occurs_upLine {word : String} (hword : word.toList.any Char.isDigit = false) :
    Text.occurs word.toList (upLine digits).toList = Text.occurs word.toList "go up ".toList := by
  rw [toList_upLine, Text.occurs_append_digits hword (by decide +kernel) hdigits]

theorem ofText?_upLine : Motion.ofText? (upLine digits) = some .up := by
  have hsame (word : String) (hword : word.toList.any Char.isDigit = false) :=
    occurs_upLine hdigits hword
  simp (disch := decide +kernel) only [Motion.ofText?, Motion.keywords, List.find?, hsame]
  decide +kernel

theorem classify_upLine : Instruction.classify (upLine digits) = .move .once (some .up) := by
  have hwords : ∀ word ∈ Instruction.keywords,
      word.toList.any Char.isDigit = false ∧ occurs word.toList "go up ".toList = false := by
        decide +kernel
  rw [Instruction.classify_of_unmentioned fun word hword =>
    (occurs_upLine hdigits (hwords word hword).1).trans (hwords word hword).2,
      ofText?_upLine hdigits]

include hne

theorem ofLine_upLine : Request.ofLine (upLine digits) = .instruction (upLine digits) := by
  have hchars : (upLine digits).toList = 'g' :: ("o up ".toList ++ digits) := toList_upLine digits
  refine Request.ofLine_of_ends (fun c hc => ?_) (fun c hc => ?_) (fun he => ?_) (fun he => ?_)
  · rw [hchars] at hc
    cases hc
    rfl
  · rw [hchars, ← List.cons_append, List.getLast?_append_of_ne_nil _ hne] at hc
    exact Text.not_isBlank_of_isDigit (hdigits c (List.mem_of_getLast? hc))
  · rw [he] at hchars
    cases hchars
  · rw [he] at hchars
    cases hchars

theorem values_upLine :
    Literal.values (upLine digits) = [Number.nearest (Text.digitsToNat digits) 0] := by
  have hscan : Literal.scan ("go up ".toList ++ digits) = [⟨false, digits, []⟩] := by
    show Literal.scan ('g' :: 'o' :: ' ' :: 'u' :: 'p' :: ' ' :: digits) = _
    iterate 6 rw [Literal.scan_of_none rfl]
    rw [Literal.scan_of_some (Literal.take?_digits hdigits hne), Literal.scan.eq_def]
    rfl
  rw [Literal.values, toList_upLine, hscan]
  simp [Literal.value?, withSign, List.all_eq_true.2 hdigits]

theorem params_upLine :
    Motion.params .up (upLine digits) =
      .ok { dz := 1 * Number.nearest (Text.digitsToNat digits) 0 } := by
  have hquiet : ¬ Text.occurs "velocity".toList (upLine digits).toList := by
    rw [occurs_upLine hdigits (by decide +kernel)]
    decide
  simp only [Motion.params, Motion.axis?, values_upLine hdigits hne, if_neg hquiet]
  rfl

/-- A plan of one motion up is stored, whatever the distance, but only a finite distance is read
again. -/
theorem Session.isOk_load_up :
    let s : Session := { prompt := "What should I do next?" }
    let params : MotionParams := { dz := 1 * nearest (digitsToNat digits) 0 }
    ∃ r r', s.handleLine 0 (.atRests []) (upLine digits) = some r ∧
      r.session.handleLine 0 (.atRests []) "save p" = some r' ∧
      r'.events.back? = some (.feedback (r.session.savedText "p")) ∧
        r.session.builder.snapshot = .ok {
        version := Plan.currentVersion, nodes := [{ payload := .ofMotion .once .up params }] } ∧
      ((r'.session.store.load "p").isOk ↔ params.IsFinite) := by
  intro s params
  obtain ⟨r, hr, hmoved⟩ :=
    exists_handleLine_of_motion (ofLine_upLine hdigits hne) (classify_upLine hdigits)
    (params_upLine hdigits hne) s 0 (.atRests [])
  have hplan : r.session.builder.snapshot = .ok {
      version := Plan.currentVersion, nodes := [{ payload := .ofMotion .once .up params }] } := by
    rw [hmoved]
    exact snapshot_append _
  have hstore : r.session.store = .memory {} := by rw [hmoved]; rfl
  have hname : Plan.checkName "p" = .ok () := if_pos (by decide)
  obtain ⟨r', hr', hsaid, hsaved⟩ := exists_answer_of_save
    (by decide +kernel : Request.ofLine "save p" = .instruction "save p")
    (by decide +kernel : Instruction.classify "save p" = .save (some "p")) hplan
    (hstore ▸ PlanStore.save_memory {} hname) 0 (.atRests [])
  have hrecording : r.session.Recording := Recording.step ⟨⟨{}, rfl⟩, [], by simp, rfl⟩ hr
  obtain ⟨hvalid, hversion⟩ := hrecording.valid_snapshot hplan
  refine ⟨r, r', hr, hr', hsaid, hplan, ?_⟩
  rw [hsaved, PlanStore.load, MemoryStore.load_of_text? hname (MemoryStore.text?_saved _ _ _),
    Plan.isOk_restore_write hvalid hversion]
  have hfew : 1 ≤ PlanNode.indexBound := Nat.one_le_two_pow
  have hparams : (Payload.ofMotion .once .up params).params = params := rfl
  simp only [List.forall_mem_singleton, hparams, List.length_singleton, hfew, and_true]

end UpLine

namespace Session

variable {s t : Session} {turns : Nat} {schedule : Schedule} {typed : String}
  {r : Reaction LineOutcome}

/-! ## What can be loaded -/

/-- Whoever is told that the program was stored can load it again, as long as nothing else was
stored under the name, exactly if all its numbers are finite; and there may be no more nodes than
can be numbered with 64 bits. -/
theorem isOk_load_iff {surroundings : Surroundings} {settings : Settings} {prompt name : String}
    (hbefore : Hears (fun _ _ => True) { surroundings, settings, prompt } s)
    (hr : s.handleLine turns schedule typed = some r)
    (hsaid : r.events.back? = some (.feedback (s.savedText name)))
    (hlater : Hears (fun u r => r.events.back? ≠ some (.feedback (u.savedText name))) r.session t) :
    ∃ plan, s.builder.snapshot = .ok plan ∧ ((t.store.load name).isOk ↔
      (∀ node ∈ plan.nodes, node.payload.params.IsFinite) ∧
        plan.nodes.length ≤ PlanNode.indexBound) := by
  have hfresh : Recording { surroundings, settings, prompt } := ⟨⟨{}, rfl⟩, [], by simp, rfl⟩
  have hrecording := hfresh.hears hbefore
  obtain ⟨store, hs⟩ := hrecording.store
  obtain ⟨line, plan, after, -, -, hplan, hsave, hsession⟩ := saved_of_answer hr hsaid
  have hname := PlanStore.checkName_of_save hsave
  rw [hs, PlanStore.save_memory store hname] at hsave
  cases hsave
  obtain ⟨hvalid, hversion⟩ := hrecording.valid_snapshot hplan
  obtain ⟨store', hstore, htext⟩ := text?_of_hears hlater (by rw [hsession])
  rw [MemoryStore.text?_saved] at htext
  refine ⟨plan, hplan, ?_⟩
  rw [← Plan.isOk_restore_write hvalid hversion, hstore, PlanStore.load,
    MemoryStore.load_of_text? hname htext]

/-- Who goes two steps up, stores this and clears everything can load it. -/
theorem isOk_load_iff_go_up :
    let s : Session := { prompt := "What should I do next?" }
    ∃ r r' r'', s.handleLine 0 (.atRests []) (upLine ['2']) = some r ∧
      r.session.handleLine 0 (.atRests []) "save p" = some r' ∧
      r'.events.back? = some (.feedback (r.session.savedText "p")) ∧
      r'.session.handleLine 0 (.atRests []) "clear" = some r'' ∧
      (r''.session.store.load "p").isOk := by
  intro s
  obtain ⟨r, r', hr, hr', hsaid, hplan, -⟩ := @isOk_load_up ['2'] (by simp) (by simp)
  have hreply : r'.session.reply "clear" =
      .edited (.ok "Cleared all commands. How can I help you today?")
      { r'.session with builder := r'.session.builder.clear } := by
    simp only [reply, (by decide +kernel : Instruction.classify "clear" = .clear)]
  have hr'' := handleLine_of_instruction
    (by decide +kernel : Request.ofLine "clear" = .instruction "clear")
    (process_of_edited hreply 0 (.atRests []))
  obtain ⟨plan, hsnapshot, hload⟩ := isOk_load_iff (.line hr trivial (.nothing _)) hr' hsaid
    (.line hr'' (by simpa [answer] using ne_savedText (by simp) "p") (.nothing _))
  refine ⟨r, r', _, hr, hr', hsaid, hr'', hload.2 ?_⟩
  rw [hplan] at hsnapshot
  cases hsnapshot
  exact ⟨List.forall_mem_singleton.2 (by decide +kernel), Nat.one_le_two_pow⟩

/-- Four hundred digits make an infinite distance. The program is stored, and cannot be loaded. -/
theorem not_load_overflow :
    let s : Session := { prompt := "What should I do next?" }
    ∃ r r', s.handleLine 0 (.atRests []) (upLine (List.replicate 400 '9')) = some r ∧
      r.session.handleLine 0 (.atRests []) "save p" = some r' ∧
      r'.events.back? = some (.feedback (r.session.savedText "p")) ∧
      (r'.session.store.load "p").isOk = false := by
  intro s
  have hdigits : ∀ c ∈ List.replicate 400 '9', c.isDigit :=
    fun c hc => List.eq_of_mem_replicate hc ▸ (by decide)
  have hne : List.replicate 400 '9' ≠ [] := by decide
  obtain ⟨r, r', hr, hr', hsaid, -, hload⟩ := isOk_load_up hdigits hne
  refine ⟨r, r', hr, hr', hsaid, Bool.eq_false_iff.2 fun hloaded => ?_⟩
  have hinfinite : Number.isFinite (1 * nearest (digitsToNat (List.replicate 400 '9')) 0) =
    false := by decide +kernel
  exact absurd (hload.1 hloaded).2.2.1 (ne_true_of_eq_false hinfinite)

end Session
end MotionScript
