import MotionScript.Session
import MotionScript.Proofs.BuilderEdits
import MotionScript.Proofs.ExecutionHistory

/-!
# What a line does to a session

A line fails, is answered without further ado, edits the recorded program, stores it, or executes
it. With the plans in memory, a line that fails does nothing else: whatever it was about, it is
refused before anything is changed, and its hint is the only thing that is said.
-/
namespace MotionScript

theorem Instruction.other_of_ne {c : Prop} [Decidable c] {first other chosen : Instruction}
    (h : (if c then first else other) = chosen)
    (hfirst : first ≠ chosen) : ¬ c ∧ other = chosen := by
  by_cases hc : c
  · exact absurd ((if_pos hc).symm.trans h) hfirst
  · exact ⟨hc, (if_neg hc).symm.trans h⟩

/-- What a motion is recorded as. -/
theorem Instruction.kind_of_move {line : String} {kind : NodeKind} {motion : Option Motion}
    (h : classify line = .move kind motion) : kind = .once ∨ kind = .untilNear := by
  unfold classify at h
  dsimp only at h
  -- the eleven instructions that are looked for before motions
  iterate 11 replace h := (other_of_ne h nofun).2
  by_cases hc : Text.occurs "until".toList line.toList
  · cases (if_pos hc).symm.trans h
    exact .inr rfl
  · cases (if_neg hc).symm.trans h
    exact .inl rfl

def Builder.Edit.AppendsNoRoot : Edit → Prop
  | .append payload => payload.kind ≠ .root
  | _ => True

namespace PlanStore

variable {name : String} {plan : Plan}

/-- A memory takes a plan in place of the one that had its name, or stays as it is. -/
theorem save_memory_cases {store : MemoryStore} {result : Except Failure Unit} {after : PlanStore}
    (h : (memory store).save name plan = (result, after)) :
    (∃ failure, result = .error failure ∧ after = .memory store) ∨
      result = .ok () ∧ after =
        .memory ⟨(name, plan.write) :: store.plans.filter (·.1 != name)⟩ := by
  rw [save, MemoryStore.save] at h
  cases hname : Plan.checkName name with
  | error failure =>
    rw [hname] at h
    cases h
    exact .inl ⟨failure, rfl, rfl⟩
  | ok u =>
    rw [hname] at h
    cases h
    exact .inr ⟨rfl, rfl⟩

theorem save_memory (store : MemoryStore) (hname : Plan.checkName name = .ok ()) :
    (memory store).save name plan =
      (.ok (), .memory ⟨(name, plan.write) :: store.plans.filter (·.1 != name)⟩) := by
  simp only [save, MemoryStore.save, hname, Except.map]

theorem checkName_of_save {store after : PlanStore} (h : store.save name plan = (.ok (), after)) :
    Plan.checkName name = .ok () := by
  cases hname : Plan.checkName name with
  | ok u => rfl
  | error failure =>
    cases store with
    | memory store =>
      simp only [save, MemoryStore.save, hname] at h
      cases h
    | directory store disk =>
      simp only [save, DirectoryStore.save, hname] at h
      cases h

end PlanStore

namespace Session

def savedText (s : Session) (name : String) : String := s.prompted s!"Saved in {name}"

/-- What a line can do to a session. Only a line that stores the program is answered by saying
so. -/
inductive Does (s : Session) (line : String) : Reply → Prop
  | fail (failure : Failure) : Does s line (.edited (.error failure) s)
  | hear {response : String} :
      (∀ name, response ≠ s.savedText name) → Does s line (.edited (.ok response) s)
  | edit (edit : Builder.Edit) {response : String} :
      edit.AppendsNoRoot → (∀ name, response ≠ s.savedText name) →
      Does s line (.edited (.ok response) { s with builder := s.builder.apply edit })
  | save {name : String} {plan : Plan} {result : Except Failure Unit} {store : PlanStore} :
      Instruction.classify line = .save (some name) → s.builder.snapshot = .ok plan →
      s.store.save name plan = (result, store) →
      Does s line (.edited (result.map fun _ => s.savedText name) { s with store })
  | execute :
      Instruction.classify line = .execute → s.builder.graph.isEmpty = false →
        Does s line .execution

variable {s : Session} {store : MemoryStore} {line : String}

/-! ## What is said -/

theorem take_savedText (s : Session) (name : String) :
    (s.savedText name).toList.take 3 = ['S', 'a', 'v'] := by
  simp [savedText, prompted, toString]

theorem ne_savedText {text : String} (h : text.toList.take 3 ≠ ['S', 'a', 'v']) (name : String) :
    text ≠ s.savedText name := by
  rintro rfl
  exact h (s.take_savedText name)

theorem savedText_injective (s : Session) {name name' : String}
    (h : s.savedText name = s.savedText name') : name = name' := by
  have hchars := congrArg String.toList h
  simp only [savedText, prompted, String.toList_append, toString, List.append_cancel_right_eq,
    List.append_cancel_left_eq] at hchars
  exact String.toList_inj.mp hchars

theorem prompt_ne_savedText (s : Session) (name : String) : s.prompt ≠ s.savedText name := by
  intro h
  have hlength := congrArg String.length h
  simp [savedText, prompted, String.length_append, toString] at hlength

theorem prompted_hint_ne_savedText (s : Session) (failure : Failure) (name : String) :
    s.prompted failure.hint ≠ s.savedText name := by
  refine ne_savedText ?_ name
  cases failure <;> simp [prompted, Failure.hint]

theorem conclusion_ne_savedText (s : Session) (report : Report) (name : String) :
    s.conclusion report ≠ s.savedText name := by
  refine ne_savedText ?_ name
  obtain ⟨steps, frames, outcome⟩ := report
  cases outcome <;> simp [conclusion, prompted, toString]

/-! ## The replies -/

/-- A change of the builder that is refused changes nothing, and one that is accepted is an edit. -/
theorem does_edit {α : Type} {change : Except Failure (α × Builder)} (edit : Builder.Edit)
    (hedit : ∀ a builder, change = .ok (a, builder) → builder = s.builder.apply edit)
    (hkind : edit.AppendsNoRoot) {response : α → String}
    (hresponse : ∀ a name, response a ≠ s.savedText name) :
    s.Does line (s.edit response change) := by
  cases change with
  | error failure => exact .fail failure
  | ok changed =>
    obtain ⟨a, builder⟩ := changed
    cases hedit a builder rfl
    exact .edit edit hkind (hresponse a)

theorem does_save {name : Option String} (hline : Instruction.classify line = .save name) :
    s.Does line (s.save name) := by
  cases name with
  | none => exact .fail _
  | some name =>
    simp only [save]
    cases hplan : s.builder.snapshot with
    | error failure => exact .fail failure
    | ok plan => exact .save hline hplan rfl

theorem does_load (s : Session) (line : String) (name : Option String) :
    s.Does line (s.load name) := by
  cases name with
  | none => exact .fail _
  | some name =>
    simp only [load]
    cases hplan : s.store.load name with
    | error failure => exact .fail failure
    | ok plan =>
      refine does_edit (.graft plan) (fun entry builder hgraft => ?_) trivial
        fun _ => ne_savedText (by simp [prompted, toString])
      rw [Builder.apply, show s.builder.graft plan = .ok (entry, builder) from hgraft]
      rfl

theorem does_move {kind : NodeKind} {motion : Option Motion}
    (hline : Instruction.classify line = .move kind motion) :
    s.Does line (s.move line kind motion) := by
  cases motion with
  | none => exact .fail _
  | some motion =>
    simp only [move]
    cases hparams : motion.params line with
    | error failure => exact .fail failure
    | ok params =>
      refine does_edit (.append (.ofMotion kind motion params)) (fun _ _ h => by cases h; rfl)
        (fun hroot => ?_)
        fun _ => s.prompt_ne_savedText
      rcases Instruction.kind_of_move hline with rfl | rfl <;> cases hroot

/-- A session does one of these to every line. -/
theorem does_reply (s : Session) (line : String) : s.Does line (s.reply line) := by
  unfold reply
  cases hline : Instruction.classify line with
  | stop => exact .hear (ne_savedText (by decide))
  | clear => exact .edit .clear trivial (ne_savedText (by decide))
  | save name => exact does_save hline
  | load name => exact does_load s line name
  | execute =>
    cases hempty : s.builder.graph.isEmpty with
    | true => exact .fail .emptyGraph
    | false => exact .execute hline hempty
  | say text =>
    exact does_edit (.append (.ofSpeech text)) (fun _ _ h => by cases h; rfl)
      (fun hroot => by cases hroot)
      fun _ => ne_savedText (by simp [prompted])
  | endLoop | endConditional =>
    dsimp only
    exact does_edit .closeBlock (fun _ _ h => by simp [Builder.apply, Builder.settle, h]) trivial
      fun kind => ne_savedText (by cases kind <;> simp [prompted, NodeKind.name, toString])
  | openBlock kind =>
    dsimp only
    exact does_edit (.openBlock kind)
      (fun _ _ h => by simp [Builder.apply, Builder.settle, h]) trivial
      fun _ => ne_savedText (by simp [toString])
  | move kind motion => exact does_move hline

/-! ## From the reply to what is said -/

/-- The session with what has come from outside before an instruction begins. -/
def atBegin (s : Session) (schedule : Schedule) : Session :=
  { s with surroundings := (Outside.begin schedule s.surroundings).surroundings }

theorem process_of_edited {result : Except Failure String} {after : Session}
    (h : s.reply line = .edited result after) (turns : Nat) (schedule : Schedule) :
    s.process turns schedule line = some {
      result
      session := { after with surroundings := (Outside.begin schedule s.surroundings).surroundings }
      outside := Outside.begin schedule s.surroundings } := by
  simp only [process, h]

theorem process_of_execution (h : s.reply line = .execution)
    (hempty : s.builder.graph.isEmpty = false) {turns : Nat} {schedule : Schedule}
    {r : Reaction (Except Failure String)} (hr : s.process turns schedule line = some r) :
    ∃ report, r.result = .ok (s.conclusion report) ∧ r.events ≠ #[] := by
  obtain ⟨first, hfirst⟩ : ∃ first, s.builder.graph.first? = some first := by
    simpa [Graph.isEmpty, ← Option.isSome_iff_exists] using hempty
  simp only [process, h, Graph.execute_of_first hfirst, Option.map_map] at hr
  obtain ⟨ending, -, rfl⟩ := Option.map_eq_some_iff.mp hr
  exact ⟨ending.result, rfl, by simp⟩

theorem reply_of_execute (h : Instruction.classify line = .execute) :
    s.reply line = if s.builder.graph.isEmpty then .edited (.error .emptyGraph) s
      else .execution := by
  simp only [reply, h]

theorem execute_of_reply (h : s.reply line = .execution) :
    Instruction.classify line = .execute ∧ s.builder.graph.isEmpty = false := by
  have hdoes := does_reply s line
  rw [h] at hdoes
  cases hdoes with
  | execute hline hempty => exact ⟨hline, hempty⟩

/-- An instruction that is no execution comes to an end. -/
theorem exists_process (hline : Instruction.classify line ≠ .execute) (turns : Nat)
    (schedule : Schedule) : (s.process turns schedule line).isSome := by
  cases hreply : s.reply line with
  | edited result after => simp [process_of_edited hreply]
  | execution => exact absurd (execute_of_reply hreply).1 hline

section

variable {turns : Nat} {schedule : Schedule} {r : Reaction (Except Failure String)}

/-- An instruction that fails has changed and published nothing. -/
theorem process_of_failure (hs : s.store = .memory store)
    (hr : s.process turns schedule line = some r) {failure : Failure}
    (hfailure : r.result = .error failure) :
    r.session = s.atBegin schedule ∧ r.events = #[] ∧
      r.outside = Outside.begin schedule s.surroundings := by
  cases hreply : s.reply line with
  | edited result after =>
    have hdoes := does_reply s line
    rw [process_of_edited hreply] at hr
    cases hr
    rw [hreply] at hdoes
    cases hdoes with
    | fail => exact ⟨rfl, rfl, rfl⟩
    | hear => cases hfailure
    | edit => cases hfailure
    | save _ _ hsave =>
      rw [hs] at hsave
      rcases PlanStore.save_memory_cases hsave with ⟨_, -, hstore⟩ | ⟨hok, -⟩
      · rw [hstore, ← hs]
        exact ⟨rfl, rfl, rfl⟩
      · rw [hok] at hfailure
        cases hfailure
  | execution =>
    obtain ⟨report, hresult, -⟩ := process_of_execution hreply (execute_of_reply hreply).2 hr
    cases hresult.symm.trans hfailure

/-- Before the response to an instruction that succeeds, something is published only if it is an
execution. -/
theorem events_of_success (hr : s.process turns schedule line = some r) {response : String}
    (hresponse : r.result = .ok response) :
    r.events = #[] ↔ Instruction.classify line ≠ .execute := by
  by_cases hline : Instruction.classify line = .execute
  · have hreply := s.reply_of_execute hline
    cases hempty : s.builder.graph.isEmpty with
    | true =>
      rw [hempty, if_pos rfl] at hreply
      rw [process_of_edited hreply] at hr
      cases hr
      cases hresponse
    | false =>
      rw [hempty] at hreply
      obtain ⟨-, -, hevents⟩ := process_of_execution hreply hempty hr
      simp [hline, hevents]
  · cases hreply : s.reply line with
    | edited result after =>
      rw [process_of_edited hreply] at hr
      cases hr
      simp [hline]
    | execution => exact absurd (execute_of_reply hreply).1 hline

theorem handleLine_of_instruction {typed : String} (h : Request.ofLine typed = .instruction line)
    (hr : s.process turns schedule line = some r) : s.handleLine turns schedule typed =
      some { r with result := .goOn, events := r.events.push (.feedback (s.answer r.result)) } := by
  simp only [handleLine, h, hr, Option.map_some]

end

/-- A line that fails leaves no trace. With the plans in memory, a line that is processed and fails
changes neither the recorded program nor the plans nor what is shared with the outside, and
publishes nothing; and a typed line that is an instruction is answered, after a failure by its hint
alone, and after a success last of all by the response, which is also the first thing that is said
unless the line is an execution. Only an execution may have no end. -/
theorem failure_leaves_no_trace (hs : s.store = .memory store) (turns : Nat) (schedule : Schedule)
    (line : String) :
    (Instruction.classify line ≠ .execute → (s.process turns schedule line).isSome) ∧
      ∀ r, s.process turns schedule line = some r →
        (∀ failure, r.result = .error failure →
          r.session = s.atBegin schedule ∧ r.events = #[] ∧
            r.outside = Outside.begin schedule s.surroundings) ∧
        ∀ typed, Request.ofLine typed = .instruction line → ∃ answered,
          s.handleLine turns schedule typed = some answered ∧ answered.session = r.session ∧
          (∀ failure, r.result = .error failure →
            answered.events = #[.feedback (failure.hint ++ ". " ++ s.prompt)]) ∧
          ∀ response, r.result = .ok response → answered.events.back? = some (.feedback response) ∧
            (answered.events = #[.feedback response] ↔ Instruction.classify line ≠ .execute) := by
  refine ⟨fun hline => exists_process hline turns schedule,
    fun r hr => ⟨fun failure => process_of_failure hs hr, ?answered⟩⟩
  case answered =>
    intro typed htyped
    refine ⟨_, handleLine_of_instruction htyped hr, rfl, fun failure hfailure => ?_,
      fun response hresponse => ?_⟩
    · have hquiet := (process_of_failure hs hr hfailure).2.1
      simp [hquiet, hfailure, answer, prompted]
    · refine ⟨by simp [hresponse, answer], ?_⟩
      rw [← events_of_success hr hresponse, hresponse, answer, ← Array.toList_inj,
        ← Array.toList_inj]
      simp

/-- The end of a block that was never opened is refused, and the person is told so. The recorded
program and the plan that was stored before are as they were. -/
theorem failure_leaves_no_trace_unbalanced :
    let plan : Plan :=
      { version := 1, nodes := [{ payload := .ofMotion .once .forward { dy := 2 } }] }
    let stored : MemoryStore := ⟨[("patrol", plan.write)]⟩
    let s : Session := {
      builder := ({} : Builder).append (.ofSpeech "hi")
      store := .memory stored
      surroundings := { controller := { landmarks := { face := true } } }
      prompt := "What should I do next?" }
    s.store = .memory stored ∧ s.builder.graph.isEmpty = false ∧
      Request.ofLine " end loop\n" = .instruction "end loop" ∧
      ∃ r answered, s.process 0 (.atRests []) "end loop" = some r ∧ r.result.isOk = false ∧
        r.session = s.atBegin (.atRests []) ∧ r.events = #[] ∧
        s.handleLine 0 (.atRests []) " end loop\n" = some answered ∧
        answered.events =
          #[.feedback "There is no open loop or condition to end. What should I do next?"] := by
  intro plan stored s
  have htyped : Request.ofLine " end loop\n" = .instruction "end loop" := by decide +kernel
  obtain ⟨hends, hall⟩ := failure_leaves_no_trace (s := s) rfl 0 (.atRests []) "end loop"
  obtain ⟨r, hr⟩ := Option.isSome_iff_exists.mp (hends (by decide +kernel))
  have hfailure : r.result = .error .unbalancedBlock := by
    have hline : Instruction.classify "end loop" = .endLoop := by decide +kernel
    have hclose : s.builder.closeBlock = .error .unbalancedBlock := rfl
    have hreply : s.reply "end loop" = .edited (.error .unbalancedBlock) s := by
      simp only [reply, hline, hclose, edit]
    rw [process_of_edited hreply] at hr
    cases hr
    rfl
  obtain ⟨hunchanged, hanswered⟩ := hall r hr
  obtain ⟨hsession, hevents, -⟩ := hunchanged _ hfailure
  obtain ⟨answered, hhandled, -, hsaid, -⟩ := hanswered _ htyped
  exact ⟨rfl, rfl, htyped, r, answered, hr,
    by rw [hfailure]; rfl, hsession, hevents, hhandled, hsaid _ hfailure⟩

/-- Who is told that the program was stored has asked for it, and it was. -/
theorem saved_of_answer {turns : Nat} {schedule : Schedule} {typed name : String}
    {r : Reaction LineOutcome} (hr : s.handleLine turns schedule typed = some r)
    (hsaid : r.events.back? = some (.feedback (s.savedText name))) :
    ∃ line plan store, Request.ofLine typed = .instruction line ∧
      Instruction.classify line = .save (some name) ∧ s.builder.snapshot = .ok plan ∧
      s.store.save name plan = (.ok (), store) ∧ r.session = { s.atBegin schedule with store } := by
  unfold handleLine at hr
  cases htyped : Request.ofLine typed with
  | nothing =>
    rw [htyped] at hr
    cases hr
    cases hsaid
  | shutdown =>
    rw [htyped] at hr
    cases hr
    cases hsaid
  | instruction line =>
    rw [htyped] at hr
    obtain ⟨processed, hprocessed, rfl⟩ := Option.map_eq_some_iff.mp hr
    have hanswer : s.answer processed.result = s.savedText name := by simpa using hsaid
    cases hreply : s.reply line with
    | edited result after =>
      have hdoes := does_reply s line
      rw [process_of_edited hreply] at hprocessed
      cases hprocessed
      rw [hreply] at hdoes
      cases hdoes with
      | fail failure => exact absurd hanswer (s.prompted_hint_ne_savedText failure name)
      | hear hresponse => exact absurd hanswer (hresponse name)
      | edit _ _ hresponse => exact absurd hanswer (hresponse name)
      | @save _ _ result _ hline hplan hsave =>
        cases result with
        | error failure => exact absurd hanswer (s.prompted_hint_ne_savedText failure name)
        | ok u =>
          cases s.savedText_injective hanswer
          exact ⟨line, _, _, rfl, hline, hplan, hsave, rfl⟩
    | execution =>
      obtain ⟨report, hresult, -⟩ :=
        process_of_execution hreply (execute_of_reply hreply).2 hprocessed
      rw [hresult] at hanswer
      exact absurd hanswer (s.conclusion_ne_savedText report name)

/-- Who asks to store a program that is not empty, and whose store takes it, is told that it was
stored. -/
theorem exists_answer_of_save {typed name : String} {plan : Plan} {after : PlanStore}
    (htyped : Request.ofLine typed = .instruction line)
    (hline : Instruction.classify line = .save (some name)) (hplan : s.builder.snapshot = .ok plan)
    (hsave : s.store.save name plan = (.ok (), after)) (turns : Nat) (schedule : Schedule) :
    ∃ r, s.handleLine turns schedule typed = some r ∧
      r.events.back? = some (.feedback (s.savedText name)) ∧
      r.session = { s.atBegin schedule with store := after } := by
  have hreply : s.reply line = .edited (.ok (s.savedText name)) { s with store := after } := by
    simp only [reply, hline, save, hplan, hsave]
    rfl
  exact ⟨_, handleLine_of_instruction htyped (process_of_edited hreply turns schedule),
    by simp [answer], rfl⟩

end Session
end MotionScript
