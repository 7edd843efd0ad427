import MotionScript.Proofs.SessionReplies
import Mathlib.Data.List.TakeWhile

/-!
# Names by which plans are stored and loaded

Keywords are looked for inside words as well, in a fixed order, and `save` comes before `load`. So a
plan that was stored under a name is loaded by this name unless `save` stands in the name: then the
line that should load it asks to store something and names nothing. It is refused, and no other line
loads the plan either.
-/
namespace MotionScript

namespace Text

variable {word text : List Char} {c : Char}

theorem afterFirst?_cons_of_ne (hword : word.head? ≠ some c) (hne : word ≠ []) (rest : List Char) :
    afterFirst? word (c :: rest) = afterFirst? word rest := by
  cases word with
  | nil => exact absurd rfl hne
  | cons first word =>
    have hc : first ≠ c := fun he => hword (congrArg some he)
    rw [afterFirst?, if_neg (by simp [List.cons_prefix_cons, hc])]

/-- Before a text in which none of the characters begins the word there is nothing to be found. -/
theorem afterFirst?_append_of_not_mem {before : List Char}
    (hword : ∀ c ∈ before, word.head? ≠ some c) (hne : word ≠ []) (rest : List Char) :
    afterFirst? word (before ++ rest) = afterFirst? word rest := by
  induction before with
  | nil => rfl
  | cons c before ih =>
    rw [List.cons_append, afterFirst?_cons_of_ne (hword c List.mem_cons_self) hne]
    exact ih fun d hd => hword d (List.mem_cons_of_mem _ hd)

theorem afterFirst?_append_self (hne : word ≠ []) (rest : List Char) :
    afterFirst? word (word ++ rest) = some rest := by
  cases word with
  | nil => exact absurd rfl hne
  | cons first word => simp [afterFirst?]

theorem suffix_of_afterFirst? {rest : List Char}
    (h : afterFirst? word text = some rest) : rest <:+ text := by
  induction text with
  | nil =>
    unfold afterFirst? at h
    split at h
    · cases h; exact List.suffix_refl []
    · cases h
  | cons c text ih =>
    unfold afterFirst? at h
    split at h
    · cases h; exact List.drop_suffix ..
    · exact (ih h).trans (List.suffix_cons c text)

theorem trimStart_of_head (h : ∀ c ∈ text.head?, isBlank c = false) : trimStart text = text := by
  cases text with
  | nil => rfl
  | cons c text => simp [trimStart, h c rfl]

theorem trim_of_ends (hfirst : ∀ c ∈ text.head?, isBlank c = false)
    (hlast : ∀ c ∈ text.getLast?, isBlank c = false) :
    trim text = text := by
  rw [trim, trimStart_of_head hfirst, trimEnd, trimStart_of_head (by simpa using hlast),
    List.reverse_reverse]

theorem takeWhile_of_unblank (h : ∀ c ∈ text, isBlank c = false) :
    text.takeWhile (!isBlank ·) = text :=
  List.takeWhile_eq_self_iff.mpr fun c hc => by simp [h c hc]

theorem dropWord_of_unblank (h : ∀ c ∈ text, isBlank c = false) : dropWord text = [] :=
  List.dropWhile_eq_nil_iff.mpr fun c hc => by simp [h c hc]

theorem firstWord?_blank_cons (hblank : isBlank c = true) (h : ∀ c ∈ text, isBlank c = false)
    (hne : text ≠ []) :
    firstWord? (c :: text) = some text := by
  refine firstWord?_eq_some_iff.mpr ⟨hne, ?_⟩
  rw [trimStart, List.dropWhile_cons, if_pos hblank]
  rw [show text.dropWhile isBlank = text from
    trimStart_of_head fun d hd => h d (List.mem_of_mem_head? hd)]
  exact takeWhile_of_unblank h

end Text

open Text

/-! ## The lines that store and load -/

namespace Instruction

variable {line : String} {name : Option String}

theorem classify_of_save (hstop : ¬ occurs "stop".toList line.toList)
    (hclear : ¬ occurs "clear".toList line.toList) (hsave : occurs "save".toList line.toList) :
    classify line = .save (argument? "save" line) :=
  (if_neg hstop).trans ((if_neg hclear).trans (if_pos hsave))

theorem classify_of_load (hstop : ¬ occurs "stop".toList line.toList)
    (hclear : ¬ occurs "clear".toList line.toList) (hsave : ¬ occurs "save".toList line.toList)
    (hload : occurs "load".toList line.toList) :
    classify line = .load (argument? "load" line) :=
  (if_neg hstop).trans ((if_neg hclear).trans ((if_neg hsave).trans (if_pos hload)))

theorem not_occurs_of_save (h : classify line = .save name) :
    ¬ occurs "stop".toList line.toList ∧ ¬ occurs "clear".toList line.toList := by
  unfold classify at h
  dsimp only at h
  obtain ⟨hstop, h⟩ := other_of_ne h nofun
  obtain ⟨hclear, -⟩ := other_of_ne h nofun
  exact ⟨hstop, hclear⟩

/-- A line that loads does not mention to save. -/
theorem argument?_of_load (h : classify line = .load name) :
    ¬ occurs "save".toList line.toList ∧ argument? "load" line = name := by
  unfold classify at h
  dsimp only at h
  iterate 2 replace h := (other_of_ne h nofun).2
  obtain ⟨hsave, h⟩ := other_of_ne h nofun
  by_cases hload : occurs "load".toList line.toList
  · cases (if_pos hload).symm.trans h
    exact ⟨hsave, rfl⟩
  · replace h := (if_neg hload).symm.trans h
    -- nothing that is looked for later loads
    iterate 8 replace h := (other_of_ne h nofun).2
    cases h

theorem infix_of_argument? {keyword name : String} (h : argument? keyword line = some name) :
    name.toList <:+: line.toList := by
  simp only [argument?, Option.bind_eq_bind, Option.bind_eq_some_iff, Option.pure_def,
    Option.some.injEq] at h
  obtain ⟨rest, hrest, word, hword, rfl⟩ := h
  obtain ⟨-, rfl⟩ := firstWord?_eq_some_iff.mp hword
  rw [String.toList_ofList]
  have hdropped : dropWord rest <:+ rest := List.dropWhile_suffix _
  have htrimmed : trimStart (dropWord rest) <:+ dropWord rest := List.dropWhile_suffix _
  exact (List.takeWhile_prefix _).isInfix.trans
    ((htrimmed.trans (hdropped.trans (suffix_of_afterFirst? hrest))).isInfix)

/-- A plan whose name holds `save` is loaded by no line. -/
theorem not_load_of_occurs_save {name : String} (h : occurs "save".toList name.toList)
    (line : String) :
    classify line ≠ .load (some name) := by
  intro hload
  obtain ⟨hsave, hargument⟩ := argument?_of_load hload
  exact hsave (occurs_iff.mpr ((occurs_iff.mp h).trans (infix_of_argument? hargument)))

theorem argument?_of_unblank {keyword : String} {before : List Char} {name : String}
    (hbefore : ∀ c ∈ before, keyword.toList.head? ≠ some c) (hkeyword : keyword.toList ≠ [])
    (hname : ∀ c ∈ name.toList, isBlank c = false) (hline : line.toList = before ++ name.toList) :
    argument? keyword line = none := by
  rw [argument?, hline, afterFirst?_append_of_not_mem hbefore hkeyword]
  cases hfound : afterFirst? keyword.toList name.toList with
  | none => rfl
  | some rest =>
    have hrest : ∀ c ∈ rest, isBlank c = false :=
      fun c hc => hname c ((suffix_of_afterFirst? hfound).mem hc)
    simp [dropWord_of_unblank hrest, firstWord?, trimStart]

theorem argument?_of_name {keyword name : String} (hkeyword : keyword.toList ≠ [])
    (hname : ∀ c ∈ name.toList, isBlank c = false) (hne : name.toList ≠ [])
    (hline : line.toList = keyword.toList ++ ' ' :: name.toList) :
    argument? keyword line = some name := by
  have hblank : isBlank ' ' = true := by decide
  have hword : dropWord (' ' :: name.toList) = ' ' :: name.toList := by simp [dropWord, hblank]
  rw [argument?, hline, afterFirst?_append_self hkeyword]
  simp [hword, firstWord?_blank_cons hblank hname hne]

end Instruction

theorem Request.ofLine_of_ends {line : String} (hfirst : ∀ c ∈ line.toList.head?, isBlank c = false)
    (hlast : ∀ c ∈ line.toList.getLast?, isBlank c = false) (hne : line ≠ "")
    (hshutdown : line ≠ shutdownLine) :
    ofLine line = .instruction line := by
  simp only [ofLine, trim_of_ends hfirst hlast, String.ofList_toList]
  simp [hne, hshutdown]

theorem Request.ofLine_named {keyword name : String}
    (hkeyword : ∀ c ∈ keyword.toList.head?, isBlank c = false) (hsome : keyword.toList ≠ [])
    (hname : ∀ c ∈ name.toList, isBlank c = false) (hne : name.toList ≠ [])
    (hshutdown : ¬ keyword.toList <+: shutdownLine.toList) :
    ofLine (keyword ++ name) = .instruction (keyword ++ name) := by
  have hchars : (keyword ++ name).toList = keyword.toList ++ name.toList := String.toList_append
  refine ofLine_of_ends (fun c hc => ?_) (fun c hc => ?_) (fun he => hsome ?_)
    (fun he => hshutdown ?_)
  · rw [hchars, List.head?_append_of_ne_nil _ hsome] at hc
    exact hkeyword c hc
  · rw [hchars, List.getLast?_append_of_ne_nil _ hne] at hc
    exact hname c (List.mem_of_getLast? hc)
  · have hnil := congrArg String.toList he
    rw [hchars] at hnil
    exact (List.append_eq_nil_iff.mp hnil).1
  · rw [← he, hchars]
    exact List.prefix_append _ _

/-- If somebody is told that the program was stored under a name, then the line that loads this name
asks for the plan of this name, unless `save` stands in the name; in this case it asks to store the
program and is refused. -/
theorem Session.load_of_saved {s : Session} {name : String}
    (hname : ∀ c ∈ name.toList, isBlank c = false) {turns : Nat} {schedule : Schedule}
    {r : Reaction LineOutcome} (hr : s.handleLine turns schedule ("save " ++ name) = some r)
    (hsaid : r.events.back? = some (.feedback (s.savedText name))) :
    Request.ofLine ("load " ++ name) = .instruction ("load " ++ name) ∧
      (¬ occurs "save".toList name.toList →
        Instruction.classify ("load " ++ name) = .load (some name) ∧
        ∀ t : Session, t.reply ("load " ++ name) = t.load (some name)) ∧
      (occurs "save".toList name.toList →
        Instruction.classify ("load " ++ name) = .save none ∧
        ∀ t : Session, t.reply ("load " ++ name) =
          .edited (.error (.malformed (.noPlanName "save"))) t) := by
  obtain ⟨line, plan, _, hline, hclassify, -, hsave, -⟩ := saved_of_answer hr hsaid
  have hvalid := PlanStore.checkName_of_save hsave
  have hne : name.toList ≠ [] := by
    intro hnil
    simp [Plan.checkName, Plan.isName, hnil] at hvalid
  have hsave : Request.ofLine ("save " ++ name) = .instruction ("save " ++ name) :=
    Request.ofLine_named (by simp [isBlank]) (by decide) hname hne (by decide)
  have hload : Request.ofLine ("load " ++ name) = .instruction ("load " ++ name) :=
    Request.ofLine_named (by simp [isBlank]) (by decide) hname hne (by decide)
  cases hline.symm.trans hsave
  obtain ⟨hstop, hclear⟩ := Instruction.not_occurs_of_save hclassify
  -- what stands in the line that loads stands in the name, as no keyword before `load` begins with
  -- one of its letters
  have hchars : ("load " ++ name).toList = "load ".toList ++ name.toList := String.toList_append
  have hinside {keyword : String} (hkeyword : ∀ c ∈ "load ".toList, keyword.toList.head? ≠ some c)
      (hsome : keyword.toList ≠ []) :
      occurs keyword.toList ("load " ++ name).toList = occurs keyword.toList name.toList := by
    rw [occurs, occurs, hchars, afterFirst?_append_of_not_mem hkeyword hsome]
  have houtside {keyword : String} (hkeyword : ¬ occurs keyword.toList ("save " ++ name).toList) :
      ¬ occurs keyword.toList name.toList := by
    rw [occurs_iff] at hkeyword ⊢
    exact fun h => hkeyword (h.trans (String.toList_append ▸ (List.suffix_append _ _).isInfix))
  have hstop' : ¬ occurs "stop".toList ("load " ++ name).toList := by
    rw [hinside (by simp) (by decide)]
    exact houtside hstop
  have hclear' : ¬ occurs "clear".toList ("load " ++ name).toList := by
    rw [hinside (by simp) (by decide)]
    exact houtside hclear
  refine ⟨hload, fun hkept => ?_, fun hlost => ?_⟩
  · have hload' : occurs "load".toList ("load " ++ name).toList :=
      occurs_iff.mpr ⟨[], ' ' :: name.toList, hchars.symm⟩
    have hloads : Instruction.classify ("load " ++ name) = .load (some name) := by
      rw [Instruction.classify_of_load hstop' hclear'
        (by rwa [hinside (by simp) (by decide)]) hload',
        Instruction.argument?_of_name (by decide) hname hne hchars]
    exact ⟨hloads, fun t => by simp only [reply, hloads]⟩
  · have hsaves : Instruction.classify ("load " ++ name) = .save none := by
      rw [Instruction.classify_of_save hstop' hclear' (by rwa [hinside (by simp) (by decide)]),
        Instruction.argument?_of_unblank (by simp) (by decide) hname hchars]
    exact ⟨hsaves, fun t => by simp only [reply, hsaves, save]⟩

/-- A program that is stored as `patrol` is loaded as `patrol`. -/
theorem Session.load_of_saved_patrol :
    let s : Session :=
      { builder := ({} : Builder).append (.ofSpeech "hi"), prompt := "What should I do next?" }
    (∃ r, s.handleLine 0 (.atRests []) "save patrol" = some r ∧
      r.events.back? = some (.feedback (s.savedText "patrol"))) ∧
      Request.ofLine "load patrol" = .instruction "load patrol" ∧
      Instruction.classify "load patrol" = .load (some "patrol") ∧
      ∀ t : Session, t.reply "load patrol" = t.load (some "patrol") := by
  intro s
  have hline : Instruction.classify "save patrol" = .save (some "patrol") := by decide +kernel
  have hname : ∀ c ∈ "patrol".toList, isBlank c = false := by simp [isBlank]
  have htyped : Request.ofLine "save patrol" = .instruction "save patrol" := by decide +kernel
  have hvalid : Plan.checkName "patrol" = .ok () := if_pos (by decide)
  obtain ⟨r, hr, hsaid, -⟩ := exists_answer_of_save (s := s) htyped hline rfl
    (PlanStore.save_memory {} hvalid) 0 (.atRests [])
  obtain ⟨hload, hkept, -⟩ := load_of_saved (s := s) hname hr hsaid
  obtain ⟨hloads, hreply⟩ := hkept (by decide)
  exact ⟨⟨r, hr, hsaid⟩, hload, hloads, hreply⟩

/-- A program that is stored as `save1` is not loaded as `save1`: the line that should load it asks
to store the program and names nothing. -/
theorem Session.not_load_save1 :
    let s : Session :=
      { builder := ({} : Builder).append (.ofSpeech "hi"), prompt := "What should I do next?" }
    (∀ c ∈ "save1".toList, isBlank c = false) ∧
      (∃ r, s.handleLine 0 (.atRests []) "save save1" = some r ∧
        r.events.back? = some (.feedback (s.savedText "save1"))) ∧
      Request.ofLine "load save1" = .instruction "load save1" ∧
      Instruction.classify "load save1" ≠ .load (some "save1") := by
  intro s
  have hline : Instruction.classify "save save1" = .save (some "save1") := by decide +kernel
  have hname : ∀ c ∈ "save1".toList, isBlank c = false := by simp [isBlank]
  have htyped : Request.ofLine "save save1" = .instruction "save save1" := by decide +kernel
  have hvalid : Plan.checkName "save1" = .ok () := if_pos (by decide)
  obtain ⟨r, hr, hsaid, -⟩ := exists_answer_of_save (s := s) htyped hline rfl
    (PlanStore.save_memory {} hvalid) 0 (.atRests [])
  exact ⟨hname, ⟨r, hr, hsaid⟩,
    by decide +kernel, Instruction.not_load_of_occurs_save (by decide) _⟩

end MotionScript
