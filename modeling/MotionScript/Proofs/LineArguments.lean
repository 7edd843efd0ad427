import MotionScript.Proofs.ByteSlices
import MotionScript.Proofs.PlanNames

/-!
# Names and texts in a line

A line that stores or loads a plan names it by the first word behind the word in which the keyword
ends, and a line that says something ends with what is said. The words of a line are the longest
runs of characters that are not blank, whatever the blanks are, so a name is a whole word of the
line.
-/
namespace MotionScript

namespace Text

/-- A character that is not blank stands at a place. -/
def IsSolid (text : List Char) (place : Nat) : Prop := ∃ c ∈ text[place]?, isBlank c = false

/-- A text has a word from one place to another: a run of characters that are not blank, as long as
it can be. -/
structure IsWord (text : List Char) (start stop : Nat) : Prop where
  nonempty : start < stop
  solid : ∀ place, start ≤ place → place < stop → IsSolid text place
  before : ∀ place, place + 1 = start → ¬ IsSolid text place
  after : ¬ IsSolid text stop

/-- A word stands in a text for the first time at a place, maybe inside a longer word. -/
structure IsFirstAt (word text : List Char) (place : Nat) : Prop where
  here : word <+: text.drop place
  first : ∀ earlier < place, ¬ word <+: text.drop earlier

/-- A line names its argument by the first word that begins behind the word in which the keyword
first ends. -/
def Names (keyword line : List Char) (name : Option (List Char)) : Prop :=
  ∃ place start stop, IsFirstAt keyword line place ∧ IsWord line start stop ∧
    start < place + keyword.length ∧ place + keyword.length ≤ stop ∧
    match name with
    | none => ∀ first last, IsWord line first last → first < stop
    | some name => ∃ first last, IsWord line first last ∧ stop ≤ first ∧
        (∀ other last, IsWord line other last → stop ≤ other → first ≤ other) ∧
        name = line.extract first last

/-- A line tells a text behind the first place of the keyword and behind the blanks that follow
it. -/
def Tells (keyword line told : List Char) : Prop :=
  ∃ place blanks, IsFirstAt keyword line place ∧
    line.drop (place + keyword.length) = blanks ++ told ∧
    (∀ c ∈ blanks, isBlank c) ∧ ∀ c ∈ told.head?, isBlank c = false

/-! ## Places -/

variable {word text : List Char} {place start stop : Nat}

theorem IsFirstAt.unique {other : Nat} (h : IsFirstAt word text place)
    (h' : IsFirstAt word text other) : place = other :=
  Nat.le_antisymm (Nat.le_of_not_lt fun hlt => h.first _ hlt h'.here)
    (Nat.le_of_not_lt fun hlt => h'.first _ hlt h.here)

theorem exists_isFirstAt {rest : List Char} (h : afterFirst? word text = some rest) :
    ∃ place, IsFirstAt word text place ∧ rest = text.drop (place + word.length) := by
  induction text with
  | nil =>
    rw [afterFirst?] at h
    obtain ⟨rfl, hrest⟩ := Option.ite_none_right_eq_some.mp h
    cases hrest
    exact ⟨0, ⟨List.nil_prefix, fun earlier hlt => absurd hlt (Nat.not_lt_zero earlier)⟩, rfl⟩
  | cons c text ih =>
    rw [afterFirst?] at h
    split at h
    · next hbegin =>
      cases h
      exact ⟨0, ⟨hbegin, fun earlier hlt => absurd hlt (Nat.not_lt_zero earlier)⟩,
        by rw [Nat.zero_add]⟩
    · next hbegin =>
      obtain ⟨place, hfirst, rfl⟩ := ih h
      refine ⟨place + 1, ⟨hfirst.here, fun earlier hlt => ?_⟩,
        by rw [Nat.add_right_comm, List.drop_succ_cons]⟩
      cases earlier with
      | zero => exact hbegin
      | succ earlier => exact hfirst.first earlier (Nat.lt_of_succ_lt_succ hlt)

theorem head?_dropWhile (p : Char → Bool) (text : List Char) :
    ∀ c ∈ (text.dropWhile p).head?, p c = false := by
  intro c hc
  simpa [Option.mem_def.mp hc] using List.head?_dropWhile_not p text

theorem exists_span (p : Char → Bool) (text : List Char) (place : Nat) :
    ∃ stop, place ≤ stop ∧ (∀ i, place ≤ i → i < stop → ∃ c ∈ text[i]?, p c) ∧
      (∀ c ∈ text[stop]?, p c = false) ∧
      (text.drop place).takeWhile p = text.extract place stop ∧
      (text.drop place).dropWhile p = text.drop stop := by
  have hsplit := List.takeWhile_append_dropWhile (p := p) (l := text.drop place)
  have hrun : ∀ c ∈ (text.drop place).takeWhile p, p c := List.all_eq_true.mp List.all_takeWhile
  have hrest := head?_dropWhile p (text.drop place)
  generalize (text.drop place).takeWhile p = run at hsplit hrun ⊢
  generalize (text.drop place).dropWhile p = rest at hsplit hrest ⊢
  have hplaces (distance : Nat) : text[place + distance]? = (run ++ rest)[distance]? := by
    rw [hsplit, List.getElem?_drop]
  refine ⟨place + run.length, Nat.le_add_right _ _, fun i hle hlt => ?_,
    fun c hc => hrest c ?_, ?_, ?_⟩
  · obtain ⟨distance, rfl⟩ := Nat.exists_eq_add_of_le hle
    have hdistance : distance < run.length := Nat.lt_of_add_lt_add_left hlt
    refine ⟨run[distance], ?_, hrun _ (List.getElem_mem hdistance)⟩
    rw [hplaces, List.getElem?_append_left hdistance]
    exact List.getElem?_eq_getElem hdistance
  · rwa [hplaces, List.getElem?_append_right (Nat.le_refl _), Nat.sub_self,
      ← List.head?_eq_getElem?] at hc
  · rw [List.extract, ← hsplit, Nat.add_sub_cancel_left, List.take_left]
  · rw [← List.drop_drop, ← hsplit, List.drop_left]

/-! ## Words -/

theorem isSolid_of_mem {i : Nat} (h : ∃ c ∈ text[i]?, (!isBlank c) = true) : IsSolid text i := by
  simpa [IsSolid] using h

theorem not_isSolid_of_mem {i : Nat}
    (h : ∀ c ∈ text[i]?, (!isBlank c) = false) : ¬ IsSolid text i := by
  rintro ⟨c, hc, hblank⟩
  simpa [hblank] using h c hc

theorem IsWord.within {start' stop' : Nat} (h : IsWord text start stop)
    (h' : IsWord text start' stop') (hlt : start < stop') (hlt' : start' < stop) :
    start' ≤ start ∧ stop ≤ stop' := by
  refine ⟨Nat.le_of_not_lt fun hbefore => ?_, Nat.le_of_not_lt fun hafter => ?_⟩
  · exact h'.before (start' - 1) (by omega) (h.solid (start' - 1) (by omega) (by omega))
  · exact h'.after (h.solid stop' (Nat.le_of_lt hlt) hafter)

theorem IsWord.unique {start' stop' : Nat} (h : IsWord text start stop)
    (h' : IsWord text start' stop') (hlt : start < stop') (hlt' : start' < stop) :
    start = start' ∧ stop = stop' := by
  obtain ⟨hstart, hstop⟩ := h.within h' hlt hlt'
  obtain ⟨hstart', hstop'⟩ := h'.within h hlt' hlt
  exact ⟨Nat.le_antisymm hstart' hstart, Nat.le_antisymm hstop hstop'⟩

theorem exists_start (h : IsSolid text place) :
    ∃ start ≤ place, (∀ i, start ≤ i → i ≤ place → IsSolid text i) ∧
      ∀ i, i + 1 = start → ¬ IsSolid text i := by
  induction place with
  | zero =>
    refine ⟨0, Nat.le_refl 0, fun i _ hle => ?_, nofun⟩
    rwa [Nat.le_zero.mp hle]
  | succ place ih =>
    by_cases hplace : IsSolid text place
    · obtain ⟨start, hle, hsolid, hbefore⟩ := ih hplace
      refine ⟨start, Nat.le_succ_of_le hle, fun i hi hi' => ?_, hbefore⟩
      rcases Nat.le_or_eq_of_le_succ hi' with hi' | rfl
      · exact hsolid i hi hi'
      · exact h
    · refine ⟨place + 1, Nat.le_refl _, fun i hi hi' => ?_, fun i hi => ?_⟩
      · rwa [Nat.le_antisymm hi' hi]
      · rwa [Nat.succ.inj hi]

theorem exists_isWord (h : IsSolid text place) :
    ∃ start stop, IsWord text start stop ∧ start ≤ place ∧ place < stop := by
  obtain ⟨start, hle, hsolid, hbefore⟩ := exists_start h
  obtain ⟨stop, hstop, hspan, hafter, -, -⟩ := exists_span (!isBlank ·) text place
  have hlt : place < stop := by
    refine Nat.lt_of_le_of_ne hstop fun he => ?_
    exact not_isSolid_of_mem (he ▸ hafter) h
  refine ⟨start, stop,
    ⟨Nat.lt_of_le_of_lt hle hlt, fun i hi hi' => ?_, hbefore, not_isSolid_of_mem hafter⟩, hle, hlt⟩
  rcases Nat.lt_or_ge i place with hip | hip
  · exact hsolid i hi (Nat.le_of_lt hip)
  · exact isSolid_of_mem (hspan i hip hi')

theorem IsWord.extract_ne_nil (h : IsWord text start stop) : text.extract start stop ≠ [] := by
  obtain ⟨c, hc, -⟩ := h.solid start (Nat.le_refl _) h.nonempty
  have hlt := (List.getElem?_eq_some_iff.mp hc).1
  have hnonempty := h.nonempty
  simp only [List.extract, ne_eq, List.take_eq_nil_iff, List.drop_eq_nil_iff]
  omega

/-- What is left behind a place in a word is what follows the word. -/
theorem IsWord.dropWord_drop (h : IsWord text start stop) (hstart : start ≤ place)
    (hstop : place ≤ stop) :
    dropWord (text.drop place) = text.drop stop := by
  obtain ⟨other, hle, hspan, hother, -, hdrop⟩ := exists_span (!isBlank ·) text place
  rw [dropWord, hdrop]
  congr 1
  refine Nat.le_antisymm (Nat.le_of_not_lt fun hlt => ?_) (Nat.le_of_not_lt fun hlt => ?_)
  · exact h.after (isSolid_of_mem (hspan stop hstop hlt))
  · exact not_isSolid_of_mem hother (h.solid other (hstart.trans hle) hlt)

/-- The first word behind a blank or behind the end is the first word of the text that begins there
or later. -/
theorem firstWord?_drop (h : ¬ IsSolid text place) :
    match firstWord? (text.drop place) with
    | none => ∀ start stop, IsWord text start stop → start < place
    | some word => ∃ start stop, IsWord text start stop ∧ place ≤ start ∧
        (∀ other stop, IsWord text other stop → place ≤ other → start ≤ other) ∧
        word = text.extract start stop := by
  obtain ⟨start, hle, hblanks, hsome, -, htrim⟩ := exists_span isBlank text place
  obtain ⟨stop, hle', hspan, hstop, htake, -⟩ := exists_span (!isBlank ·) text start
  have hbetween (i : Nat) (hi : place ≤ i) (hi' : i < start) : ¬ IsSolid text i := by
    obtain ⟨c, hc, hblank⟩ := hblanks i hi hi'
    exact not_isSolid_of_mem fun d hd => by simp [← Option.mem_unique hc hd, hblank]
  have hlater (other last : Nat) (hword : IsWord text other last) (hother : place ≤ other) :
      start ≤ other := by
    exact Nat.le_of_not_lt fun hlt =>
      hbetween other hother hlt (hword.solid other (Nat.le_refl _) hword.nonempty)
  rcases Nat.eq_or_lt_of_le hle' with rfl | hlt
  · -- the text ends with blanks
    have hnone : firstWord? (text.drop place) = none := by
      simp [firstWord?, trimStart, htrim, htake, List.extract]
    have hend : text[start]? = none := Option.eq_none_iff_forall_not_mem.mpr fun c hc => by
      simpa [hsome c hc] using hstop c hc
    rw [hnone]
    refine fun other last hword => Nat.lt_of_not_le fun hother => ?_
    obtain ⟨c, hc, -⟩ := hword.solid other (Nat.le_refl _) hword.nonempty
    have hle := (List.getElem?_eq_none_iff.mp hend).trans (hlater other last hword hother)
    exact absurd (List.getElem?_eq_some_iff.mp hc).1 (Nat.not_lt.mpr hle)
  · have hsolid (i : Nat) (hi : start ≤ i) (hi' : i < stop) : IsSolid text i :=
      isSolid_of_mem (hspan i hi hi')
    have hword : IsWord text start stop := by
      refine ⟨hlt, hsolid, fun i hi => ?_, not_isSolid_of_mem hstop⟩
      -- the place itself is no part of the word
      have hne : place ≠ start := fun he => h (he ▸ hsolid start (Nat.le_refl _) hlt)
      exact hbetween i (by omega) (by omega)
    have hfound : firstWord? (text.drop place) = some (text.extract start stop) :=
      firstWord?_eq_some_iff.mpr ⟨hword.extract_ne_nil, by rw [trimStart, htrim, htake]⟩
    rw [hfound]
    exact ⟨start, stop, hword, hle, hlater, rfl⟩

/-! ## Arguments -/

theorem Names.unique {keyword line : List Char} {name other : Option (List Char)}
    (h : Names keyword line name) (h' : Names keyword line other) : name = other := by
  obtain ⟨place, start, stop, hplace, hword, hbegin, hend, hname⟩ := h
  obtain ⟨place', start', stop', hplace', hword', hbegin', hend', hother⟩ := h'
  obtain rfl := hplace.unique hplace'
  obtain ⟨rfl, rfl⟩ :=
    hword.unique hword' (Nat.lt_of_lt_of_le hbegin hend') (Nat.lt_of_lt_of_le hbegin' hend)
  match name, other with
  | none, none => rfl
  | none, some other =>
    obtain ⟨first, last, hfirst, hle, -⟩ := hother
    exact absurd hle (Nat.not_le.mpr (hname first last hfirst))
  | some name, none =>
    obtain ⟨first, last, hfirst, hle, -⟩ := hname
    exact absurd hle (Nat.not_le.mpr (hother first last hfirst))
  | some name, some other =>
    obtain ⟨first, last, hfirst, hle, hleast, rfl⟩ := hname
    obtain ⟨first', last', hfirst', hle', hleast', rfl⟩ := hother
    obtain rfl := Nat.le_antisymm (hleast first' last' hfirst' hle') (hleast' first last hfirst hle)
    rw [(hfirst.unique hfirst' hfirst'.nonempty hfirst.nonempty).2]

/-- The first word behind the word in which a keyword ends is the argument of the keyword. -/
theorem names_of_afterFirst? {keyword line rest : List Char} (hne : keyword ≠ [])
    (hkeyword : ∀ c ∈ keyword, isBlank c = false) (h : afterFirst? keyword line = some rest) :
    Names keyword line (firstWord? (dropWord rest)) := by
  obtain ⟨place, hplace, rfl⟩ := exists_isFirstAt h
  have hpos := List.length_pos_iff.mpr hne
  -- the last character of the keyword
  have hsolid : IsSolid line (place + (keyword.length - 1)) := by
    have hlt : keyword.length - 1 < keyword.length := Nat.sub_one_lt_of_lt hpos
    refine ⟨keyword[keyword.length - 1], ?_, hkeyword _ (List.getElem_mem hlt)⟩
    obtain ⟨rest, hrest⟩ := hplace.here
    rw [← List.getElem?_drop, ← hrest, List.getElem?_append_left hlt]
    exact List.getElem?_eq_getElem hlt
  obtain ⟨start, stop, hword, hstart, hstop⟩ := exists_isWord hsolid
  have hend : place + keyword.length ≤ stop := by omega
  refine ⟨place, start, stop, hplace, hword, by omega, hend, ?_⟩
  rw [hword.dropWord_drop (by omega) hend]
  exact firstWord?_drop hword.after

theorem tells_of_afterFirst? {keyword line rest : List Char}
    (h : afterFirst? keyword line = some rest) :
    Tells keyword line (trimStart rest) := by
  obtain ⟨place, hplace, rfl⟩ := exists_isFirstAt h
  exact ⟨place, (line.drop (place + keyword.length)).takeWhile isBlank, hplace,
    List.takeWhile_append_dropWhile.symm, List.all_eq_true.mp List.all_takeWhile,
    head?_dropWhile isBlank _⟩

theorem Tells.unique {keyword line told other : List Char} (h : Tells keyword line told)
    (h' : Tells keyword line other) :
    told = other := by
  have htrim {blanks text : List Char} (hblanks : ∀ c ∈ blanks, isBlank c)
      (htext : ∀ c ∈ text.head?, isBlank c = false) :
      trimStart (blanks ++ text) = text := by
    rw [trimStart, List.dropWhile_append_of_pos hblanks]
    exact trimStart_of_head htext
  obtain ⟨place, blanks, hplace, hsplit, hblanks, htold⟩ := h
  obtain ⟨place', blanks', hplace', hsplit', hblanks', hother⟩ := h'
  obtain rfl := hplace.unique hplace'
  rw [← htrim hblanks htold, ← htrim hblanks' hother, ← hsplit, ← hsplit']

/-! ## Arguments by bytes -/

/-- The argument of a keyword by offsets in bytes; there is none if an offset falls inside a
character. -/
def argumentByBytes? (keyword line : List Char) : Option (Option (List Char)) :=
  match offset? (bytes keyword) (bytes line) with
  | none => some none
  | some offset => do
    let rest ← sliceFrom? line (offset + (bytes keyword).length)
    match blankOffset? rest with
    | none => return none
    | some 0 => return firstWord? rest
    | some boundary => return firstWord? (← sliceFrom? rest boundary)

/-- What a line tells by an offset in bytes; there is none if the offset falls inside a
character. -/
def toldByBytes? (keyword line : List Char) : Option (List Char) :=
  match offset? (bytes keyword) (bytes line) with
  | none => some []
  | some offset => return trimStart (← sliceFrom? line (offset + (bytes keyword).length))

section

variable {keyword : List Char} (hascii : ∀ c ∈ keyword, c.toNat < 0x80) (hne : keyword ≠ [])
  (line : List Char)
include hascii hne

theorem argumentByBytes?_eq :
    argumentByBytes? keyword line =
      some ((afterFirst? keyword line).bind fun rest => firstWord? (dropWord rest)) := by
  have hfound := offset?_bytes hascii hne line
  unfold argumentByBytes?
  cases hafter : afterFirst? keyword line with
  | none =>
    rw [hafter] at hfound
    have hfound : offset? (bytes keyword) (bytes line) = none := hfound
    rw [hfound]
    rfl
  | some rest =>
    rw [hafter] at hfound
    obtain ⟨offset, hoffset, hslice⟩ := hfound
    have hrest := sliceFrom?_blankOffset? rest
    cases hblank : blankOffset? rest with
    | none =>
      rw [hblank] at hrest
      have hrest : dropWord rest = [] := hrest
      simp [hoffset, hslice, hblank, hrest, firstWord?, trimStart]
    | some boundary =>
      rw [hblank] at hrest
      have hrest : sliceFrom? rest boundary = some (dropWord rest) := hrest
      cases boundary with
      | zero =>
        rw [sliceFrom?_zero, Option.some.injEq] at hrest
        simp [hoffset, hslice, hblank, ← hrest]
      | succ boundary => simp [hoffset, hslice, hblank, hrest]

theorem toldByBytes?_eq :
    toldByBytes? keyword line = some (trimStart ((afterFirst? keyword line).getD [])) := by
  have hfound := offset?_bytes hascii hne line
  unfold toldByBytes?
  cases hafter : afterFirst? keyword line with
  | none =>
    rw [hafter] at hfound
    have hfound : offset? (bytes keyword) (bytes line) = none := hfound
    rw [hfound]
    rfl
  | some rest =>
    rw [hafter] at hfound
    obtain ⟨offset, hoffset, hslice⟩ := hfound
    simp [hoffset, hslice]

end

end Text

open Text

namespace Instruction

def IsTakenFrom (line : String) : Instruction → Prop
  | .save name => occurs "save".toList line.toList ∧ argument? "save" line = name
  | .load name => occurs "load".toList line.toList ∧ argument? "load" line = name
  | .say text => occurs "say".toList line.toList ∧ spokenText line = text
  | _ => True

theorem isTakenFrom_classify (line : String) : (classify line).IsTakenFrom line := by
  unfold classify
  dsimp only
  -- stop and clear
  iterate 2 refine iteInduction (fun _ => trivial) fun _ => ?_
  refine iteInduction (fun hsave => ⟨hsave, rfl⟩) fun _ => ?_
  refine iteInduction (fun hload => ⟨hload, rfl⟩) fun _ => ?_
  -- execute
  refine iteInduction (fun _ => trivial) fun _ => ?_
  refine iteInduction (fun hsay => ⟨hsay, rfl⟩) fun _ => ?_
  -- blocks and motions
  iterate 6 refine iteInduction (fun _ => trivial) fun _ => ?_
  trivial

theorem argument?_toList (keyword line : String) : (argument? keyword line).map String.toList =
    (afterFirst? keyword.toList line.toList).bind fun rest => firstWord? (dropWord rest) := by
  cases hafter : afterFirst? keyword.toList line.toList with
  | none => simp [argument?, hafter]
  | some rest => cases hword : firstWord? (dropWord rest) <;> simp [argument?, hafter, hword]

/-- A name is cut from a line: it is the whole word that the line names, if there is one, and
offsets in bytes lead to the same name. -/
structure IsArgument (keyword line : String) (name : Option String) : Prop where
  names : ∀ other, Names keyword.toList line.toList other ↔ name.map String.toList = other
  word : ∀ word ∈ name, word ≠ "" ∧ ∀ c ∈ word.toList, isBlank c = false
  byBytes : argumentByBytes? keyword.toList line.toList = some (name.map String.toList)

/-- A text is cut from a line: it is what the line tells, and an offset in bytes leads to the same
text. -/
structure IsTold (keyword line text : String) : Prop where
  tells : ∀ other, Tells keyword.toList line.toList other ↔ text.toList = other
  byBytes : toldByBytes? keyword.toList line.toList = some text.toList

/-- What follows a keyword that a line mentions is the argument. -/
theorem isArgument_of_occurs {keyword line : String} (hne : keyword.toList ≠ [])
    (hkeyword : ∀ c ∈ keyword.toList, isBlank c = false)
    (hascii : ∀ c ∈ keyword.toList, c.toNat < 0x80) (h : occurs keyword.toList line.toList) :
    IsArgument keyword line (argument? keyword line) := by
  obtain ⟨rest, hrest⟩ := Option.isSome_iff_exists.mp h
  have hnames := names_of_afterFirst? hne hkeyword hrest
  have hargument : (argument? keyword line).map String.toList = firstWord? (dropWord rest) := by
    rw [argument?_toList, hrest, Option.bind_some]
  refine ⟨fun other => ?_, fun word hword => ?_, ?_⟩
  · rw [hargument]
    exact ⟨hnames.unique, fun he => he ▸ hnames⟩
  · rw [Option.mem_def.mp hword] at hargument
    have hfirst : firstWord? (dropWord rest) = some word.toList := hargument.symm
    refine ⟨fun he => (firstWord?_eq_some_iff.mp hfirst).1 ?_,
      fun c hc => not_isBlank_of_mem_firstWord? hfirst hc⟩
    rw [he]
    rfl
  · rw [argumentByBytes?_eq hascii hne, argument?_toList]

theorem isTold_of_occurs {line : String} (h : occurs "say".toList line.toList) :
    IsTold "say" line (spokenText line) := by
  obtain ⟨rest, hrest⟩ := Option.isSome_iff_exists.mp h
  have htells := tells_of_afterFirst? hrest
  have hspoken : (spokenText line).toList =
      trimStart ((afterFirst? "say".toList line.toList).getD []) :=
    String.toList_ofList
  refine ⟨fun other => ?_, ?_⟩
  · rw [hspoken, hrest]
    exact ⟨htells.unique, fun he => he ▸ htells⟩
  · rw [hspoken]
    exact toldByBytes?_eq (by simp) (by decide) line.toList

/-- Every line that stores or loads a plan names it by a whole word, or by none if no word follows,
and every line that says something tells what follows the keyword, wherever the keyword stands and
whatever the characters are. -/
theorem arguments_of_line (line : String) :
    (∀ name, classify line = .save name → IsArgument "save" line name) ∧
      (∀ name, classify line = .load name → IsArgument "load" line name) ∧
      ∀ text, classify line = .say text → IsTold "say" line text := by
  have htaken := isTakenFrom_classify line
  refine ⟨fun name h => ?_, fun name h => ?_, fun text h => ?_⟩ <;> rw [h] at htaken
  · obtain ⟨hsave, rfl⟩ := htaken
    exact isArgument_of_occurs (by decide) (by simp [isBlank]) (by simp) hsave
  · obtain ⟨hload, rfl⟩ := htaken
    exact isArgument_of_occurs (by decide) (by simp [isBlank]) (by simp) hload
  · obtain ⟨hsay, rfl⟩ := htaken
    exact isTold_of_occurs hsay

/-- Words are also separated by wide blanks, the keyword may stand inside a word, and nothing has to
follow it. -/
theorem arguments_of_wide_lines :
    (classify "é unsaved\u3000rōta ok" = .save (some "rōta") ∧
      IsArgument "save" "é unsaved\u3000rōta ok" (some "rōta")) ∧
      (classify "ünload\u2003" = .load none ∧ IsArgument "load" "ünload\u2003" none) ∧
      classify "él say\u3000 héllo you" = .say "héllo you" ∧
      IsTold "say" "él say\u3000 héllo you" "héllo you" := by
  have hsave : classify "é unsaved\u3000rōta ok" = .save (some "rōta") := by decide
  have hload : classify "ünload\u2003" = .load none := by decide
  have hsay : classify "él say\u3000 héllo you" = .say "héllo you" := by decide
  exact ⟨⟨hsave, (arguments_of_line _).1 _ hsave⟩, ⟨hload, (arguments_of_line _).2.1 _ hload⟩, hsay,
    (arguments_of_line _).2.2 _ hsay⟩

end Instruction
end MotionScript
