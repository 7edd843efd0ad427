import MotionScript.Store.Directory

/-!
# Where paths lead

A path leads through directories only, so it still leads to the same place on a disk that keeps its
directories. Making a directory adds directories on the way to it, where nothing stood, and asks for
nothing when the directory is there. A name that is joined to a path leads one step on from where
the path leads.
-/
namespace MotionScript

namespace Disk

variable {d d' d'' : Disk} {place : List String} {path : String}

/-! ## Entries -/

theorem entry?_put (hplace : place ≠ []) (entry : Entry) (p : List String) :
    entry? (d.put place entry) p = if p = place then some entry else d.entry? p := by
  by_cases hp : p = place
  · have hnone : (d.entries.filter (·.1 != place)).find? (·.1 == place) = none := by
      simp [List.find?_eq_none]
    simp [put, entry?, hp, hplace, List.find?_append, hnone]
  · have hkept : (d.entries.filter (·.1 != place)).find? (·.1 == p) =
        d.entries.find? (·.1 == p) := by
      rw [List.find?_filter]
      congr 1
      funext stand
      by_cases hstand : stand.1 = p <;> simp [hstand, hp]
    simp [put, entry?, hp, Ne.symm hp, List.find?_append, hkept]

/-- A disk that keeps the directories of another, and the place where relative paths start. -/
structure KeepsDirectories (d d' : Disk) : Prop where
  working : d'.working = d.working
  directory : ∀ p, d.entry? p = some .directory → d'.entry? p = some .directory

/-! ## Following names -/

def start (d : Disk) (path : String) : List String := if isAbsolute path then [] else d.working

theorem KeepsDirectories.start_eq (h : KeepsDirectories d d') (path : String) :
    d'.start path = d.start path := by
  rw [start, start, h.working]

def advance (place : List String) (name : String) : Except Fault (List String) :=
  if name = "." then .ok place
  else if name = ".." then .ok place.dropLast
  else if maxName < name.utf8ByteSize then .error .nameTooLong
  else .ok (place ++ [name])

/-- Names lead on from a directory only. -/
theorem follow_cons_eq_ok {p q : List String} {name : String} {rest : List String} :
    d.follow p (name :: rest) = .ok q ↔
      d.entry? p = some .directory ∧
        ∃ next, advance p name = .ok next ∧ d.follow next rest = .ok q := by
  rw [follow, advance]
  split
  next hentry => simp [hentry]
  next hentry => simp [hentry]
  next hentry =>
    simp only [hentry, true_and]
    by_cases hdot : name = "."
    · simp [hdot]
    · by_cases hback : name = ".."
      · simp [hback]
      · by_cases hlong : maxName < name.utf8ByteSize <;> simp [hdot, hback, hlong]

theorem follow_append_eq_ok {p q : List String} {names names' : List String} :
    d.follow p (names ++ names') = .ok q ↔
      ∃ next, d.follow p names = .ok next ∧ d.follow next names' = .ok q := by
  induction names generalizing p with
  | nil => simp [follow]
  | cons name rest ih =>
    simp only [List.cons_append, follow_cons_eq_ok, ih]
    constructor
    · rintro ⟨hentry, next, hnext, last, hlast, hq⟩
      exact ⟨last, ⟨hentry, next, hnext, hlast⟩, hq⟩
    · rintro ⟨last, ⟨hentry, next, hnext, hlast⟩, hq⟩
      exact ⟨hentry, next, hnext, last, hlast, hq⟩

theorem KeepsDirectories.follow (h : KeepsDirectories d d') {p q : List String}
    {names : List String} (hq : d.follow p names = .ok q) : d'.follow p names = .ok q := by
  induction names generalizing p with
  | nil => exact hq
  | cons name rest ih =>
    rw [follow_cons_eq_ok] at hq ⊢
    obtain ⟨hentry, next, hnext, hrest⟩ := hq
    exact ⟨h.directory p hentry, next, hnext, ih hrest⟩

/-- Names that stay where they are do not matter if the others lead to a directory. -/
theorem follow_filter_eq_ok {p q : List String} {names : List String}
    (hq : d.entry? q = some .directory) :
    d.follow p (names.filter (· != ".")) = .ok q ↔ d.follow p names = .ok q := by
  induction names generalizing p with
  | nil => rfl
  | cons name rest ih =>
    by_cases hdot : name = "."
    · -- the place is a directory: the search goes on from it, or ends there
      have hentry (h : d.follow p rest = .ok q) : d.entry? p = some .directory := by
        cases rest with
        | nil =>
          cases h
          exact hq
        | cons => exact (follow_cons_eq_ok.1 h).1
      have hstay : advance p "." = .ok p := if_pos rfl
      rw [List.filter_cons_of_neg (by simp [hdot]), ih, follow_cons_eq_ok, hdot, hstay]
      exact ⟨fun h => ⟨hentry h, p, rfl, h⟩, fun ⟨_, next, hnext, h⟩ => by cases hnext; exact h⟩
    · rw [List.filter_cons_of_pos (by simpa using hdot)]
      simp only [follow_cons_eq_ok, ih]

/-! ## Making directories -/

/-- A place where the first of some names end. -/
def OnWay (d : Disk) (path : String) (names p : List String) : Prop :=
  ∃ before, before <+: names ∧ d.follow (d.start path) before = .ok p

/-- A disk that has directories where nothing stands on another, all of them on the way that some
names lead, and is the same elsewhere. -/
structure AddsDirectories (path : String) (names : List String) (d d' : Disk) : Prop where
  working : d'.working = d.working
  entry : ∀ p, d'.entry? p = d.entry? p ∨
    d.entry? p = none ∧ d'.entry? p = some .directory ∧ d'.OnWay path names p

theorem OnWay.keep {names p : List String} (hp : d.OnWay path names p) (h : KeepsDirectories d d') :
    d'.OnWay path names p := by
  obtain ⟨before, hbefore, hfollow⟩ := hp
  exact ⟨before, hbefore, by rw [h.start_eq]; exact h.follow hfollow⟩

namespace AddsDirectories

variable {names names' : List String}

theorem refl (path : String) (names : List String) (d : Disk) : AddsDirectories path names d d :=
  ⟨rfl, fun _ => .inl rfl⟩

theorem keepsDirectories (h : AddsDirectories path names d d') : KeepsDirectories d d' := by
  refine ⟨h.working, fun p hp => ?_⟩
  rcases h.entry p with heq | ⟨hnone, -⟩
  · rwa [heq]
  · rw [hp] at hnone
    cases hnone

/-- The names may go on. -/
theorem mono (h : AddsDirectories path names d d') (hnames : names <+: names') :
    AddsDirectories path names' d d' := by
  refine ⟨h.working, fun p => (h.entry p).imp_right fun ⟨hnone, hadded, before, hbefore, hp⟩ => ?_⟩
  exact ⟨hnone, hadded, before, hbefore.trans hnames, hp⟩

theorem trans (h : AddsDirectories path names d d') (h' : AddsDirectories path names d' d'') :
    AddsDirectories path names d d'' := by
  refine ⟨h'.working.trans h.working, fun p => ?_⟩
  rcases h.entry p with heq | ⟨hnone, hadded, hway⟩
  · rw [← heq]
    exact h'.entry p
  · rcases h'.entry p with heq' | ⟨hnone', -⟩
    · exact .inr ⟨hnone, heq'.trans hadded, hway.keep h'.keepsDirectories⟩
    · rw [hadded] at hnone'
      cases hnone'

end AddsDirectories

theorem locate_eq_ok {names : List String} {q : List String} :
    d.locate path names = .ok q ↔
      '\x00' ∉ path.toList ∧ path ≠ "" ∧ d.follow (d.start path) names = .ok q := by
  rw [locate]
  by_cases hnul : '\x00' ∈ path.toList
  · simp [hnul]
  · by_cases hempty : path = "" <;> simp [hnul, hempty, start]

theorem makeDirectory_eq_ok {names : List String} : d.makeDirectory path names = .ok d' ↔
    ∃ place, d.locate path names = .ok place ∧ d.entry? place = none ∧
      d' = d.put place .directory := by
  rw [makeDirectory]
  cases hplace : d.locate path names with
  | error fault => simp [Bind.bind, Except.bind]
  | ok place =>
    cases hentry : d.entry? place <;>
      simp [Bind.bind, Except.bind, hentry, Pure.pure, Except.pure, eq_comm]

theorem keepsDirectories_put (hplace : d.entry? place = none) :
    KeepsDirectories d (d.put place .directory) := by
  have hne : place ≠ [] := by
    rintro rfl
    cases hplace
  refine ⟨rfl, fun p hp => ?_⟩
  rw [entry?_put hne]
  split
  next => rfl
  next => exact hp

def LeadsToDirectory (d : Disk) (path : String) (names : List String) : Prop :=
  ∃ place, d.locate path names = .ok place ∧ d.entry? place = some .directory

theorem of_makeDirectory {names : List String} (h : d.makeDirectory path names = .ok d') :
    AddsDirectories path names d d' ∧ d'.LeadsToDirectory path names := by
  obtain ⟨place, hlocate, hnone, rfl⟩ := makeDirectory_eq_ok.1 h
  have hkeeps := keepsDirectories_put hnone
  have hne : place ≠ [] := by
    rintro rfl
    cases hnone
  obtain ⟨hnul, hempty, hfollow⟩ := locate_eq_ok.1 hlocate
  have hleads : (d.put place .directory).follow ((d.put place .directory).start path) names =
      .ok place := by
    rw [hkeeps.start_eq]
    exact hkeeps.follow hfollow
  refine ⟨⟨rfl, fun p => ?_⟩, place, locate_eq_ok.2 ⟨hnul, hempty, hleads⟩, ?_⟩
  · rw [entry?_put hne]
    split
    next hp => exact .inr ⟨hp ▸ hnone, rfl, names, List.prefix_rfl, hp ▸ hleads⟩
    next => exact .inl rfl
  · rw [entry?_put hne, if_pos rfl]

/-- What cannot be made may be there. -/
theorem of_settle {names : List String} {fault : Fault}
    (h : (match (d.locate path names).map d.entry? with
      | .ok (some .directory) => Except.ok d
      | _ => .error fault) = .ok d') : d' = d ∧ d.LeadsToDirectory path names := by
  split at h
  next hentry =>
    cases h
    refine ⟨rfl, ?_⟩
    cases hplace : d.locate path names with
    | error fault => simp [hplace, Except.map] at hentry
    | ok place => exact ⟨place, hplace, by simpa [hplace, Except.map] using hentry⟩
  next => cases h

/-- Making what is missing on the way to a directory only adds directories on the way, and then the
names lead to a directory. -/
theorem of_makeMissing {names : List String} (h : makeMissing path names d = .ok d') :
    AddsDirectories path names.reverse d d' ∧
      (names ≠ [] → d'.LeadsToDirectory path names.reverse) := by
  induction names generalizing d d' with
  | nil =>
    cases h
    exact ⟨.refl path _ d, fun hne => absurd rfl hne⟩
  | cons last rest ih =>
    unfold makeMissing at h
    dsimp only at h
    split at h
    next hmade =>
      cases h
      obtain ⟨hadds, hleads⟩ := of_makeDirectory hmade
      exact ⟨hadds, fun _ => hleads⟩
    next =>
      split at h
      next => cases h
      next hrest =>
        have hway : rest.reverse <+: (last :: rest).reverse := by simp
        have hadds := (ih hrest).1.mono hway
        split at h
        next hmade =>
          cases h
          obtain ⟨hadds', hleads⟩ := of_makeDirectory hmade
          exact ⟨hadds.trans hadds', fun _ => hleads⟩
        next =>
          obtain ⟨rfl, hleads⟩ := of_settle h
          exact ⟨hadds, fun _ => hleads⟩
    next =>
      obtain ⟨rfl, hleads⟩ := of_settle h
      exact ⟨.refl path _ _, fun _ => hleads⟩

/-- Names that stay where they are may stand on the way. -/
theorem AddsDirectories.of_filter {names : List String}
    (h : AddsDirectories path (names.filter (· != ".")) d d') :
    AddsDirectories path names d d' := by
  refine ⟨h.working, fun p => (h.entry p).imp_right fun ⟨hnone, hadded, before, hbefore, hp⟩ => ?_⟩
  obtain ⟨before, hnames, rfl⟩ := List.prefix_filter_iff.1 hbefore
  exact ⟨hnone, hadded, before, hnames, (follow_filter_eq_ok hadded).1 hp⟩

/-- Once the directory of a path has been made, the path leads to it. A path without names is where
it starts. -/
theorem of_makeDirectories (hstart : d.entry? (d.start path) = some .directory)
    (h : d.makeDirectories path = .ok d') : AddsDirectories path (names path) d d' ∧
      ∃ place, d'.follow (d'.start path) (names path) = .ok place ∧
        d'.entry? place = some .directory := by
  unfold makeDirectories at h
  split at h
  next hempty =>
    cases h
    refine ⟨.refl path _ d, ?_⟩
    rw [String.isEmpty_iff.1 hempty] at hstart ⊢
    exact ⟨_, rfl, hstart⟩
  next =>
    obtain ⟨hadds, hleads⟩ := of_makeMissing h
    rw [List.reverse_reverse] at hadds hleads
    refine ⟨hadds.of_filter, ?_⟩
    by_cases hnames : (names path).filter (· != ".") = []
    · rw [hnames] at h
      cases h
      exact ⟨_, (follow_filter_eq_ok hstart).1 (by rw [hnames]; rfl), hstart⟩
    · obtain ⟨place, hlocate, hentry⟩ := hleads (mt List.reverse_eq_nil_iff.1 hnames)
      exact ⟨place, (follow_filter_eq_ok hentry).1 (locate_eq_ok.1 hlocate).2.2, hentry⟩

theorem makeDirectories_eq_self (hnul : '\x00' ∉ path.toList)
    (hplace : d.follow (d.start path) (names path) = .ok place)
    (hentry : d.entry? place = some .directory) : d.makeDirectories path = .ok d := by
  unfold makeDirectories
  split
  next => rfl
  next hempty =>
    have hlocate : d.locate path ((names path).filter (· != ".")).reverse.reverse = .ok place := by
      rw [List.reverse_reverse, locate_eq_ok]
      exact ⟨hnul, fun h => hempty (String.isEmpty_iff.2 h), (follow_filter_eq_ok hentry).2 hplace⟩
    cases hnames : ((names path).filter (· != ".")).reverse with
    | nil => rfl
    | cons last rest =>
      rw [hnames] at hlocate
      have hthere : d.makeDirectory path (last :: rest).reverse = .error .exists := by
        rw [makeDirectory, hlocate]
        simp only [Bind.bind, Except.bind, hentry]
        rfl
      unfold makeMissing
      dsimp only
      rw [hthere, hlocate]
      simp [Except.map, hentry]

/-! ## Joined names -/

section

variable {base file : String}

/-- A name that may stand between separators, other than the two that stand for directories. -/
structure IsFileName (file : String) : Prop where
  nonempty : file ≠ ""
  separator : '/' ∉ file.toList
  ne_stay : file ≠ "."
  ne_back : file ≠ ".."

theorem advance_of_isFileName (hfile : IsFileName file) (place : List String) :
    advance place file = if maxName < file.utf8ByteSize then .error .nameTooLong
      else .ok (place ++ [file]) := by
  rw [advance, if_neg hfile.ne_stay, if_neg hfile.ne_back]

theorem isAbsolute_of_isFileName (hfile : IsFileName file) : isAbsolute file = false :=
  beq_eq_false_iff_ne.2 fun hhead => hfile.separator (List.mem_of_head? hhead)

theorem toList_ne_nil (hfile : IsFileName file) : file.toList ≠ [] :=
  fun hnil => hfile.nonempty (String.toList_eq_nil_iff.1 hnil)

theorem endsOpen_append (hfile : IsFileName file) (before : String) :
    endsOpen (before ++ file) = false := by
  refine beq_eq_false_iff_ne.2 fun hlast => hfile.separator (List.mem_of_getLast? ?_)
  have hend := List.getLast?_eq_some_getLast (toList_ne_nil hfile)
  rwa [String.toList_append, List.getLast?_append, hend, Option.some_or, ← hend] at hlast

theorem join_eq (hfile : IsFileName file) : join base file =
    (if base.isEmpty || endsOpen base then base else base ++ "/") ++ file := by
  rw [join, isAbsolute_of_isFileName hfile, if_neg Bool.false_ne_true]
  split <;> rfl

theorem mem_toList_join (hfile : IsFileName file) {c : Char} (hc : c ∈ base.toList) :
    c ∈ (join base file).toList := by
  rw [join_eq hfile]
  split <;> simp [hc]

theorem names_of_isFileName (hfile : IsFileName file) : names file = [file] := by
  rw [names, Text.splitAt_of_not_mem hfile.separator,
    List.filter_cons_of_pos (by simpa using hfile.nonempty)]
  simp

theorem names_separated {before after : List Char} (h : path.toList = before ++ '/' :: after) :
    names path = names (String.ofList before) ++ names (String.ofList after) := by
  rw [names, names, names, h, Text.splitAt_append, List.filter_append, List.map_append,
    String.toList_ofList, String.toList_ofList]

theorem names_join (hfile : IsFileName file) : names (join base file) = names base ++ [file] := by
  rw [join_eq hfile]
  by_cases hempty : base = ""
  · rw [if_pos (by simp [hempty]), hempty, String.empty_append, names_of_isFileName hfile]
    rfl
  · by_cases hopen : endsOpen base = true
    · obtain ⟨before, hbase⟩ := List.getLast?_eq_some_iff.1 (eq_of_beq hopen)
      have hjoined : (base ++ file).toList = before ++ '/' :: file.toList := by simp [hbase]
      rw [if_pos (by simp [hopen]), names_separated hjoined, names_separated hbase,
        String.ofList_toList, names_of_isFileName hfile]
      simp [show names (String.ofList []) = [] from rfl]
    · have hjoined : (base ++ "/" ++ file).toList = base.toList ++ '/' :: file.toList := by simp
      rw [if_neg (by simp [hempty, hopen]), names_separated hjoined, String.ofList_toList,
        String.ofList_toList, names_of_isFileName hfile]

theorem steps_join (hfile : IsFileName file) : steps (join base file) = names base ++ [file] := by
  rw [steps, names_join hfile, join_eq hfile, endsOpen_append hfile, if_neg Bool.false_ne_true,
    List.append_nil]

theorem start_join (hfile : IsFileName file) : d.start (join base file) = d.start base := by
  have habsolute : isAbsolute (join base file) = isAbsolute base := by
    rw [join_eq hfile]
    by_cases hempty : base = ""
    · rw [if_pos (by simp [hempty]), hempty, String.empty_append, isAbsolute_of_isFileName hfile]
      rfl
    · have hne : base.toList ≠ [] := fun hnil => hempty (String.toList_eq_nil_iff.1 hnil)
      obtain ⟨c, rest, hbase⟩ := List.exists_cons_of_ne_nil hne
      split <;> simp [isAbsolute, hbase]
  rw [start, start, habsolute]

/-- A name that is joined to a path leads one step on from where the path leads. -/
theorem locate_join_eq_ok (hfile : IsFileName file) {q : List String} :
    d.locate (join base file) (steps (join base file)) = .ok q ↔ '\x00' ∉ (join base file).toList ∧
      file.utf8ByteSize ≤ maxName ∧ ∃ place, d.follow (d.start base) (names base) = .ok place ∧
        d.entry? place = some .directory ∧ q = place ++ [file] := by
  have hne : join base file ≠ "" := by
    intro hempty
    rw [join_eq hfile] at hempty
    exact hfile.nonempty (String.append_eq_empty_iff.1 hempty).2
  have hstep (place : List String) : d.follow place [file] = .ok q ↔
      file.utf8ByteSize ≤ maxName ∧ d.entry? place = some .directory ∧ q = place ++ [file] := by
    rw [follow_cons_eq_ok, advance_of_isFileName hfile]
    by_cases hlong : maxName < file.utf8ByteSize
    · simp [hlong, Nat.not_le.2 hlong]
    · simp [hlong, Nat.not_lt.1 hlong, follow, eq_comm]
  rw [locate_eq_ok, steps_join hfile, start_join hfile, follow_append_eq_ok]
  simp only [hstep, hne, ne_eq, not_false_eq_true, true_and]
  refine and_congr_right fun _ => ⟨?_, ?_⟩
  · rintro ⟨place, hplace, hshort, hentry, hq⟩
    exact ⟨hshort, place, hplace, hentry, hq⟩
  · rintro ⟨hshort, place, hplace, hentry, hq⟩
    exact ⟨place, hplace, hshort, hentry, hq⟩

end

end Disk
end MotionScript
