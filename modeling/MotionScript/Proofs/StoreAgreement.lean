import MotionScript.Store.Basic
import MotionScript.Proofs.DiskPlaces
import MotionScript.Proofs.PlanFormat
import MotionScript.Proofs.SavedPlans
import Mathlib.Data.List.Induction

/-!
# Plans in files and in memory

A store in a directory that is empty at first answers every call like a store in memory: what is
loaded under a name is the plan that was stored last under it. Each plan has a file of its own in
the directory, with the text that the store in memory has under the name. On the way to the
directory directories are made, and nothing else on the disk changes.
-/
namespace MotionScript

namespace PlanStore

inductive Call
  | save (name : String) (plan : Plan)
  | load (name : String)

/-- The answer to a call, which is a plan if one is loaded; the store is given also when the call
fails. -/
def call (s : PlanStore) : Call → Except Failure (Option Plan) × PlanStore
  | .save name plan => ((s.save name plan).1.map fun _ => none, (s.save name plan).2)
  | .load name => ((s.load name).map some, s)

def after (s : PlanStore) (calls : List Call) : PlanStore :=
  calls.foldl (fun s call => (s.call call).2) s

theorem after_snoc (s : PlanStore) (calls : List Call) (call : Call) :
    s.after (calls ++ [call]) = ((s.after calls).call call).2 := List.foldl_append

def Call.plan? (name : String) : Call → Option Plan
  | .save saved plan => if saved = name then some plan else none
  | .load _ => none

/-- The plan that was stored last under a name. -/
def saved? (name : String) (calls : List Call) : Option Plan :=
  calls.reverse.findSome? (Call.plan? name)

end PlanStore

namespace DirectoryStore
open Disk PlanStore

def fileOf (name : String) : String := name ++ ".json"

/-- Whether the path of a directory leads to a place on a disk. -/
def LeadsTo (s : DirectoryStore) (d : Disk) (place : List String) : Prop :=
  d.follow (d.start s.path) (names s.path) = .ok place ∧ d.entry? place = some .directory

/-- Whether the disk takes the file of a plan: its path must not hold a NUL, and its name must not
be too long. -/
def Accepts (s : DirectoryStore) (name : String) : Prop :=
  '\x00' ∉ (s.pathOf name).toList ∧ (fileOf name).utf8ByteSize ≤ maxName

def AcceptsAll (s : DirectoryStore) (calls : List Call) : Prop :=
  ∀ name plan, Call.save name plan ∈ calls → Plan.isName name → s.Accepts name

/-- A disk on which the directory of a store can be made, and is empty then. -/
structure StartsEmpty (s : DirectoryStore) (disk made : Disk) : Prop where
  starts : disk.entry? (disk.start s.path) = some .directory
  makes : disk.makeDirectories s.path = .ok made
  empty : ∀ place, s.LeadsTo made place → ∀ name, made.entry? (place ++ [name]) = none

variable {s : DirectoryStore} {d : Disk} {place : List String} {name : String}

/-! ## The files of plans -/

theorem toList_fileOf (name : String) :
    (fileOf name).toList = name.toList ++ ['.', 'j', 's', 'o', 'n'] :=
  String.toList_append

theorem isFileName_fileOf (hname : Plan.isName name) : IsFileName (fileOf name) := by
  have hseparator : '/' ∉ name.toList := by
    simp only [Plan.isName, Bool.and_eq_true, Bool.not_eq_true', List.contains_eq_mem,
      decide_eq_false_iff_not] at hname
    exact hname.1.1.1.2
  have hlast : (fileOf name).toList.getLast? = some 'n' := by simp [toList_fileOf]
  refine ⟨?_, by simp [toList_fileOf, hseparator], ?_, ?_⟩
  all_goals
    rintro heq
    rw [heq] at hlast
    exact absurd hlast (by decide)

theorem fileOf_inj {other : String} : fileOf name = fileOf other ↔ name = other := by
  rw [← String.toList_inj, toList_fileOf, toList_fileOf, List.append_left_inj, String.toList_inj]

theorem locate_pathOf (hname : Plan.isName name) {q : List String} :
    d.locate (s.pathOf name) (steps (s.pathOf name)) = .ok q ↔
      s.Accepts name ∧ ∃ place, s.LeadsTo d place ∧ q = place ++ [fileOf name] := by
  have hlocate : d.locate (s.pathOf name) (steps (s.pathOf name)) = .ok q ↔ _ :=
    locate_join_eq_ok (isFileName_fileOf hname)
  simp only [hlocate, Accepts, LeadsTo, and_assoc]
  rfl

theorem read_pathOf (hname : Plan.isName name) {contents : String} :
    d.read (s.pathOf name) = .ok contents ↔
    s.Accepts name ∧ ∃ place, s.LeadsTo d place ∧
      d.entry? (place ++ [fileOf name]) = some (.file contents) := by
  have hread : d.read (s.pathOf name) = .ok contents ↔
      ∃ q, d.locate (s.pathOf name) (steps (s.pathOf name)) = .ok q ∧
        d.entry? q = some (.file contents) := by
    rw [Disk.read, find]
    cases d.locate (s.pathOf name) (steps (s.pathOf name)) with
    | error fault => simp [Bind.bind, Except.bind]
    | ok q =>
      rcases hentry : d.entry? q with _ | _ | _ <;>
        simp [Bind.bind, Except.bind, Pure.pure, Except.pure, throw, throwThe, hentry]
  rw [hread]
  simp only [locate_pathOf hname]
  constructor
  · rintro ⟨q, ⟨haccepts, place, hplace, rfl⟩, hentry⟩
    exact ⟨haccepts, place, hplace, hentry⟩
  · rintro ⟨haccepts, place, hplace, hentry⟩
    exact ⟨_, ⟨haccepts, place, hplace, rfl⟩, hentry⟩

theorem write_pathOf (hname : Plan.isName name) (haccepts : s.Accepts name)
    (hplace : s.LeadsTo d place) (hentry : d.entry? (place ++ [fileOf name]) ≠ some .directory)
    (contents : String) :
    d.write (s.pathOf name) contents = .ok (d.put (place ++ [fileOf name]) (.file contents)) := by
  rw [Disk.write, (locate_pathOf hname).2 ⟨haccepts, place, hplace, rfl⟩]
  simp only [Bind.bind, Except.bind]
  rfl

theorem LeadsTo.keep {d' : Disk} (hplace : s.LeadsTo d place)
    (h : KeepsDirectories d d') : s.LeadsTo d' place :=
  ⟨by rw [h.start_eq]; exact h.follow hplace.1, h.directory place hplace.2⟩

theorem LeadsTo.unique {place' : List String} (hplace : s.LeadsTo d place)
    (hplace' : s.LeadsTo d place') : place = place' :=
  Except.ok.inj (hplace.1.symm.trans hplace'.1)

/-! ## Two stores with the same plans -/

/-- A disk whose directory holds the plans that are kept in memory, each in its file, and which is
the same elsewhere as when the directory had been made. -/
structure Mirrors (s : DirectoryStore) (made : Disk) (place : List String) (m : MemoryStore)
    (d : Disk) : Prop where
  working : d.working = made.working
  file : ∀ name, Plan.isName name → d.entry? (place ++ [fileOf name]) = (m.text? name).map .file
  other : ∀ p, (∀ name, Plan.isName name → p ≠ place ++ [fileOf name]) → d.entry? p = made.entry? p
  accepted : ∀ name text, m.text? name = some text → Plan.isName name ∧ s.Accepts name

/-- Either nothing has been stored, or the directory has been made and holds the plans. -/
def Agrees (s : DirectoryStore) (disk made : Disk) (place : List String) (m : MemoryStore)
    (d : Disk) : Prop :=
  m = {} ∧ d = disk ∨ s.Mirrors made place m d

section

variable {disk made : Disk} {m : MemoryStore}

theorem StartsEmpty.mirrors (h : s.StartsEmpty disk made) (hplace : s.LeadsTo made place) :
    s.Mirrors made place {} made :=
  ⟨rfl, fun name _ => h.empty place hplace _, fun _ _ => rfl, fun _ _ htext => by cases htext⟩

theorem Mirrors.keepsDirectories (h : s.StartsEmpty disk made) (hplace : s.LeadsTo made place)
    (hd : s.Mirrors made place m d) : KeepsDirectories made d := by
  refine ⟨hd.working, fun p hp => ?_⟩
  rw [hd.other p ?_, hp]
  rintro name - rfl
  rw [h.empty place hplace] at hp
  cases hp

/-- A text is put into the file of its name and kept in memory. -/
theorem Mirrors.put (hd : s.Mirrors made place m d) (hname : Plan.isName name)
    (haccepts : s.Accepts name) (text : String) :
    s.Mirrors made place ⟨(name, text) :: m.plans.filter (·.1 != name)⟩
      (d.put (place ++ [fileOf name]) (.file text)) := by
  have hne : place ++ [fileOf name] ≠ [] := by simp
  have hsame (other : String) : place ++ [fileOf other] = place ++ [fileOf name] ↔
    other = name := by simp [fileOf_inj]
  refine ⟨hd.working, fun other hother => ?_, fun p hp => ?_, fun other contents hcontents => ?_⟩
  · rw [entry?_put hne]
    by_cases heq : other = name
    · rw [heq, if_pos rfl, m.text?_saved]
      rfl
    · rw [if_neg (mt (hsame other).1 heq), m.text?_saved_of_ne heq, hd.file other hother]
  · rw [entry?_put hne, if_neg (hp name hname), hd.other p hp]
  · by_cases heq : other = name
    · rw [heq]
      exact ⟨hname, haccepts⟩
    · rw [m.text?_saved_of_ne heq] at hcontents
      exact hd.accepted other contents hcontents

/-- A plan is stored in both; the directory is there or is made first. -/
theorem Agrees.save (h : s.StartsEmpty disk made) (hplace : s.LeadsTo made place)
    (hd : s.Agrees disk made place m d) (hname : Plan.isName name) (haccepts : s.Accepts name)
    (plan : Plan) :
    ∃ d', s.save d name plan = (.ok (), d') ∧
      s.Mirrors made place ⟨(name, plan.write) :: m.plans.filter (·.1 != name)⟩ d' := by
  obtain ⟨ready, hready, hmirrors⟩ : ∃ ready, d.makeDirectories s.path = .ok ready ∧
      s.Mirrors made place m ready := by
    rcases hd with ⟨rfl, rfl⟩ | hd
    · exact ⟨made, h.makes, h.mirrors hplace⟩
    · have hthere := hplace.keep (hd.keepsDirectories h hplace)
      have hnul : '\x00' ∉ s.path.toList :=
        fun hnul => haccepts.1 (mem_toList_join (isFileName_fileOf hname) hnul)
      exact ⟨d, makeDirectories_eq_self hnul hthere.1 hthere.2, hd⟩
  have hcheck : Plan.checkName name = .ok () := if_pos hname
  have hthere := hplace.keep (hmirrors.keepsDirectories h hplace)
  have hentry : ready.entry? (place ++ [fileOf name]) ≠ some .directory := by
    rw [hmirrors.file name hname]
    cases m.text? name <;> simp
  have hwrite := write_pathOf hname haccepts hthere hentry plan.write
  refine ⟨_, ?_, hmirrors.put hname haccepts plan.write⟩
  simp only [DirectoryStore.save, hcheck, hready, hwrite]

theorem Agrees.read (h : s.StartsEmpty disk made) (hplace : s.LeadsTo made place)
    (hd : s.Agrees disk made place m d) (hname : Plan.isName name) {text : String} :
    d.read (s.pathOf name) = .ok text ↔ m.text? name = some text := by
  rw [read_pathOf hname]
  rcases hd with ⟨rfl, rfl⟩ | hd
  · -- nothing stands in a directory that has yet to be made
    have hadds := (of_makeDirectories h.starts h.makes).1
    refine iff_of_false ?_ (by simp [MemoryStore.text?])
    rintro ⟨-, place', hplace', hentry⟩
    have hempty := h.empty place' (hplace'.keep hadds.keepsDirectories) (fileOf name)
    rcases hadds.entry (place' ++ [fileOf name]) with heq | ⟨hnone, -⟩
    · rw [heq, hentry] at hempty
      cases hempty
    · rw [hnone] at hentry
      cases hentry
  · have hthere := hplace.keep (hd.keepsDirectories h hplace)
    constructor
    · rintro ⟨-, place', hplace', hentry⟩
      rw [hplace'.unique hthere, hd.file name hname] at hentry
      simpa using hentry
    · intro htext
      refine ⟨(hd.accepted name text htext).2, place, hthere, ?_⟩
      rw [hd.file name hname, htext]
      rfl

theorem Agrees.load_of_text? (h : s.StartsEmpty disk made) (hplace : s.LeadsTo made place)
    (hd : s.Agrees disk made place m d) (hname : Plan.isName name) {text : String}
    (htext : m.text? name = some text) : s.load d name = Plan.restore text := by
  have hcheck : Plan.checkName name = .ok () := if_pos hname
  rw [DirectoryStore.load, hcheck, (hd.read h hplace hname).2 htext]
  rfl

/-- What is loaded from memory is loaded from the directory. -/
theorem Agrees.load (h : s.StartsEmpty disk made) (hplace : s.LeadsTo made place)
    (hd : s.Agrees disk made place m d) (name : String) :
    (s.load d name).toOption = (m.load name).toOption := by
  by_cases hname : Plan.isName name = true
  · cases htext : m.text? name with
    | some text =>
      rw [hd.load_of_text? h hplace hname htext, MemoryStore.load_of_text? (if_pos hname) htext]
    | none =>
      rw [DirectoryStore.load, MemoryStore.load, Plan.checkName, if_pos hname, htext]
      simp only [Except.bind]
      cases hread : d.read (s.pathOf name) with
      | error fault => rfl
      | ok text =>
        rw [(hd.read h hplace hname).1 hread] at htext
        cases htext
  · rw [DirectoryStore.load, MemoryStore.load, Plan.checkName, if_neg hname]
    rfl

/-! ## Calls -/

theorem saved?_snoc (name : String) (calls : List Call) (call : Call) :
    saved? name (calls ++ [call]) = (call.plan? name).or (saved? name calls) := by
  rw [saved?, List.reverse_append, List.reverse_singleton, List.singleton_append,
    List.findSome?_cons]
  cases call.plan? name <;> rfl

theorem load_eq_of_text? {calls : List Call}
    (htext : ∀ name, m.text? name = if Plan.isName name
      then (saved? name calls).map Plan.write else none)
    (name : String) :
    (m.load name).toOption =
      if Plan.isName name then (saved? name calls).bind fun plan =>
        (Plan.restore plan.write).toOption else none := by
  rw [MemoryStore.load, Plan.checkName, htext name]
  by_cases hname : Plan.isName name = true
  · simp only [if_pos hname, Except.bind]
    cases saved? name calls with
    | none => rfl
    | some plan => rw [Option.map_some, Option.bind_some]
  · rw [if_neg hname, if_neg hname, if_neg hname]
    rfl

theorem call_save_of_not_isName (store : PlanStore) (hname : ¬ Plan.isName name) (plan : Plan) :
    store.call (.save name plan) = (.error (.persistence (.invalidName name)), store) := by
  have hcheck : Plan.checkName name = .error (.persistence (.invalidName name)) := if_neg hname
  cases store with
  | memory m => simp only [PlanStore.call, PlanStore.save, MemoryStore.save, hcheck, Except.map]
  | directory s d =>
    simp only [PlanStore.call, PlanStore.save, DirectoryStore.save, hcheck, Except.map]

theorem call_memory_save (m : MemoryStore) (hname : Plan.isName name) (plan : Plan) :
    (PlanStore.memory m).call (.save name plan) =
    (.ok none, .memory ⟨(name, plan.write) :: m.plans.filter (·.1 != name)⟩) := by
  have hcheck : Plan.checkName name = .ok () := if_pos hname
  simp only [PlanStore.call, PlanStore.save, MemoryStore.save, hcheck, Except.map]

theorem Agrees.call_directory_save (h : s.StartsEmpty disk made) (hplace : s.LeadsTo made place)
    (hd : s.Agrees disk made place m d) (hname : Plan.isName name) (haccepts : s.Accepts name)
    (plan : Plan) :
    ∃ d', (PlanStore.directory s d).call (.save name plan) = (.ok none, .directory s d') ∧
      s.Mirrors made place ⟨(name, plan.write) :: m.plans.filter (·.1 != name)⟩ d' := by
  obtain ⟨d', hsave, hmirrors⟩ := hd.save h hplace hname haccepts plan
  exact ⟨d', by simp only [PlanStore.call, PlanStore.save, hsave, Except.map], hmirrors⟩

theorem Agrees.isOk_save_iff (h : s.StartsEmpty disk made) (hplace : s.LeadsTo made place)
    (hd : s.Agrees disk made place m d) {plan : Plan} (haccepts : s.AcceptsAll [.save name plan]) :
    ((PlanStore.directory s d).call (.save name plan)).1.isOk ↔ Plan.isName name := by
  by_cases hname : Plan.isName name = true
  · obtain ⟨d', hcall, -⟩ :=
      hd.call_directory_save h hplace hname (haccepts name plan List.mem_cons_self hname) plan
    rw [hcall]
    exact iff_of_true rfl hname
  · rw [call_save_of_not_isName _ hname]
    exact iff_of_false Bool.false_ne_true hname

/-- Two stores that agree give the same answer to a call, and agree after it; a call that fails
changes neither. -/
theorem Agrees.call (h : s.StartsEmpty disk made) (hplace : s.LeadsTo made place)
    (hd : s.Agrees disk made place m d) {call : Call} (haccepts : s.AcceptsAll [call]) :
    ((PlanStore.directory s d).call call).1.toOption = ((PlanStore.memory m).call call).1.toOption ∧
    ∃ m' d', ((PlanStore.memory m).call call).2 = .memory m' ∧
      ((PlanStore.directory s d).call call).2 = .directory s d' ∧
      s.Agrees disk made place m' d' ∧
      (((PlanStore.directory s d).call call).1.isOk = false → m' = m ∧ d' = d) ∧
      ∀ name, m'.text? name =
        if Plan.isName name then ((call.plan? name).map Plan.write).or (m.text? name)
          else m.text? name := by
  cases call with
  | load name =>
    have hload : ((PlanStore.directory s d).load name).toOption =
      ((PlanStore.memory m).load name).toOption := hd.load h hplace name
    refine ⟨?_, m, d, rfl, rfl, hd, fun _ => ⟨rfl, rfl⟩, fun other => (ite_self _).symm⟩
    show (((PlanStore.directory s d).load name).map some).toOption =
      (((PlanStore.memory m).load name).map some).toOption
    have hmap (loaded : Except Failure Plan) :
      (loaded.map some).toOption = loaded.toOption.map some := by cases loaded <;> rfl
    rw [hmap, hmap, hload]
  | save name plan =>
    by_cases hname : Plan.isName name = true
    · obtain ⟨d', hcall, hmirrors⟩ :=
        hd.call_directory_save h hplace hname (haccepts name plan List.mem_cons_self hname) plan
      rw [hcall, call_memory_save m hname]
      refine ⟨rfl, _, d', rfl, rfl, .inr hmirrors, (fun hfails => by cases hfails), fun other => ?_⟩
      by_cases heq : name = other
      · rw [← heq, m.text?_saved, if_pos hname, Call.plan?, if_pos rfl]
        rfl
      · rw [m.text?_saved_of_ne (Ne.symm heq), Call.plan?, if_neg heq]
        exact (ite_self _).symm
    · rw [call_save_of_not_isName _ hname, call_save_of_not_isName _ hname]
      refine ⟨rfl, m, d, rfl, rfl, hd, fun _ => ⟨rfl, rfl⟩, fun other => ?_⟩
      by_cases heq : name = other
      · rw [← heq, if_neg hname]
      · rw [Call.plan?, if_neg heq]
        exact (ite_self _).symm

/-- After any calls the stores agree, and the texts in memory are those of the plans that were
stored last. -/
theorem StartsEmpty.agrees_after (h : s.StartsEmpty disk made) (hplace : s.LeadsTo made place)
    {calls : List Call} (haccepts : s.AcceptsAll calls) :
    ∃ m d, (PlanStore.memory {}).after calls = .memory m ∧
      (PlanStore.directory s disk).after calls = .directory s d ∧
      s.Agrees disk made place m d ∧
      ∀ name, m.text? name = if Plan.isName name then (saved? name calls).map Plan.write
        else none := by
  -- from the last call back: it is the last plan under a name that counts
  induction calls using List.reverseRecOn with
  | nil => exact ⟨{}, disk, rfl, rfl, .inl ⟨rfl, rfl⟩, fun name => (ite_self _).symm⟩
  | append_singleton calls call ih =>
    obtain ⟨m, d, hm, hd, hagrees, htext⟩ :=
      ih fun name plan hcall => haccepts name plan (List.mem_append_left _ hcall)
    have hcall : s.AcceptsAll [call] :=
      fun name plan hcall => haccepts name plan (List.mem_append_right _ hcall)
    obtain ⟨-, m', d', hm', hd', hagrees', -, htext'⟩ := hagrees.call h hplace hcall
    refine ⟨m', d', ?_, ?_, hagrees', fun name => ?_⟩
    · rw [after_snoc, hm, hm']
    · rw [after_snoc, hd, hd']
    · rw [htext', htext, saved?_snoc]
      split
      · cases call.plan? name <;> rfl
      · rfl

/-- Where the plans stand on the disk of a store. Each name has a file of its own directly in the
directory. Elsewhere the disk is as it was at first, or as it was when the directory had been
made. -/
structure Stands (s : DirectoryStore) (disk made : Disk) (calls : List Call) (place : List String)
    (d : Disk) : Prop where
  leads : s.LeadsTo made place
  path : ∀ name, Plan.isName name → s.Accepts name →
    made.locate (s.pathOf name) (steps (s.pathOf name)) = .ok (place ++ [fileOf name])
  file_inj : ∀ name other, place ++ [fileOf name] = place ++ [fileOf other] → name = other
  file : ∀ name, Plan.isName name →
    d.entry? (place ++ [fileOf name]) = (saved? name calls).map fun plan => .file plan.write
  elsewhere : d = disk ∨
    ∀ p, (∀ name, Plan.isName name → p ≠ place ++ [fileOf name]) → d.entry? p = made.entry? p
  added : ∀ p, made.entry? p = disk.entry? p ∨
    disk.entry? p = none ∧ made.entry? p = some .directory ∧ made.OnWay s.path (names s.path) p

theorem Agrees.stands (h : s.StartsEmpty disk made) (hplace : s.LeadsTo made place)
    (hd : s.Agrees disk made place m d) {calls : List Call}
    (htext : ∀ name, m.text? name =
      if Plan.isName name then (saved? name calls).map Plan.write else none) :
    s.Stands disk made calls place d := by
  have hadds := (of_makeDirectories h.starts h.makes).1
  refine ⟨hplace, fun name hname haccepts => ?_, fun name other heq => ?_, fun name hname => ?_, ?_,
    hadds.entry⟩
  · exact (locate_pathOf hname).2 ⟨haccepts, place, hplace, rfl⟩
  · simpa [fileOf_inj] using heq
  · have hfile : d.entry? (place ++ [fileOf name]) = (m.text? name).map .file := by
      rcases hd with ⟨rfl, rfl⟩ | hd
      · rcases hadds.entry (place ++ [fileOf name]) with heq | ⟨hnone, -⟩
        · rw [← heq, h.empty place hplace]
          rfl
        · exact hnone
      · exact hd.file name hname
    rw [hfile, htext, if_pos hname, Option.map_map]
    rfl
  · exact hd.imp And.right Mirrors.other

end

end DirectoryStore

namespace PlanStore
open DirectoryStore

/-- How a store in files answers a call after calls, beside a store in memory. -/
structure Answers (calls : List Call) (call : Call) (inFiles inMemory : PlanStore) : Prop where
  answer : (inFiles.call call).1.toOption = (inMemory.call call).1.toOption
  saved : ∀ name plan, call = .save name plan → ((inFiles.call call).1.isOk ↔ Plan.isName name)
  loaded : ∀ name, (inFiles.load name).toOption =
    if Plan.isName name then (saved? name calls).bind fun plan => (Plan.restore plan.write).toOption
    else none
  /-- What is loaded is the plan that was stored last, if it is accepted. -/
  restored : ∀ name plan, Plan.isName name → saved? name calls = some plan →
    plan.IsSized → plan.IsFinite → plan.ReadsBack →
      inFiles.load name = plan.validate.map (fun _ => plan) ∧
      inMemory.load name = plan.validate.map fun _ => plan
  /-- A number that is not finite is lost when it is written. -/
  lost : ∀ name plan, Plan.isName name → saved? name calls = some plan →
    plan.IsSized → ¬ plan.IsFinite → (inFiles.load name).isOk = false
  other : ∀ name other plan, call = .save other plan → other ≠ name →
    ((inFiles.call call).2.load name).toOption = (inFiles.load name).toOption
  failed : (inFiles.call call).1.isOk = false →
    (inFiles.call call).2 = inFiles ∧ (inMemory.call call).2 = inMemory

section

variable {s : DirectoryStore} {disk made : Disk}

/-- What is loaded from the directory is the plan that was stored last, read and checked. -/
theorem load_after (h : s.StartsEmpty disk made) {calls : List Call}
    (haccepts : s.AcceptsAll calls) (name : String) :
    (((directory s disk).after calls).load name).toOption =
      if Plan.isName name then (saved? name calls).bind fun plan =>
        (Plan.restore plan.write).toOption
      else none := by
  obtain ⟨place, hplace⟩ := (Disk.of_makeDirectories h.starts h.makes).2
  obtain ⟨m, d, -, hd, hagrees, htext⟩ := h.agrees_after hplace haccepts
  rw [hd, ← load_eq_of_text? htext name]
  exact hagrees.load h hplace name

/-- Both stores read the text of the plan that was stored last. -/
theorem load_after_eq_restore (h : s.StartsEmpty disk made) {calls : List Call}
    (haccepts : s.AcceptsAll calls) {name : String} {plan : Plan} (hname : Plan.isName name)
    (hsaved : saved? name calls = some plan) :
    ((directory s disk).after calls).load name = Plan.restore plan.write ∧
      ((memory {}).after calls).load name = Plan.restore plan.write := by
  obtain ⟨place, hplace⟩ := (Disk.of_makeDirectories h.starts h.makes).2
  obtain ⟨m, d, hm, hd, hagrees, htext⟩ := h.agrees_after hplace haccepts
  have hstored : m.text? name = some plan.write := by
    rw [htext, if_pos hname, hsaved, Option.map_some]
  rw [hd, hm]
  exact ⟨hagrees.load_of_text? h hplace hname hstored,
    MemoryStore.load_of_text? (if_pos hname) hstored⟩

/-- A store in a directory that is empty at first answers any call after any calls like a store in
memory: the same calls fail, and the same plans are loaded. A plan is stored exactly if its name is
one. What is loaded under a name is the plan that was stored last under just this name, as it is
read of its text and if it is accepted. A call that fails changes nothing. On the disk the directory
is made, with what is missing on the way to it, and each name has a file of its own directly in it;
nothing else changes. -/
theorem stores_agree (h : s.StartsEmpty disk made) {calls : List Call} {call : Call}
    (haccepts : s.AcceptsAll (calls ++ [call])) :
    let inMemory := (memory {}).after calls
    let inFiles := (directory s disk).after calls
    Answers calls call inFiles inMemory ∧ ∃ place, s.Stands disk made calls place inFiles.disk := by
  intro inMemory inFiles
  have hcalls : s.AcceptsAll calls :=
    fun name plan hcall => haccepts name plan (List.mem_append_left _ hcall)
  have hcall : s.AcceptsAll [call] :=
    fun name plan hcall => haccepts name plan (List.mem_append_right _ hcall)
  obtain ⟨place, hplace⟩ := (Disk.of_makeDirectories h.starts h.makes).2
  obtain ⟨m, d, hm, hd, hagrees, htext⟩ := h.agrees_after hplace hcalls
  have hmemory : inMemory = .memory m := hm
  have hfiles : inFiles = .directory s d := hd
  obtain ⟨hanswer, m', d', hm', hd', -, hfails, -⟩ := hagrees.call h hplace hcall
  refine ⟨⟨?_, ?_, load_after h hcalls, ?_, ?_, ?_, ?_⟩, place, ?_⟩
  · rw [hfiles, hmemory, hanswer]
  · rintro name plan rfl
    rw [hfiles]
    exact hagrees.isOk_save_iff h hplace hcall
  · intro name plan hname hsaved hsized hfinite hreads
    rw [← Plan.restore_write_eq hsized hfinite hreads]
    exact load_after_eq_restore h hcalls hname hsaved
  · intro name plan hname hsaved hsized hfinite
    rw [(load_after_eq_restore h hcalls hname hsaved).1]
    exact Plan.isOk_restore_write_of_not_isFinite hsized hfinite
  · rintro name other plan rfl hne
    rw [← after_snoc, load_after h haccepts, load_after h hcalls, saved?_snoc,
      Call.plan?, if_neg hne]
    rfl
  · intro hfailed
    rw [hfiles] at hfailed
    obtain ⟨rfl, rfl⟩ := hfails hfailed
    rw [hfiles, hmemory]
    exact ⟨hd', hm'⟩
  · rw [hfiles]
    exact hagrees.stands h hplace htext

/-- A plan is stored under a name and loaded, and another is refused, beside a file that stays. -/
theorem stores_agree_patrol :
    let s : DirectoryStore := ⟨"data/plans"⟩
    let notes : List String × Disk.Entry := (["notes"], .file "none")
    let disk : Disk := { entries := [notes] }
    let made : Disk :=
      { entries := [notes, (["data"], .directory), (["data", "plans"], .directory)] }
    let plan : Plan := { version := 1, nodes := [{ payload := .ofSpeech "hi" }] }
    let calls : List Call := [.save "patrol" plan, .save "../etc" plan]
    let inFiles := (directory s disk).after calls
    s.StartsEmpty disk made ∧ s.AcceptsAll (calls ++ [.load "patrol"]) ∧
      inFiles.load "patrol" = .ok plan ∧ ((memory {}).after calls).load "patrol" = .ok plan ∧
      inFiles.disk.entry? ["data", "plans", "patrol.json"] = some (.file plan.write) ∧
      inFiles.disk.entry? ["notes"] = some (.file "none") := by
  intro s notes disk made plan calls inFiles
  have hleads {place : List String} (hplace : s.LeadsTo made place) : place = ["data", "plans"] :=
    hplace.unique ⟨by simp only [s, made]; rfl, by decide +kernel⟩
  have hstarts : s.StartsEmpty disk made := by
    refine ⟨by decide +kernel, by simp only [s, disk, made]; rfl, fun place hplace name => ?_⟩
    rw [hleads hplace]
    simp [made, notes, Disk.entry?]
  have haccepts : s.AcceptsAll (calls ++ [.load "patrol"]) := by
    intro name saved hcall hname
    simp only [calls, List.cons_append, List.nil_append, List.mem_cons, Call.save.injEq,
      reduceCtorEq, List.not_mem_nil, or_false] at hcall
    rcases hcall with ⟨rfl, -⟩ | ⟨rfl, -⟩
    · exact ⟨by decide +kernel, by decide +kernel⟩
    · exact absurd hname (by decide +kernel)
  obtain ⟨hanswers, place, hstands⟩ := stores_agree hstarts haccepts
  obtain rfl := hleads hstands.leads
  have hloads := hanswers.restored "patrol" plan (by decide +kernel) rfl (by decide)
    (by decide +kernel) (by decide +kernel)
  have haccepted : plan.validate.map (fun _ => plan) = .ok plan := rfl
  rw [haccepted] at hloads
  refine ⟨hstarts, haccepts, hloads.1, hloads.2, hstands.file "patrol" (by decide +kernel), ?_⟩
  rcases hstands.elsewhere with hkept | hmade
  · exact congrArg (Disk.entry? · ["notes"]) hkept
  · exact hmade ["notes"] fun name _ => by simp

end

end PlanStore
end MotionScript
