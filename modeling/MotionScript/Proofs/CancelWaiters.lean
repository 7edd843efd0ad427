import MotionScript.CancelToken
import Mathlib.Data.List.Basic

/-!
# What waiters hear of a cancel token

Any number of tasks wait for one token, while it is cancelled and reset at will. A task that looks
at the token ends its wait just when the flag is set at this moment, and whenever the flag is set,
every task that looked before and goes on waiting has been woken since. What carries this is that a
task goes on waiting only if the flag was clear when it looked, and that the flag does not get set
without a cancel, which wakes everyone who waits.
-/
namespace MotionScript.CancelToken

/-! ## The loop of a waiter -/

/-- What a task does when it is run: it goes on sleeping if nobody has woken it. Else it registers
anew, so that it hears of every cancel from now on, looks at the flag, and is done or goes round its
loop once more. -/
inductive Loops (t : CancelToken) : Waiter → Option Waiter → Prop
  | sleeps {w : Waiter} : t.hasWoken w = false → Loops t w (some w)
  | ends {w : Waiter} : t.hasWoken w = true → t.cancelled = true → Loops t w none
  | again {w : Waiter} {r : Option Waiter} :
      t.hasWoken w = true → t.cancelled = false → Loops t (.since t.cancels) r → Loops t w r

/-- The loop comes to an end, and there is one it can come to: who has just registered has not been
woken yet. -/
theorem loops_iff (t : CancelToken) (w : Waiter) (r : Option Waiter) :
    Loops t w r ↔ t.poll w = r := by
  have hasleep : t.hasWoken (.since t.cancels) = false := by simp [hasWoken]
  constructor
  · intro h
    induction h with
    | sleeps hwoken => rw [poll, hwoken, if_neg Bool.false_ne_true]
    | ends hwoken hset => rw [poll, if_pos hwoken, if_pos hset]
    | again hwoken hclear _ ih =>
      rw [poll, hasleep, if_neg Bool.false_ne_true] at ih
      rw [poll, if_pos hwoken, hclear, if_neg Bool.false_ne_true, ih]
  · rintro rfl
    unfold poll
    cases hwoken : t.hasWoken w with
    | false => exact .sleeps hwoken
    | true =>
      cases hset : t.cancelled with
      | true => exact .ends hwoken hset
      | false => exact .again hwoken hset (.sleeps hasleep)

/-! ## Tasks that wait for one token -/

/-- What may happen to a token and its waiters, which are numbered as they come. -/
inductive Request
  | cancel
  | reset
  | wait
  | poll (waiter : Nat)
  deriving DecidableEq, Repr

/-- A token and the tasks that wait for it, in the order in which they came; a task whose wait is
over is `none`. -/
structure Crowd where
  token : CancelToken := {}
  waiters : List (Option Waiter) := []
  deriving DecidableEq, Repr

namespace Crowd

def serve (c : Crowd) : Request → Crowd
  | .cancel => { c with token := c.token.cancel }
  | .reset => { c with token := c.token.reset }
  | .wait => { c with waiters := c.waiters ++ [some .fresh] }
  | .poll waiter => { c with waiters := c.waiters.modify waiter fun w => w.bind c.token.poll }

def serveAll (c : Crowd) (requests : List Request) : Crowd := requests.foldl serve c

theorem serveAll_append (c : Crowd) (earlier later : List Request) :
    c.serveAll (earlier ++ later) = (c.serveAll earlier).serveAll later := List.foldl_append

theorem serveAll_cons (c : Crowd) (request : Request) (later : List Request) :
    c.serveAll (request :: later) = (c.serve request).serveAll later := rfl

def Awaits (c : Crowd) (waiter : Nat) (w : Waiter) : Prop := c.waiters[waiter]? = some (some w)

instance (c : Crowd) (waiter : Nat) (w : Waiter) : Decidable (c.Awaits waiter w) :=
  inferInstanceAs (Decidable (_ = _))

def Ended (c : Crowd) (waiter : Nat) : Prop := c.waiters[waiter]? = some none

end Crowd

/-- What a waiter knows: it has not looked yet, or there have been cancels since it looked, or the
flag has been clear all the time. -/
def Informs (t : CancelToken) : Waiter → Prop
  | .fresh => True
  | .since cancels => cancels < t.cancels ∨ cancels = t.cancels ∧ t.cancelled = false

namespace Informs

variable {t : CancelToken} {w : Waiter}

theorem cancel (h : t.Informs w) : t.cancel.Informs w := by
  cases w with
  | fresh => trivial
  | since cancels =>
    rcases h with h | ⟨rfl, -⟩
    · exact .inl (Nat.lt_succ_of_lt h)
    · exact .inl (Nat.lt_succ_self _)

theorem reset (h : t.Informs w) : t.reset.Informs w := by
  cases w with
  | fresh => trivial
  | since cancels => exact h.imp_right fun h => ⟨h.1, rfl⟩

theorem hasWoken (h : t.Informs w) (hset : t.cancelled = true) : t.hasWoken w = true := by
  cases w with
  | fresh => rfl
  | since cancels =>
    rcases h with h | ⟨-, hclear⟩
    · simpa [CancelToken.hasWoken] using Nat.ne_of_lt h
    · rw [hset] at hclear
      cases hclear

theorem poll_of_set (h : t.Informs w) (hset : t.cancelled = true) : t.poll w = none := by
  rw [CancelToken.poll, if_pos (h.hasWoken hset), if_pos hset]

theorem poll_of_clear (h : t.Informs w) (hclear : t.cancelled = false) :
    ∃ next, t.poll w = some next ∧ t.Informs next := by
  unfold CancelToken.poll
  split
  · exact ⟨.since t.cancels, by rw [hclear]; rfl, .inr ⟨rfl, hclear⟩⟩
  · exact ⟨w, rfl, h⟩

end Informs

namespace Crowd

variable {c : Crowd} {waiter : Nat} {w : Waiter}

/-- A poll changes what its waiter waits for and no more. -/
theorem waiters_poll (c : Crowd) (waiter : Nat) : (c.serve (.poll waiter)).waiters[waiter]? =
    (c.waiters[waiter]?).map fun w => w.bind c.token.poll := by
  simp [serve]

def Informed (c : Crowd) : Prop := ∀ waiter w, c.Awaits waiter w → c.token.Informs w

theorem Informed.serve (h : c.Informed) (request : Request) : (c.serve request).Informed := by
  intro waiter w hw
  cases request with
  | cancel => exact (h waiter w hw).cancel
  | reset => exact (h waiter w hw).reset
  | wait =>
    rcases Nat.lt_or_ge waiter c.waiters.length with hlt | hge
    · exact h waiter w ((List.getElem?_append_left hlt).symm.trans hw)
    · have hlast : [some Waiter.fresh][waiter - c.waiters.length]? = some (some w) :=
        (List.getElem?_append_right hge).symm.trans hw
      obtain rfl : Waiter.fresh = w := by
        have := List.mem_of_getElem? hlast
        simpa [eq_comm] using this
      trivial
  | poll polled =>
    by_cases hne : polled = waiter
    · subst hne
      rw [Awaits, waiters_poll] at hw
      obtain ⟨old, hold, hnext⟩ := Option.map_eq_some_iff.mp hw
      obtain ⟨old, rfl, hpoll⟩ := Option.bind_eq_some_iff.mp hnext
      have hinformed := h polled old hold
      cases hset : c.token.cancelled with
      | true =>
        rw [hinformed.poll_of_set hset] at hpoll
        cases hpoll
      | false =>
        obtain ⟨next, hkeeps, hnext⟩ := hinformed.poll_of_clear hset
        rw [hkeeps] at hpoll
        cases hpoll
        exact hnext
    · refine h waiter w ?_
      simpa [Awaits, Crowd.serve, List.getElem?_modify, hne] using hw

theorem Informed.serveAll (h : c.Informed) (requests : List Request) :
    (c.serveAll requests).Informed := by
  induction requests generalizing c with
  | nil => exact h
  | cons request requests ih => exact ih (h.serve request)

theorem informed_after (history : List Request) : (serveAll {} history).Informed :=
  Informed.serveAll (fun _ _ hw => by simp [Awaits] at hw) history

theorem Ended.serveAll (h : c.Ended waiter) (requests : List Request) :
    (c.serveAll requests).Ended waiter := by
  induction requests generalizing c with
  | nil => exact h
  | cons request requests ih =>
    refine ih ?_
    cases request with
    | cancel => exact h
    | reset => exact h
    | wait => exact (List.getElem?_append_left (List.getElem?_eq_some_iff.mp h).1).trans h
    | poll polled =>
      unfold Ended at h ⊢
      by_cases hne : polled = waiter
      · subst hne
        rw [waiters_poll, h]
        rfl
      · simpa [Crowd.serve, List.getElem?_modify, hne] using h

theorem cancelled_serveAll (h : c.token.cancelled = false) {requests : List Request}
    (hquiet : .cancel ∉ requests) :
    (c.serveAll requests).token.cancelled = false := by
  induction requests generalizing c with
  | nil => exact h
  | cons request requests ih =>
    refine ih ?_ fun hm => hquiet (List.mem_cons_of_mem _ hm)
    cases request with
    | cancel => exact absurd List.mem_cons_self hquiet
    | reset => rfl
    | wait => exact h
    | poll polled => exact h

/-- A poll ends a wait just when the flag is set. -/
theorem Informed.ended_iff (h : c.Informed) (hw : c.Awaits waiter w) :
    (c.serve (.poll waiter)).Ended waiter ↔ c.token.cancelled := by
  have hpoll : (c.serve (.poll waiter)).waiters[waiter]? = some (c.token.poll w) := by
    rw [waiters_poll, hw]; rfl
  rw [Ended, hpoll, Option.some_inj]
  constructor
  · intro hnone
    by_contra hclear
    obtain ⟨next, hkeeps, -⟩ := (h waiter w hw).poll_of_clear (by simpa using hclear)
    rw [hkeeps] at hnone
    cases hnone
  · exact (h waiter w hw).poll_of_set

/-- Whatever has happened to a token and its waiters: when a task that waits looks at the token, its
wait is over just if the flag is set. And as long as the flag is set, a task that waits has been
woken: there has been a cancel after each of its polls, so also after the last. -/
theorem wakes_in_time (history : List Request) (hw : (serveAll {} history).Awaits waiter w) :
    let c := serveAll {} history
    ((c.serve (.poll waiter)).Ended waiter ↔ c.token.cancelled) ∧
      (c.token.cancelled → c.token.hasWoken w ∧
        ∀ earlier later, history = earlier ++ .poll waiter :: later →
          waiter < (serveAll {} earlier).waiters.length → .cancel ∈ later) := by
  intro c
  have hinformed : c.Informed := informed_after history
  refine ⟨hinformed.ended_iff hw, fun hset => ⟨(hinformed waiter w hw).hasWoken hset, ?_⟩⟩
  intro earlier later hsplit hcame
  by_contra hquiet
  have hrest : c = ((serveAll {} earlier).serve (.poll waiter)).serveAll later := by
    rw [← serveAll_cons, ← serveAll_append, ← hsplit]
  have hgoesOn {d : Crowd} {requests : List Request} (hd : c = d.serveAll requests) :
      ¬ d.Ended waiter := by
    intro hended
    have hover : c.Ended waiter := hd ▸ hended.serveAll requests
    rw [Ended, hw] at hover
    cases hover
  obtain ⟨v, hv⟩ : ∃ v, (serveAll {} earlier).waiters[waiter]? = some v :=
    ⟨_, List.getElem?_eq_getElem hcame⟩
  cases v with
  | none => exact hgoesOn (hsplit ▸ serveAll_append {} earlier _) hv
  | some old =>
    -- the poll did not end the wait, so the flag was clear, and nothing has set it since
    have hclear : (serveAll {} earlier).token.cancelled = false := by
      have hnot := fun hset => hgoesOn hrest (((informed_after earlier).ended_iff hv).mpr hset)
      simpa using hnot
    have hstays := cancelled_serveAll
      (c := (serveAll {} earlier).serve (.poll waiter)) hclear hquiet
    rw [← hrest, hset] at hstays
    cases hstays

/-- A waiter that slept through a cancel and its reset is woken by the next cancel, and then its
wait is over. -/
theorem wakes_in_time_again :
    let history : List Request :=
      [.wait, .poll 0, .cancel, .reset, .wait, .poll 0, .poll 1, .cancel]
    let c := serveAll {} history
    c.Awaits 0 (.since 1) ∧ c.token.cancelled ∧ (c.serve (.poll 0)).Ended 0 ∧
      c.token.hasWoken (.since 1) ∧
      Request.cancel ∈ [Request.poll 1, .cancel] := by
  intro history c
  have hw : c.Awaits 0 (.since 1) := by decide
  have hset : c.token.cancelled := by decide
  obtain ⟨hended, hwoken⟩ := wakes_in_time history hw
  exact ⟨hw, hset, hended.mpr hset, (hwoken hset).1,
    (hwoken hset).2 [.wait, .poll 0, .cancel, .reset, .wait] _ rfl (by decide)⟩

end Crowd
end MotionScript.CancelToken
