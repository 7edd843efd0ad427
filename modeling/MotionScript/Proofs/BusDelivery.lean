import MotionScript.Bus
import Mathlib.Data.List.Nodup

/-!
# What the bus delivers

Any number of subscribers share a bus; they come, receive and go between one event and the next.
What happens to the channel of one of them follows from the requests that concern it alone: the
events that it wants, its own receives, and its own end. So it gets what it would get if it had the
bus to itself, and that is every event that it wants but those that found its queue full.
-/
namespace MotionScript

/-! ## One channel -/

namespace Channel

def offer (c : Channel) (event : Event) : Channel := (c.trySend event).getD c

theorem trySend_of_closed {c : Channel} (h : c.isOpen = false)
    (event : Event) : c.trySend event = none := by
  simp [trySend, h]

theorem trySend_of_open {c : Channel} (h : c.isOpen = true) (event : Event) :
    c.trySend event = some (c.offer event) := by
  simp [offer, trySend, h]

@[simp] theorem isOpen_offer (c : Channel) (event : Event) : (c.offer event).isOpen = c.isOpen := by
  unfold offer trySend
  split
  next h =>
    rw [Option.getD_some]
    split <;> rfl
  next => rfl

theorem offer_of_closed {c : Channel} (h : c.isOpen = false)
    (event : Event) : c.offer event = c := by
  rw [offer, trySend_of_closed h, Option.getD_none]

theorem offer_of_room {c : Channel} (h : c.isOpen = true) (hroom : c.queue.length < capacity)
    (event : Event) :
    c.offer event = { c with queue := c.queue ++ [event] } := by simp [offer, trySend, h, hroom]

theorem offer_of_full {c : Channel} (hfull : ¬ c.queue.length < capacity)
    (event : Event) : c.offer event = c := by
  unfold offer trySend
  rw [if_neg hfull]
  split <;> rfl

end Channel

/-! ## One event -/

namespace Bus

variable {wanted : Option EventType} {event : Event} {senders : List Sender}
  {channels : List Channel} {number : Nat}

theorem sublist_sendBy (wanted : Option EventType) (event : Event) (senders : List Sender)
    (channels : List Channel) :
    (sendBy wanted event senders channels).1.Sublist senders := by
  fun_induction sendBy wanted event senders channels with
  | case1 => exact .slnil
  | case2 sender later channels hwanted channel hsent kept after hrest ih =>
    exact (by simpa [hrest] using ih)
  | case3 sender later channels hwanted hgone ih => exact ih.cons sender
  | case4 sender later channels hother kept after hrest ih => exact (by simpa [hrest] using ih)

@[simp] theorem length_sendBy (wanted : Option EventType) (event : Event) (senders : List Sender)
    (channels : List Channel) :
    (sendBy wanted event senders channels).2.length = channels.length := by
  fun_induction sendBy wanted event senders channels with
  | case1 => rfl
  | case2 sender later channels hwanted channel hsent kept after hrest ih => simpa [hrest] using ih
  | case3 sender later channels hwanted hgone ih => exact ih
  | case4 sender later channels hother kept after hrest ih => simpa [hrest] using ih

theorem getElem?_sendBy_of_not_mem (event : Event) (channels : List Channel)
    (h : ∀ sender ∈ senders, sender.wanted = wanted → sender.number ≠ number) :
    (sendBy wanted event senders channels).2[number]? = channels[number]? := by
  fun_induction sendBy wanted event senders channels with
  | case1 => rfl
  | case2 sender later channels hwanted channel hsent kept after hrest ih =>
    have hne := h sender List.mem_cons_self hwanted
    rw [hrest, List.getElem?_set_ne hne] at ih
    exact ih fun sender hm => h sender (List.mem_cons_of_mem _ hm)
  | case3 sender later channels hwanted hgone ih =>
    exact ih fun sender hm => h sender (List.mem_cons_of_mem _ hm)
  | case4 sender later channels hother kept after hrest ih =>
    rw [hrest] at ih
    exact ih fun sender hm => h sender (List.mem_cons_of_mem _ hm)

theorem getElem?_sendBy_of_closed {c : Channel} (hc : channels[number]? = some c)
    (hclosed : c.isOpen = false) :
    (sendBy wanted event senders channels).2[number]? = some c := by
  fun_induction sendBy wanted event senders channels with
  | case1 => exact hc
  | case2 sender later channels hwanted channel hsent kept after hrest ih =>
    have hne : sender.number ≠ number := by
      rintro rfl
      rw [hc, Option.bind_some, Channel.trySend_of_closed hclosed] at hsent
      cases hsent
    rw [hrest, List.getElem?_set_ne hne] at ih
    exact ih hc
  | case3 sender later channels hwanted hgone ih => exact ih hc
  | case4 sender later channels hother kept after hrest ih =>
    rw [hrest] at ih
    exact ih hc

/-- An open channel keeps its sender, and is offered the event if its sender wants just this. -/
theorem sendBy_of_open (wanted : Option EventType) (event : Event) {sender : Sender} {c : Channel}
    (hdistinct : (senders.map Sender.number).Nodup)
    (hm : sender ∈ senders) (hc : channels[sender.number]? = some c) (hopen : c.isOpen = true) :
    sender ∈ (sendBy wanted event senders channels).1 ∧
      (sendBy wanted event senders channels).2[sender.number]? =
        some (if sender.wanted = wanted then c.offer event else c) := by
  have hothers (later : List Sender) (h : sender.number ∉ later.map Sender.number) :
      ∀ other ∈ later, other.wanted = wanted → other.number ≠ sender.number :=
    fun other ho _ he => h (he ▸ List.mem_map_of_mem ho)
  fun_induction sendBy wanted event senders channels with
  | case1 => cases hm
  | case2 first later channels hwanted channel hsent kept after hrest ih =>
    obtain ⟨hfirst, hlater⟩ := List.nodup_cons.mp hdistinct
    rw [hrest] at ih
    rcases List.mem_cons.mp hm with rfl | hm
    · rw [hc, Option.bind_some, Channel.trySend_of_open hopen, Option.some.injEq] at hsent
      subst hsent
      have hafter := getElem?_sendBy_of_not_mem event (channels.set sender.number (c.offer event))
        (hothers later hfirst)
      rw [hrest, List.getElem?_set_self (List.getElem?_eq_some_iff.mp hc).1] at hafter
      exact ⟨List.mem_cons_self, by rw [if_pos hwanted]; exact hafter⟩
    · have hne : first.number ≠ sender.number := fun he => hfirst (he ▸ List.mem_map_of_mem hm)
      obtain ⟨hkept, hafter⟩ := ih hlater hm ((List.getElem?_set_ne hne).trans hc)
      exact ⟨List.mem_cons_of_mem _ hkept, hafter⟩
  | case3 first later channels hwanted hgone ih =>
    obtain ⟨hfirst, hlater⟩ := List.nodup_cons.mp hdistinct
    rcases List.mem_cons.mp hm with rfl | hm
    · rw [hc, Option.bind_some, Channel.trySend_of_open hopen] at hgone
      cases hgone
    · exact ih hlater hm hc
  | case4 first later channels hother kept after hrest ih =>
    obtain ⟨hfirst, hlater⟩ := List.nodup_cons.mp hdistinct
    rw [hrest] at ih
    rcases List.mem_cons.mp hm with rfl | hm
    · have hafter := getElem?_sendBy_of_not_mem event channels (hothers later hfirst)
      rw [hrest, hc] at hafter
      exact ⟨List.mem_cons_self, by rw [if_neg hother]; exact hafter⟩
    · obtain ⟨hkept, hafter⟩ := ih hlater hm hc
      exact ⟨List.mem_cons_of_mem _ hkept, hafter⟩

structure Sound (b : Bus) : Prop where
  distinct : (b.senders.map Sender.number).Nodup
  known : ∀ sender ∈ b.senders, sender.number < b.channels.length

/-- The bus has a subscriber of a number that wants certain events, with its channel; its sender is
held as long as the receiver is there. -/
structure Serves (b : Bus) (number : Nat) (wanted : Option EventType) (c : Channel) : Prop where
  sound : b.Sound
  channel : b.channels[number]? = some c
  sender : c.isOpen = true → ⟨wanted, number⟩ ∈ b.senders

theorem Sound.subscribe {b : Bus} (h : b.Sound) (wanted : Option EventType) :
    (b.subscribe wanted).2.Serves (b.subscribe wanted).1 wanted {} where
  sound.distinct := by
    have hnew : b.channels.length ∉ b.senders.map Sender.number := by
      intro hm
      obtain ⟨sender, hs, he⟩ := List.mem_map.mp hm
      exact absurd he (Nat.ne_of_lt (h.known sender hs))
    simpa [Bus.subscribe] using h.distinct.concat hnew
  sound.known sender hm := by
    rcases List.mem_append.mp hm with hm | hm
    · exact Nat.lt_of_lt_of_le (h.known sender hm) (by simp [Bus.subscribe])
    · simp [List.mem_singleton.mp hm, Bus.subscribe]
  channel := by simp [Bus.subscribe]
  sender _ := by simp [Bus.subscribe]

theorem Sound.send {b : Bus} (h : b.Sound) (wanted : Option EventType) (event : Event) :
    (b.send wanted event).Sound where
  distinct := h.distinct.sublist ((sublist_sendBy wanted event b.senders b.channels).map _)
  known sender hm := by
    simpa [Bus.send] using h.known sender
      ((sublist_sendBy wanted event b.senders b.channels).subset hm)

/-- To send to those who want one thing is to offer the event to each of them and to no one else. -/
theorem Serves.send {b : Bus} {c : Channel} (h : b.Serves number wanted c) (only : Option EventType)
    (event : Event) :
    (b.send only event).Serves number wanted (if wanted = only then c.offer event else c) := by
  cases hopen : c.isOpen with
  | false =>
    have hsame : (if wanted = only then c.offer event else c) = c := by
      simp [Channel.offer_of_closed hopen]
    rw [hsame]
    exact ⟨h.sound.send only event, getElem?_sendBy_of_closed h.channel hopen,
      fun ho => by simp [hopen] at ho⟩
  | true =>
    obtain ⟨hsender, hchannel⟩ :=
      sendBy_of_open only event h.sound.distinct (h.sender hopen) h.channel hopen
    exact ⟨h.sound.send only event, hchannel, fun _ => hsender⟩

/-! ## One request -/

def wants (wanted : Option EventType) (event : Event) : Bool := wanted.all (· == event.type)

theorem Serves.publish {b : Bus} {c : Channel} (h : b.Serves number wanted c) (event : Event) :
    (b.publish event).Serves number wanted (if wants wanted event then c.offer event else c) := by
  have hsent := (h.send (some event.type) event).send none event
  rw [← Bus.publish] at hsent
  cases wanted with
  | none => simpa [wants] using hsent
  | some type => simpa [wants] using hsent

theorem Serves.subscribe {b : Bus} {c : Channel} (h : b.Serves number wanted c)
    (other : Option EventType) :
    (b.subscribe other).2.Serves number wanted c where
  sound := (h.sound.subscribe other).sound
  channel := by
    have hlt : number < b.channels.length := (List.getElem?_eq_some_iff.mp h.channel).1
    simpa [Bus.subscribe, List.getElem?_append_left hlt] using h.channel
  sender ho := List.mem_append_left _ (h.sender ho)

/-- A subscriber has its sender as long as its receiver does not come back. -/
theorem Serves.change {b : Bus} {c changed : Channel} (h : b.Serves number wanted c)
    {channels : List Channel} (hlength : channels.length = b.channels.length)
    (hchannel : channels[number]? = some changed)
    (hopen : changed.isOpen = true → c.isOpen = true) :
    Bus.Serves { b with channels } number wanted changed where
  sound := ⟨h.sound.distinct, fun sender hm => hlength ▸ h.sound.known sender hm⟩
  channel := hchannel
  sender ho := h.sender (hopen ho)

theorem Serves.open?_eq {b : Bus} {c : Channel} (h : b.Serves number wanted c) :
    b.open? number = if c.isOpen then some c else none := by rw [open?, h.channel, Option.bind_some]

/-- A receive takes the next event out of the queue, if there is one and the receiver is there. -/
theorem Serves.receive {b : Bus} {c : Channel} (h : b.Serves number wanted c) (other : Nat) :
    (b.receive other).2.Serves number wanted
      (if other = number ∧ c.isOpen = true then { c with queue := c.queue.tail } else c) := by
  have hlt : number < b.channels.length := (List.getElem?_eq_some_iff.mp h.channel).1
  unfold Bus.receive
  by_cases he : other = number
  · subst he
    rw [h.open?_eq]
    by_cases hopen : c.isOpen = true
    · simp only [hopen, if_true, and_self]
      exact h.change (by simp) (List.getElem?_set_self hlt) fun _ => hopen
    · simpa [hopen] using h
  · simp only [he, false_and, if_false]
    split
    · exact h
    · exact h.change (by simp) ((List.getElem?_set_ne he).trans h.channel) id

/-- A receiver that goes takes along what waits for it. -/
theorem Serves.close {b : Bus} {c : Channel} (h : b.Serves number wanted c) (other : Nat) :
    (b.close other).Serves number wanted
      (if other = number then { queue := [], isOpen := false } else c) := by
  refine h.change (by simp) ?_ ?_
  · simp [List.getElem?_modify, h.channel]
  · split
    · intro ho
      cases ho
    · exact id

inductive Request
  | subscribe (wanted : Option EventType)
  | publish (event : Event)
  | receive (number : Nat)
  | close (number : Nat)
  deriving DecidableEq

def serve (b : Bus) : Request → Bus
  | .subscribe wanted => (b.subscribe wanted).2
  | .publish event => b.publish event
  | .receive number => (b.receive number).2
  | .close number => b.close number

def handed (b : Bus) (number : Nat) : Request → List Event
  | .receive other => if other = number then (b.receive number).1.join.toList else []
  | _ => []

def Request.published? (wanted : Option EventType) : Request → Option Event
  | .publish event => if wants wanted event then some event else none
  | _ => none

def Request.change (number : Nat) (wanted : Option EventType) (c : Channel) : Request → Channel
  | .subscribe _ => c
  | .publish event => if wants wanted event then c.offer event else c
  | .receive other =>
    if other = number ∧ c.isOpen = true then { c with queue := c.queue.tail } else c
  | .close other => if other = number then { queue := [], isOpen := false } else c

/-- A request does to a subscriber's channel what it does, whoever else shares the bus. -/
theorem Serves.serve {b : Bus} {c : Channel} (h : b.Serves number wanted c) (request : Request) :
    (b.serve request).Serves number wanted (request.change number wanted c) := by
  cases request with
  | subscribe other => exact h.subscribe other
  | publish event => exact h.publish event
  | receive other => exact h.receive other
  | close other => exact h.close other

theorem Serves.handed_receive {b : Bus} {c : Channel} (h : b.Serves number wanted c) :
    b.handed number (.receive number) = if c.isOpen then c.queue.head?.toList else [] := by
  rw [handed, if_pos rfl, Bus.receive, h.open?_eq]
  cases c.isOpen <;> rfl

/-! ## All requests -/

def serveAll (b : Bus) (requests : List Request) : Bus := requests.foldl serve b

def received (number : Nat) : Bus → List Request → List Event
  | _, [] => []
  | b, request :: later => b.handed number request ++ received number (b.serve request) later

def waiting (b : Bus) (number : Nat) : List Event :=
  ((b.channels[number]?).map Channel.queue).getD []

def published (wanted : Option EventType) (requests : List Request) : List Event :=
  requests.filterMap (Request.published? wanted)

/-- The published events that a subscriber wants, each with whether it finds the queue full. -/
def offers (number : Nat) (wanted : Option EventType) : Bus → List Request → List (Event × Bool)
  | _, [] => []
  | b, request :: later =>
    ((request.published? wanted).map fun event =>
      (event, (b.waiting number).length == Channel.capacity)).toList ++
      offers number wanted (b.serve request) later

theorem Serves.waiting_eq {b : Bus} {c : Channel} (h : b.Serves number wanted c) :
    b.waiting number = c.queue := by
  rw [waiting, h.channel, Option.map_some, Option.getD_some]

theorem map_fst_offers (number : Nat) (wanted : Option EventType) (b : Bus)
    (requests : List Request) :
    (offers number wanted b requests).map Prod.fst = published wanted requests := by
  induction requests generalizing b with
  | nil => rfl
  | cons request later ih =>
    rw [offers, List.map_append, ih, published, published, List.filterMap_cons]
    cases request.published? wanted <;> rfl

/-- A request moves events only from the publisher to the end of the queue, unless it is full, and
from its front to the receiver. -/
theorem Serves.handed_append {b : Bus} {c : Channel} (h : b.Serves number wanted c)
    (hopen : c.isOpen = true) (hlength : c.queue.length ≤ Channel.capacity) {request : Request}
    (hstays : request ≠ .close number) :
    b.handed number request ++ (request.change number wanted c).queue =
        c.queue ++ (request.published? wanted).toList.filter
          (fun _ => c.queue.length != Channel.capacity) ∧
      (request.change number wanted c).isOpen = true ∧
      (request.change number wanted c).queue.length ≤ Channel.capacity := by
  cases request with
  | subscribe other => exact ⟨by simp [handed, Request.published?, Request.change], hopen, hlength⟩
  | close other =>
    have hne : other ≠ number := fun he => hstays (he ▸ rfl)
    simp [handed, Request.published?, Request.change, hne, hopen, hlength]
  | receive other =>
    by_cases he : other = number
    · subst he
      rw [h.handed_receive]
      have htail : c.queue.head?.toList ++ c.queue.tail = c.queue := by cases c.queue <;> rfl
      simp [Request.published?, Request.change, hopen, htail]
      omega
    · simp [handed, Request.published?, Request.change, he, hopen, hlength]
  | publish event =>
    by_cases hw : wants wanted event = true
    · by_cases hroom : c.queue.length < Channel.capacity
      · have hne : c.queue.length ≠ Channel.capacity := Nat.ne_of_lt hroom
        simp [handed, Request.published?, Request.change, hw,
          Channel.offer_of_room hopen hroom, hne, hopen]
        omega
      · have hfull : c.queue.length = Channel.capacity :=
          Nat.le_antisymm hlength (Nat.le_of_not_lt hroom)
        simp [handed, Request.published?, Request.change, hw,
          Channel.offer_of_full hroom, hfull, hopen]
    · simp [handed, Request.published?, Request.change, hw, hopen, hlength]

/-- What a subscriber has received and what waits for it are what was waiting before and the events
that did not find its queue full. -/
theorem Serves.received_append_waiting {b : Bus} {c : Channel} (h : b.Serves number wanted c)
    (hopen : c.isOpen = true) (hlength : c.queue.length ≤ Channel.capacity) {later : List Request}
    (hstays : .close number ∉ later) :
    received number b later ++ (b.serveAll later).waiting number =
      c.queue ++ ((offers number wanted b later).filter (!·.2)).map Prod.fst := by
  induction later generalizing b c with
  | nil => simp [received, serveAll, offers, h.waiting_eq]
  | cons request later ih =>
    rw [List.mem_cons, not_or] at hstays
    obtain ⟨hnow, hlater⟩ := hstays
    obtain ⟨hmoved, hopen', hlength'⟩ := h.handed_append hopen hlength (Ne.symm hnow)
    have hrest := ih (h.serve request) hopen' hlength' hlater
    have hoffer : (((request.published? wanted).map fun event =>
        (event, (b.waiting number).length == Channel.capacity)).toList.filter (!·.2)).map Prod.fst =
          (request.published? wanted).toList.filter
            (fun _ => c.queue.length != Channel.capacity) := by
      rw [h.waiting_eq]
      cases request.published? wanted with
      | none => rfl
      | some event => by_cases hfull : c.queue.length = Channel.capacity <;> simp [hfull]
    calc received number b (request :: later) ++ (b.serveAll (request :: later)).waiting number
      _ = b.handed number request ++ (received number (b.serve request) later ++
            ((b.serve request).serveAll later).waiting number) := List.append_assoc ..
      _ = b.handed number request ++ (request.change number wanted c).queue ++
            ((offers number wanted (b.serve request) later).filter (!·.2)).map Prod.fst := by
        rw [hrest, List.append_assoc]
      _ = c.queue ++ ((offers number wanted b (request :: later)).filter (!·.2)).map Prod.fst := by
        rw [hmoved, offers, List.filter_append, List.map_append, hoffer, List.append_assoc]

def alone (wanted : Option EventType) : Bus := (subscribe {} wanted).2

/-- What remains of a request where a subscriber is alone: its own receives and its own end, and all
events. -/
def Request.own? (number : Nat) : Request → Option Request
  | .subscribe _ => none
  | .publish event => some (.publish event)
  | .receive other => if other = number then some (.receive 0) else none
  | .close other => if other = number then some (.close 0) else none

theorem sound_empty : Sound {} := ⟨List.nodup_nil, by simp⟩

theorem Sound.serve {b : Bus} (h : b.Sound) (request : Request) : (b.serve request).Sound := by
  cases request with
  | subscribe wanted => exact (h.subscribe wanted).sound
  | publish event => exact (h.send _ event).send _ event
  | receive number =>
    simp only [Bus.serve, Bus.receive]
    split
    · exact h
    · exact ⟨h.distinct, fun sender hm => by simpa using h.known sender hm⟩
  | close number =>
    exact ⟨h.distinct, fun sender hm => by simpa [Bus.serve, Bus.close] using h.known sender hm⟩

theorem Sound.serveAll {b : Bus} (h : b.Sound) (requests : List Request) :
    (b.serveAll requests).Sound := by
  induction requests generalizing b with
  | nil => exact h
  | cons request later ih => exact ih (h.serve request)

/-- A request that is not a subscriber's own does nothing to it, and one that is does the same where
it is alone. -/
theorem Serves.own? {a b : Bus} {c : Channel} (h : b.Serves number wanted c)
    (ha : a.Serves 0 wanted c) (request : Request) :
    match request.own? number with
    | none => request.change number wanted c = c ∧ b.handed number request = []
    | some own =>
      request.change number wanted c = own.change 0 wanted c ∧
          b.handed number request = a.handed 0 own := by
  cases request with
  | subscribe other => exact ⟨rfl, rfl⟩
  | publish event => exact ⟨rfl, rfl⟩
  | receive other =>
    by_cases he : other = number
    · subst he
      simp [Request.own?, Request.change, h.handed_receive, ha.handed_receive]
    · simp [Request.own?, Request.change, handed, he]
  | close other =>
    by_cases he : other = number
    · simp [Request.own?, Request.change, handed, he]
    · simp [Request.own?, Request.change, handed, he]

theorem Serves.received_own {a b : Bus} {c : Channel} (h : b.Serves number wanted c)
    (ha : a.Serves 0 wanted c) (later : List Request) :
    received number b later = received 0 a (later.filterMap (Request.own? number)) ∧
      (b.serveAll later).waiting number =
        (a.serveAll (later.filterMap (Request.own? number))).waiting 0 := by
  induction later generalizing a b c with
  | nil => exact ⟨rfl, h.waiting_eq.trans ha.waiting_eq.symm⟩
  | cons request later ih =>
    have hown := h.own? ha request
    have hserve := h.serve request
    rw [List.filterMap_cons]
    cases ho : request.own? number with
    | none =>
      rw [ho] at hown
      obtain ⟨hchange, hhanded⟩ := hown
      rw [hchange] at hserve
      obtain ⟨hreceived, hwaiting⟩ := ih hserve ha
      exact ⟨by rw [received, hhanded, List.nil_append, hreceived], hwaiting⟩
    | some own =>
      rw [ho] at hown
      obtain ⟨hchange, hhanded⟩ := hown
      rw [hchange] at hserve
      obtain ⟨hreceived, hwaiting⟩ := ih hserve (ha.serve own)
      exact ⟨by rw [received, received, hhanded, hreceived], hwaiting⟩

/-- What a bus delivers to a subscriber over a list of requests. What it has received by then,
followed by what waits for it, are the events that it wants in the order in which they were
published, without those that found its queue full; and it is what it would be if the subscriber had
a bus to itself. -/
structure Delivers (b : Bus) (number : Nat) (wanted : Option EventType)
    (later : List Request) : Prop where
  in_order : .close number ∉ later →
    (received number b later ++ (b.serveAll later).waiting number).Sublist (published wanted later)
  offered : (offers number wanted b later).map Prod.fst = published wanted later
  lost_iff_full : .close number ∉ later →
    received number b later ++ (b.serveAll later).waiting number =
      ((offers number wanted b later).filter (!·.2)).map Prod.fst
  alone : received number b later =
    received 0 (alone wanted) (later.filterMap (Request.own? number)) ∧
    (b.serveAll later).waiting number =
      ((Bus.alone wanted).serveAll (later.filterMap (Request.own? number))).waiting 0

/-- Whoever subscribes to a bus in use, and whatever is asked of the bus afterwards, gets what it
wants. -/
theorem delivers_after (earlier : List Request) (wanted : Option EventType) (later : List Request) :
    let number := ((serveAll {} earlier).subscribe wanted).1
    let b := ((serveAll {} earlier).subscribe wanted).2
    b.Delivers number wanted later := by
  intro number b
  have h : b.Serves number wanted {} := (sound_empty.serveAll earlier).subscribe wanted
  have ha : (alone wanted).Serves 0 wanted {} := sound_empty.subscribe wanted
  have hdelivered (hstays : .close number ∉ later) :
      received number b later ++ (b.serveAll later).waiting number =
        ((offers number wanted b later).filter (!·.2)).map Prod.fst :=
    h.received_append_waiting rfl (Nat.zero_le _) hstays
  constructor
  case in_order =>
    intro hstays
    rw [hdelivered hstays, ← map_fst_offers number wanted b]
    exact List.filter_sublist.map _
  case offered => exact map_fst_offers number wanted b later
  case lost_iff_full => exact hdelivered
  case alone => exact h.received_own ha later

end Bus
end MotionScript
