import Mathlib.Data.List.DropRight
import Mathlib.Data.Option.Basic
import Mathlib.Order.Defs.LinearOrder
import TapeMachine.Channel

/-!
# The order of a queue

A queue moves its head when a value is taken out, gives its storage back when it is
empty, and may compact the storage when a value is sent. Nothing of this can be seen
from outside: whatever is done with a queue, it behaves as the list of the values
that wait, where values are added at the end and taken from the front. Values are
also sent while others are received, and receiving may be broken off.
-/

namespace TapeMachine

namespace Queue

/-! ## What is done with a queue, and what is seen of it -/

/-- A value to be sent, and whether the storage is compacted on this occasion. -/
structure Sending where
  value : Word
  compacts : Queue → Bool

/-- Something that is done with a queue. -/
inductive Use where
  | send (s : Sending)
  | rewind
  /-- Values are received one by one, and after each of them a round of others is sent.
  It is broken off behind the last round, if it did not end before. -/
  | receive (rounds : List (List Sending))

/-- Something that is seen of a queue. -/
inductive Sight where
  | sent (value : Word) (refusal : Option ChannelError)
  | rewound
  | received (value : Word)
  /-- There was no value left to receive. -/
  | ended
  deriving DecidableEq

/-- The value that was sent and not refused. -/
def Sight.accepted? : Sight → Option Word
  | .sent value none => some value
  | _ => none

/-- The value that was received. -/
def Sight.received? : Sight → Option Word
  | .received value => some value
  | _ => none

/-- The values that were sent and not refused. -/
def accepted (sights : List Sight) : List Word := sights.filterMap Sight.accepted?

/-- The values that were received. -/
def received (sights : List Sight) : List Word := sights.filterMap Sight.received?

/-- What was seen since the queue was last rewound. -/
def sinceRewound (sights : List Sight) : List Sight := sights.rtakeWhile (· != .rewound)

/-- How something answers that is used as a queue. -/
structure Behaviour (σ : Type) where
  send : σ → Sending → Option ChannelError × σ
  rewind : σ → σ
  take? : σ → Option (Word × σ)

namespace Behaviour

variable {σ : Type} (b : Behaviour σ)

/-- Sends values one after the other. -/
def sendAll : List Sending → σ → List Sight × σ
  | [], q => ([], q)
  | s :: rest, q =>
    let r := b.send q s
    let after := sendAll rest r.2
    (.sent s.value r.1 :: after.1, after.2)

/-- Receives values, and sends a round of others after each of them. -/
def receive : List (List Sending) → σ → List Sight × σ
  | [], q => ([], q)
  | round :: rounds, q =>
    match b.take? q with
    | none => ([.ended], q)
    | some (value, q) =>
      let sent := b.sendAll round q
      let after := receive rounds sent.2
      (.received value :: (sent.1 ++ after.1), after.2)

/-- What is seen of one use, and the state behind it. -/
def use : Use → σ → List Sight × σ
  | .send s, q => ([.sent s.value (b.send q s).1], (b.send q s).2)
  | .rewind, q => ([.rewound], b.rewind q)
  | .receive rounds, q => b.receive rounds q

/-- What is seen of uses one after the other, and the state behind them. -/
def useAll : List Use → σ → List Sight × σ
  | [], q => ([], q)
  | u :: uses, q =>
    let r := b.use u q
    let after := useAll uses r.2
    (r.1 ++ after.1, after.2)

end Behaviour

/-- A list of at most so many values, the oldest first. -/
def fifo (capacity : Int) : Behaviour (List Word) where
  send waiting s :=
    if capacity ≤ waiting.length then (some .full, waiting) else (none, waiting ++ [s.value])
  rewind _ := []
  take?
    | [] => none
    | value :: rest => some (value, rest)

/-- The queue itself. -/
def behaviour : Behaviour Queue where
  send q s := if q.isFull then (some .full, q) else (none, q.pushWith s.compacts s.value)
  rewind := clear
  take? := pop?

/-! ## Queues and lists -/

/-- A queue in which these values wait. -/
structure Holds (capacity : Int) (q : Queue) (waiting : List Word) : Prop where
  capacity_eq : q.capacity = capacity
  head_le : q.head ≤ q.stored.size
  toList_eq : q.toList = waiting
  length_le : (waiting.length : Int) ≤ max capacity 0

/-- A queue is as long as what it holds. -/
theorem length_toList (q : Queue) : q.toList.length = q.length := by
  simp [toList, length]

/-- Compacting makes no difference to what a queue holds. -/
private theorem toList_compact (q : Queue) : q.compact.toList = q.toList := by
  have hall : (q.stored.toList.drop q.head).length ≤ q.stored.size - q.head := by simp
  simp only [compact, toList, Array.toList_extract, List.extract_eq_take_drop, List.drop_zero]
  exact List.take_of_length_le hall

/-- A value is put behind what a queue holds. -/
private theorem toList_pushWith {q : Queue} (hhead : q.head ≤ q.stored.size)
    (compacts : Queue → Bool)
    (value : Word) : (q.pushWith compacts value).toList = q.toList ++ [value] := by
  have hpush (q : Queue) (hhead : q.head ≤ q.stored.size) :
      (⟨q.capacity, q.stored.push value, q.head⟩ : Queue).toList = q.toList ++ [value] := by
    simp only [toList, Array.toList_push]
    exact List.drop_append_of_le_length (by simpa using hhead)
  unfold pushWith
  by_cases hcompacts : compacts q = true
  · rw [if_pos hcompacts, ← toList_compact q]
    exact hpush q.compact (Nat.zero_le _)
  · rw [if_neg hcompacts]
    exact hpush q hhead

/-- The front of a queue stays within what is stored. -/
private theorem head_pushWith_le {q : Queue} (hhead : q.head ≤ q.stored.size)
    (compacts : Queue → Bool) (value : Word) :
    (q.pushWith compacts value).head ≤ (q.pushWith compacts value).stored.size := by
  unfold pushWith
  by_cases hcompacts : compacts q = true
  · rw [if_pos hcompacts]
    exact Nat.zero_le _
  · rw [if_neg hcompacts]
    simp only [Array.size_push]
    omega

/-- The capacity stays as it is. -/
private theorem capacity_pushWith (q : Queue) (compacts : Queue → Bool) (value : Word) :
    (q.pushWith compacts value).capacity = q.capacity := by
  unfold pushWith
  by_cases hcompacts : compacts q = true
  · rw [if_pos hcompacts]
    rfl
  · rw [if_neg hcompacts]

variable {capacity : Int} {q : Queue} {waiting : List Word}

/-- A queue is as long as what waits in it. -/
theorem Holds.length_eq (h : Holds capacity q waiting) : q.length = waiting.length := by
  rw [← h.toList_eq, length_toList]

/-- A queue is full if as many values wait as it has room for. -/
theorem Holds.isFull_iff (h : Holds capacity q waiting) :
    q.isFull = true ↔ capacity ≤ waiting.length := by
  rw [isFull, decide_eq_true_iff, h.capacity_eq, h.length_eq]

/-- A queue holds nothing at first. -/
theorem holds_empty (capacity : Int) : Holds capacity { capacity } [] where
  capacity_eq := rfl
  head_le := Nat.le_refl _
  toList_eq := rfl
  length_le := Int.le_max_right capacity 0

/-- A queue that was cleared holds nothing. -/
theorem Holds.clear (h : Holds capacity q waiting) : Holds capacity q.clear [] where
  capacity_eq := h.capacity_eq
  head_le := Nat.le_refl _
  toList_eq := rfl
  length_le := Int.le_max_right capacity 0

/-- A queue with room holds a value behind the others. -/
theorem Holds.pushWith (h : Holds capacity q waiting) (hroom : ¬ capacity ≤ waiting.length)
    (s : Sending) : Holds capacity (q.pushWith s.compacts s.value) (waiting ++ [s.value]) where
  capacity_eq := (capacity_pushWith q _ _).trans h.capacity_eq
  head_le := head_pushWith_le h.head_le _ _
  toList_eq := by rw [toList_pushWith h.head_le, h.toList_eq]
  length_le := by
    rw [List.length_append, List.length_singleton]
    omega

/-- Where no value waits, none is taken. -/
theorem Holds.pop?_nil (h : Holds capacity q []) : q.pop? = none := by
  have hlength := h.length_eq
  unfold length at hlength
  unfold pop?
  rw [dif_neg]
  simp only [List.length_nil] at hlength
  omega

/-- The oldest value is taken, whether the storage is then given back or not. -/
theorem Holds.pop?_cons {value : Word} (h : Holds capacity q (value :: waiting)) :
    ∃ rest, q.pop? = some (value, rest) ∧ Holds capacity rest waiting := by
  have hlist := h.toList_eq
  have hhead : q.head < q.stored.size := by
    have hlength := h.length_eq
    unfold length at hlength
    simp only [List.length_cons] at hlength
    omega
  have hvalue : q.stored[q.head] = value ∧ q.stored.toList.drop (q.head + 1) = waiting := by
    rw [toList, List.drop_eq_getElem_cons (by simpa using hhead)] at hlist
    exact List.cons.inj hlist
  have hbound : (waiting.length : Int) ≤ max capacity 0 := by
    have hlength := h.length_le
    simp only [List.length_cons] at hlength
    omega
  have hrest : Holds capacity { q with head := q.head + 1 } waiting :=
    ⟨h.capacity_eq, hhead, hvalue.2, hbound⟩
  unfold pop?
  rw [dif_pos hhead]
  dsimp only
  rw [hvalue.1]
  by_cases hempty : Queue.length { q with head := q.head + 1 } = 0
  · rw [if_pos hempty]
    obtain rfl : waiting = [] := by
      rw [hrest.length_eq] at hempty
      exact List.eq_nil_of_length_eq_zero hempty
    exact ⟨_, rfl, hrest.clear⟩
  · rw [if_neg hempty]
    exact ⟨_, rfl, hrest⟩

/-! ## One answers as the other -/

/-- Two behaviours that show the same, as long as their states are related. -/
structure Alike {σ τ : Type} (b : Behaviour σ) (c : Behaviour τ) (R : σ → τ → Prop) : Prop where
  send : ∀ {x y}, R x y → ∀ s, (b.send x s).1 = (c.send y s).1 ∧ R (b.send x s).2 (c.send y s).2
  rewind : ∀ {x y}, R x y → R (b.rewind x) (c.rewind y)
  take? : ∀ {x y}, R x y →
    Option.Rel (fun r r' => r.1 = r'.1 ∧ R r.2 r'.2) (b.take? x) (c.take? y)

namespace Alike

variable {σ τ : Type} {b : Behaviour σ} {c : Behaviour τ} {R : σ → τ → Prop} {x : σ} {y : τ}

/-- Sending is alike, value by value. -/
theorem sendAll (h : Alike b c R) (hxy : R x y) (sendings : List Sending) :
    (b.sendAll sendings x).1 = (c.sendAll sendings y).1 ∧
      R (b.sendAll sendings x).2 (c.sendAll sendings y).2 := by
  induction sendings generalizing x y with
  | nil => exact ⟨rfl, hxy⟩
  | cons s sendings ih =>
    obtain ⟨hrefusal, hnext⟩ := h.send hxy s
    obtain ⟨hsights, hend⟩ := ih hnext
    refine ⟨?_, hend⟩
    simp only [Behaviour.sendAll, hrefusal, hsights]

/-- Receiving is alike, round by round. -/
theorem receive (h : Alike b c R) (hxy : R x y) (rounds : List (List Sending)) :
    (b.receive rounds x).1 = (c.receive rounds y).1 ∧
      R (b.receive rounds x).2 (c.receive rounds y).2 := by
  induction rounds generalizing x y with
  | nil => exact ⟨rfl, hxy⟩
  | cons round rounds ih =>
    have htake := h.take? hxy
    unfold Behaviour.receive
    generalize b.take? x = taken at htake ⊢
    generalize c.take? y = taken' at htake ⊢
    cases htake with
    | none => exact ⟨rfl, hxy⟩
    | @some r r' hr =>
      obtain ⟨value, x⟩ := r
      obtain ⟨value', y⟩ := r'
      obtain ⟨rfl, hnext⟩ := hr
      obtain ⟨hsent, hnext⟩ := h.sendAll hnext round
      obtain ⟨hsights, hend⟩ := ih hnext
      refine ⟨?_, hend⟩
      simp only [hsent, hsights]

/-- Every use is alike. -/
theorem use (h : Alike b c R) (hxy : R x y) (u : Use) :
    (b.use u x).1 = (c.use u y).1 ∧ R (b.use u x).2 (c.use u y).2 := by
  cases u with
  | send s =>
    obtain ⟨hrefusal, hnext⟩ := h.send hxy s
    refine ⟨?_, hnext⟩
    simp only [Behaviour.use, hrefusal]
  | rewind => exact ⟨rfl, h.rewind hxy⟩
  | receive rounds => exact h.receive hxy rounds

/-- Uses are alike one after the other. -/
theorem useAll (h : Alike b c R) (hxy : R x y) (uses : List Use) :
    (b.useAll uses x).1 = (c.useAll uses y).1 ∧ R (b.useAll uses x).2 (c.useAll uses y).2 := by
  induction uses generalizing x y with
  | nil => exact ⟨rfl, hxy⟩
  | cons u uses ih =>
    obtain ⟨hfirst, hnext⟩ := h.use hxy u
    obtain ⟨hrest, hend⟩ := ih hnext
    refine ⟨?_, hend⟩
    simp only [Behaviour.useAll, hfirst, hrest]

end Alike

/-- A queue answers as the list of the values that wait in it. -/
theorem alike_fifo (capacity : Int) : Alike behaviour (fifo capacity) (Holds capacity) where
  send {q waiting} h s := by
    unfold behaviour fifo
    dsimp only
    by_cases hfull : capacity ≤ waiting.length
    · rw [if_pos (h.isFull_iff.mpr hfull), if_pos hfull]
      exact ⟨rfl, h⟩
    · rw [if_neg (mt h.isFull_iff.mp hfull), if_neg hfull]
      exact ⟨rfl, h.pushWith hfull s⟩
  rewind h := h.clear
  take? {q waiting} h := by
    change Option.Rel _ q.pop? _
    cases waiting with
    | nil =>
      rw [h.pop?_nil]
      exact .none
    | cons value waiting =>
      obtain ⟨rest, hpop, hrest⟩ := h.pop?_cons
      rw [hpop]
      exact .some ⟨rfl, hrest⟩

/-! ## What is received of what was sent -/

/-- What was accepted in one part and then in another. -/
theorem accepted_append (sights more : List Sight) :
    accepted (sights ++ more) = accepted sights ++ accepted more :=
  List.filterMap_append

/-- What was received in one part and then in another. -/
theorem received_append (sights more : List Sight) :
    received (sights ++ more) = received sights ++ received more :=
  List.filterMap_append

/-- Nothing is received while values are sent. -/
theorem received_sendAll {σ : Type} (b : Behaviour σ) (sendings : List Sending) (q : σ) :
    received (b.sendAll sendings q).1 = [] := by
  induction sendings generalizing q with
  | nil => rfl
  | cons s sendings ih => exact ih (b.send q s).2

/-- Sending adds the values at the end that are not refused. -/
theorem fifo_sendAll (capacity : Int) (sendings : List Sending) (waiting : List Word) :
    ((fifo capacity).sendAll sendings waiting).2 =
        waiting ++ accepted ((fifo capacity).sendAll sendings waiting).1 ∧
      .rewound ∉ ((fifo capacity).sendAll sendings waiting).1 ∧
      .ended ∉ ((fifo capacity).sendAll sendings waiting).1 := by
  induction sendings generalizing waiting with
  | nil => simp [Behaviour.sendAll, accepted]
  | cons s sendings ih =>
    unfold Behaviour.sendAll
    by_cases hfull : capacity ≤ waiting.length
    · have hsend : (fifo capacity).send waiting s = (some .full, waiting) := if_pos hfull
      obtain ⟨hwaiting, hrewound, hended⟩ := ih waiting
      rw [hsend]
      refine ⟨hwaiting, ?_, ?_⟩
      · simpa using hrewound
      · simpa using hended
    · have hsend : (fifo capacity).send waiting s = (none, waiting ++ [s.value]) := if_neg hfull
      obtain ⟨hwaiting, hrewound, hended⟩ := ih (waiting ++ [s.value])
      rw [hsend]
      refine ⟨?_, ?_, ?_⟩
      · rw [List.append_assoc] at hwaiting
        exact hwaiting
      · simpa using hrewound
      · simpa using hended

/-- While values are received, each one is received that waited or was sent meanwhile, or
still waits at the end. -/
theorem fifo_receive (capacity : Int) (rounds : List (List Sending)) (waiting : List Word) :
    let r := (fifo capacity).receive rounds waiting
    received r.1 ++ r.2 = waiting ++ accepted r.1 ∧ .rewound ∉ r.1 ∧
      if .ended ∈ r.1 then r.2 = [] else (received r.1).length = rounds.length := by
  induction rounds generalizing waiting with
  | nil => simp [Behaviour.receive, received, accepted]
  | cons round rounds ih =>
    intro r
    cases waiting with
    | nil =>
      have hr : r = ([.ended], []) := rfl
      rw [hr]
      refine ⟨rfl, by simp, ?_⟩
      rw [if_pos List.mem_cons_self]
    | cons value waiting =>
      obtain ⟨hsent, hkept, hgoes⟩ := fifo_sendAll capacity round waiting
      have hnone := received_sendAll (fifo capacity) round waiting
      set sent := (fifo capacity).sendAll round waiting with hsentdef
      obtain ⟨hrest, hrewound, hended⟩ := ih sent.2
      set after := (fifo capacity).receive rounds sent.2 with hafter
      have hr : r = (.received value :: (sent.1 ++ after.1), after.2) := rfl
      have hreceived : received r.1 = value :: received after.1 := by
        have hcons : received r.1 = value :: received (sent.1 ++ after.1) := by
          rw [hr]
          rfl
        rw [hcons, received_append, hnone, List.nil_append]
      have haccepted : accepted r.1 = accepted sent.1 ++ accepted after.1 := by
        rw [hr, ← accepted_append]
        rfl
      refine ⟨?_, ?_, ?_⟩
      · have hleft : r.2 = after.2 := by rw [hr]
        rw [hreceived, haccepted, hleft, List.cons_append, List.cons_append, ← List.append_assoc,
          ← hsent, ← hrest]
      · rw [hr]
        simpa using ⟨hkept, hrewound⟩
      · have hmem : .ended ∈ r.1 ↔ .ended ∈ after.1 := by
          rw [hr]
          simp [hgoes]
        rw [hreceived, List.length_cons, List.length_cons]
        by_cases hdone : .ended ∈ after.1
        · rw [if_pos hdone] at hended
          rw [if_pos (hmem.mpr hdone)]
          exact hended
        · rw [if_neg hdone] at hended
          rw [if_neg (mt hmem.mp hdone), hended]

/-- What is seen without a rewind is seen since the last one. -/
private theorem sinceRewound_append {more : List Sight} (hmore : .rewound ∉ more)
    (sights : List Sight) : sinceRewound (sights ++ more) = sinceRewound sights ++ more := by
  induction more using List.reverseRecOn with
  | nil => rw [List.append_nil, List.append_nil]
  | append_singleton more sight ih =>
    simp only [List.mem_append, List.mem_singleton, not_or] at hmore
    have hsight : (sight != .rewound) = true := bne_iff_ne.mpr (Ne.symm hmore.2)
    have hconcat := List.rtakeWhile_concat_pos (· != .rewound) (sights ++ more) sight hsight
    rw [sinceRewound, ← List.append_assoc, hconcat, ← List.append_assoc]
    exact congrArg (· ++ [sight]) (ih hmore.1)

/-- All that was sent since the queue was last rewound was received in this order, or still
waits. -/
def Accounts (sights : List Sight) (waiting : List Word) : Prop :=
  received (sinceRewound sights) ++ waiting = accepted (sinceRewound sights)

/-- Whatever is done keeps the account. -/
theorem Accounts.use {sights : List Sight} (h : Accounts sights waiting) (capacity : Int)
    (u : Use) :
    Accounts (sights ++ ((fifo capacity).use u waiting).1) ((fifo capacity).use u waiting).2 := by
  -- Between two rewindings the account grows by what is seen.
  have hgrow {more : List Sight} {left : List Word} (hmore : .rewound ∉ more)
      (hleft : received more ++ left = waiting ++ accepted more) :
      Accounts (sights ++ more) left := by
    unfold Accounts at h ⊢
    rw [sinceRewound_append hmore, received_append, accepted_append, List.append_assoc, hleft,
      ← List.append_assoc, h]
  cases u with
  | send s =>
    obtain ⟨hwaiting, hrewound, _⟩ := fifo_sendAll capacity [s] waiting
    change Accounts (sights ++ ((fifo capacity).sendAll [s] waiting).1) _
    refine hgrow hrewound ?_
    rw [received_sendAll, List.nil_append]
    exact hwaiting
  | rewind =>
    have hnone : sinceRewound (sights ++ [.rewound]) = [] :=
      List.rtakeWhile_concat_neg _ _ _ (by simp)
    change Accounts (sights ++ [.rewound]) []
    unfold Accounts
    rw [hnone]
    rfl
  | receive rounds =>
    obtain ⟨hbalance, hrewound, _⟩ := fifo_receive capacity rounds waiting
    exact hgrow hrewound hbalance

/-- The account is kept over all uses. -/
theorem Accounts.useAll {sights : List Sight} (h : Accounts sights waiting) (capacity : Int)
    (uses : List Use) :
    Accounts (sights ++ ((fifo capacity).useAll uses waiting).1)
      ((fifo capacity).useAll uses waiting).2 := by
  induction uses generalizing sights waiting with
  | nil => rwa [Behaviour.useAll, List.append_nil]
  | cons u uses ih =>
    have hrest := ih (h.use capacity u)
    rwa [List.append_assoc] at hrest

/-! ## Channels over queues -/

/-- The value that was sent, with its refusal. -/
def Sight.sent? : Sight → Option (Word × Option ChannelError)
  | .sent value refusal => some (value, refusal)
  | _ => none

/-- The rounds in which a feed is sent, one value at a time. -/
def roundsOf : (fuel : Nat) → (limit : Option Nat) → (feed : List Word) → List (List Sending)
  | 0, _, _ => []
  | fuel + 1, limit, feed =>
    if limit = some 0 then []
    else
      (feed.take 1).map (Sending.mk · isSlack) ::
        roundsOf fuel (limit.map (· - 1)) (feed.drop 1)

/-- There are as many rounds as the limit allows. -/
private theorem length_roundsOf (fuel : Nat) (limit : Option Nat) (feed : List Word) :
    (roundsOf fuel limit feed).length = (limit.map (min fuel)).getD fuel := by
  induction fuel generalizing limit feed with
  | zero => cases limit <;> simp [roundsOf]
  | succ fuel ih =>
    unfold roundsOf
    cases limit with
    | none => simp [ih]
    | some n =>
      cases n with
      | zero => simp
      | succ n =>
        simp only [Option.some.injEq, Nat.add_eq_zero_iff, Nat.succ_ne_self, and_false, if_false,
          List.length_cons, ih, Option.map_some, Option.getD_some, Nat.add_sub_cancel]
        omega

/-- What is sent in rounds is taken from the feed. -/
theorem flatten_roundsOf_le (fuel : Nat) (limit : Option Nat) (feed : List Word) :
    (roundsOf fuel limit feed).flatten.length ≤ feed.length := by
  induction fuel generalizing limit feed with
  | zero => simp [roundsOf]
  | succ fuel ih =>
    unfold roundsOf
    split
    · simp
    · have hrest := ih (limit.map (· - 1)) (feed.drop 1)
      rw [List.flatten_cons, List.length_append, List.length_map, List.length_take]
      rw [List.length_drop] at hrest
      omega

/-- A channel sends to its queue, and compacts slack storage. -/
theorem send_queue (q : Queue) (value : Word) :
    (Channel.queue q).send value =
      ((behaviour.send q ⟨value, isSlack⟩).1, .queue (behaviour.send q ⟨value, isSlack⟩).2) := by
  unfold Channel.send Channel.refusal? behaviour
  dsimp only
  cases q.isFull with
  | true => rfl
  | false => rfl

/-- A channel feeds its queue with a round of at most one value. -/
theorem feedOnce_queue (q : Queue) (feed : List Word) :
    (Channel.queue q).feedOnce feed =
      let r := behaviour.sendAll ((feed.take 1).map (Sending.mk · isSlack)) q
      (r.1.filterMap Sight.sent?, feed.drop 1, .queue r.2) := by
  cases feed with
  | nil => rfl
  | cons value feed =>
    simp only [Channel.feedOnce, send_queue]
    rfl

/-- A channel receives from its queue in rounds. -/
theorem receiveFrom_queue (fuel : Nat) (limit : Option Nat) (feed : List Word) (q : Queue) :
    Channel.receiveFrom fuel limit feed none (.queue q) =
      let r := behaviour.receive (roundsOf fuel limit feed) q
      ⟨received r.1, r.1.filterMap Sight.sent?, .queue r.2⟩ := by
  induction fuel generalizing limit feed q with
  | zero => rfl
  | succ fuel ih =>
    unfold Channel.receiveFrom roundsOf
    by_cases hlimit : limit = some 0
    · rw [if_pos hlimit, if_pos hlimit]
      rfl
    · rw [if_neg hlimit, if_neg hlimit]
      unfold Behaviour.receive
      have hnext : (Channel.queue q).next? none =
          q.pop?.map fun r => (r.1, none, .queue r.2) := rfl
      have htake : behaviour.take? q = q.pop? := rfl
      rw [hnext, htake]
      cases q.pop? with
      | none => rfl
      | some r =>
        have hnone := received_sendAll behaviour ((feed.take 1).map (Sending.mk · isSlack)) r.2
        simp only [Option.map_some, feedOnce_queue, ih, received, List.filterMap_cons,
          List.filterMap_append, Sight.received?, Sight.sent?] at hnone ⊢
        rw [hnone, List.nil_append]

/-- No more is accepted than is sent. -/
theorem accepted_sendAll_le {σ : Type} (b : Behaviour σ) (sendings : List Sending) (q : σ) :
    (accepted (b.sendAll sendings q).1).length ≤ sendings.length := by
  induction sendings generalizing q with
  | nil => exact Nat.le_refl 0
  | cons s sendings ih =>
    have hrest := ih (b.send q s).2
    have hcons : accepted (b.sendAll (s :: sendings) q).1 =
        accepted [.sent s.value (b.send q s).1] ++
          accepted (b.sendAll sendings (b.send q s).2).1 := accepted_append [_] _
    have hone : (accepted [.sent s.value (b.send q s).1]).length ≤ 1 :=
      List.length_filterMap_le _ _
    rw [hcons, List.length_append, List.length_cons]
    omega

/-- No more is accepted in a loop than was sent in it. -/
private theorem accepted_receive_le {σ : Type} (b : Behaviour σ) (rounds : List (List Sending))
    (q : σ) : (accepted (b.receive rounds q).1).length ≤ rounds.flatten.length := by
  induction rounds generalizing q with
  | nil => exact Nat.le_refl 0
  | cons round rounds ih =>
    unfold Behaviour.receive
    cases b.take? q with
    | none => exact Nat.zero_le _
    | some r =>
      obtain ⟨value, q⟩ := r
      have hround := accepted_sendAll_le b round q
      have hrest := ih (b.sendAll round q).2
      have hsplit : accepted (.received value :: ((b.sendAll round q).1 ++
          (b.receive rounds (b.sendAll round q).2).1)) = accepted (b.sendAll round q).1 ++
          accepted (b.receive rounds (b.sendAll round q).2).1 := accepted_append _ _
      rw [hsplit, List.length_append, List.flatten_cons, List.length_append]
      omega

/-- How many values are received: all that waited or were sent meanwhile, or as many as
there are rounds. -/
theorem Holds.length_received (h : Holds capacity q waiting) (rounds : List (List Sending)) :
    (received (behaviour.receive rounds q).1).length =
      if .ended ∈ (behaviour.receive rounds q).1
        then q.length + (accepted (behaviour.receive rounds q).1).length
        else rounds.length := by
  obtain ⟨hsights, _⟩ := (alike_fifo capacity).receive h rounds
  obtain ⟨hbalance, _, hended⟩ := fifo_receive capacity rounds waiting
  rw [hsights, h.length_eq]
  by_cases hdone : .ended ∈ ((fifo capacity).receive rounds waiting).1
  · rw [if_pos hdone] at hended ⊢
    rw [hended, List.append_nil] at hbalance
    rw [hbalance, List.length_append]
  · rw [if_neg hdone] at hended ⊢
    exact hended

/-- Receiving from a channel over a queue ends, unless it was broken off at its limit. -/
theorem Holds.receive_queue (h : Holds capacity q waiting) (limit : Option Nat)
    (feed : List Word) :
    ∃ rounds, (Channel.queue q).receive limit feed =
        ⟨received (behaviour.receive rounds q).1,
          (behaviour.receive rounds q).1.filterMap Sight.sent?,
          .queue (behaviour.receive rounds q).2⟩ ∧
      (.ended ∈ (behaviour.receive rounds q).1 ∨ limit = some rounds.length) := by
  by_cases hlimit : limit = some 0
  · refine ⟨[], ?_, .inr hlimit⟩
    unfold Channel.receive
    rw [if_pos hlimit]
    rfl
  · set fuel := q.length + feed.length + 1 with hfuel
    refine ⟨roundsOf fuel limit feed, ?_, ?_⟩
    · unfold Channel.receive
      rw [if_neg hlimit]
      exact receiveFrom_queue fuel limit feed q
    · -- Values are received until the rounds are used up, and there are more rounds than values.
      by_contra hnot
      obtain ⟨hopen, hlength⟩ := not_or.mp hnot
      have hreceived := h.length_received (roundsOf fuel limit feed)
      rw [if_neg hopen] at hreceived
      obtain ⟨hsights, _⟩ := (alike_fifo capacity).receive h (roundsOf fuel limit feed)
      obtain ⟨hbalance, _, _⟩ := fifo_receive capacity (roundsOf fuel limit feed) waiting
      rw [← hsights] at hbalance
      have hcount := congrArg List.length hbalance
      rw [List.length_append, List.length_append, ← h.length_eq] at hcount
      have haccepted := accepted_receive_le behaviour (roundsOf fuel limit feed) q
      have hsent := flatten_roundsOf_le fuel limit feed
      have hrounds := length_roundsOf fuel limit feed
      cases limit with
      | none =>
        simp only [Option.map_none, Option.getD_none] at hrounds
        omega
      | some n =>
        simp only [Option.map_some, Option.getD_some] at hrounds
        simp only [Option.some.injEq] at hlength
        omega

/-! ## Queues are first in, first out -/

/-- A queue is first in, first out, whatever is done with it and whenever its storage is
compacted. It shows the same as a list of values that wait. What was accepted since it was
last rewound was received in this order or still waits. It refuses a value exactly when as
many wait as it has room for, and is then unchanged. Receiving that is not broken off ends
behind all values that waited and were accepted meanwhile. What channels do with a queue is
such a use. -/
theorem fifo_of_uses (capacity : Int) (uses : List Use) :
    let r := behaviour.useAll uses { capacity }
    let q := r.2
    (r.1, q.toList) = (fifo capacity).useAll uses [] ∧
    received (sinceRewound r.1) ++ q.toList = accepted (sinceRewound r.1) ∧
    (∀ s, (behaviour.send q s).1 = (if capacity ≤ q.length then some .full else none) ∧
      (capacity ≤ q.length → (behaviour.send q s).2 = q)) ∧
    q.length = q.toList.length ∧ (q.length : Int) ≤ max capacity 0 ∧
    q.head ≤ q.stored.size ∧
    (∀ rounds, (received (behaviour.receive rounds q).1).length =
      if .ended ∈ (behaviour.receive rounds q).1
        then q.length + (accepted (behaviour.receive rounds q).1).length
        else rounds.length) ∧
    (∀ value, (Channel.queue q).send value =
      ((behaviour.send q ⟨value, isSlack⟩).1, .queue (behaviour.send q ⟨value, isSlack⟩).2)) ∧
    (Channel.queue q).rewind = .queue (behaviour.rewind q) ∧
    ∀ limit feed, ∃ rounds, (Channel.queue q).receive limit feed =
        ⟨received (behaviour.receive rounds q).1,
          (behaviour.receive rounds q).1.filterMap Sight.sent?,
          .queue (behaviour.receive rounds q).2⟩ ∧
      (.ended ∈ (behaviour.receive rounds q).1 ∨ limit = some rounds.length) := by
  intro r q
  obtain ⟨hsights, hholds⟩ := (alike_fifo capacity).useAll (holds_empty capacity) uses
  have hstart : Accounts [] [] := rfl
  have haccounts := hstart.useAll capacity uses
  refine ⟨?_, ?_, fun s => ?_, (length_toList q).symm, ?_, hholds.head_le,
    hholds.length_received, send_queue q, rfl, hholds.receive_queue⟩
  · exact Prod.ext hsights hholds.toList_eq
  · rw [List.nil_append, ← hsights, ← hholds.toList_eq] at haccounts
    exact haccounts
  · obtain ⟨hrefusal, _⟩ := (alike_fifo capacity).send hholds s
    have hlength := hholds.length_eq
    refine ⟨?_, fun hfull => ?_⟩
    · rw [hrefusal, hlength]
      unfold fifo
      dsimp only
      split <;> rfl
    · have hisFull := hholds.isFull_iff.mpr (hlength ▸ hfull)
      exact congrArg Prod.snd (if_pos hisFull)
  · rw [hholds.length_eq]
    exact hholds.length_le

end Queue

end TapeMachine
