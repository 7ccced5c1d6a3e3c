import PacedStream.Packet.Draft
import PacedStream.Proofs.Buffer.Effect
import PacedStream.Proofs.Buffer.Histories

/-!
First in, first out. Accepted packets are numbered in the order of their arrival. Main statement: in
every history the packets sent have increasing numbers, and those queued are the last of all, with
greater numbers than any sent.
-/

namespace PacedStream.Buffer
set_option autoImplicit false

def Operation.burst : Operation → List Packet
  | .push burst | .offer burst => burst
  | .pushBytes bytes => (Packet.frame .empty bytes).packets.toList
  | _ => []

def accepted (b : Buffer) (history : List Operation) : List Packet :=
  gather after (fun b op => if (b.apply op).accepted then op.burst else []) b history

theorem accepted_cons (b : Buffer) (op : Operation) (rest : List Operation) :
    b.accepted (op :: rest) =
      (if (b.apply op).accepted then op.burst else []) ++ (b.apply op).buffer.accepted rest := rfl

theorem accepted_append (b : Buffer) (before after : List Operation) :
    b.accepted (before ++ after) = b.accepted before ++ (b.run before).accepted after :=
  gather_append _ _ b before after

theorem accepted_concat (b : Buffer) (before : List Operation) (op : Operation) :
    b.accepted (before ++ [op]) =
      b.accepted before ++ if ((b.run before).apply op).accepted then op.burst else [] := by
  rw [accepted_append]
  exact congrArg _ (List.append_nil _)

/-- The numbers of the packets that the receiver gets. The packet in front is preceded by all that
were accepted so far, less those queued. -/
def numbers (count : Nat) : List Event → List Nat
  | [] => []
  | .took burst :: es => numbers (count + burst.length) es
  | .sent moment :: es =>
    if moment.delivers then (count - moment.queue.length) :: numbers count es else numbers count es
  | .emptied :: es | .connected _ :: es => numbers count es

/-- Packets sent and queued are picked from those accepted, in order: the numbers of the first rise,
and the second are all from number `first` on, behind them. -/
structure InOrder (accepted sent queued : List Packet) (numbers : List Nat) (first : Nat) :
    Prop where
  increasing : numbers.Pairwise (· < ·)
  sent_eq : sent.map some = numbers.map (accepted[·]?)
  first_le : first ≤ accepted.length
  queued_eq : queued = accepted.drop first
  sent_lt : ∀ n ∈ numbers, n < first

variable {b b' : Buffer} {es es' : List Event} {earlier : List Packet} {count : Nat}

def gathered (earlier : List Packet) (es : List Event) : List Packet :=
  earlier ++ es.flatMap Event.accepted

section Gathered
variable {moment : Buffer} {burst : List Packet} {on : Bool}

@[simp] theorem gathered_nil : gathered earlier [] = earlier := List.append_nil _

@[simp] theorem gathered_took : gathered earlier [.took burst] = earlier ++ burst := by
  simp [gathered, Event.accepted]

@[simp] theorem gathered_sent : gathered earlier [.sent moment] = earlier := List.append_nil _

@[simp] theorem gathered_emptied : gathered earlier [.emptied] = earlier := List.append_nil _

@[simp] theorem gathered_connected : gathered earlier [.connected on] = earlier :=
  List.append_nil _

theorem gathered_append : gathered earlier (es ++ es') = gathered (gathered earlier es) es' := by
  simp [gathered]

end Gathered

theorem numbers_append : numbers count (es ++ es') =
    numbers count es ++ numbers (count + (es.flatMap Event.accepted).length) es' := by
  induction es generalizing count with
  | nil => rfl
  | cons e es ih =>
    cases e with
    | took burst =>
      simp only [List.cons_append, numbers, ih, List.flatMap_cons, Event.accepted,
        List.length_append, Nat.add_assoc]
    | sent moment =>
      simp only [List.cons_append, numbers, ih, List.flatMap_cons, Event.accepted, List.nil_append]
      split <;> rfl
    | emptied => exact ih
    | connected on => exact ih

/-- From packets accepted earlier, of which some are queued, to those accepted later. The window of
queued numbers only moves up, and a number is sent as it leaves the window. -/
structure Conveys (b : Buffer) (es : List Event) (b' : Buffer) (earlier : List Packet) : Prop where
  suffix : b'.queue.toList <:+ gathered earlier es
  increasing : (numbers earlier.length es).Pairwise (· < ·)
  sent_eq : (es.flatMap Event.delivered).map some =
    (numbers earlier.length es).map ((gathered earlier es)[·]?)
  first_le : earlier.length - b.queue.length ≤ (gathered earlier es).length - b'.queue.length
  window : ∀ n ∈ numbers earlier.length es, earlier.length - b.queue.length ≤ n ∧
    n < (gathered earlier es).length - b'.queue.length

theorem conveys_of_quiet (hnumbers : numbers earlier.length es = [])
    (hdelivered : es.flatMap Event.delivered = [])
    (suffix : b'.queue.toList <:+ gathered earlier es)
    (first_le : earlier.length - b.queue.length ≤
      (gathered earlier es).length - b'.queue.length) : Conveys b es b' earlier := by
  refine ⟨suffix, ?_, ?_, first_le, ?_⟩ <;> simp [hnumbers, hdelivered]

theorem conveys_send (hsuffix : b.queue.toList <:+ earlier)
    (toList_eq : b.queue.toList = b.queue.front :: b'.queue.toList) :
    Conveys b [.sent b] b' earlier := by
  have hlength : b.queue.length = b'.queue.length + 1 := by
    simpa using congrArg List.length toList_eq
  obtain ⟨before, hbefore⟩ := hsuffix
  have hcount : earlier.length - b.queue.length = before.length := by
    have h := congrArg List.length hbefore
    simp only [List.length_append, Queue.length_toList] at h
    omega
  have hfront : earlier[before.length]? = some b.queue.front := by
    rw [← hbefore, toList_eq]
    simp
  have hnumbers : numbers earlier.length [.sent b] =
      if b.delivers then [earlier.length - b.queue.length] else [] := rfl
  constructor
  · rw [gathered_sent, ← hbefore, toList_eq]
    exact ⟨before ++ [b.queue.front], by simp⟩
  · rw [hnumbers]
    split <;> simp
  · rw [hnumbers, gathered_sent]
    cases hdelivers : b.delivers <;> simp [Event.delivered, hdelivers, hcount, hfront]
  · rw [gathered_sent]
    omega
  · rw [hnumbers, gathered_sent]
    intro n hn
    have heq : n = earlier.length - b.queue.length := by
      split at hn <;> simp at hn
      exact hn
    -- The queue was not empty, so the window moves up by this one number.
    have hall : b.queue.length ≤ earlier.length := by
      rw [← hbefore, List.length_append, Queue.length_toList]
      exact Nat.le_add_left _ _
    omega

theorem conveys_move (h : Effect b es b') (hsuffix : b.queue.toList <:+ earlier) :
    Conveys b es b' earlier := by
  have hlength : b.queue.length ≤ earlier.length := by simpa using hsuffix.length_le
  cases h with
  | scan follows =>
    have hle : b'.queue.length ≤ b.queue.length := by simpa using follows.suffix.length_le
    refine conveys_of_quiet rfl rfl ?_ ?_
    · simpa using follows.suffix.trans hsuffix
    · rw [gathered_nil]
      omega
  | @take b' burst _ toList_eq =>
    have hmore : b'.queue.length = b.queue.length + burst.length := by
      simpa using congrArg List.length toList_eq
    refine conveys_of_quiet rfl rfl ?_ ?_
    · obtain ⟨before, hbefore⟩ := hsuffix
      rw [gathered_took, toList_eq, ← hbefore, List.append_assoc]
      exact List.suffix_append _ _
    · rw [gathered_took, List.length_append]
      omega
  | send _ toList_eq => exact conveys_send hsuffix toList_eq
  | empty toList_eq =>
    have hnone : b'.queue.length = 0 := by simpa using congrArg List.length toList_eq
    refine conveys_of_quiet rfl rfl ?_ ?_
    · rw [toList_eq]
      exact List.nil_suffix
    · rw [gathered_emptied]
      omega
  | connect _ toList_eq =>
    have hsame : b'.queue.length = b.queue.length := by
      simpa using congrArg List.length toList_eq
    refine conveys_of_quiet rfl rfl ?_ ?_
    · rw [toList_eq, gathered_connected]
      exact hsuffix
    · rw [gathered_connected]
      omega

theorem Conveys.sent_later (h : Conveys b es b' earlier) (more : List Packet) :
    (es.flatMap Event.delivered).map some =
      (numbers earlier.length es).map ((gathered earlier es ++ more)[·]?) := by
  rw [h.sent_eq]
  apply List.map_congr_left
  intro n hn
  obtain ⟨_, hlt⟩ := h.window n hn
  rw [List.getElem?_append_left (by omega)]

theorem Conveys.trans {b'' : Buffer} (h : Conveys b es b' earlier)
    (h' : Conveys b' es' b'' (gathered earlier es)) : Conveys b (es ++ es') b'' earlier := by
  have hlength : (gathered earlier es).length =
      earlier.length + (es.flatMap Event.accepted).length := by simp [gathered]
  have hnumbers : numbers earlier.length (es ++ es') =
      numbers earlier.length es ++ numbers (gathered earlier es).length es' := by
    rw [numbers_append, hlength]
  have hfirst := h.first_le
  have hfirst' := h'.first_le
  refine ⟨?_, ?_, ?_, ?_, ?_⟩
  · rw [gathered_append]
    exact h'.suffix
  · rw [hnumbers, List.pairwise_append]
    refine ⟨h.increasing, h'.increasing, ?_⟩
    intro m hm n hn
    have hbelow := (h.window m hm).2
    have habove := (h'.window n hn).1
    omega
  · rw [hnumbers, gathered_append, List.flatMap_append, List.map_append, List.map_append,
      h'.sent_eq, h.sent_later (es'.flatMap Event.accepted)]
    rfl
  · rw [gathered_append]
    omega
  · rw [hnumbers, gathered_append]
    intro n hn
    rcases List.mem_append.mp hn with hn | hn
    · have hwindow := h.window n hn
      omega
    · have hwindow := h'.window n hn
      omega

theorem conveys_course (h : Course b es b') (hq : b.queue.Ordered)
    (hsuffix : b.queue.toList <:+ earlier) : Conveys b es b' earlier := by
  induction h generalizing earlier with
  | done b =>
    refine conveys_of_quiet rfl rfl ?_ ?_
    · rwa [gathered_nil]
    · simp only [gathered_nil, Nat.le_refl]
  | step hmove _ ih =>
    have hfirst := conveys_move (effect_move hmove hq) hsuffix
    exact hfirst.trans (ih (ordered_move hmove hq) hfirst.suffix)

theorem accepted_push (b : Buffer) (burst : List Packet) :
    (b.push burst).accepted = (b.offer burst).accepted := by
  unfold push Step.accepted
  dsimp only
  cases h : (b.offer burst).fault? with
  | none => simp [h]
  | some fault => simp

theorem accepted_pushBytes (b : Buffer) (bytes : List UInt8) : (b.pushBytes bytes).accepted =
    (b.offer (Packet.frame .empty bytes).packets.toList).accepted := by
  rw [← accepted_push]
  unfold pushBytes
  dsimp only
  split <;> rfl

theorem accepted_taking (b : Buffer) (burst : List Packet) :
    (b.taking burst).flatMap Event.accepted =
      if (b.offer burst).accepted then burst else [] := by
  unfold taking
  cases burst with
  | nil => simp
  | cons p rest =>
    by_cases h : (b.offer (p :: rest)).accepted <;> simp [h, Event.accepted]

theorem accepted_events (b : Buffer) (op : Operation) :
    (b.events op).flatMap Event.accepted = if (b.apply op).accepted then op.burst else [] := by
  have hquiet : ∀ es : List Event, es.flatMap Event.accepted = [] → op.burst = [] →
      es.flatMap Event.accepted = if (b.apply op).accepted then op.burst else [] := by
    intro es hes hburst
    rw [hes, hburst]
    split <;> rfl
  cases op with
  | push burst =>
    have hpush : (b.apply (.push burst)).accepted = (b.offer burst).accepted :=
      accepted_push b burst
    rw [hpush]
    exact accepted_taking b burst
  | offer burst => exact accepted_taking b burst
  | pushBytes bytes =>
    have hpush : (b.apply (.pushBytes bytes)).accepted =
        (b.offer (Packet.frame .empty bytes).packets.toList).accepted := accepted_pushBytes b bytes
    rw [hpush]
    exact accepted_taking b _
  | tick now =>
    refine hquiet _ ?_ rfl
    unfold events
    dsimp only
    split
    · rfl
    · simp [Event.accepted]
  | reset | setThresholds | setMaxSize | setOptions | setName | setPid | setDelivers | setAsks =>
    exact hquiet _ rfl rfl

theorem accepted_eq (b : Buffer) (history : List Operation) :
    b.accepted history = (b.happened history).flatMap Event.accepted := by
  induction history generalizing b with
  | nil => rfl
  | cons op rest ih =>
    rw [accepted_cons, happened_cons, List.flatMap_append, ← ih, accepted_events]

theorem inOrder_run (hq : b.queue.Ordered) (hempty : b.queue.toList = [])
    (history : List Operation) : InOrder (b.accepted history) (b.sent history)
      (b.run history).queue.toList (numbers 0 (b.happened history))
      ((b.accepted history).length - (b.run history).queue.length) := by
  have hsuffix : b.queue.toList <:+ [] := hempty ▸ List.suffix_refl _
  have h := conveys_course (course_run hq history) hq hsuffix
  have haccepted : gathered [] (b.happened history) = b.accepted history := by
    rw [accepted_eq]
    rfl
  have hqueued := h.suffix
  have hsent := h.sent_eq
  have hwindow := h.window
  rw [haccepted] at hqueued hsent hwindow
  refine ⟨h.increasing, ?_, Nat.sub_le _ _, ?_, fun n hn => (hwindow n hn).2⟩
  · rw [sent_run hq]
    exact hsent
  · have hdrop := List.suffix_iff_eq_drop.mp hqueued
    rwa [Queue.length_toList] at hdrop

theorem fifo (settings : Settings) (history : List Operation) :
    let b := (create settings).buffer
    ∃ first, InOrder (b.accepted history) (b.sent history) (b.run history).queue.toList
      (numbers 0 (b.happened history)) first :=
  ⟨_, inOrder_run (ordered_create settings) (Queue.toList_create _ _) history⟩

def sampleSettings : Settings := { enough := 1, low := 1 }

def sample : List Packet :=
  [Packet.Draft.packet { pid := 256 }, Packet.Draft.packet { pid := 256, clock? := some 0 },
    Packet.Draft.packet { pid := 256, counter := 1 },
    Packet.Draft.packet { pid := 256, clock? := some 27000 }]

/-- The packet in front of the first reading cannot be timed and is never sent. -/
example : numbers 0 ((create sampleSettings).buffer.happened
    [.setDelivers true, .push sample, .tick 0, .tick 1000000, .tick 2000000]) = [1, 2] := by
  decide +kernel

end PacedStream.Buffer
