import PacedStream.Proofs.Buffer.Histories

/-!
Sessions of a flow: the calls made on it, each with its answer. Main statement: what a session has
come to says in which state the flow is, since when it stalls and what the next update is answered.
A buffer makes no other calls on its flow.
-/

namespace PacedStream
namespace Flow
set_option autoImplicit false

def since? : Flow → Option Int
  | .underflow since => some since
  | .empty | .buffering | .running => none

theorem since?_eq_some_iff {f : Flow} {since : Int} :
    f.since? = some since ↔ f = .underflow since := by
  cases f <;> simp [since?]

inductive Call where
  | feed
  /-- The queue is dropped, or the clock has to be found again. -/
  | rebuffer
  | update (blocks enough low : Nat) (now : Int)

def call (f : Flow) : Call → Flow × Option Action
  | .feed => (f.feed, none)
  | .rebuffer => (.buffering, none)
  | .update blocks enough low now =>
    ((f.update blocks enough low now).1, some (f.update blocks enough low now).2)

structure Exchange where
  call : Call
  answer? : Option Action

def after (f : Flow) (calls : List Call) : Flow := calls.foldl (fun f c => (f.call c).1) f

def exchanges (f : Flow) : List Call → List Exchange
  | [] => []
  | c :: rest => ⟨c, (f.call c).2⟩ :: exchanges (f.call c).1 rest

variable {f f' : Flow} {c : Call} {answer? : Option Action} {calls more : List Call}

theorem after_append : f.after (calls ++ more) = (f.after calls).after more := List.foldl_append

inductive Turns : Flow → Call → Flow → Option Action → Prop where
  | feed : Turns .empty .feed .buffering none
  | fed {f : Flow} (left : f ≠ .empty) : Turns f .feed f none
  | rebuffer (f : Flow) : Turns f .rebuffer .buffering none
  | idle {blocks enough low : Nat} {now : Int} :
      Turns .empty (.update blocks enough low now) .empty (some .hold)
  | start {blocks enough low : Nat} {now : Int} (full : enough ≤ blocks) :
      Turns .buffering (.update blocks enough low now) .running (some .start)
  | fill {blocks enough low : Nat} {now : Int} (few : blocks < enough) :
      Turns .buffering (.update blocks enough low now) .buffering (some .hold)
  | run {blocks enough low : Nat} {now : Int} (back : low ≤ blocks) :
      Turns .running (.update blocks enough low now) .running (some .run)
  | stall {blocks enough low : Nat} {now : Int} (few : blocks < low) :
      Turns .running (.update blocks enough low now) (.underflow now) (some .stall)
  | resume {blocks enough low : Nat} {now since : Int} (back : low ≤ blocks) :
      Turns (.underflow since) (.update blocks enough low now) .running
        (some (.resume (Instant.since now since)))
  | reset {blocks enough low : Nat} {now since : Int} (few : blocks < low)
      (long : maxStall < Instant.since now since) :
      Turns (.underflow since) (.update blocks enough low now) .buffering (some .reset)
  | wait {blocks enough low : Nat} {now since : Int} (few : blocks < low)
      (short : Instant.since now since ≤ maxStall) :
      Turns (.underflow since) (.update blocks enough low now) (.underflow since) (some .hold)

theorem turns_update (f : Flow) (blocks enough low : Nat) (now : Int) :
    Turns f (.update blocks enough low now) (f.update blocks enough low now).1
      (some (f.update blocks enough low now).2) := by
  cases f with
  | empty => exact .idle
  | buffering =>
    simp only [update]
    split
    · rename_i full
      exact .start full
    · rename_i few
      exact .fill (Nat.lt_of_not_le few)
  | running =>
    simp only [update]
    split
    · rename_i few
      exact .stall few
    · rename_i back
      exact .run (Nat.le_of_not_lt back)
  | underflow since =>
    simp only [update]
    split
    · rename_i back
      exact .resume back
    · rename_i few
      split
      · rename_i long
        exact .reset (Nat.lt_of_not_le few) long
      · rename_i short
        exact .wait (Nat.lt_of_not_le few) (Nat.le_of_not_lt short)

theorem turns (f : Flow) (c : Call) : Turns f c (f.call c).1 (f.call c).2 := by
  cases c with
  | feed =>
    cases f with
    | empty => exact .feed
    | buffering | running | underflow => exact .fed nofun
  | rebuffer => exact .rebuffer f
  | update blocks enough low now => exact turns_update f blocks enough low now

namespace Exchange

def Starts (e : Exchange) : Prop := e.answer? = some .start

def Withdraws (e : Exchange) : Prop := e.call = .rebuffer ∨ e.answer? = some .reset

def Stalls (e : Exchange) : Prop := e.answer? = some .stall

def At (e : Exchange) (now : Int) : Prop :=
  ∃ blocks enough low, e.call = .update blocks enough low now

/-- Packets came in, or the answer was to hold. -/
def Waits (e : Exchange) : Prop := e.call = .feed ∨ e.answer? = some .hold

def Ends (e : Exchange) : Prop := e.answer? = some .reset ∨ ∃ span, e.answer? = some (.resume span)

end Exchange

/-- An exchange of one kind, and since then only exchanges of another. -/
def Since (opens keeps : Exchange → Prop) (log : List Exchange) : Prop :=
  ∃ before e later, log = before ++ e :: later ∧ opens e ∧ ∀ x ∈ later, keeps x

variable {opens keeps : Exchange → Prop} {log : List Exchange} {e : Exchange}

theorem not_since_nil : ¬ Since opens keeps [] := by
  rintro ⟨before, e, later, hlog, _⟩
  simp at hlog

theorem since_concat :
    Since opens keeps (log ++ [e]) ↔ opens e ∨ keeps e ∧ Since opens keeps log := by
  constructor
  · rintro ⟨before, x, later, hlog, hopens, hkeeps⟩
    rcases later.eq_nil_or_concat with rfl | ⟨later, y, rfl⟩
    · obtain ⟨_, hlast⟩ := List.append_inj' hlog rfl
      rw [List.singleton_inj.mp hlast]
      exact .inl hopens
    · have hsplit : log ++ [e] = (before ++ x :: later) ++ [y] := by
        rw [hlog, List.concat_eq_append, List.append_assoc, List.cons_append]
      obtain ⟨hfront, hlast⟩ := List.append_inj' hsplit rfl
      rw [List.singleton_inj.mp hlast]
      exact .inr ⟨hkeeps y (by simp), before, x, later, hfront, hopens,
        fun z hz => hkeeps z (by simp [hz])⟩
  · rintro (hopens | ⟨hkeep, before, x, later, rfl, hopens, hkeeps⟩)
    · exact ⟨log, e, [], rfl, hopens, by simp⟩
    · refine ⟨before, x, later ++ [e], by simp, hopens, fun z hz => ?_⟩
      rcases List.mem_append.mp hz with hz | hz
      · exact hkeeps z hz
      · exact List.mem_singleton.mp hz ▸ hkeep

/-- Packets were let flow, and no return to buffering came since. -/
def Started (log : List Exchange) : Prop := Since Exchange.Starts (fun e => ¬ e.Withdraws) log

def StalledSince (since : Int) (log : List Exchange) : Prop :=
  Since (fun e => e.Stalls ∧ e.At since) Exchange.Waits log

theorem started_concat : Started (log ++ [e]) ↔ e.Starts ∨ ¬ e.Withdraws ∧ Started log :=
  since_concat

theorem stalledSince_concat {since : Int} : StalledSince since (log ++ [e]) ↔
    (e.Stalls ∧ e.At since) ∨ e.Waits ∧ StalledSince since log :=
  since_concat

theorem Turns.empty_iff (h : Turns f c f' answer?) :
    f' = .empty ↔ f = .empty ∧ ∃ now, (⟨c, answer?⟩ : Exchange).At now := by
  cases h <;> simp_all [Exchange.At]

def IsStarted (f : Flow) : Prop := f = .running ∨ ∃ since, f = .underflow since

theorem Turns.isStarted_iff (h : Turns f c f' answer?) :
    f'.IsStarted ↔ (⟨c, answer?⟩ : Exchange).Starts ∨
      ¬ (⟨c, answer?⟩ : Exchange).Withdraws ∧ f.IsStarted := by
  cases h <;> simp [IsStarted, Exchange.Starts, Exchange.Withdraws]

theorem Turns.underflow_iff (h : Turns f c f' answer?) (since : Int) :
    f' = .underflow since ↔
      ((⟨c, answer?⟩ : Exchange).Stalls ∧ (⟨c, answer?⟩ : Exchange).At since) ∨
        (⟨c, answer?⟩ : Exchange).Waits ∧ f = .underflow since := by
  cases h <;> simp [Exchange.Stalls, Exchange.At, Exchange.Waits]

structure Tells (log : List Exchange) (f : Flow) : Prop where
  empty_iff : f = .empty ↔ ∀ e ∈ log, ∃ now, e.At now
  isStarted_iff : f.IsStarted ↔ Started log
  underflow_iff : ∀ since, f = .underflow since ↔ StalledSince since log

theorem tells_nil : Tells [] .empty := by
  refine ⟨by simp, ⟨?_, fun h => absurd h not_since_nil⟩,
    fun since => ⟨nofun, fun h => absurd h not_since_nil⟩⟩
  rintro (h | ⟨_, h⟩) <;> cases h

theorem Tells.step (h : Tells log f) (hturn : Turns f c f' answer?) :
    Tells (log ++ [⟨c, answer?⟩]) f' := by
  constructor
  · rw [hturn.empty_iff, h.empty_iff, List.forall_mem_append, List.forall_mem_singleton]
  · rw [hturn.isStarted_iff, h.isStarted_iff, started_concat]
  · intro since
    rw [hturn.underflow_iff, h.underflow_iff, stalledSince_concat]

theorem tells_exchanges (calls : List Call) (h : Tells log f) :
    Tells (log ++ f.exchanges calls) (f.after calls) := by
  induction calls generalizing f log with
  | nil => rwa [exchanges, List.append_nil]
  | cons c rest ih =>
    have hnext := ih (h.step (turns f c))
    rwa [List.append_assoc] at hnext

section Answers
variable {blocks enough low : Nat} {now : Int} {a : Action}

structure Answers (log : List Exchange) (f : Flow) (blocks enough low : Nat) (now : Int)
    (a : Action) : Prop where
  start_iff : a = .start ↔ f.state = .buffering ∧ enough ≤ blocks
  run_iff : a = .run ↔ f.state = .running ∧ low ≤ blocks
  stall_iff : a = .stall ↔ f.state = .running ∧ blocks < low
  started : a = .run ∨ a = .stall → Started log
  resume_iff : ∀ span, a = .resume span ↔ ∃ since, StalledSince since log ∧ low ≤ blocks ∧
    span = Instant.since now since
  reset_iff : a = .reset ↔ ∃ since, StalledSince since log ∧ blocks < low ∧
    Span.milliseconds 200 < Instant.since now since

theorem Turns.start_iff (h : Turns f (.update blocks enough low now) f' (some a)) :
    a = .start ↔ f.state = .buffering ∧ enough ≤ blocks := by
  cases h <;> simp [state] <;> omega

theorem Turns.run_iff (h : Turns f (.update blocks enough low now) f' (some a)) :
    a = .run ↔ f.state = .running ∧ low ≤ blocks := by
  cases h <;> simp [state] <;> omega

theorem Turns.stall_iff (h : Turns f (.update blocks enough low now) f' (some a)) :
    a = .stall ↔ f.state = .running ∧ blocks < low := by
  cases h <;> simp [state] <;> omega

theorem Turns.resume_iff (h : Turns f (.update blocks enough low now) f' (some a)) (span : Nat) :
    a = .resume span ↔ ∃ since, f = .underflow since ∧ low ≤ blocks ∧
      span = Instant.since now since := by
  cases h <;> simp [eq_comm] <;> omega

theorem Turns.reset_iff (h : Turns f (.update blocks enough low now) f' (some a)) :
    a = .reset ↔ ∃ since, f = .underflow since ∧ blocks < low ∧
      Span.milliseconds 200 < Instant.since now since := by
  have hlimit : maxStall = Span.milliseconds 200 := rfl
  rw [← hlimit]
  cases h <;> simp <;> omega

theorem Tells.answers (h : Tells log f) (blocks enough low : Nat) (now : Int) :
    Answers log f blocks enough low now (f.update blocks enough low now).2 := by
  have hturn := turns_update f blocks enough low now
  refine ⟨hturn.start_iff, hturn.run_iff, hturn.stall_iff, fun hflows => ?_, fun span => ?_, ?_⟩
  · rw [hturn.run_iff, hturn.stall_iff] at hflows
    have hrunning : f.state = .running := hflows.elim And.left And.left
    refine h.isStarted_iff.mp (.inl ?_)
    cases f <;> simp_all [state]
  · rw [hturn.resume_iff]
    simp only [h.underflow_iff]
  · rw [hturn.reset_iff]
    simp only [h.underflow_iff]

end Answers

/-- What follows a stall: waiting, until one exchange ends it or withdraws the flow. The next update
that ends a stall ends a later one. -/
def Followed (log : List Exchange) : Prop :=
  (∀ e ∈ log, e.Waits) ∨ ∃ waits e rest, log = waits ++ e :: rest ∧ (∀ x ∈ waits, x.Waits) ∧
    (e.Ends ∨ e.Withdraws) ∧
    ∀ between x more, rest = between ++ x :: more → x.Ends → ∃ y ∈ between, y.Stalls

theorem Turns.stalled_of_ends (h : Turns f c f' answer?)
    (hends : (⟨c, answer?⟩ : Exchange).Ends) : ∃ since, f = .underflow since := by
  cases h <;> simp_all [Exchange.Ends]

theorem Turns.leaves_stall {since : Int} (h : Turns (.underflow since) c f' answer?)
    (hmoves : ¬ (⟨c, answer?⟩ : Exchange).Waits) :
    ((⟨c, answer?⟩ : Exchange).Ends ∨ (⟨c, answer?⟩ : Exchange).Withdraws) ∧
      ∀ since', f' ≠ .underflow since' := by
  cases h with
  | fed => exact absurd (.inl rfl) hmoves
  | rebuffer => exact ⟨.inr (.inl rfl), nofun⟩
  | resume => exact ⟨.inl (.inr ⟨_, rfl⟩), nofun⟩
  | reset => exact ⟨.inl (.inl rfl), nofun⟩
  | wait => exact absurd (.inr rfl) hmoves

/-- A flow that is not stalled has to stall before an update can end a stall. -/
theorem stalls_before_end (calls : List Call) (hnot : ∀ since, f ≠ .underflow since)
    {between later : List Exchange} {x : Exchange}
    (hlog : f.exchanges calls = between ++ x :: later) (hends : x.Ends) :
    ∃ y ∈ between, y.Stalls := by
  induction calls generalizing f between with
  | nil => simp [exchanges] at hlog
  | cons c rest ih =>
    have hturn := turns f c
    rw [exchanges] at hlog
    cases between with
    | nil =>
      obtain ⟨rfl, _⟩ := List.cons.inj hlog
      obtain ⟨since, hstalled⟩ := hturn.stalled_of_ends hends
      exact absurd hstalled (hnot since)
    | cons y between =>
      obtain ⟨rfl, hrest⟩ := List.cons.inj hlog
      by_cases hstalls : (⟨c, (f.call c).2⟩ : Exchange).Stalls
      · exact ⟨_, List.mem_cons_self, hstalls⟩
      · have hnot' : ∀ since, (f.call c).1 ≠ .underflow since := by
          intro since hnext
          rcases (hturn.underflow_iff since).mp hnext with ⟨hstall, _⟩ | ⟨_, hstalled⟩
          · exact hstalls hstall
          · exact hnot since hstalled
        obtain ⟨z, hz, hstall⟩ := ih hnot' hrest
        exact ⟨z, List.mem_cons_of_mem _ hz, hstall⟩

theorem followed_exchanges (since : Int) (calls : List Call) :
    Followed ((underflow since).exchanges calls) := by
  induction calls with
  | nil => exact .inl (by simp [exchanges])
  | cons c rest ih =>
    have hturn := turns (underflow since) c
    rw [exchanges]
    by_cases hwaits : (⟨c, ((underflow since).call c).2⟩ : Exchange).Waits
    · have hsame := (hturn.underflow_iff since).mpr (.inr ⟨hwaits, rfl⟩)
      rw [hsame]
      rcases ih with hall | ⟨waits, e, later, hlog, hall, hends, hnext⟩
      · exact .inl (List.forall_mem_cons.mpr ⟨hwaits, hall⟩)
      · rw [hlog]
        exact .inr ⟨_ :: waits, e, later, rfl, List.forall_mem_cons.mpr ⟨hwaits, hall⟩, hends, hnext⟩
    · obtain ⟨hends, hnot⟩ := hturn.leaves_stall hwaits
      exact .inr ⟨[], _, _, rfl, by simp, hends, fun _ _ _ hlog => stalls_before_end rest hnot hlog⟩

theorem after_ne_empty (hleft : f ≠ .empty) (later : List Call) : f.after later ≠ .empty := by
  induction later generalizing f with
  | nil => exact hleft
  | cons c rest ih => exact ih fun h => hleft ((turns f c).empty_iff.mp h).1

/-- The rules of a flow, after the calls made on it so far. -/
structure Protocol (calls : List Call) : Prop where
  since_iff : (empty.after calls).since?.isSome = true ↔ (empty.after calls).state = .underflow
  since_eq_iff : ∀ since, (empty.after calls).since? = some since ↔
    StalledSince since (empty.exchanges calls)
  answers : ∀ blocks enough low now, Answers (empty.exchanges calls) (empty.after calls)
    blocks enough low now ((empty.after calls).update blocks enough low now).2
  followed : ∀ blocks enough low now,
    ((empty.after calls).update blocks enough low now).2 = .stall → ∀ later,
      Followed (((empty.after calls).update blocks enough low now).1.exchanges later)
  empty_iff : empty.after calls = .empty ↔ ∀ e ∈ empty.exchanges calls, ∃ now, e.At now
  unemptied : ∀ later, empty.after calls ≠ .empty → empty.after (calls ++ later) ≠ .empty

theorem keeps_protocol (calls : List Call) : Protocol calls := by
  have htells : Tells (empty.exchanges calls) (empty.after calls) := tells_exchanges calls tells_nil
  refine ⟨?_, fun since => ?_, htells.answers, fun blocks enough low now hstall later => ?_,
    htells.empty_iff, fun later hleft => ?_⟩
  · cases empty.after calls <;> simp [since?, state]
  · rw [since?_eq_some_iff, htells.underflow_iff]
  · have hturn := turns_update (empty.after calls) blocks enough low now
    have hstalled := (hturn.underflow_iff now).mpr
      (.inl ⟨congrArg some hstall, blocks, enough, low, rfl⟩)
    rw [hstalled]
    exact followed_exchanges now later
  · rw [after_append]
    exact after_ne_empty hleft later

/-- A stall that is waited out for 250 milliseconds, with the clock running backwards in between. -/
example : (empty.exchanges [.feed, .update 2 2 1 0, .update 0 2 1 5000000, .update 0 2 1 0, .feed,
      .update 1 2 1 255000000]).map Exchange.answer? =
    [none, some .start, some .stall, some .hold, none, some (.resume 250000000)] := by
  decide

end Flow

namespace Buffer

variable {b b' : Buffer} {es : List Event}

theorem flow_move (h : Move b es b') : b'.flow = b.flow ∨ ∃ c, b'.flow = (b.flow.call c).1 := by
  cases h with
  | adjust _ _ flow_eq => exact .inl flow_eq
  | feed => exact .inr ⟨.feed, rfl⟩
  | lose | repin => exact .inr ⟨.rebuffer, rfl⟩
  | start buffering _ enough =>
    refine .inr ⟨.update b.recount.clock.blocks b.settings.enough.toNat 0 0, ?_⟩
    rw [buffering, Flow.call, Flow.update, if_pos enough]
  | stall now running few =>
    refine .inr ⟨.update b.clock.blocks 0 b.settings.low.toNat now, ?_⟩
    rw [running, Flow.call, Flow.update, if_pos few]
  | resume stalled back =>
    refine .inr ⟨.update b.clock.blocks 0 b.settings.low.toNat 0, ?_⟩
    rw [stalled, Flow.call, Flow.update, if_pos back]
  | empty =>
    change (if b.flow = .empty then Flow.empty else .buffering) = b.flow ∨ _
    by_cases hempty : b.flow = .empty
    · exact .inl (by rw [if_pos hempty, hempty])
    · exact .inr ⟨.rebuffer, if_neg hempty⟩
  | connect | credit | recount | resize | take | seek | next | send | pin => exact .inl rfl

theorem flow_run (settings : Settings) (history : List Operation) :
    ∃ calls, ((create settings).buffer.run history).flow = Flow.empty.after calls := by
  have hcourse := course_run (ordered_create settings) history
  refine (hcourse.induct (motive := fun b => ∃ calls, b.flow = Flow.empty.after calls)
    (P := fun _ => True) (fun _ _ => trivial) ?_ ⟨[], rfl⟩).1
  rintro b es b' hmove _ ⟨calls, hflow⟩
  rcases flow_move hmove with hsame | ⟨c, hcall⟩
  · exact ⟨calls, hsame.trans hflow⟩
  · refine ⟨calls ++ [c], ?_⟩
    rw [hcall, hflow, Flow.after_append]
    rfl

end Buffer
end PacedStream
