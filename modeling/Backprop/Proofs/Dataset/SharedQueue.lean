import Mathlib
import Backprop.Dataset.Queue

/-! A queue of batches that threads share. Every call on it is one step under a lock, and a taker
takes its step when it is answered; so what threads do to the queue is a list of moves, in any
order and of any threads, in which a thread gives back what it has taken. -/

namespace Backprop.BatchQueue

variable {τ : Type}

/-- A call of a thread on a queue with its answer, which is missing where the call has ended the
taking; or other values in a batch that the thread holds. -/
inductive Move (τ : Type) where
  | takeEmpty (thread : τ) (taken : Option Batch)
  | putFull (thread : τ) (b : Batch)
  | takeFull (thread : τ) (taken : Option Batch)
  | putEmpty (thread : τ) (b : Batch)
  | fill (thread : τ) (old new : Batch)
  | close (thread : τ)

namespace Move

def isClose : Move τ → Bool
  | close _ => true
  | _ => false

def put? : Move τ → Option Batch
  | putFull _ b => some b
  | _ => none

def received? : Move τ → Option Batch
  | takeFull _ taken => taken
  | _ => none

end Move

def closedBy (moves : List (Move τ)) : Bool := moves.any Move.isClose

/-- The full batches that were put into the queue before it was closed first, in order. -/
def offered (moves : List (Move τ)) : List Batch :=
  (moves.takeWhile fun m => !m.isClose).filterMap Move.put?

/-- The full batches that were taken, in order. -/
def received (moves : List (Move τ)) : List Batch := moves.filterMap Move.received?

/-- A queue, and the batches in the hands of threads: taken, and not given back. -/
structure Shared (τ : Type) where
  queue : BatchQueue
  hands : Multiset (τ × Batch)

/-- Batches in the queue and in hands. -/
def Shared.batches (s : Shared τ) : Nat :=
  s.queue.empty.length + s.queue.full.length + s.hands.card

/-- One move. A taker that has to wait makes none, and what is put into the queue leaves a hand. -/
inductive Step : Shared τ → Move τ → Shared τ → Prop
  | takeEmpty {q q' : BatchQueue} {hands : Multiset (τ × Batch)} {thread : τ} {b : Batch}
      (answer : q.takeEmpty = (.batch b, q')) :
      Step ⟨q, hands⟩ (.takeEmpty thread (some b)) ⟨q', (thread, b) ::ₘ hands⟩
  | noEmpty {q q' : BatchQueue} {hands : Multiset (τ × Batch)} {thread : τ}
      (answer : q.takeEmpty = (.ended, q')) :
      Step ⟨q, hands⟩ (.takeEmpty thread none) ⟨q', hands⟩
  | putFull {q : BatchQueue} {hands : Multiset (τ × Batch)} {thread : τ} {b : Batch} :
      Step ⟨q, (thread, b) ::ₘ hands⟩ (.putFull thread b) ⟨q.putFull b, hands⟩
  | takeFull {q q' : BatchQueue} {hands : Multiset (τ × Batch)} {thread : τ} {b : Batch}
      (answer : q.takeFull = (.batch b, q')) :
      Step ⟨q, hands⟩ (.takeFull thread (some b)) ⟨q', (thread, b) ::ₘ hands⟩
  | noFull {q q' : BatchQueue} {hands : Multiset (τ × Batch)} {thread : τ}
      (answer : q.takeFull = (.ended, q')) :
      Step ⟨q, hands⟩ (.takeFull thread none) ⟨q', hands⟩
  | putEmpty {q : BatchQueue} {hands : Multiset (τ × Batch)} {thread : τ} {b : Batch} :
      Step ⟨q, (thread, b) ::ₘ hands⟩ (.putEmpty thread b) ⟨q.putEmpty b, hands⟩
  | fill {q : BatchQueue} {hands : Multiset (τ × Batch)} {thread : τ} {old new : Batch} :
      Step ⟨q, (thread, old) ::ₘ hands⟩ (.fill thread old new) ⟨q, (thread, new) ::ₘ hands⟩
  | close {q : BatchQueue} {hands : Multiset (τ × Batch)} {thread : τ} :
      Step ⟨q, hands⟩ (.close thread) ⟨q.close, hands⟩

/-- Moves one after the other. -/
inductive Run (start : Shared τ) : List (Move τ) → Shared τ → Prop
  | start : Run start [] start
  | step {moves : List (Move τ)} {s s' : Shared τ} {m : Move τ} (run : Run start moves s)
      (step : Step s m s') : Run start (moves ++ [m]) s'

/-! ### Calls -/

theorem takeEmpty_batch {q q' : BatchQueue} {b : Batch} (h : q.takeEmpty = (.batch b, q')) :
    q.closed = false ∧ q = { q' with empty := b :: q'.empty } := by
  unfold takeEmpty at h
  split at h
  · cases h
  · next hopen =>
    obtain ⟨empty, full, closed⟩ := q
    cases empty with
    | nil => cases h
    | cons first rest =>
      cases h
      exact ⟨by simpa using hopen, rfl⟩

theorem takeEmpty_ended {q q' : BatchQueue} (h : q.takeEmpty = (.ended, q')) :
    q.closed = true ∧ q' = q := by
  unfold takeEmpty at h
  split at h
  · next hclosed =>
    cases h
    exact ⟨hclosed, rfl⟩
  · split at h <;> cases h

theorem takeFull_batch {q q' : BatchQueue} {b : Batch} (h : q.takeFull = (.batch b, q')) :
    q = { q' with full := b :: q'.full } := by
  obtain ⟨empty, full, closed⟩ := q
  cases full with
  | nil => cases closed <;> cases h
  | cons first rest =>
    cases h
    rfl

theorem takeFull_ended {q q' : BatchQueue} (h : q.takeFull = (.ended, q')) :
    q.closed = true ∧ q.full = [] ∧ q' = q := by
  obtain ⟨empty, full, closed⟩ := q
  cases full with
  | cons first rest => cases h
  | nil =>
    cases closed with
    | false => cases h
    | true =>
      cases h
      exact ⟨rfl, rfl, rfl⟩

theorem closed_putFull (q : BatchQueue) (b : Batch) : (q.putFull b).closed = q.closed := by
  unfold putFull
  split <;> rfl

theorem closed_putEmpty (q : BatchQueue) (b : Batch) : (q.putEmpty b).closed = q.closed := by
  unfold putEmpty
  split <;> rfl

theorem full_putFull (q : BatchQueue) (b : Batch) :
    (q.putFull b).full = q.full ++ if q.closed then [] else [b] := by
  unfold putFull
  split <;> simp

theorem full_putEmpty (q : BatchQueue) (b : Batch) : (q.putEmpty b).full = q.full := by
  unfold putEmpty
  split <;> rfl

/-! ### Steps -/

variable {s s' : Shared τ} {m : Move τ}

theorem Step.closed (h : Step s m s') : s'.queue.closed = (s.queue.closed || m.isClose) := by
  cases h with
  | takeEmpty answer =>
    obtain ⟨-, rfl⟩ := takeEmpty_batch answer
    simp [Move.isClose]
  | noEmpty answer =>
    obtain ⟨-, rfl⟩ := takeEmpty_ended answer
    simp [Move.isClose]
  | putFull => simp [Move.isClose, closed_putFull]
  | takeFull answer =>
    obtain rfl := takeFull_batch answer
    simp [Move.isClose]
  | noFull answer =>
    obtain ⟨-, -, rfl⟩ := takeFull_ended answer
    simp [Move.isClose]
  | putEmpty => simp [Move.isClose, closed_putEmpty]
  | fill => simp [Move.isClose]
  | close => simp [Move.isClose, BatchQueue.close]

/-- Full batches come out where the queue begins and are put in where it ends; a closed queue takes
none. -/
theorem Step.full (h : Step s m s') :
    m.received?.toList ++ s'.queue.full =
      s.queue.full ++ if s.queue.closed then [] else m.put?.toList := by
  cases h with
  | takeEmpty answer =>
    obtain ⟨-, rfl⟩ := takeEmpty_batch answer
    simp [Move.received?, Move.put?]
  | noEmpty answer =>
    obtain ⟨-, rfl⟩ := takeEmpty_ended answer
    simp [Move.received?, Move.put?]
  | putFull => simp [Move.received?, Move.put?, full_putFull]
  | takeFull answer =>
    obtain rfl := takeFull_batch answer
    simp [Move.received?, Move.put?]
  | noFull answer =>
    obtain ⟨-, -, rfl⟩ := takeFull_ended answer
    simp [Move.received?, Move.put?]
  | putEmpty => simp [Move.received?, Move.put?, full_putEmpty]
  | fill => simp [Move.received?, Move.put?]
  | close => simp [Move.received?, Move.put?, BatchQueue.close]

/-- A batch moves between the queue and a hand; only a closed queue drops what is given to it. -/
theorem Step.batches (h : Step s m s') :
    s'.batches ≤ s.batches ∧ (s.queue.closed = false → s'.batches = s.batches) := by
  cases h with
  | takeEmpty answer =>
    obtain ⟨-, rfl⟩ := takeEmpty_batch answer
    simp only [Shared.batches, List.length_cons, Multiset.card_cons]
    omega
  | noEmpty answer =>
    obtain ⟨-, rfl⟩ := takeEmpty_ended answer
    simp [Shared.batches]
  | @putFull q hands thread b =>
    cases h : q.closed with
    | true => simp [Shared.batches, BatchQueue.putFull, h]
    | false =>
      simp only [Shared.batches, BatchQueue.putFull, h, Bool.false_eq_true, if_false,
        List.length_append, List.length_singleton, Multiset.card_cons]
      omega
  | takeFull answer =>
    obtain rfl := takeFull_batch answer
    simp only [Shared.batches, List.length_cons, Multiset.card_cons]
    omega
  | noFull answer =>
    obtain ⟨-, -, rfl⟩ := takeFull_ended answer
    simp [Shared.batches]
  | @putEmpty q hands thread b =>
    cases h : q.closed with
    | true => simp [Shared.batches, BatchQueue.putEmpty, h]
    | false =>
      simp only [Shared.batches, BatchQueue.putEmpty, h, Bool.false_eq_true, if_false,
        List.length_append, List.length_singleton, Multiset.card_cons]
      omega
  | fill => simp [Shared.batches]
  | close => simp [Shared.batches, BatchQueue.close]

/-! ### Runs -/

theorem closedBy_concat (moves : List (Move τ)) (m : Move τ) :
    closedBy (moves ++ [m]) = (closedBy moves || m.isClose) := by
  simp [closedBy]

theorem received_concat (moves : List (Move τ)) (m : Move τ) :
    received (moves ++ [m]) = received moves ++ m.received?.toList := by
  cases h : m.received? <;> simp [received, h]

theorem offered_concat (moves : List (Move τ)) (m : Move τ) :
    offered (moves ++ [m]) = offered moves ++ if closedBy moves then [] else m.put?.toList := by
  cases h : closedBy moves with
  | true =>
    obtain ⟨c, hc, hclose⟩ := List.any_eq_true.mp h
    have hpart : (moves.takeWhile fun m => !m.isClose).length ≠ moves.length := fun hlen => by
      have hall := List.takeWhile_eq_self_iff.mp
        ((List.takeWhile_prefix _).eq_of_length hlen) c hc
      simp [hclose] at hall
    simp [offered, List.takeWhile_append, hpart]
  | false =>
    have hwhole : (moves.takeWhile fun m => !m.isClose) = moves :=
      List.takeWhile_eq_self_iff.mpr fun c hc => by simpa using List.any_eq_false.mp h c hc
    rw [offered, offered, List.takeWhile_append, hwhole, if_pos rfl, List.filterMap_append]
    cases m <;> simp [Move.put?, Move.isClose]

/-- What holds after moves on a queue that began with `capacity` batches. -/
structure Accounts (capacity : Nat) (moves : List (Move τ)) (s : Shared τ) : Prop where
  closed : s.queue.closed = closedBy moves
  waiting : received moves ++ s.queue.full = offered moves
  bound : s.batches ≤ capacity
  kept : closedBy moves = false → s.batches = capacity

variable {capacity : Nat} {moves : List (Move τ)}

theorem Accounts.step (h : Accounts capacity moves s) (hs : Step s m s') :
    Accounts capacity (moves ++ [m]) s' := by
  obtain ⟨hle, hsame⟩ := hs.batches
  refine ⟨?_, ?_, hle.trans h.bound, fun hopen => ?_⟩
  · rw [hs.closed, h.closed, closedBy_concat]
  · calc received (moves ++ [m]) ++ s'.queue.full
        = received moves ++ (m.received?.toList ++ s'.queue.full) := by
          rw [received_concat, List.append_assoc]
      _ = (received moves ++ s.queue.full) ++
            if s.queue.closed then [] else m.put?.toList := by
          rw [hs.full, List.append_assoc]
      _ = offered (moves ++ [m]) := by rw [h.waiting, h.closed, offered_concat]
  · rw [closedBy_concat, Bool.or_eq_false_iff] at hopen
    rw [hsame (h.closed.trans hopen.1), h.kept hopen.1]

theorem Run.accounts {start : Shared τ} (h : Accounts capacity [] start)
    (run : Run start moves s) : Accounts capacity moves s := by
  induction run with
  | start => exact h
  | step _ hs ih => exact ih.step hs

theorem new_accounts {inputs labels : Nat} {q : BatchQueue}
    (made : new capacity inputs labels = .ok q) :
    Accounts (max capacity 1) [] (⟨q, 0⟩ : Shared τ) := by
  unfold new at made
  cases hroom : requireRoom (max capacity 1) entryBytes with
  | error e => simp [hroom, bind, Except.bind] at made
  | ok u =>
    cases hb : Batch.zeros inputs labels with
    | error e => simp [hroom, hb, bind, Except.bind] at made
    | ok b =>
      simp only [hroom, hb, bind, Except.bind, pure, Except.pure, Except.ok.injEq] at made
      subst made
      exact ⟨rfl, rfl, by simp [Shared.batches], fun _ => by simp [Shared.batches]⟩

theorem Run.at_move {start : Shared τ} {before after : List (Move τ)}
    (run : Run start (before ++ m :: after) s) :
    ∃ s₁ s₂, Run start before s₁ ∧ Step s₁ m s₂ := by
  induction after using List.reverseRecOn generalizing s with
  | nil =>
    generalize hmoves : before ++ [m] = moves at run
    cases run with
    | start => simp at hmoves
    | step run hs =>
      obtain ⟨rfl, hm⟩ := List.append_inj' hmoves rfl
      cases hm
      exact ⟨_, _, run, hs⟩
  | append_singleton after c ih =>
    generalize hmoves : before ++ m :: (after ++ [c]) = moves at run
    cases run with
    | start => simp at hmoves
    | step run hs =>
      rw [← List.cons_append, ← List.append_assoc] at hmoves
      obtain ⟨rfl, -⟩ := List.append_inj' hmoves rfl
      exact ih run

/-- Whatever threads do to a queue, and in whatever order: the full batches that are taken are the
first of those put before it was closed, each once and in order; a taker of full batches is sent
away only when the queue is closed and all of these have been taken, and a taker of empty ones
exactly when it is closed; and no batch is lost or made until then, nor one made later. -/
theorem Run.hands_over {inputs labels : Nat} {q : BatchQueue}
    (made : new capacity inputs labels = .ok q) (run : Run ⟨q, 0⟩ moves s) :
    received moves <+: offered moves ∧
    (∀ before thread after, moves = before ++ .takeFull thread none :: after →
      closedBy before = true ∧ received before = offered before) ∧
    (∀ before thread taken after, moves = before ++ .takeEmpty thread taken :: after →
      (taken = none ↔ closedBy before = true)) ∧
    (closedBy moves = false → s.batches = max capacity 1) ∧
    s.batches ≤ max capacity 1 := by
  have hstart := new_accounts (τ := τ) made
  have haccounts := run.accounts hstart
  refine ⟨⟨_, haccounts.waiting⟩, ?_, ?_, haccounts.kept, haccounts.bound⟩
  · rintro before thread after rfl
    obtain ⟨s₁, s₂, hbefore, hstep⟩ := run.at_move
    have h := hbefore.accounts hstart
    cases hstep with
    | noFull answer =>
      obtain ⟨hclosed, hfull, -⟩ := takeFull_ended answer
      exact ⟨h.closed.symm.trans hclosed, by simpa [hfull] using h.waiting⟩
  · rintro before thread taken after rfl
    obtain ⟨s₁, s₂, hbefore, hstep⟩ := run.at_move
    have h := hbefore.accounts hstart
    cases hstep with
    | takeEmpty answer =>
      have hopen := h.closed.symm.trans (takeEmpty_batch answer).1
      simp [hopen]
    | noEmpty answer => simp [h.closed.symm.trans (takeEmpty_ended answer).1]

def handover (b z : Batch) : List (Move Bool) :=
  [.takeEmpty false (some z), .fill false z b, .putFull false b, .close true,
    .takeFull true (some b), .takeEmpty false none, .putEmpty true b, .takeFull true none]

theorem handover_hands_over : ∃ (q : BatchQueue) (b z : Batch) (s : Shared Bool),
    new 0 1 1 = .ok q ∧ Run ⟨q, 0⟩ (handover b z) s ∧ b ≠ z ∧
    received (handover b z) = [b] ∧ offered (handover b z) = [b] ∧ s.batches ≤ 1 := by
  have made : new 0 1 1 = .ok { empty := [⟨#[0], #[0]⟩] } := by decide
  have run : Run (τ := Bool) ⟨{ empty := [⟨#[0], #[0]⟩] }, 0⟩
      (handover ⟨#[1], #[1]⟩ ⟨#[0], #[0]⟩) _ :=
    .step (.step (.step (.step (.step (.step (.step (.step .start (.takeEmpty rfl)) .fill) .putFull)
      .close) (.takeFull rfl)) (.noEmpty rfl)) .putEmpty) (.noFull rfl)
  exact ⟨_, _, _, _, made, run, by decide, by decide, by decide, (run.hands_over made).2.2.2.2⟩

end Backprop.BatchQueue
