import KubeEdge.Go.Machine

namespace KubeEdge.Viaduct.Fifo
open Go Machine

variable {α : Type}

inductive Producer (α : Type)
  | idle
  /-- At the `select`. -/
  | putting (m : α)
  /-- At the receive of the oldest message. -/
  | dropping (m : α)
  /-- At the send that follows. -/
  | inserting (m : α)

/-- The message of the `Put` that is under way. -/
def Producer.hand : Producer α → List α
  | .idle => []
  | .putting m | .dropping m | .inserting m => [m]

structure MessageFifo (α : Type) where
  fifo : List α := []
  producer : Producer α := .idle
  /-- The messages that `Put` was called with, those that `Get` returned in the order of their
  removal, and those that `Put` removed. -/
  put : List α := []
  delivered : List α := []
  discarded : List α := []

inductive Event (α : Type)
  | put (m : α)
  /-- The next operation of the producer. -/
  | next
  | get
  /-- A consumer that waits is given the message. -/
  | hand

/-- A step with a channel of the given size. -/
def step (size : ℕ) (s : MessageFifo α) : Event α → Option (MessageFifo α)
  | .put m =>
    match s.producer with
    | .idle => some { s with producer := .putting m, put := s.put ++ [m] }
    | _ => none
  | .next =>
    match s.producer with
    | .idle => none
    | .putting m =>
      if s.fifo.length < size then some { s with producer := .idle, fifo := s.fifo ++ [m] }
      else some { s with producer := .dropping m }
    | .dropping m =>
      match s.fifo with
      | [] => none
      | old :: rest =>
        some { s with producer := .inserting m, fifo := rest, discarded := s.discarded ++ [old] }
    | .inserting m =>
      if s.fifo.length < size then some { s with producer := .idle, fifo := s.fifo ++ [m] }
      else none
  | .get =>
    match s.fifo with
    | [] => none
    | m :: rest => some { s with fifo := rest, delivered := s.delivered ++ [m] }
  | .hand =>
    match s.producer, s.fifo with
    | .putting m, [] | .inserting m, [] =>
      some { s with producer := .idle, delivered := s.delivered ++ [m] }
    | _, _ => none

/-- What was delivered is a part of what was put, in its order, and every message is accounted
for. -/
structure Ordered (s : MessageFifo α) : Prop where
  sublist : s.delivered.Sublist s.put
  accounted : (s.delivered ++ s.discarded ++ s.fifo ++ s.producer.hand).Perm s.put

/-- `Put` does not wait while the queue has free space. -/
def NeverWaits (size : ℕ) (s : MessageFifo α) : Prop :=
  s.producer.hand ≠ [] → s.fifo.length < size → (step size s .next).isSome

/-- A message is discarded when the queue is full. -/
def DropsWhenFull (size : ℕ) (s : MessageFifo α) : Event α → Prop
  | .next =>
    match s.producer with
    | .dropping _ => s.fifo ≠ [] → s.fifo.length = size
    | _ => True
  | _ => True

/-- A condition on a step, in the state before it: no message is taken between the test and the
removal. -/
def Undisturbed (s : MessageFifo α) : Event α → Prop
  | .get =>
    match s.producer with
    | .dropping _ => False
    | _ => True
  | _ => True

instance (s : MessageFifo α) (ev : Event α) : Decidable (Undisturbed s ev) := by
  unfold Undisturbed
  split
  · split <;> infer_instance
  · exact .isTrue trivial

section Steps
variable {size : ℕ} {s s' : MessageFifo α} {ev : Event α}

/-- What was delivered, is queued and is in the producer's hand was put in this order. -/
structure Inv (s : MessageFifo α) : Prop where
  order : (s.delivered ++ s.fifo ++ s.producer.hand).Sublist s.put
  accounted : (s.delivered ++ s.discarded ++ s.fifo ++ s.producer.hand).Perm s.put

theorem Inv.ordered (h : Inv s) : Ordered s := by
  refine ⟨?_, h.accounted⟩
  have hfirst : s.delivered.Sublist (s.delivered ++ s.fifo ++ s.producer.hand) := by
    rw [List.append_assoc]
    exact List.sublist_append_left _ _
  exact hfirst.trans h.order

theorem enqueue_inv (h : Inv s) {m : α} (hhand : s.producer.hand = [m]) :
    Inv { s with producer := .idle, fifo := s.fifo ++ [m] } := by
  obtain ⟨horder, haccounted⟩ := h
  rw [hhand] at horder haccounted
  constructor
  · simpa [Producer.hand] using horder
  · simpa [Producer.hand] using haccounted

theorem step_inv (h : Inv s) (hstep : step size s ev = some s') : Inv s' := by
  cases ev with
  | put m =>
    simp only [step] at hstep
    split at hstep
    case h_2 => cases hstep
    case h_1 hproducer =>
      cases hstep
      obtain ⟨horder, haccounted⟩ := h
      rw [hproducer] at horder haccounted
      rw [Producer.hand, List.append_nil] at horder haccounted
      exact ⟨horder.append (List.Sublist.refl _), haccounted.append (List.Perm.refl _)⟩
  | next =>
    simp only [step] at hstep
    split at hstep
    case h_1 => cases hstep
    case h_2 m hproducer =>
      split_ifs at hstep with hroom
      · cases hstep
        exact enqueue_inv h (by rw [hproducer]; rfl)
      · cases hstep
        obtain ⟨horder, haccounted⟩ := h
        rw [hproducer] at horder haccounted
        exact ⟨horder, haccounted⟩
    case h_3 m hproducer =>
      split at hstep
      case h_1 => cases hstep
      case h_2 old rest hfifo =>
        cases hstep
        obtain ⟨horder, haccounted⟩ := h
        rw [hproducer, hfifo] at horder haccounted
        constructor
        · refine List.Sublist.trans ?_ horder
          simp [Producer.hand]
        · simpa [Producer.hand] using haccounted
    case h_4 m hproducer =>
      split_ifs at hstep with hroom
      cases hstep
      exact enqueue_inv h (by rw [hproducer]; rfl)
  | get =>
    simp only [step] at hstep
    split at hstep
    case h_1 => cases hstep
    case h_2 m rest hfifo =>
      cases hstep
      obtain ⟨horder, haccounted⟩ := h
      rw [hfifo] at horder haccounted
      constructor
      · simpa using horder
      · refine List.Perm.trans ?_ haccounted
        simp only [List.append_assoc, List.cons_append, List.nil_append]
        exact (List.perm_middle.symm).append_left _
  | hand =>
    simp only [step] at hstep
    split at hstep
    case h_3 => cases hstep
    all_goals
      rename_i m hproducer hfifo
      cases hstep
      obtain ⟨horder, haccounted⟩ := h
      rw [hproducer, hfifo] at horder haccounted
      constructor
      · simpa [Producer.hand, hfifo] using horder
      · refine List.Perm.trans ?_ haccounted
        simp only [Producer.hand, hfifo, List.append_nil, List.append_assoc]
        exact (List.perm_append_comm).append_left _

/-- The queue is full when its oldest message is removed. -/
structure Full (size : ℕ) (s : MessageFifo α) : Prop where
  le : s.fifo.length ≤ size
  dropping : ∀ m, s.producer = .dropping m → s.fifo.length = size
  inserting : ∀ m, s.producer = .inserting m → s.fifo.length < size

theorem Full.of_idle (hle : s.fifo.length ≤ size) (hproducer : s.producer = .idle) :
    Full size s := by
  refine ⟨hle, ?_, ?_⟩ <;> rw [hproducer] <;> rintro m ⟨⟩

theorem step_full (h : Full size s) (hundisturbed : Undisturbed s ev)
    (hstep : step size s ev = some s') : Full size s' := by
  cases ev with
  | put m =>
    simp only [step] at hstep
    split at hstep
    · cases hstep
      exact ⟨h.le, by rintro m ⟨⟩, by rintro m ⟨⟩⟩
    · cases hstep
  | next =>
    simp only [step] at hstep
    split at hstep
    case h_1 => cases hstep
    case h_2 m hproducer =>
      split_ifs at hstep with hroom
      · cases hstep
        exact .of_idle (by simpa using hroom) rfl
      · cases hstep
        refine ⟨h.le, ?_, by rintro m ⟨⟩⟩
        intro _ _
        exact le_antisymm h.le (Nat.not_lt.mp hroom)
    case h_3 m hproducer =>
      split at hstep
      case h_1 => cases hstep
      case h_2 old rest hfifo =>
        cases hstep
        have hlength := h.dropping m hproducer
        rw [hfifo, List.length_cons] at hlength
        exact ⟨by dsimp only; omega, by rintro m ⟨⟩, fun _ _ => by dsimp only; omega⟩
    case h_4 m hproducer =>
      split_ifs at hstep with hroom
      cases hstep
      exact .of_idle (by simpa using hroom) rfl
  | get =>
    simp only [step] at hstep
    split at hstep
    case h_1 => cases hstep
    case h_2 m rest hfifo =>
      cases hstep
      have hle := h.le
      have hinserting := h.inserting
      simp only [hfifo, List.length_cons] at hle hinserting
      refine ⟨by dsimp only; omega, ?_, ?_⟩
      · intro m' hproducer
        have hproducer : s.producer = .dropping m' := hproducer
        simp only [Undisturbed, hproducer] at hundisturbed
      · intro m' hproducer
        dsimp only
        omega
  | hand =>
    simp only [step] at hstep
    split at hstep
    case h_3 => cases hstep
    all_goals
      cases hstep
      exact .of_idle h.le rfl

theorem Full.neverWaits (h : Full size s) : NeverWaits size s := by
  intro hhand hroom
  cases hproducer : s.producer with
  | idle =>
    rw [hproducer] at hhand
    exact absurd rfl hhand
  | putting m | inserting m => simp [step, hproducer, hroom]
  | dropping m =>
    have := h.dropping m hproducer
    omega

theorem Full.dropsWhenFull (h : Full size s) (ev : Event α) : DropsWhenFull size s ev := by
  cases ev with
  | next =>
    unfold DropsWhenFull
    cases hproducer : s.producer with
    | dropping m => exact fun _ => h.dropping m hproducer
    | _ => trivial
  | _ => trivial

end Steps

/-- On every run the messages are delivered in the order they were put and none is lost other than
by a removal of `Put`.  If no message is taken between the test and the removal, then a message is
only removed from a full queue, and `Put` does not wait while there is space. -/
theorem fifo_drops_oldest (size : ℕ) (es : List (Event α)) :
    Always (step size) Ordered {} es ∧
      (Along (step size) Undisturbed {} es →
        Always (step size) (NeverWaits size) {} es ∧
          Along (step size) (DropsWhenFull size) {} es) := by
  constructor
  · have hinv : Always (step size) Inv ({} : MessageFifo α) es := by
      apply always_of_step (fun s ev s' hs hstep => step_inv hs hstep) es
      exact ⟨List.Sublist.refl _, List.Perm.refl _⟩
    exact hinv.mono fun s hs => hs.ordered
  · intro h
    have hstart : Full size ({} : MessageFifo α) := .of_idle (Nat.zero_le _) rfl
    constructor
    · have hfull : Always (step size) (Full size) {} es := by
        apply always_of_along ?_ hstart h
        intro s ev s' hs hev hstep
        exact step_full hs hev hstep
      exact hfull.mono fun s hs => hs.neverWaits
    · apply along_of_along ?_ hstart h
      intro s ev s' hs hev hstep
      exact ⟨step_full hs hev hstep, hs.dropsWhenFull ev⟩

namespace Sample

/-- Two messages fill a queue of two, and a third one takes the place of the first. -/
def overflow : List (Event ℕ) :=
  [.put 1, .next, .put 2, .next, .put 3, .next, .next, .next, .get, .get]

def emptied : List (Event ℕ) := [.put 1, .next, .put 2, .next, .get]

/-- A consumer makes room in a queue of two after the test. -/
def roomy : List (Event ℕ) := [.put 1, .next, .put 2, .next, .put 3, .next, .get, .next]

end Sample

open Sample

theorem fifo_drops_oldest_overflow :
    Along (step 2) Undisturbed {} overflow ∧
      (run (step 2) {} overflow).map (fun s => (s.delivered, s.discarded)) =
        some ([2, 3], [1]) ∧
      Always (step 2) (NeverWaits 2) {} overflow ∧
      Along (step 2) (DropsWhenFull 2) {} overflow := by
  have halong : Along (step 2) Undisturbed {} overflow := by
    apply along_of_check
    · intro s ev h
      exact of_decide_eq_true h
    · decide +kernel
  exact ⟨halong, by decide +kernel, (fifo_drops_oldest 2 overflow).2 halong⟩

/-- `Put` waits although the queue is empty, and removes a message from a queue that has room. -/
theorem fifo_disturbed :
    ¬ Always (step 1) (NeverWaits 1) {} emptied ∧
      ¬ Along (step 2) (DropsWhenFull 2) {} roomy := by
  constructor
  · intro h
    have hwaits : ∃ s, run (step 1) {} emptied = some s ∧ s.producer.hand ≠ [] ∧
        s.fifo.length < 1 ∧ (step 1 s .next).isSome = false :=
      ⟨_, rfl, by decide, by decide, rfl⟩
    obtain ⟨s, hrun, hhand, hroom, hnone⟩ := hwaits
    have hsome := h.last hrun hhand hroom
    rw [hnone] at hsome
    cases hsome
  · intro h
    have hsplit : Along (step 2) (DropsWhenFull 2) {} (roomy.dropLast ++ [.next]) := h
    have hfull := ((hsplit.after rfl).2 _ rfl).1 (by decide)
    revert hfull
    decide

end KubeEdge.Viaduct.Fifo
