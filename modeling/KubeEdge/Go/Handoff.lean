import KubeEdge.Go.Control
import KubeEdge.Go.Machine

namespace Go.Handoff
open Machine

structure State (μ σ : Type) where
  /-- Not read yet, in the order they were sent. -/
  incoming : List μ
  /-- The goroutines that have not sent yet. -/
  goroutines : List μ := []
  channel : List μ := []
  consumer : σ

inductive Turn
  | read
  | send (i : ℕ)
  | take
  deriving DecidableEq, Repr

variable {μ σ : Type}

/-- A goroutine waits while the channel is full, the consumer while it is empty. -/
def step (capacity : ℕ) (consume : σ → μ → M σ) (s : State μ σ) : Turn → Option (State μ σ)
  | .read =>
    match s.incoming with
    | [] => none
    | m :: rest => some { s with incoming := rest, goroutines := s.goroutines ++ [m] }
  | .send i =>
    match s.goroutines[i]? with
    | none => none
    | some m =>
      if s.channel.length < capacity then
        some { s with goroutines := s.goroutines.eraseIdx i, channel := s.channel ++ [m] }
      else none
  | .take =>
    match s.channel with
    | [] => none
    | m :: rest =>
      match consume s.consumer m with
      | .ok c => some { s with channel := rest, consumer := c }
      | .error _ => none

/-- Everything was handed over and consumed. -/
def State.Done (s : State μ σ) : Prop := s.incoming = [] ∧ s.goroutines = [] ∧ s.channel = []

/-- The messages consumed so far and those under way are the ones that were sent. -/
def Consumed (consume : σ → μ → M σ) (sent : List μ) (c : σ) (s : State μ σ) : Prop :=
  ∃ done, loopM consume done c = .ok s.consumer ∧
    (done ++ s.channel ++ s.goroutines ++ s.incoming).Perm sent

variable {capacity : ℕ} {consume : σ → μ → M σ} {sent order : List μ} {c : σ}

theorem consumed_step {s s' : State μ σ} {t : Turn} (hs : Consumed consume sent c s)
    (hstep : step capacity consume s t = some s') : Consumed consume sent c s' := by
  obtain ⟨done, hdone, hperm⟩ := hs
  cases t with
  | read =>
    simp only [step] at hstep
    split at hstep
    · cases hstep
    · rename_i m rest hin
      cases hstep
      refine ⟨done, hdone, ?_⟩
      rw [hin] at hperm
      simpa using hperm
  | send i =>
    simp only [step] at hstep
    split at hstep
    · cases hstep
    · rename_i m hm
      split at hstep
      · cases hstep
        refine ⟨done, hdone, ?_⟩
        -- the message moves from the goroutines to the end of the channel
        have hmove : (m :: s.goroutines.eraseIdx i).Perm s.goroutines := by
          obtain ⟨hi, rfl⟩ := List.getElem?_eq_some_iff.mp hm
          exact List.getElem_cons_eraseIdx_perm hi
        refine List.Perm.trans ?_ hperm
        have hfront := (hmove.append_left (done ++ s.channel)).append_right s.incoming
        simpa using hfront
      · cases hstep
  | take =>
    simp only [step] at hstep
    split at hstep
    · cases hstep
    · rename_i m rest hch
      split at hstep
      · rename_i c' hc'
        cases hstep
        refine ⟨done ++ [m], ?_, ?_⟩
        · rw [loopM_append hdone, loopM, hc', ok_bind]
          rfl
        · rw [hch] at hperm
          simpa using hperm
      · cases hstep

theorem consumed_of_run {s : State μ σ} {turns : List Turn}
    (hrun : run (step capacity consume) { incoming := sent, consumer := c } turns = some s)
    (hdone : s.Done) : ∃ order, order.Perm sent ∧ loopM consume order c = .ok s.consumer := by
  have hstart : Consumed consume sent c { incoming := sent, consumer := c } :=
    ⟨[], rfl, by simp⟩
  have hend := (always_of_step (fun _ _ _ h => consumed_step h) turns hstart).last hrun
  obtain ⟨order, hfold, hperm⟩ := hend
  refine ⟨order, ?_, hfold⟩
  simpa [hdone.1, hdone.2.1, hdone.2.2] using hperm

theorem exists_of_perm_map {ν : Type} {f : ν → μ} {l : List ν} (h : order.Perm (l.map f)) :
    ∃ l' : List ν, l'.Perm l ∧ order = l'.map f := by
  induction order generalizing l with
  | nil =>
    have hnil := List.map_eq_nil_iff.mp h.symm.eq_nil
    exact ⟨[], by rw [hnil], rfl⟩
  | cons m order ih =>
    obtain ⟨a, ha, hfa⟩ := List.mem_map.mp (h.subset (.head _))
    obtain ⟨l₁, l₂, rfl⟩ := List.append_of_mem ha
    have hrest : order.Perm ((l₁ ++ l₂).map f) := by
      have hmid := h.trans (List.perm_middle.map f)
      rw [List.map_cons, hfa] at hmid
      exact hmid.cons_inv
    obtain ⟨l', hl', rfl⟩ := ih hrest
    refine ⟨a :: l', (hl'.cons a).trans List.perm_middle.symm, ?_⟩
    rw [List.map_cons, hfa]

theorem run_read (capacity : ℕ) (consume : σ → μ → M σ) (sent started : List μ) (c : σ) :
    run (step capacity consume) ⟨sent, started, [], c⟩ (sent.map fun _ => .read) =
      some ⟨[], started ++ sent, [], c⟩ := by
  induction sent generalizing started with
  | nil => simp [run]
  | cons m sent ih =>
    have hrest := ih (started ++ [m])
    rw [List.append_assoc] at hrest
    exact hrest

/-- The goroutines send in the given order, each message being consumed at once. -/
theorem exists_run_goroutines (hcap : 0 < capacity) {started : List μ} {c' : σ}
    (hperm : order.Perm started) (hfold : loopM consume order c = .ok c') :
    ∃ turns, run (step capacity consume) ⟨[], started, [], c⟩ turns = some ⟨[], [], [], c'⟩ := by
  induction order generalizing started c with
  | nil =>
    obtain rfl := hperm.symm.eq_nil
    cases hfold
    exact ⟨[], rfl⟩
  | cons m order ih =>
    obtain ⟨c₁, hc₁, hfold⟩ := ok_of_bind hfold
    have hm : m ∈ started := hperm.subset (.head _)
    obtain ⟨i, hi, hget⟩ := List.mem_iff_getElem.mp hm
    have hrest : order.Perm (started.eraseIdx i) := by
      have hcons := hperm.trans (List.getElem_cons_eraseIdx_perm hi).symm
      rw [hget] at hcons
      exact hcons.cons_inv
    obtain ⟨turns, hturns⟩ := ih hrest hfold
    refine ⟨.send i :: .take :: turns, ?_⟩
    have hsend : step capacity consume ⟨[], started, [], c⟩ (.send i) =
        some ⟨[], started.eraseIdx i, [m], c⟩ := by
      simp [step, List.getElem?_eq_getElem hi, hget, hcap]
    have htake : step capacity consume ⟨[], started.eraseIdx i, [m], c⟩ .take =
        some ⟨[], started.eraseIdx i, [], c₁⟩ := by
      simp [step, hc₁]
    simp only [run, hsend, htake, Option.bind_some]
    exact hturns

theorem exists_run (hcap : 0 < capacity) {c' : σ} (hperm : order.Perm sent)
    (hfold : loopM consume order c = .ok c') :
    ∃ turns, run (step capacity consume) { incoming := sent, consumer := c } turns =
      some { incoming := [], consumer := c' } := by
  obtain ⟨turns, hturns⟩ := exists_run_goroutines hcap hperm hfold
  refine ⟨sent.map (fun _ => .read) ++ turns, ?_⟩
  rw [run_append (run_read capacity consume sent [] c)]
  exact hturns

end Go.Handoff
