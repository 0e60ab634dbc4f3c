import Mathlib.Data.List.Nodup

/-!
# Histories of queues

A family of queues, one for each key, whose entries have ids. An entry arrives
at the end, is taken from the front, or is cancelled wherever it stands. The
log of these events determines the queues: the entries that arrived and were
not cancelled are, in the order of arrival, those that were taken followed by
those that wait (`QueueBalance`).
-/

namespace VllmRouter

open List

/-- What happened to an entry. -/
inductive QueueEvent (K I : Type) where
  | arrived (key : K) (id : I)
  | taken (key : K) (id : I)
  | cancelled (key : K) (id : I)
deriving DecidableEq, Repr

namespace QueueEvent

variable {K I : Type} [DecidableEq K]

variable (log : List (QueueEvent K I)) (key : K)

/-- The ids that arrived under a key, in order. -/
def arrivals : List I :=
  log.filterMap fun
    | .arrived k id => if k = key then some id else none
    | .taken _ _ | .cancelled _ _ => none

/-- The ids that were taken, in order. -/
def takings : List I :=
  log.filterMap fun
    | .taken k id => if k = key then some id else none
    | .arrived _ _ | .cancelled _ _ => none

/-- The ids that were cancelled, in order. -/
def cancellations : List I :=
  log.filterMap fun
    | .cancelled k id => if k = key then some id else none
    | .arrived _ _ | .taken _ _ => none

variable (log : List (QueueEvent K I)) (k key : K) (id : I)

lemma arrivals_arrived : arrivals (log ++ [.arrived k id]) key
    = if k = key then arrivals log key ++ [id] else arrivals log key := by
  unfold arrivals
  by_cases hk : k = key
  · simp [hk]
  · simp [hk]

lemma arrivals_taken : arrivals (log ++ [.taken k id]) key = arrivals log key := by
  simp [arrivals]

lemma arrivals_cancelled : arrivals (log ++ [.cancelled k id]) key = arrivals log key := by
  simp [arrivals]

lemma takings_arrived : takings (log ++ [.arrived k id]) key = takings log key := by
  simp [takings]

lemma takings_taken : takings (log ++ [.taken k id]) key
    = if k = key then takings log key ++ [id] else takings log key := by
  unfold takings
  by_cases hk : k = key
  · simp [hk]
  · simp [hk]

lemma takings_cancelled : takings (log ++ [.cancelled k id]) key = takings log key := by
  simp [takings]

lemma cancellations_arrived :
    cancellations (log ++ [.arrived k id]) key = cancellations log key := by
  simp [cancellations]

lemma cancellations_taken : cancellations (log ++ [.taken k id]) key = cancellations log key := by
  simp [cancellations]

lemma cancellations_cancelled : cancellations (log ++ [.cancelled k id]) key
    = if k = key then cancellations log key ++ [id] else cancellations log key := by
  unfold cancellations
  by_cases hk : k = key
  · simp [hk]
  · simp [hk]

end QueueEvent

open QueueEvent (arrivals takings cancellations)

variable {K I : Type} [DecidableEq K] [DecidableEq I]

/-- The entries of one queue: those that arrived and were not cancelled are, in the
order of arrival, those that were taken followed by those that wait. -/
structure QueueBalance (arrived taken cancelled waiting : List I) : Prop where
  order : arrived.filter (fun id => decide (id ∉ cancelled)) = taken ++ waiting
  nodup : arrived.Nodup
  cancelledOnce : cancelled.Nodup
  cancelledArrived : cancelled ⊆ arrived

namespace QueueBalance

variable {arrived taken cancelled waiting : List I} {id : I}

section

variable (h : QueueBalance arrived taken cancelled waiting)
include h

/-- What was taken or waits arrived and was not cancelled. -/
lemma mem_iff :
    id ∈ taken ∨ id ∈ waiting ↔ id ∈ arrived ∧ id ∉ cancelled := by
  rw [← mem_append, ← h.order, mem_filter, decide_eq_true_iff]

lemma nodup_taken_waiting :
    (taken ++ waiting).Nodup := by
  rw [← h.order]
  exact h.nodup.filter _

lemma arrive (hfresh : id ∉ arrived) :
    QueueBalance (arrived ++ [id]) taken cancelled (waiting ++ [id]) where
  order := by
    have hnot : id ∉ cancelled := fun hc => hfresh (h.cancelledArrived hc)
    rw [filter_append, h.order]
    simp [hnot]
  nodup := by
    refine nodup_append.2 ⟨h.nodup, nodup_singleton id, fun a ha b hb => ?_⟩
    rw [mem_singleton.1 hb]
    exact fun hab => hfresh (hab ▸ ha)
  cancelledOnce := h.cancelledOnce
  cancelledArrived := fun _ hi => mem_append_left _ (h.cancelledArrived hi)

end

lemma take (h : QueueBalance arrived taken cancelled (id :: waiting)) :
    QueueBalance arrived (taken ++ [id]) cancelled waiting where
  order := by
    rw [h.order, append_assoc]
    rfl
  nodup := h.nodup
  cancelledOnce := h.cancelledOnce
  cancelledArrived := h.cancelledArrived

lemma cancel {position : Nat} (h : QueueBalance arrived taken cancelled waiting)
    (hposition : waiting[position]? = some id) :
    QueueBalance arrived taken (cancelled ++ [id]) (waiting.eraseIdx position) where
  order := by
    obtain ⟨hlt, hget⟩ := List.getElem?_eq_some_iff.1 hposition
    obtain ⟨-, hwaiting, hdisjoint⟩ := List.nodup_append.1 h.nodup_taken_waiting
    have hnot : id ∉ taken := fun ht => hdisjoint id ht id (List.mem_of_getElem? hposition) rfl
    -- the entry goes from what was taken or waits, where it stands once
    calc arrived.filter (fun i => decide (i ∉ cancelled ++ [id]))
        = (arrived.filter fun i => decide (i ∉ cancelled)).filter fun i => i != id := by
          rw [List.filter_filter]
          refine List.filter_congr fun i _ => ?_
          rw [Bool.eq_iff_iff]
          simp [and_comm]
      _ = (taken ++ waiting).filter fun i => i != id := by rw [h.order]
      _ = (taken ++ waiting).erase id := (h.nodup_taken_waiting.erase_eq_filter id).symm
      _ = taken ++ waiting.erase id := List.erase_append_right _ hnot
      _ = taken ++ waiting.eraseIdx position := by rw [← hget, hwaiting.erase_getElem]
  nodup := h.nodup
  cancelledOnce := by
    refine List.nodup_append.2 ⟨h.cancelledOnce, List.nodup_singleton id, fun a ha b hb => ?_⟩
    rw [List.mem_singleton.1 hb]
    rintro rfl
    exact (h.mem_iff.1 (.inr (List.mem_of_getElem? hposition))).2 ha
  cancelledArrived := List.append_subset.2 ⟨h.cancelledArrived, List.cons_subset.2
    ⟨(h.mem_iff.1 (.inr (List.mem_of_getElem? hposition))).1, List.nil_subset _⟩⟩

/-- Every entry that arrived is in exactly one place, once: it waits, or was
taken, or was cancelled. -/
lemma fate (h : QueueBalance arrived taken cancelled waiting) (id) :
    waiting.count id + taken.count id + cancelled.count id = arrived.count id ∧
      arrived.count id ≤ 1 := by
  have hle := nodup_iff_count_le_one.1 h.nodup id
  refine ⟨?_, hle⟩
  have hkept := congrArg (count id) h.order
  rw [count_append] at hkept
  by_cases hcancelled : id ∈ cancelled
  · have hone : cancelled.count id = 1 := count_eq_one_of_mem h.cancelledOnce hcancelled
    have harrived : arrived.count id = 1 :=
      count_eq_one_of_mem h.nodup (h.cancelledArrived hcancelled)
    have hgone : (arrived.filter fun i => decide (i ∉ cancelled)).count id = 0 := by
      rw [count_eq_zero, mem_filter, decide_eq_true_iff]
      exact fun hmem => hmem.2 hcancelled
    omega
  have hnone : cancelled.count id = 0 := count_eq_zero.2 hcancelled
  have hsame : (arrived.filter fun i => decide (i ∉ cancelled)).count id = arrived.count id :=
    count_filter (decide_eq_true hcancelled)
  omega

end QueueBalance

/-- The log explains the queues. -/
def QueueHistory (queue : K → List I) (log : List (QueueEvent K I)) : Prop :=
  ∀ key, QueueBalance (arrivals log key) (takings log key) (cancellations log key) (queue key)

namespace QueueHistory

variable {queue queue' : K → List I} {log : List (QueueEvent K I)} {key : K} {id : I}

lemma empty : QueueHistory (fun _ : K => ([] : List I)) [] :=
  fun _ => ⟨rfl, nodup_nil, nodup_nil, List.Subset.refl _⟩

lemma arrive (h : QueueHistory queue log) (hfresh : id ∉ arrivals log key)
    (hqueue : ∀ k, queue' k = if k = key then queue key ++ [id] else queue k) :
    QueueHistory queue' (log ++ [.arrived key id]) := by
  intro k
  rw [QueueEvent.arrivals_arrived, QueueEvent.takings_arrived, QueueEvent.cancellations_arrived,
    hqueue]
  by_cases hk : key = k
  · subst hk
    rw [if_pos rfl, if_pos rfl]
    exact (h key).arrive hfresh
  · rw [if_neg hk, if_neg (Ne.symm hk)]
    exact h k

lemma take (rest) (h : QueueHistory queue log) (hfront : queue key = id :: rest)
    (hqueue : ∀ k, queue' k = if k = key then rest else queue k) :
    QueueHistory queue' (log ++ [.taken key id]) := by
  intro k
  rw [QueueEvent.arrivals_taken, QueueEvent.takings_taken, QueueEvent.cancellations_taken, hqueue]
  by_cases hk : key = k
  · subst hk
    rw [if_pos rfl, if_pos rfl]
    exact (hfront ▸ h key).take
  · rw [if_neg hk, if_neg (Ne.symm hk)]
    exact h k

lemma cancel (position : Nat) (h : QueueHistory queue log)
    (hposition : (queue key)[position]? = some id)
    (hqueue : ∀ k, queue' k = if k = key then (queue key).eraseIdx position else queue k) :
    QueueHistory queue' (log ++ [.cancelled key id]) := by
  intro k
  rw [QueueEvent.arrivals_cancelled, QueueEvent.takings_cancelled,
    QueueEvent.cancellations_cancelled, hqueue]
  by_cases hk : key = k
  · subst hk
    rw [if_pos rfl, if_pos rfl]
    exact (h key).cancel hposition
  · rw [if_neg hk, if_neg (Ne.symm hk)]
    exact h k

end QueueHistory

end VllmRouter
