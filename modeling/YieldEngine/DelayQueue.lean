import Mathlib.Data.List.Infix
import Mathlib.Data.List.Nodup
import Mathlib.Logic.Function.Basic

/-! # Delay queues

A delay queue holds requests that may run only after a delay.  A request is proposed under a
fresh id, waits in the queue until its due time, and leaves the queue by being executed or
cancelled.  The delay itself may be what a request changes (`retime`), and due times are
capped at a largest time `horizon`.

`Step` is one step of the queue together with the log entry it leaves, and `Runs` a run with
its whole log.  `Justified` says when a log entry is justified by the entries before it: a
proposal gets an id never used and the delay last executed; an execution runs the payload of
an earlier proposal, not before its due time, of an id not settled yet.  In the log of a run
every entry is justified (`Runs.disciplined`), and the queue holds exactly the proposals not
settled (`Runs.tracks`).  The corollaries read the usual promises off a disciplined log: one
proposal for each execution, no second execution, none after a cancellation. -/

namespace DelayQueue

/-- A waiting request and the earliest time at which it may run. -/
structure Ticket (π : Type) where
  payload : π
  due : ℕ

structure Queue (π : Type) where
  nextId : ℕ
  pending : ℕ → Option (Ticket π)
  delay : ℕ

/-- What the log records. -/
inductive Entry (π : Type) where
  | proposed (id : ℕ) (payload : π) (time delay : ℕ)
  | executed (id : ℕ) (payload : π) (time : ℕ)
  | cancelled (id : ℕ)

variable {π : Type} (horizon : ℕ) (retime : π → Option ℕ)

/-- One step of the queue and what it adds to the log. -/
inductive Step : Queue π → List (Entry π) → Queue π → Prop
  | propose (q : Queue π) (payload : π) (time : ℕ) :
      Step q [.proposed q.nextId payload time q.delay]
        { q with
          nextId := q.nextId + 1
          pending := Function.update q.pending q.nextId
            (some ⟨payload, min (time + q.delay) horizon⟩) }
  | execute (q : Queue π) (id : ℕ) (ticket : Ticket π) (time : ℕ)
      (hpending : q.pending id = some ticket) (hdue : ticket.due ≤ time) :
      Step q [.executed id ticket.payload time]
        { q with
          pending := Function.update q.pending id none
          delay := (retime ticket.payload).getD q.delay }
  | cancel (q : Queue π) (id : ℕ) (ticket : Ticket π) (hpending : q.pending id = some ticket) :
      Step q [.cancelled id] { q with pending := Function.update q.pending id none }
  | idle (q : Queue π) : Step q [] q

/-- A run of the queue and its log. -/
inductive Runs (q₀ : Queue π) : List (Entry π) → Queue π → Prop
  | start : Runs q₀ [] q₀
  | step {log new : List (Entry π)} {q q' : Queue π} :
      Runs q₀ log q → Step horizon retime q new q' → Runs q₀ (log ++ new) q'

/-! ### Logs -/

/-- The ids proposed in a log. -/
def proposedIds (log : List (Entry π)) : List ℕ :=
  log.filterMap fun
    | .proposed id _ _ _ => some id
    | _ => none

/-- The ids executed or cancelled in a log. -/
def settledIds (log : List (Entry π)) : List ℕ :=
  log.filterMap fun
    | .executed id _ _ => some id
    | .cancelled id => some id
    | _ => none

/-- The delay in force after a log: the one last executed. -/
def delayAfter (d₀ : ℕ) (log : List (Entry π)) : ℕ :=
  log.foldl (fun d entry =>
    match entry with
    | .executed _ payload _ => (retime payload).getD d
    | _ => d) d₀

/-- An entry is justified by the log before it. -/
def Justified (d₀ : ℕ) (before : List (Entry π)) : Entry π → Prop
  | .proposed id _ _ delay =>
      id ∉ proposedIds before ∧ id ∉ settledIds before ∧ delay = delayAfter retime d₀ before
  | .executed id payload time =>
      (∃ t d, .proposed id payload t d ∈ before ∧ min (t + d) horizon ≤ time) ∧
        id ∉ settledIds before
  | .cancelled id =>
      (∃ payload t d, .proposed id payload t d ∈ before) ∧ id ∉ settledIds before

/-- Every entry of the log is justified by those before it. -/
def Disciplined (d₀ : ℕ) (log : List (Entry π)) : Prop :=
  ∀ before entry, before ++ [entry] <+: log → Justified horizon retime d₀ before entry

section
variable {horizon retime} {d₀ : ℕ} {log : List (Entry π)}

theorem mem_proposedIds {id : ℕ} :
    id ∈ proposedIds log ↔ ∃ payload t d, .proposed id payload t d ∈ log := by
  simp only [proposedIds, List.mem_filterMap]
  constructor
  · rintro ⟨entry, hmem, h⟩
    cases entry with
    | proposed id' payload t d =>
        obtain rfl := Option.some.inj h
        exact ⟨payload, t, d, hmem⟩
    | executed => cases h
    | cancelled => cases h
  · rintro ⟨payload, t, d, hmem⟩
    exact ⟨_, hmem, rfl⟩

theorem proposedIds_append (log new : List (Entry π)) :
    proposedIds (log ++ new) = proposedIds log ++ proposedIds new := List.filterMap_append

theorem settledIds_append (log new : List (Entry π)) :
    settledIds (log ++ new) = settledIds log ++ settledIds new := List.filterMap_append

theorem delayAfter_append (log new : List (Entry π)) :
    delayAfter retime d₀ (log ++ new) = delayAfter retime (delayAfter retime d₀ log) new :=
  List.foldl_append

theorem Disciplined.nil : Disciplined horizon retime d₀ ([] : List (Entry π)) := by
  intro before entry h
  simp at h

/-- A disciplined log stays so when a justified entry is added. -/
theorem Disciplined.snoc {entry : Entry π} (h : Disciplined horizon retime d₀ log)
    (hentry : Justified horizon retime d₀ log entry) :
    Disciplined horizon retime d₀ (log ++ [entry]) := by
  intro before x hx
  obtain heq | hx := List.prefix_concat_iff.mp hx
  · obtain ⟨rfl, rfl⟩ := List.append_inj' heq rfl |>.imp_right List.singleton_inj.mp
    exact hentry
  · exact h before x hx

end

/-! ### The queue follows its log -/

/-- The queue holds the unsettled proposals of the log, at the delay in force. -/
structure Tracks (d₀ : ℕ) (log : List (Entry π)) (q : Queue π) : Prop where
  pending : ∀ id payload due, q.pending id = some ⟨payload, due⟩ ↔
    id ∉ settledIds log ∧ ∃ t d, .proposed id payload t d ∈ log ∧ due = min (t + d) horizon
  proposed_lt : ∀ id ∈ proposedIds log, id < q.nextId
  settled : ∀ id ∈ settledIds log, id ∈ proposedIds log
  delay : q.delay = delayAfter retime d₀ log

section
variable {horizon retime} {d₀ : ℕ} {log : List (Entry π)} {q : Queue π}

theorem Tracks.start (q₀ : Queue π) (hempty : ∀ id, q₀.pending id = none) :
    Tracks horizon retime q₀.delay [] q₀ where
  pending := fun id payload due => by simp [hempty]
  proposed_lt := fun id h => by simp [proposedIds] at h
  settled := fun id h => by simp [settledIds] at h
  delay := rfl

/-- The next id is fresh: it occurs nowhere in the log. -/
theorem Tracks.fresh (h : Tracks horizon retime d₀ log q) :
    q.nextId ∉ proposedIds log ∧ q.nextId ∉ settledIds log := by
  have hfresh : q.nextId ∉ proposedIds log := fun hmem => lt_irrefl _ (h.proposed_lt _ hmem)
  exact ⟨hfresh, fun hmem => hfresh (h.settled _ hmem)⟩

theorem Tracks.propose (h : Tracks horizon retime d₀ log q) (payload : π) (time : ℕ) :
    Tracks horizon retime d₀ (log ++ [.proposed q.nextId payload time q.delay])
      { q with
        nextId := q.nextId + 1
        pending := Function.update q.pending q.nextId
          (some ⟨payload, min (time + q.delay) horizon⟩) } where
  pending := by
    intro id payload' due
    have hsettled : settledIds (log ++ [.proposed q.nextId payload time q.delay]) =
        settledIds log := by
      rw [settledIds_append]
      exact List.append_nil _
    rw [hsettled]
    by_cases hid : id = q.nextId
    · subst hid
      have hnone : ∀ p t d, Entry.proposed q.nextId p t d ∉ log := fun p t d hmem =>
        h.fresh.1 (mem_proposedIds.mpr ⟨p, t, d, hmem⟩)
      simp only [Function.update_self, Option.some.injEq, Ticket.mk.injEq, List.mem_append,
        hnone, List.mem_singleton, Entry.proposed.injEq, true_and, false_or]
      constructor
      · rintro ⟨rfl, rfl⟩
        exact ⟨h.fresh.2, time, q.delay, ⟨rfl, rfl, rfl⟩, rfl⟩
      · rintro ⟨-, t, d, ⟨rfl, rfl, rfl⟩, rfl⟩
        exact ⟨rfl, rfl⟩
    · simp [hid, h.pending]
  proposed_lt := by
    intro id hmem
    rw [proposedIds_append] at hmem
    obtain hmem | hmem := List.mem_append.mp hmem
    · exact (h.proposed_lt id hmem).trans (Nat.lt_succ_self _)
    · obtain rfl : id = q.nextId := by simpa [proposedIds] using hmem
      exact Nat.lt_succ_self _
  settled := by
    intro id hmem
    rw [settledIds_append] at hmem
    rw [proposedIds_append]
    obtain hmem | hmem := List.mem_append.mp hmem
    · exact List.mem_append_left _ (h.settled id hmem)
    · simp [settledIds] at hmem
  delay := by
    rw [delayAfter_append, ← h.delay]
    rfl

/-- Taking a waiting request out of the queue, recorded as `entry`. -/
theorem Tracks.settle (h : Tracks horizon retime d₀ log q) {id : ℕ} {ticket : Ticket π}
    (hpending : q.pending id = some ticket) {entry : Entry π} {delay : ℕ}
    (hproposes : proposedIds [entry] = []) (hsettles : settledIds [entry] = [id])
    (hdelay : delay = delayAfter retime q.delay [entry]) :
    Tracks horizon retime d₀ (log ++ [entry])
      { q with pending := Function.update q.pending id none, delay := delay } where
  pending := by
    intro id' payload due
    have hentry : ∀ t d, entry ≠ .proposed id' payload t d := by
      rintro t d rfl
      simp [proposedIds] at hproposes
    have hmem : ∀ t d, Entry.proposed id' payload t d ∈ log ++ [entry] ↔
        Entry.proposed id' payload t d ∈ log := by
      intro t d
      rw [List.mem_append, List.mem_singleton]
      exact or_iff_left fun heq => hentry t d heq.symm
    rw [settledIds_append, hsettles, List.mem_append, List.mem_singleton, not_or]
    simp only [hmem]
    by_cases hid : id' = id
    · subst hid
      simp
    · simp [hid, h.pending]
  proposed_lt := by
    rw [proposedIds_append, hproposes, List.append_nil]
    exact h.proposed_lt
  settled := by
    obtain ⟨payload, due⟩ := ticket
    obtain ⟨-, t, d, hprop, -⟩ := (h.pending id payload due).mp hpending
    rw [proposedIds_append, settledIds_append, hproposes, hsettles, List.append_nil]
    intro id' hmem
    obtain hmem | hmem := List.mem_append.mp hmem
    · exact h.settled id' hmem
    · obtain rfl := List.mem_singleton.mp hmem
      exact mem_proposedIds.mpr ⟨payload, t, d, hprop⟩
  delay := by rw [delayAfter_append, ← h.delay, hdelay]

/-- A step keeps the discipline of the log and the queue in line with it. -/
theorem Step.disciplined {new : List (Entry π)} {q' : Queue π}
    (hstep : Step horizon retime q new q')
    (hlog : Disciplined horizon retime d₀ log) (hq : Tracks horizon retime d₀ log q) :
    Disciplined horizon retime d₀ (log ++ new) ∧ Tracks horizon retime d₀ (log ++ new) q' := by
  cases hstep with
  | propose payload time =>
      exact ⟨hlog.snoc ⟨hq.fresh.1, hq.fresh.2, hq.delay⟩, hq.propose payload time⟩
  | execute id ticket time hpending hdue =>
      obtain ⟨payload, due⟩ := ticket
      obtain ⟨hopen, t, d, hprop, rfl⟩ := (hq.pending id payload due).mp hpending
      exact ⟨hlog.snoc ⟨⟨t, d, hprop, hdue⟩, hopen⟩, hq.settle hpending rfl rfl rfl⟩
  | cancel id ticket hpending =>
      obtain ⟨payload, due⟩ := ticket
      obtain ⟨hopen, t, d, hprop, -⟩ := (hq.pending id payload due).mp hpending
      exact ⟨hlog.snoc ⟨⟨payload, t, d, hprop⟩, hopen⟩, hq.settle hpending rfl rfl rfl⟩
  | idle =>
      rw [List.append_nil]
      exact ⟨hlog, hq⟩

/-- The log of a run from an empty queue is disciplined, and the queue follows it. -/
theorem Runs.disciplined {q₀ : Queue π} (hempty : ∀ id, q₀.pending id = none)
    (hrun : Runs horizon retime q₀ log q) :
    Disciplined horizon retime q₀.delay log ∧ Tracks horizon retime q₀.delay log q := by
  induction hrun with
  | start => exact ⟨.nil, .start q₀ hempty⟩
  | step _ hstep ih => exact hstep.disciplined ih.1 ih.2

/-! ### What a disciplined log promises -/

/-- What no entry repeats from before it occurs once. -/
theorem nodup_filterMap_of_prefix {f : Entry π → Option ℕ} :
    ∀ log : List (Entry π), (∀ before entry id, before ++ [entry] <+: log → f entry = some id →
      id ∉ before.filterMap f) → (log.filterMap f).Nodup := by
  intro log
  induction log using List.reverseRecOn with
  | nil => exact fun _ => List.nodup_nil
  | append_singleton log entry ih =>
      intro h
      have hlog := ih fun before x id hx => h before x id (hx.trans (List.prefix_append _ _))
      rw [List.filterMap_append]
      cases hf : f entry with
      | none => simpa [hf] using hlog
      | some id =>
          have hnew := h log entry id List.prefix_rfl hf
          rw [List.filterMap_cons_some hf, List.filterMap_nil, List.nodup_append]
          refine ⟨hlog, List.nodup_singleton id, fun x hx y hy heq => hnew ?_⟩
          obtain rfl := List.mem_singleton.mp hy
          exact heq ▸ hx

/-- No id is proposed twice. -/
theorem Disciplined.proposed_nodup (h : Disciplined horizon retime d₀ log) :
    (proposedIds log).Nodup := by
  refine nodup_filterMap_of_prefix log fun before entry id hprefix hid => ?_
  have hjust := h before entry hprefix
  cases entry with
  | proposed id' payload t d =>
      obtain rfl := Option.some.inj hid
      exact hjust.1
  | executed => cases hid
  | cancelled => cases hid

/-- No id is settled twice: not executed twice, not executed after its cancellation, and not
cancelled after its execution. -/
theorem Disciplined.settled_nodup (h : Disciplined horizon retime d₀ log) :
    (settledIds log).Nodup := by
  refine nodup_filterMap_of_prefix log fun before entry id hprefix hid => ?_
  have hjust := h before entry hprefix
  cases entry with
  | proposed => cases hid
  | executed id' payload t =>
      obtain rfl := Option.some.inj hid
      exact hjust.2
  | cancelled id' =>
      obtain rfl := Option.some.inj hid
      exact hjust.2

theorem Disciplined.justified (h : Disciplined horizon retime d₀ log)
    {before after : List (Entry π)} {entry : Entry π} (hlog : log = before ++ entry :: after) :
    Justified horizon retime d₀ before entry :=
  h before entry ⟨after, by rw [hlog, List.append_assoc, List.singleton_append]⟩

/-- An executed request: its one proposal came before, under the delay then in force, its due
time had come, and its id is settled by no other entry. -/
theorem Disciplined.executed (h : Disciplined horizon retime d₀ log)
    {before after : List (Entry π)} {id : ℕ} {payload : π} {time : ℕ}
    (hlog : log = before ++ .executed id payload time :: after) :
    (∃ earlier t d later, before = earlier ++ .proposed id payload t d :: later ∧
        d = delayAfter retime d₀ earlier ∧ min (t + d) horizon ≤ time) ∧
      (proposedIds log).count id = 1 ∧ id ∉ settledIds before ∧ id ∉ settledIds after := by
  obtain ⟨⟨t, d, hprop, hdue⟩, hopen⟩ := h.justified hlog
  obtain ⟨earlier, later, hbefore⟩ := List.append_of_mem hprop
  have hsplit : log = earlier ++ .proposed id payload t d ::
      (later ++ .executed id payload time :: after) := by
    rw [hlog, hbefore, List.append_assoc, List.cons_append]
  have hcount : (proposedIds log).count id = 1 := by
    refine List.count_eq_one_of_mem h.proposed_nodup (mem_proposedIds.mpr ⟨payload, t, d, ?_⟩)
    exact hlog ▸ List.mem_append_left _ hprop
  refine ⟨⟨earlier, t, d, later, hbefore, (h.justified hsplit).2.2, hdue⟩, hcount, hopen, ?_⟩
  have hnodup := h.settled_nodup
  rw [hlog, settledIds_append] at hnodup
  exact (List.nodup_cons.mp (List.nodup_append.mp hnodup).2.1).1

end

end DelayQueue
