import YieldEngine.ListenerState
import YieldEngine.Transact

/-! # Runs of the listener

A run interleaves calls of `poll`, the steps of the polls themselves, and restarts of the
process.  A call only joins the queue; the poll at its head restores the position if it is the
first one, sends its request, processes the answer and writes its checkpoint, and the next one
starts when it has finished.  A restart happens between polls: it forgets the queue and
everything in memory, and keeps the store.

The world also keeps what an observer sees: the events a raw handler has received, the
latest ledger the RPC has reported, and the latest ledgers of the pages that were not full. -/

namespace YieldEngine.Listener

open Keeper PagedLog

/-- Where the poll at the head of the queue waits. -/
inductive Phase where
  | idle
  | fetching (request : GetEventsRequest)
  | saving (checkpoint : KeeperCheckpoint)

structure World where
  listener : ListenerState
  store : Option KeeperCheckpoint
  phase : Phase
  /-- The polls called and not finished. -/
  queued : ℕ
  latestLedger : ℕ
  delivered : List RawContractEvent
  drained : List ℕ

inductive Action where
  /-- `poll` is called. -/
  | call
  /-- The next poll starts. -/
  | start
  /-- The RPC answers with an error. -/
  | fail
  /-- The RPC answers with the given latest ledger, at the given time. -/
  | answer (latestLedger now : ℕ)
  /-- The checkpoint is stored. -/
  | saved
  | restart
deriving DecidableEq, Repr

/-- A new process on a store nothing was saved in. -/
def initialWorld (config : ListenerConfig) : World where
  listener := newListener config
  store := none
  phase := .idle
  queued := 0
  latestLedger := 0
  delivered := []
  drained := []

/-- The poll at the head of the queue has finished. -/
def World.finish (w : World) : World := { w with phase := .idle, queued := w.queued - 1 }

/-- The world after the page has been processed. -/
def World.receive (config : ListenerConfig) (w : World) (response : GetEventsResponse)
    (now : ℕ) : World :=
  let (l, passed) := processResponse config w.listener response
  let w := { w with
    listener := l
    latestLedger := response.latestLedger
    delivered := w.delivered ++ passed
    drained :=
      if response.events.length < config.limit then response.latestLedger :: w.drained
      else w.drained }
  if config.persists then { w with phase := .saving (persistedCheckpoint config l now) }
  else w.finish

/-- One step; an error where the action cannot happen. -/
def step (config : ListenerConfig) (chain : Chain) (w : World) : Action → Except Unit World
  | .call => .ok { w with queued := w.queued + 1 }
  | .start =>
      match w.phase with
      | .idle =>
          if 0 < w.queued then
            let l := restoreIfNeeded config w.store w.listener
            .ok { w with listener := l, phase := .fetching (buildRequest config l) }
          else .error ()
      | _ => .error ()
  | .fail =>
      match w.phase with
      | .fetching _ => .ok w.finish
      | _ => .error ()
  | .answer latestLedger now =>
      match w.phase with
      | .fetching request =>
          if w.latestLedger ≤ latestLedger then
            match rpcAnswer chain latestLedger request with
            | some response => .ok (w.receive config response now)
            | none => .error ()
          else .error ()
      | _ => .error ()
  | .saved =>
      match w.phase with
      | .saving checkpoint => .ok { w.finish with store := some checkpoint }
      | _ => .error ()
  | .restart =>
      match w.phase with
      | .idle => .ok { w with listener := newListener config, phase := .idle, queued := 0 }
      | _ => .error ()

/-- What a step can do. -/
inductive Steps (config : ListenerConfig) (chain : Chain) (w : World) : World → Prop
  | call : Steps config chain w { w with queued := w.queued + 1 }
  | start (hidle : w.phase = .idle) : Steps config chain w
      { w with
        listener := restoreIfNeeded config w.store w.listener
        phase := .fetching (buildRequest config (restoreIfNeeded config w.store w.listener)) }
  | fail {request : GetEventsRequest} (hfetching : w.phase = .fetching request) :
      Steps config chain w w.finish
  | answer {request : GetEventsRequest} {response : GetEventsResponse} {latest : ℕ} (now : ℕ)
      (hfetching : w.phase = .fetching request) (hle : w.latestLedger ≤ latest)
      (hanswer : rpcAnswer chain latest request = some response) :
      Steps config chain w (w.receive config response now)
  | saved {checkpoint : KeeperCheckpoint} (hsaving : w.phase = .saving checkpoint) :
      Steps config chain w { w.finish with store := some checkpoint }
  | restart (hidle : w.phase = .idle) :
      Steps config chain w { w with listener := newListener config, phase := .idle, queued := 0 }

theorem step_steps {config : ListenerConfig} {chain : Chain} {w w' : World} {action : Action}
    (h : step config chain w action = .ok w') : Steps config chain w w' := by
  cases action with
  | call =>
      obtain rfl := Except.ok.inj h
      exact .call
  | start =>
      cases hphase : w.phase <;> simp only [step, hphase] at h <;> try cases h
      split_ifs at h
      obtain rfl := Except.ok.inj h
      exact .start hphase
  | fail =>
      cases hphase : w.phase <;> simp only [step, hphase] at h <;> cases h
      exact .fail hphase
  | answer latest now =>
      cases hphase : w.phase <;> simp only [step, hphase] at h <;> try cases h
      split_ifs at h with hle
      cases hanswer : rpcAnswer chain latest _ with
      | none =>
          rw [hanswer] at h
          cases h
      | some response =>
          rw [hanswer] at h
          obtain rfl := Except.ok.inj h
          exact .answer now hphase hle hanswer
  | saved =>
      cases hphase : w.phase <;> simp only [step, hphase] at h <;> cases h
      exact .saved hphase
  | restart =>
      cases hphase : w.phase <;> simp only [step, hphase] at h <;> cases h
      exact .restart hphase

/-- Every event from the start ledger on is delivered once and in order: what was delivered is
a prefix of the chain, and reaches the latest ledger of every page that was not full. -/
structure DeliversOnce (config : ListenerConfig) (chain : Chain) (w : World) : Prop where
  in_order : ∃ bound, w.delivered <+: between chain.events config.startLedger bound
  caught_up : ∀ latest ∈ w.drained,
    between chain.events config.startLedger (latest + 1) <+: w.delivered

/-- Nothing is delivered twice. -/
theorem DeliversOnce.nodup {config : ListenerConfig} {chain : Chain} {w : World}
    (h : DeliversOnce config chain w) : (w.delivered.map RawContractEvent.id).Nodup := by
  obtain ⟨bound, hcut⟩ := h.in_order
  have hnodup :
      ((between chain.events config.startLedger bound).map RawContractEvent.id).Nodup := by
    rcases le_total config.startLedger bound with hle | hle
    · have hall := chain.id_unique bound
      rw [← between_append chain.events (Nat.zero_le _) hle, List.map_append] at hall
      exact (List.nodup_append.mp hall).2.1
    · rw [between_of_le chain.events hle]
      exact List.nodup_nil
  exact hnodup.sublist (hcut.sublist.map RawContractEvent.id)

end YieldEngine.Listener
