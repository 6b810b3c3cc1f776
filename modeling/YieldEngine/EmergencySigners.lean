import YieldEngine.GovernanceRuns

/-! # Who signs in an emergency

The multisig counts confirmations by the length of a vector, and it appends a signer as often as he
confirms.  After every run the vector of a transaction lists the submission and the confirmations that
returned, in order (`confirmations_are_counted`), so a single signer reaches any number of
signatures (`one_signer_suffices`).

The governor asks every signer of a pause for his signature and counts the members among them in
a loop (`foldlM_countSigner`).  Of distinct signers three must be members
(`emergencyPause_returns_iff`). -/

namespace YieldEngine.Governance

open CheckedArith Transact SortedMap EmergencyMultisig

variable {d : Deployment} {w w' : World}

/-! ### The vector of signers -/

/-- The signature a call adds to the transaction numbered `id`. -/
def signatures (id : ℕ) (w : World) (c : GovEnv × Action) : List Address :=
  match c.2 with
  | .multisig (.submitEmergencyTx proposer _ _) => if id = w.multisig.next then [proposer] else []
  | .multisig (.confirmTx confirmer i) => if id = i then [confirmer] else []
  | _ => []

/-- The multisig of these members holds the signatures `log` of the transaction `id`. -/
structure Register (members : List Address) (required id : ℕ) (log : List Address) (w : World) :
    Prop where
  known : w.multisig.signers = some members
  threshold : w.multisig.requiredSignatures = some required
  first : 1 ≤ w.multisig.next
  stored : w.multisig.txSigners.get id =
    if 1 ≤ id ∧ id < w.multisig.next then some log else none
  unused : ¬ (1 ≤ id ∧ id < w.multisig.next) → log = []
  valid : ∀ a ∈ log, a ∈ members

section step
variable {members : List Address} {required id : ℕ} {log : List Address}

theorem step_register {c : GovEnv × Action} (h : Step d w c.1 c.2 w')
    (hs : Register members required id log w) :
    Register members required id (log ++ signatures id w c) w' := by
  obtain ⟨e, a⟩ := c
  have hmember : ∀ a, (∃ signers, w.multisig.signers = some signers ∧ a ∈ signers) →
      a ∈ members := by
    rintro a ⟨signers, hsigners, ha⟩
    obtain rfl := Option.some.inj (hs.known.symm.trans hsigners)
    exact ha
  cases h with
  | multisig h =>
      rename_i a _
      cases a with
      | submitEmergencyTx proposer target data =>
          obtain ⟨⟨s', txId⟩, hcall, rfl⟩ := map_eq_ok.mp h
          obtain ⟨-, hproposer, -, rfl⟩ := submitEmergencyTx_ok hcall
          have hfirst := hs.first
          by_cases hid : id = w.multisig.next
          · have hnone : log = [] := hs.unused (by omega)
            subst hid
            simp only [signatures, if_true, hnone, List.nil_append]
            refine ⟨hs.known, hs.threshold, Nat.succ_pos _, ?_, fun h => ?_, ?_⟩
            · rw [if_pos ⟨hfirst, Nat.lt_succ_self _⟩]
              exact get_set_self _ _ _
            · exact absurd ⟨hfirst, Nat.lt_succ_self _⟩ h
            · simpa using hmember proposer hproposer
          · simp only [signatures, if_neg hid, List.append_nil]
            have hsame : (1 ≤ id ∧ id < w.multisig.next + 1) ↔
                (1 ≤ id ∧ id < w.multisig.next) := by omega
            refine ⟨hs.known, hs.threshold, Nat.succ_pos _, ?_, fun h => ?_, hs.valid⟩
            · refine (get_set_ne _ _ hid).trans (hs.stored.trans ?_)
              exact if_congr hsame.symm rfl rfl
            · exact hs.unused fun h' => h (hsame.mpr h')
      | confirmTx confirmer i =>
          obtain ⟨⟨s', done⟩, hcall, rfl⟩ := map_eq_ok.mp h
          obtain ⟨-, hconfirmer, before, r, hbefore, -, rfl, -⟩ := confirmTx_ok hcall
          by_cases hid : id = i
          · subst hid
            have hknown : 1 ≤ id ∧ id < w.multisig.next := by
              by_contra hunknown
              rw [hs.stored, if_neg hunknown] at hbefore
              cases hbefore
            have hlog : log = before := by
              rw [hs.stored, if_pos hknown] at hbefore
              exact Option.some.inj hbefore
            subst hlog
            simp only [signatures, if_true]
            refine ⟨hs.known, hs.threshold, hs.first, ?_, fun h => absurd hknown h, ?_⟩
            · exact (get_set_self _ _ _).trans (if_pos hknown).symm
            · intro a ha
              rcases List.mem_append.mp ha with ha | ha
              · exact hs.valid a ha
              · obtain rfl := List.mem_singleton.mp ha
                exact hmember a hconfirmer
          · simp only [signatures, if_neg hid, List.append_nil]
            refine ⟨hs.known, hs.threshold, hs.first, ?_, hs.unused, hs.valid⟩
            exact (get_set_ne _ _ hid).trans hs.stored
  | _ =>
      simp only [signatures, List.append_nil]
      exact ⟨hs.known, hs.threshold, hs.first, hs.stored, hs.unused, hs.valid⟩

end step

theorem register_of_run {e : GovEnv} {p : Parties} (h : deployed e d p = .ok w)
    (calls : List (GovEnv × Action)) (id : ℕ) :
    Register p.members p.required id (ghostLog (exec d) (signatures id) w calls)
      (run (exec d) w calls) := by
  have hstart : Register p.members p.required id [] w := by
    obtain ⟨-, -, -, -, -, hmultisig⟩ := deployed_ok h
    simp only [initializeMultisig, bind_eq_ok, require_eq_ok, pure_eq_ok, exists_const] at hmultisig
    obtain ⟨-, -, hw⟩ := hmultisig
    refine ⟨by rw [← hw], by rw [← hw], by rw [← hw]; exact le_rfl, ?_, fun _ => rfl,
      fun a ha => by cases ha⟩
    rw [← hw, if_neg (by change ¬ (1 ≤ id ∧ id < 1); omega)]
    exact get_empty id
  exact run_log_invariant (Q := fun _ _ => True)
    (fun _ _ _ _ hs _ hcall => step_register (exec_step hcall) hs) calls w [] hstart
    (along_true calls w)

/-- After every run the signers of a transaction are those whose submission or confirmation of it
returned, in order and with repetitions, all of them members; the next confirmation is answered
with true exactly when it makes the required number. -/
theorem confirmations_are_counted {e : GovEnv} {p : Parties} {w : World} (d : Deployment)
    (h : deployed e d p = .ok w) (calls : List (GovEnv × Action)) (id : ℕ) :
    let v := run (exec d) w calls
    let log := ghostLog (exec d) (signatures id) w calls
    v.multisig.txSigners.get id = (if 1 ≤ id ∧ id < v.multisig.next then some log else none) ∧
      (∀ a ∈ log, a ∈ p.members) ∧
        ∀ e' confirmer s' done, confirmTx e' v.multisig confirmer id = .ok (s', done) →
          confirmer ∈ p.members ∧ (done = true ↔ p.required ≤ log.length + 1) := by
  have hrun := register_of_run h calls id
  refine ⟨hrun.stored, hrun.valid, fun e' confirmer s' done hcall => ?_⟩
  obtain ⟨-, ⟨signers, hsigners, hmem⟩, before, r, hbefore, hr, -, hdone⟩ := confirmTx_ok hcall
  obtain rfl := Option.some.inj (hrun.known.symm.trans hsigners)
  obtain rfl := Option.some.inj (hrun.threshold.symm.trans hr)
  rw [hrun.stored] at hbefore
  split_ifs at hbefore
  obtain rfl := Option.some.inj hbefore
  exact ⟨hmem, by rw [hdone, decide_eq_true_eq]⟩

theorem confirmations_are_counted_sample :
    let calls := [(⟨[2], 0, 0⟩, .multisig (.submitEmergencyTx 2 9 [])),
      (⟨[2], 1, 0⟩, .multisig (.confirmTx 2 1))]
    let v := run (exec sampleDeployment) sampleWorld calls
    let log := ghostLog (exec sampleDeployment) (signatures 1) sampleWorld calls
    v.multisig.txSigners.get 1 = (if 1 ≤ 1 ∧ 1 < v.multisig.next then some log else none) ∧
      (∀ a ∈ log, a ∈ sampleParties.members) ∧
        ∀ e' confirmer s' done, confirmTx e' v.multisig confirmer 1 = .ok (s', done) →
          confirmer ∈ sampleParties.members ∧
            (done = true ↔ sampleParties.required ≤ log.length + 1) :=
  confirmations_are_counted sampleDeployment sampleWorld_deployed _ 1

/-! ### One signer -/

/-- The transaction `id` has the signatures `before` and takes those of `signer`. -/
structure Signable (signer : Address) (required id : ℕ) (before : List Address) (w : World) : Prop
    where
  member : ∃ members, w.multisig.signers = some members ∧ signer ∈ members
  threshold : w.multisig.requiredSignatures = some required
  stored : w.multisig.txSigners.get id = some before

section one
variable {e : GovEnv} {signer : Address} {required id : ℕ} {before : List Address}

theorem Signable.confirmTx_eq (h : Signable signer required id before w) (hauth : signer ∈ e.auths) :
    confirmTx e w.multisig signer id =
      .ok ({ w.multisig with txSigners := w.multisig.txSigners.set id (before ++ [signer]) },
        decide (required ≤ before.length + 1)) := by
  obtain ⟨members, hmembers, hmem⟩ := h.member
  simp only [confirmTx, Store.getSigners, bind_eq_ok, GovEnv.requireAuth_eq_ok, orRaise_eq_ok,
    require_eq_ok, pure_eq_ok, exists_const]
  refine ⟨hauth, members, hmembers, hmem, before, h.stored, required, h.threshold, ?_⟩
  simp only [List.length_append, List.length_singleton]

/-- The same signer once more, `n` times over. -/
theorem run_confirms (d : Deployment) (hauth : signer ∈ e.auths) (n : ℕ) :
    ∀ (before : List Address) (w : World), Signable signer required id before w →
      Signable signer required id (before ++ List.replicate n signer)
        (run (exec d) w (List.replicate n (e, .multisig (.confirmTx signer id)))) := by
  induction n with
  | zero =>
      intro before w h
      simpa using h
  | succ n ih =>
      intro before w h
      have hcall : exec d w (e, .multisig (.confirmTx signer id)) = .ok { w with
          multisig := { w.multisig with
            txSigners := w.multisig.txSigners.set id (before ++ [signer]) } } := by
        simp only [exec, EmergencyMultisig.exec, h.confirmTx_eq hauth]
        rfl
      rw [List.replicate_succ, List.replicate_succ, run_cons, commit_of_ok hcall,
        List.append_cons before signer]
      exact ih _ _ ⟨h.member, h.threshold, get_set_self _ _ _⟩

/-- In every reachable state any single member can submit a transaction and then confirm it until
the multisig answers that enough have signed. -/
theorem one_signer_suffices {e : GovEnv} {p : Parties} {w : World} (d : Deployment)
    (h : deployed e d p = .ok w) (calls : List (GovEnv × Action)) {signer : Address}
    (hmem : signer ∈ p.members) {e' : GovEnv} (hauth : signer ∈ e'.auths) (target : Address)
    (data : Bytes) (hfits : FitsU 32 ((run (exec d) w calls).multisig.next + 1 : ℕ)) :
    let v := run (exec d) w calls
    let id := v.multisig.next
    ∃ s', confirmTx e' (run (exec d) v ((e', .multisig (.submitEmergencyTx signer target data)) ::
        List.replicate (p.required - 2) (e', .multisig (.confirmTx signer id)))).multisig signer id =
      .ok (s', true) := by
  intro v id
  have hregister := register_of_run h calls 0
  have hcall : submitEmergencyTx e' v.multisig signer target data =
      .ok (v.multisig.submitted signer target data, id) := by
    simp only [submitEmergencyTx, Store.getSigners, bind_eq_ok, GovEnv.requireAuth_eq_ok,
      orRaise_eq_ok, require_eq_ok, checkedU_eq_ok, pure_eq_ok, exists_const]
    exact ⟨hauth, p.members, hregister.known, hmem, _, ⟨hfits, rfl⟩, rfl⟩
  have hsubmit : exec d v (e', .multisig (.submitEmergencyTx signer target data)) =
      .ok { v with multisig := v.multisig.submitted signer target data } := by
    simp only [exec, EmergencyMultisig.exec, hcall]
    rfl
  rw [run_cons, commit_of_ok hsubmit]
  have hstart : Signable signer p.required id [signer]
      { v with multisig := v.multisig.submitted signer target data } :=
    ⟨⟨p.members, hregister.known, hmem⟩, hregister.threshold, get_set_self _ _ _⟩
  have hend := run_confirms d hauth (p.required - 2) _ _ hstart
  have hconfirm := hend.confirmTx_eq hauth
  have henough : p.required ≤ ([signer] ++ List.replicate (p.required - 2) signer).length + 1 := by
    rw [List.length_append, List.length_replicate, List.length_singleton]
    omega
  rw [decide_eq_true henough] at hconfirm
  exact ⟨_, hconfirm⟩

theorem one_signer_suffices_sample :
    let v := run (exec sampleDeployment) sampleWorld []
    let id := v.multisig.next
    ∃ s', confirmTx ⟨[3], 5, 0⟩ (run (exec sampleDeployment) v
        ((⟨[3], 5, 0⟩, .multisig (.submitEmergencyTx 3 9 [1])) ::
          List.replicate (sampleParties.required - 2)
            (⟨[3], 5, 0⟩, .multisig (.confirmTx 3 id)))).multisig 3 id = .ok (s', true) :=
  one_signer_suffices sampleDeployment sampleWorld_deployed [] (by decide) (by decide) 9 [1]
    (by decide +kernel)

end one

/-! ### Pausing -/

section pause
variable {e : GovEnv} {members signers : List Address}

/-- The loop over the signers counts the members among them. -/
theorem foldlM_countSigner {valid count : ℕ} :
    signers.foldlM (ProtocolGovernor.countSigner e members) valid = .ok count ↔
      (∀ a ∈ signers, a ∈ e.auths) ∧
        count = valid + (signers.filter fun a => a ∈ members).length := by
  induction signers generalizing valid with
  | nil =>
      rw [List.foldlM_nil, pure_eq_ok]
      simp [eq_comm]
  | cons a signers ih =>
      simp only [List.foldlM_cons, ProtocolGovernor.countSigner, bind_eq_ok,
        GovEnv.requireAuth_eq_ok, pure_eq_ok, exists_const, ih, List.forall_mem_cons,
        List.filter_cons]
      by_cases hmem : a ∈ members
      · simp [hmem, add_assoc, add_comm, and_assoc]
      · simp [hmem, and_assoc]

/-- The governor keeps the members it was initialised with. -/
theorem step_members {a : Action} (h : Step d w e a w')
    (hs : w.governor.governanceToken.isSome ∧ w.governor.emergencyMultisig = some members) :
    w'.governor.governanceToken.isSome ∧ w'.governor.emergencyMultisig = some members := by
  cases h with
  | governor h =>
      cases h with
      | updateProposalStates h =>
          obtain ⟨⟨proposals, rfl⟩, -⟩ := ProtocolGovernor.updateProposalStates_ok hs.1 h
          exact hs
      | _ => exact hs
  | _ => exact hs

/-- After every run, a pause called with distinct signers is granted exactly when all of them have
signed, members or not, and at least three of them are members. -/
theorem emergencyPause_returns_iff {e : GovEnv} {p : Parties} {w : World} (d : Deployment)
    (h : deployed e d p = .ok w) (calls : List (GovEnv × Action)) (e' : GovEnv)
    (signers : List Address) (hnodup : signers.Nodup) :
    ProtocolGovernor.emergencyPause e' (run (exec d) w calls).governor signers = .ok () ↔
      (∀ a ∈ signers, a ∈ e'.auths) ∧
        ∃ three : List Address, three.Nodup ∧ three.length = 3 ∧
          ∀ a ∈ three, a ∈ signers ∧ a ∈ p.members := by
  have hstart : w.governor.governanceToken.isSome ∧
      w.governor.emergencyMultisig = some p.members := by
    obtain ⟨-, -, -, hgovernor, -, -⟩ := deployed_ok h
    simp only [ProtocolGovernor.initializeGovernor, bind_eq_ok, require_eq_ok, pure_eq_ok,
      exists_const] at hgovernor
    rw [← hgovernor.2]
    exact ⟨rfl, rfl⟩
  have hmembers := (run_invariant (fun _ _ _ hs hcall => step_members (exec_step hcall) hs) calls
    hstart : _ ∧ (run (exec d) w calls).governor.emergencyMultisig = some p.members).2
  simp only [ProtocolGovernor.emergencyPause, ProtocolGovernor.verifyEmergencySigners, hmembers,
    bind_eq_ok, orRaise_eq_ok, Option.some.injEq, exists_eq_left', foldlM_countSigner,
    require_eq_ok, zero_add]
  have hfilter : (signers.filter fun a => a ∈ p.members).Nodup := hnodup.filter _
  constructor
  · rintro ⟨_, ⟨hsigned, rfl⟩, hthree⟩
    refine ⟨hsigned, (signers.filter fun a => a ∈ p.members).take 3,
      hfilter.sublist (List.take_sublist _ _), ?_, fun a ha => ?_⟩
    · rw [List.length_take]
      omega
    · simpa using List.mem_of_mem_take ha
  · rintro ⟨hsigned, three, hnew, hlength, hthree⟩
    refine ⟨_, ⟨hsigned, rfl⟩, ?_⟩
    rw [← hlength]
    refine (List.subperm_of_subset hnew fun a ha => ?_).length_le
    simpa using hthree a ha

theorem emergencyPause_returns_iff_sample :
    ProtocolGovernor.emergencyPause ⟨[1, 2, 3], 0, 0⟩
        (run (exec sampleDeployment) sampleWorld []).governor [1, 3, 2] = .ok () ↔
      (∀ a ∈ [1, 3, 2], a ∈ [1, 2, 3]) ∧
        ∃ three : List Address, three.Nodup ∧ three.length = 3 ∧
          ∀ a ∈ three, a ∈ [1, 3, 2] ∧ a ∈ sampleParties.members :=
  emergencyPause_returns_iff sampleDeployment sampleWorld_deployed [] ⟨[1, 2, 3], 0, 0⟩ [1, 3, 2]
    (by decide)

end pause

end YieldEngine.Governance
