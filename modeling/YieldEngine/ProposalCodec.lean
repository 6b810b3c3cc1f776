import YieldEngine.RebalanceState

/-! # The client's codec of rebalance proposals

The client reads the proposals of `analyze_rebalance_opportunities` with `parseRebalanceProposals`
and writes the one to be executed with `formatRebalanceProposal`.  Both name the fields of the
contract's record by hand, and neither names `min_output`: `formatted_of_parsed` says that the seven
other fields come back with their values, and `not_lossless` that no proposal does as a whole.

Numbers of the client are the whole ones below `2^53`, on which a double is exact. -/

namespace YieldEngine.RebalancerClient

open Rebalance

/-- Addresses as the SDK of the ledger has them: their texts, and the class `Address` with its
constructor, which throws on other texts. -/
structure AddressClass where
  Instance : Type
  strkey : Address → String
  ofText : String → Option Instance
  toText : Instance → String
  toText_ofText : ∀ a, (ofText (strkey a)).map toText = some (strkey a)

/-- `Number` of a whole number; nothing where it would be rounded. -/
def toNumber (n : ℕ) : Option {n : ℕ // n < 2 ^ 53} :=
  if h : n < 2 ^ 53 then some ⟨n, h⟩ else none

/-- A proposal as `scValToNative` yields it. -/
structure NativeProposal where
  fromPool : String
  toPool : String
  amountA : ℤ
  amountB : ℤ
  expectedApyImprovement : ℕ
  estimatedGasCost : ℤ
  timestamp : ℕ
  minOutput : ℤ
deriving DecidableEq, Repr

/-- The client's record of a proposal. -/
structure ClientProposal (sdk : AddressClass) where
  fromPool : sdk.Instance
  toPool : sdk.Instance
  amountA : ℤ
  amountB : ℤ
  expectedApyImprovement : {n : ℕ // n < 2 ^ 53}
  estimatedGasCost : ℤ
  timestamp : {n : ℕ // n < 2 ^ 53}

section codec
variable (sdk : AddressClass)

def nativeProposal (p : RebalanceProposal) : NativeProposal where
  fromPool := sdk.strkey p.fromPool
  toPool := sdk.strkey p.toPool
  amountA := p.amountA
  amountB := p.amountB
  expectedApyImprovement := p.expectedApyImprovement
  estimatedGasCost := p.estimatedGasCost
  timestamp := p.timestamp
  minOutput := p.minOutput

/-- One item of `parseRebalanceProposals`. -/
def parseRebalanceProposal (item : NativeProposal) : Option (ClientProposal sdk) := do
  let fromPool ← sdk.ofText item.fromPool
  let toPool ← sdk.ofText item.toPool
  let expectedApyImprovement ← toNumber item.expectedApyImprovement
  let timestamp ← toNumber item.timestamp
  pure { fromPool, toPool, expectedApyImprovement, timestamp
         amountA := item.amountA
         amountB := item.amountB
         estimatedGasCost := item.estimatedGasCost }

def parseRebalanceProposals (data : List NativeProposal) : Option (List (ClientProposal sdk)) :=
  data.mapM (parseRebalanceProposal sdk)

/-- `formatRebalanceProposal`: the fields of the object with their texts. -/
def formatRebalanceProposal (p : ClientProposal sdk) : List (String × String) :=
  [("from_pool", sdk.toText p.fromPool),
   ("to_pool", sdk.toText p.toPool),
   ("amount_a", toString p.amountA),
   ("amount_b", toString p.amountB),
   ("expected_apy_improvement", toString p.expectedApyImprovement.val),
   ("estimated_gas_cost", toString p.estimatedGasCost),
   ("timestamp", toString p.timestamp.val)]

/-- The fields of the contract's record with the texts of their values. -/
def structFields (p : RebalanceProposal) : List (String × String) :=
  [("from_pool", sdk.strkey p.fromPool),
   ("to_pool", sdk.strkey p.toPool),
   ("amount_a", toString p.amountA),
   ("amount_b", toString p.amountB),
   ("expected_apy_improvement", toString p.expectedApyImprovement),
   ("estimated_gas_cost", toString p.estimatedGasCost),
   ("timestamp", toString p.timestamp),
   ("min_output", toString p.minOutput)]

/-- The proposal is read, and written as an object with exactly the fields of the record and their
values. -/
def Lossless (p : RebalanceProposal) : Prop :=
  ∃ d, parseRebalanceProposals sdk [nativeProposal sdk p] = some [d] ∧
    ∀ field, (formatRebalanceProposal sdk d).lookup field = (structFields sdk p).lookup field

end codec

section proofs
variable {sdk : AddressClass}

theorem toNumber_of_lt {n : ℕ} (h : n < 2 ^ 53) : toNumber n = some ⟨n, h⟩ := dif_pos h

/-- A proposal is read, and written without its last field. -/
theorem formatted_of_parsed {p : RebalanceProposal} (hapy : p.expectedApyImprovement < 2 ^ 53)
    (htimestamp : p.timestamp < 2 ^ 53) :
    ∃ d, parseRebalanceProposal sdk (nativeProposal sdk p) = some d ∧
      formatRebalanceProposal sdk d = (structFields sdk p).dropLast := by
  obtain ⟨fromPool, hfrom, hfromText⟩ := Option.map_eq_some_iff.mp (sdk.toText_ofText p.fromPool)
  obtain ⟨toPool, hto, htoText⟩ := Option.map_eq_some_iff.mp (sdk.toText_ofText p.toPool)
  refine ⟨⟨fromPool, toPool, p.amountA, p.amountB, ⟨_, hapy⟩, p.estimatedGasCost,
    ⟨_, htimestamp⟩⟩, ?_, ?_⟩
  · simp only [parseRebalanceProposal, nativeProposal, hfrom, hto, toNumber_of_lt hapy,
      toNumber_of_lt htimestamp]
    rfl
  · simp only [formatRebalanceProposal, structFields, hfromText, htoText, List.dropLast]

/-- Of a list of proposals each is read, and written without its last field. -/
theorem formatted_of_parsed_all : ∀ {ps : List RebalanceProposal},
    (∀ p ∈ ps, p.expectedApyImprovement < 2 ^ 53 ∧ p.timestamp < 2 ^ 53) →
    ∃ decoded, parseRebalanceProposals sdk (ps.map (nativeProposal sdk)) = some decoded ∧
      decoded.map (formatRebalanceProposal sdk) =
        ps.map fun p => (structFields sdk p).dropLast := by
  intro ps
  induction ps with
  | nil => exact fun _ => ⟨[], rfl, rfl⟩
  | cons p ps ih =>
      intro h
      obtain ⟨⟨hapy, htimestamp⟩, hrest⟩ := List.forall_mem_cons.mp h
      obtain ⟨d, hparsed, hformatted⟩ := formatted_of_parsed hapy htimestamp
      obtain ⟨decoded, hparsedRest, hformattedRest⟩ := ih hrest
      refine ⟨d :: decoded, ?_, ?_⟩
      · unfold parseRebalanceProposals at hparsedRest ⊢
        rw [List.map_cons, List.mapM_cons, hparsed, hparsedRest]
        rfl
      · rw [List.map_cons, List.map_cons, hformatted, hformattedRest]

/-- The object that is written has no `min_output`, and the record does. -/
theorem not_lossless (p : RebalanceProposal) : ¬ Lossless sdk p := by
  rintro ⟨d, -, hfields⟩
  have hwritten : (formatRebalanceProposal sdk d).lookup "min_output" = none := rfl
  have hrecord : (structFields sdk p).lookup "min_output" = some (toString p.minOutput) := rfl
  rw [hfields, hrecord] at hwritten
  cases hwritten

end proofs

/-- No proposal comes back as it was; all fields but `min_output` do. -/
theorem codec_drops_min_output (sdk : AddressClass) :
    (∀ p : RebalanceProposal, ¬ Lossless sdk p) ∧
    ∀ ps : List RebalanceProposal,
      (∀ p ∈ ps, p.expectedApyImprovement < 2 ^ 32 ∧ p.timestamp < 2 ^ 53) →
      ∃ decoded, parseRebalanceProposals sdk (ps.map (nativeProposal sdk)) = some decoded ∧
        decoded.map (formatRebalanceProposal sdk) =
          ps.map fun p => (structFields sdk p).dropLast := by
  refine ⟨fun p => not_lossless p, fun ps h => formatted_of_parsed_all fun p hp => ?_⟩
  obtain ⟨hapy, htimestamp⟩ := h p hp
  exact ⟨hapy.trans (by norm_num), htimestamp⟩

/-- Two addresses of contracts, and the class on their texts. -/
def sampleAddresses : AddressClass where
  Instance := String
  strkey a := if a = 1 then "CAAAAAAAAAAAAAAAAAAAAAAAAAAAAAAAAAAAAAAAAAAAAAAAAAAAD2KM"
    else "CAAQCAIBAEAQCAIBAEAQCAIBAEAQCAIBAEAQCAIBAEAQCAIBAEAQC526"
  ofText := some
  toText := id
  toText_ofText _ := rfl

/-- A proposal with a bound on its output. -/
def boundedProposal : RebalanceProposal := ⟨1, 2, 1000, 1000, 250, 300, 1700000000, 950⟩

theorem codec_drops_min_output_bounded : ∃ decoded,
    parseRebalanceProposals sampleAddresses [nativeProposal sampleAddresses boundedProposal] =
      some decoded ∧
    decoded.map (formatRebalanceProposal sampleAddresses) =
      [(structFields sampleAddresses boundedProposal).dropLast] :=
  (codec_drops_min_output sampleAddresses).2 [boundedProposal] (by decide)

/-- Its bound is not written. -/
theorem bound_not_written :
    ¬ ∀ (sdk : AddressClass) (p : RebalanceProposal), p.expectedApyImprovement < 2 ^ 32 →
      p.timestamp < 2 ^ 53 → Lossless sdk p :=
  fun h => not_lossless boundedProposal
    (h sampleAddresses boundedProposal (by decide) (by decide))

end YieldEngine.RebalancerClient
