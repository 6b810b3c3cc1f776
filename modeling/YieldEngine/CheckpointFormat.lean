import YieldEngine.JsNumber

/-! # The format of stored checkpoints

The values a keeper's checkpoint can be read from, the guard and the migration they pass
through (`isKeeperCheckpoint`, `normalizeCheckpoint`), and the constructor of new checkpoints.

`KeeperCheckpoint` is a checkpoint as these produce it: its ledger and its time are numbers in
range, and its metadata is an object or missing.  `toJs` is the value it is as a JavaScript
object.  Every checkpoint that was normalised or created is its own normal form
(`normalizeCheckpoint_toJs`). -/

namespace YieldEngine.Checkpoint

/-! ### Values -/

/-- Values of JavaScript, up to functions and symbols.  A missing field of an object reads as
`undefined`. -/
inductive JsValue where
  | undefined
  | null
  | boolean (b : Bool)
  | number (x : JsNumber)
  | string (s : String)
  | array (elements : List JsValue)
  | object (fields : String → JsValue)

namespace JsValue

/-- The field of a value that is read under `key`. -/
def get (value : JsValue) (key : String) : JsValue :=
  match value with
  | .object fields => fields key
  | _ => .undefined

/-- `typeof value === 'object'` and not `null`. -/
def isObject : JsValue → Bool
  | .array _ | .object _ => true
  | _ => false

/-- The object with the given fields, in which `undefined` ones are missing. -/
def ofFields (fields : List (String × JsValue)) : JsValue :=
  .object fun key => (fields.lookup key).getD .undefined

end JsValue

/-! ### Checkpoints -/

/-- `CHECKPOINT_VERSION`. -/
def checkpointVersion : ℕ := 1

/-- A checkpoint in normal form. -/
structure KeeperCheckpoint where
  /-- The first ledger that has not been processed yet. -/
  nextLedger : ℕ
  lastProcessedLedger : ℤ
  /-- The two ledgers never disagree. -/
  derived : lastProcessedLedger = nextLedger - 1
  /-- Milliseconds since the epoch. -/
  updatedAt : ℚ
  /-- Component state; any object. -/
  metadata : Option { value : JsValue // value.isObject = true }

namespace KeeperCheckpoint

/-- The format version, the same for all checkpoints in normal form. -/
def version (_ : KeeperCheckpoint) : ℕ := checkpointVersion

/-- The checkpoint as an object; without metadata the field is missing. -/
def toJs (c : KeeperCheckpoint) : JsValue :=
  .ofFields
    [("version", .number (.finite c.version)),
     ("nextLedger", .number (.finite c.nextLedger)),
     ("lastProcessedLedger", .number (.finite c.lastProcessedLedger)),
     ("updatedAt", .number (.finite c.updatedAt)),
     ("metadata", (c.metadata.map Subtype.val).getD .undefined)]

end KeeperCheckpoint

/-- `isLedgerSequence`: the non-negative integer that the value is. -/
def isLedgerSequence : JsValue → Option ℕ
  | .number (.finite q) => if q.isInt && decide (0 ≤ q) then some q.num.toNat else none
  | _ => none

/-- The number that the value is, when it is a finite one. -/
def finiteNumber : JsValue → Option ℚ
  | .number (.finite q) => some q
  | _ => none

/-- What the guard knows of a value: the fields it has checked, and the unchecked metadata. -/
structure RawCheckpoint where
  version : ℕ
  nextLedger : ℕ
  updatedAt : ℚ
  metadata : JsValue

/-- `isKeeperCheckpoint`, a guard: the value with the fields it has checked, or nothing. -/
def isKeeperCheckpoint (value : JsValue) : Option RawCheckpoint :=
  if value.isObject then do
    let version ← isLedgerSequence (value.get "version")
    let nextLedger ← isLedgerSequence (value.get "nextLedger")
    let updatedAt ← finiteNumber (value.get "updatedAt")
    some ⟨version, nextLedger, updatedAt, value.get "metadata"⟩
  else none

/-- A metadata bag that is not an object is dropped. -/
def keptMetadata (value : JsValue) : Option { value : JsValue // value.isObject = true } :=
  if h : value.isObject = true then some ⟨value, h⟩ else none

/-- `normalizeCheckpoint`; an error is the message of the `CheckpointError`. -/
def normalizeCheckpoint (raw : JsValue) : Except String KeeperCheckpoint :=
  match isKeeperCheckpoint raw with
  | none => .error "checkpoint payload is malformed"
  | some ⟨version, nextLedger, updatedAt, metadata⟩ =>
      if version > checkpointVersion then
        .error (s!"checkpoint version {version} is newer than " ++
          s!"the supported version {checkpointVersion}")
      else
        .ok ⟨nextLedger, nextLedger - 1, rfl, updatedAt, keptMetadata metadata⟩

/-- `createCheckpoint`. -/
def createCheckpoint (nextLedger updatedAt : JsNumber)
    (metadata : Option { value : JsValue // value.isObject = true }) :
    Except String KeeperCheckpoint :=
  match isLedgerSequence (.number nextLedger), finiteNumber (.number updatedAt) with
  | none, _ => .error "nextLedger must be a non-negative integer"
  | some _, none => .error "updatedAt must be a finite timestamp"
  | some nextLedger, some updatedAt =>
      .ok ⟨nextLedger, nextLedger - 1, rfl, updatedAt, metadata⟩

/-! ### Normal forms -/

theorem isLedgerSequence_natCast (n : ℕ) :
    isLedgerSequence (.number (.finite (n : ℚ))) = some n := by
  have hwhole : ((n : ℚ).isInt && decide (0 ≤ (n : ℚ))) = true := by
    rw [Bool.and_eq_true, decide_eq_true_eq]
    exact ⟨rfl, Rat.natCast_nonneg⟩
  rw [isLedgerSequence, if_pos hwhole, Rat.num_natCast, Int.toNat_natCast]

theorem keptMetadata_of_metadata (metadata : Option { value : JsValue // value.isObject = true }) :
    keptMetadata ((metadata.map Subtype.val).getD .undefined) = metadata := by
  cases metadata with
  | none => rfl
  | some value =>
      rw [Option.map_some, Option.getD_some, keptMetadata, dif_pos value.2]

/-- The guard accepts a checkpoint in normal form. -/
theorem isKeeperCheckpoint_toJs (c : KeeperCheckpoint) :
    isKeeperCheckpoint c.toJs = some ⟨checkpointVersion, c.nextLedger, c.updatedAt,
      (c.metadata.map Subtype.val).getD .undefined⟩ := by
  have hversion : isLedgerSequence (c.toJs.get "version") = some checkpointVersion :=
    isLedgerSequence_natCast checkpointVersion
  have hledger : isLedgerSequence (c.toJs.get "nextLedger") = some c.nextLedger :=
    isLedgerSequence_natCast c.nextLedger
  have htime : finiteNumber (c.toJs.get "updatedAt") = some c.updatedAt := rfl
  have hobject : c.toJs.isObject = true := rfl
  rw [isKeeperCheckpoint, if_pos hobject, hversion, hledger, htime]
  rfl

/-- Normalising a checkpoint in normal form changes nothing. -/
theorem normalizeCheckpoint_toJs (c : KeeperCheckpoint) : normalizeCheckpoint c.toJs = .ok c := by
  rw [normalizeCheckpoint, isKeeperCheckpoint_toJs]
  obtain ⟨nextLedger, lastProcessedLedger, rfl, updatedAt, metadata⟩ := c
  simp only [keptMetadata_of_metadata, gt_iff_lt, lt_self_iff_false, if_false]

end YieldEngine.Checkpoint
