import YieldEngine.CheckpointFormat
import YieldEngine.CrashLogic

/-! # The file store for checkpoints

`FileCheckpointStore` keeps a checkpoint as JSON text in a target file.  A save writes a
sibling temporary file and renames it over the target.  The file system is these two files; the
rename is atomic, and every other operation may fail or be cut off and leave anything in the
temporary file.  The JSON functions are a parameter (`Json`).

`save_meets` is the triple of a save: it replaces the target when it returns, leaves it alone
when it throws, and does one of the two when it crashes.  From it `store_crash_safe` follows for
every sequence of saves, however they end. -/

namespace YieldEngine.Checkpoint

open CrashLogic

/-- `JSON.stringify` with an indentation of two, and `JSON.parse`, which may throw. -/
structure Json where
  stringify : JsValue → String
  parse : String → Option JsValue

/-- What `String.prototype.trim` removes. -/
def isTrimmed (c : Char) : Bool :=
  let n := c.toNat
  (9 ≤ n && n ≤ 13) || n == 0x20 || n == 0xA0 || n == 0x1680 || (0x2000 ≤ n && n ≤ 0x200A) ||
    n == 0x2028 || n == 0x2029 || n == 0x202F || n == 0x205F || n == 0x3000 || n == 0xFEFF

/-- `raw.trim().length === 0`. -/
def isBlank (raw : String) : Bool := raw.toList.all isTrimmed

/-! ### Files -/

/-- Errors of the file system: `ENOENT`, and all others. -/
inductive FileError where
  | notFound
  | other
deriving DecidableEq, Repr

/-- The two files of a store, and how many renames have taken place. -/
structure Files where
  target : Option String
  temp : Option String
  renames : ℕ
deriving DecidableEq, Repr

/-- What reading the target gives. -/
def Files.read (files : Files) : Except FileError String :=
  match files.target with
  | none => .error .notFound
  | some raw => .ok raw

/-- A call of `save`, and what the file system makes of its operations. -/
structure Attempt where
  checkpoint : JsValue
  mkdir : Verdict FileError
  writeFile : Verdict FileError
  /-- The temporary file that a failing or interrupted `writeFile` leaves. -/
  leftover : Option String
  rename : Verdict FileError
  unlink : Verdict FileError

/-- An attempt in which every operation succeeds. -/
def Attempt.faultless (checkpoint : JsValue) : Attempt :=
  ⟨checkpoint, .succeeds, .succeeds, none, .succeeds, .succeeds⟩

/-- `fs.rename` of the temporary file over the target. -/
def renameTemp (v : Verdict FileError) : Prog Files FileError Unit := fun files =>
  match files.temp with
  | none => (.threw .notFound, files)
  | some content => Prog.operation v (fun _ => ⟨some content, none, files.renames + 1⟩) id files

/-- `fs.unlink` of the temporary file. -/
def unlinkTemp (v : Verdict FileError) : Prog Files FileError Unit := fun files =>
  match files.temp with
  | none => (.threw .notFound, files)
  | some _ => Prog.operation v (fun files => { files with temp := none }) id files

/-- `fs.unlink` of the target. -/
def unlinkTarget (v : Verdict FileError) : Prog Files FileError Unit := fun files =>
  match files.target with
  | none => (.threw .notFound, files)
  | some _ => Prog.operation v (fun files => { files with target := none }) id files

/-! ### The store -/

structure FileCheckpointStore where
  filePath : String
  tempPath : String
deriving DecidableEq, Repr

/-- The constructor; `resolve` is `path.resolve` in the working directory. -/
def FileCheckpointStore.create (resolve : String → String) (filePath : String) :
    Except String FileCheckpointStore :=
  if isBlank filePath then .error "checkpoint file path must be a non-empty string"
  else .ok ⟨resolve filePath, resolve filePath ++ ".tmp"⟩

section store
variable (json : Json) (store : FileCheckpointStore)

/-- The text of a checkpoint. -/
def Json.payload (c : KeeperCheckpoint) : String := json.stringify c.toJs ++ "\n"

/-- `removeTemp`. -/
def removeTemp (unlink : Verdict FileError) : Prog Files String Unit :=
  (unlinkTemp unlink).recover fun _ => pure ()

/-- The operations that a save tries. -/
def writeCheckpoint (payload : String) (a : Attempt) : Prog Files FileError Unit := do
  Prog.operation a.mkdir id id
  Prog.operation a.writeFile (fun files => { files with temp := some payload })
    (fun files => { files with temp := a.leftover })
  renameTemp a.rename

/-- `save`. -/
def save (a : Attempt) : Prog Files String Unit :=
  match isKeeperCheckpoint a.checkpoint with
  | none => Prog.throw "refusing to persist a malformed checkpoint"
  | some _ => do
      let c ← Prog.ofExcept (normalizeCheckpoint a.checkpoint)
      (writeCheckpoint (json.payload c) a).recover fun _ => do
        removeTemp a.unlink
        Prog.throw s!"unable to write checkpoint at {store.filePath}"

/-- `load`, from what reading the target gives. -/
def load (read : Except FileError String) : Except String (Option KeeperCheckpoint) :=
  match read with
  | .error .notFound => .ok none
  | .error .other => .error s!"unable to read checkpoint at {store.filePath}"
  | .ok raw =>
      if isBlank raw then .ok none
      else
        match json.parse raw with
        | none => .error s!"checkpoint at {store.filePath} is not valid JSON"
        | some parsed => some <$> normalizeCheckpoint parsed

/-- `clear`. -/
def clear (unlink unlinkTemp : Verdict FileError) : Prog Files String Unit := do
  (unlinkTarget unlink).recover fun
    | .notFound => pure ()
    | .other => Prog.throw s!"unable to clear checkpoint at {store.filePath}"
  removeTemp unlinkTemp

/-! ### One save -/

/-- The target is as it was. -/
def Untouched (files files' : Files) : Prop :=
  files'.target = files.target ∧ files'.renames = files.renames

/-- The target holds the checkpoint of the attempt. -/
def Replaced (a : Attempt) (files files' : Files) : Prop :=
  ∃ c, normalizeCheckpoint a.checkpoint = .ok c ∧ files'.target = some (json.payload c) ∧
    files'.renames = files.renames + 1

theorem removeTemp_meets (unlink : Verdict FileError) (files : Files) :
    Meets files (removeTemp unlink) (fun _ => Untouched files) (fun _ _ => False)
      (Untouched files) := by
  apply Meets.recover (T := fun _ => Untouched files)
  · unfold Meets unlinkTemp
    cases files.temp with
    | none => exact ⟨rfl, rfl⟩
    | some content =>
        exact meets_operation ⟨rfl, rfl⟩ (fun _ => ⟨rfl, rfl⟩) ⟨rfl, rfl⟩ ⟨rfl, rfl⟩
  · intro e files' h
    exact meets_pure h

/-- Up to the rename the target is untouched; the rename is atomic. -/
theorem writeCheckpoint_meets (payload : String) (a : Attempt) (files : Files) :
    Meets files (writeCheckpoint payload a)
      (fun _ files' => files'.target = some payload ∧ files'.renames = files.renames + 1)
      (fun _ => Untouched files)
      (fun files' => Untouched files files' ∨
        files'.target = some payload ∧ files'.renames = files.renames + 1) := by
  unfold writeCheckpoint
  apply Meets.bind (R := fun _ => Untouched files)
  · exact meets_operation ⟨rfl, rfl⟩ (fun _ => ⟨rfl, rfl⟩) (.inl ⟨rfl, rfl⟩) (.inl ⟨rfl, rfl⟩)
  intro _ files₁ h₁
  apply Meets.bind (R := fun _ files' => Untouched files files' ∧ files'.temp = some payload)
  · exact meets_operation ⟨h₁, rfl⟩ (fun _ => h₁) (.inl h₁) (.inl h₁)
  rintro _ files₂ ⟨h₂, htemp⟩
  unfold Meets renameTemp
  rw [htemp]
  have hrenames : files₂.renames + 1 = files.renames + 1 := by rw [h₂.2]
  exact meets_operation ⟨rfl, hrenames⟩ (fun _ => h₂) (.inr ⟨rfl, hrenames⟩) (.inl h₂)

/-- A save replaces the target when it returns, leaves it alone when it throws, and does one of
the two when it is cut off. -/
theorem save_meets (a : Attempt) (files : Files) :
    Meets files (save json store a) (fun _ => Replaced json a files) (fun _ => Untouched files)
      (fun files' => Untouched files files' ∨ Replaced json a files files') := by
  unfold save
  cases isKeeperCheckpoint a.checkpoint with
  | none => exact meets_throw ⟨rfl, rfl⟩
  | some raw =>
      apply Meets.bind (R := fun c files' =>
        normalizeCheckpoint a.checkpoint = .ok c ∧ files = files')
      · exact meets_ofExcept (fun c hc => ⟨hc, rfl⟩) fun _ _ => ⟨rfl, rfl⟩
      rintro c _ ⟨hc, rfl⟩
      apply Meets.recover (T := fun _ => Untouched files)
      · apply (writeCheckpoint_meets (json.payload c) a files).mono
        · exact fun _ files' h => ⟨c, hc, h⟩
        · exact fun _ files' h => h
        · exact fun files' h => h.imp id fun h => ⟨c, hc, h⟩
      · intro _ files' h
        apply Meets.bind (R := fun _ => Untouched files)
        · apply (removeTemp_meets a.unlink files').mono
          · exact fun _ files'' h' => ⟨h'.1.trans h.1, h'.2.trans h.2⟩
          · exact fun _ _ h' => h'.elim
          · exact fun files'' h' => .inl ⟨h'.1.trans h.1, h'.2.trans h.2⟩
        · exact fun _ files'' h' => meets_throw h'

/-- A `clear` that returns has removed the target; one that throws has left it alone.  The file
system reports a missing file only where there is none. -/
theorem clear_meets {unlink : Verdict FileError} (hunlink : unlink ≠ .fails .notFound)
    (unlinkTemp : Verdict FileError) (files : Files) :
    Meets files (clear store unlink unlinkTemp) (fun _ files' => files'.target = none)
      (fun _ files' => files'.target = files.target)
      (fun files' => files'.target = files.target ∨ files'.target = none) := by
  unfold clear
  apply Meets.bind (R := fun _ files' => files'.target = none)
  · apply Meets.recover (T := fun e files' =>
      files'.target = files.target ∧ (e = .notFound → files'.target = none))
    · unfold Meets unlinkTarget
      cases htarget : files.target with
      | none => exact ⟨htarget, fun _ => htarget⟩
      | some content =>
          cases unlink with
          | succeeds => rfl
          | fails e => exact ⟨htarget, fun he => absurd (congrArg Verdict.fails he) hunlink⟩
          | crashes done =>
              cases done with
              | true => exact .inr rfl
              | false => exact .inl htarget
    · rintro e files' ⟨hsame, hnone⟩
      cases e with
      | notFound => exact meets_pure (hnone rfl)
      | other => exact meets_throw hsame
  · intro _ files' hnone
    apply (removeTemp_meets unlinkTemp files').mono
    · exact fun _ files'' h => h.1.trans hnone
    · exact fun _ _ h => h.elim
    · exact fun files'' h => .inr (h.1.trans hnone)

/-! ### Sequences of saves -/

/-- The files after a sequence of saves. -/
def runSaves (files : Files) (attempts : List Attempt) : Files :=
  attempts.foldl (fun files a => (save json store a files).2) files

/-- The checkpoints of the saves whose rename took place, in order. -/
def renamed : Files → List Attempt → List JsValue
  | _, [] => []
  | files, a :: attempts =>
      let files' := (save json store a files).2
      (if files.renames < files'.renames then [a.checkpoint] else []) ++ renamed files' attempts

/-- The normal form of the last of the values; nothing when there are none. -/
def LastNormal (values : List JsValue) : Option KeeperCheckpoint → Prop
  | none => values = []
  | some c => ∃ value, values.getLast? = some value ∧ normalizeCheckpoint value = .ok c

/-- The target holds the normal form of the last of the values. -/
def Holds (values : List JsValue) (files : Files) : Prop :=
  ∃ last, LastNormal values last ∧ files.target = last.map json.payload

theorem mem_renamed {value : JsValue} :
    ∀ {files : Files} {attempts : List Attempt}, value ∈ renamed json store files attempts →
      ∃ a ∈ attempts, a.checkpoint = value
  | _, [], h => by cases h
  | files, a :: attempts, h => by
      rw [renamed, List.mem_append] at h
      obtain h | h := h
      · split_ifs at h
        · exact ⟨a, List.mem_cons_self, (List.mem_singleton.mp h).symm⟩
        · cases h
      · obtain ⟨b, hb, hvalue⟩ := mem_renamed h
        exact ⟨b, List.mem_cons_of_mem a hb, hvalue⟩

/-- Every save leaves the target alone or replaces it, and the count of renames tells which. -/
theorem holds_step {values : List JsValue} {files : Files} (h : Holds json values files)
    (a : Attempt) :
    Holds json (values ++ if files.renames < (save json store a files).2.renames
      then [a.checkpoint] else []) (save json store a files).2 := by
  have hends : Untouched files (save json store a files).2 ∨
      Replaced json a files (save json store a files).2 :=
    (save_meets json store a files).always (fun _ _ => .inr) (fun _ _ => .inl) fun _ => id
  obtain ⟨htarget, hrenames⟩ | ⟨c, hc, htarget, hrenames⟩ := hends
  · obtain ⟨last, hlast, hfiles⟩ := h
    rw [hrenames, if_neg (lt_irrefl _), List.append_nil]
    exact ⟨last, hlast, htarget.trans hfiles⟩
  · rw [hrenames, if_pos (Nat.lt_succ_self _)]
    exact ⟨some c, ⟨a.checkpoint, List.getLast?_concat, hc⟩, htarget⟩

theorem holds_run : ∀ (attempts : List Attempt) {values : List JsValue} {files : Files},
    Holds json values files →
      Holds json (values ++ renamed json store files attempts) (runSaves json store files attempts)
  | [], values, files, h => by
      rw [renamed, List.append_nil]
      exact h
  | a :: attempts, values, files, h => by
      rw [renamed, ← List.append_assoc]
      exact holds_run attempts (holds_step json store h a)

/-! ### Loading -/

/-- Parsing inverts serialisation on the checkpoint; the line break after the text is white
space. -/
def Json.Inverts (c : KeeperCheckpoint) : Prop := json.parse (json.payload c) = some c.toJs

/-- A text of white space alone is not valid JSON. -/
def Json.RejectsBlank : Prop := ∀ text, isBlank text = true → json.parse text = none

section loading
variable {json}

/-- A target that holds a checkpoint is loaded as this checkpoint. -/
theorem load_of_target (hblank : json.RejectsBlank) {files : Files}
    {last : Option KeeperCheckpoint} (htarget : files.target = last.map json.payload)
    (hjson : ∀ c, last = some c → json.Inverts c) :
    load json store files.read = .ok last := by
  cases last with
  | none =>
      rw [Files.read, htarget]
      rfl
  | some c =>
      have hparse : json.parse (json.payload c) = some c.toJs := hjson c rfl
      have hnonblank : ¬ isBlank (json.payload c) = true := by
        intro hb
        rw [hblank _ hb] at hparse
        cases hparse
      rw [Files.read, htarget]
      simp only [Option.map_some, load, if_neg hnonblank, hparse, normalizeCheckpoint_toJs]
      rfl

/-- A save of a checkpoint in normal form that returns has stored it. -/
theorem load_of_saved (hblank : json.RejectsBlank) {c : KeeperCheckpoint}
    (hjson : json.Inverts c) {files : Files} {a : Attempt} (ha : a.checkpoint = c.toJs)
    (hreturns : (save json store a files).1 = .returned ()) :
    load json store (save json store a files).2.read = .ok (some c) := by
  obtain ⟨c', hc', htarget, -⟩ := (save_meets json store a files).of_returned hreturns
  rw [ha, normalizeCheckpoint_toJs] at hc'
  obtain rfl : c = c' := Except.ok.inj hc'
  exact load_of_target store hblank htarget fun d hd => by
    obtain rfl := Option.some.inj hd
    exact hjson

/-- A save that throws does not change what is loaded. -/
theorem load_of_rejected {files : Files} {a : Attempt} {message : String}
    (hthrows : (save json store a files).1 = .threw message) :
    (save json store a files).2.read = files.read := by
  obtain ⟨htarget, -⟩ := (save_meets json store a files).of_threw hthrows
  rw [Files.read, Files.read, htarget]

theorem save_faultless (c : KeeperCheckpoint) (files : Files) :
    (save json store (.faultless c.toJs) files).1 = .returned () := by
  unfold save
  rw [Attempt.faultless, isKeeperCheckpoint_toJs, normalizeCheckpoint_toJs]
  rfl

end loading

/-- From an empty store, with anything in the temporary file, and for every sequence of saves
that complete, fail or are cut off: a later load returns the normal form of the checkpoint of
the last save whose rename took place, or nothing; a save that returns has renamed its checkpoint,
one that rejects does not change what is loaded; and the loaded checkpoint agrees with itself, is
its own normal form, and can be saved back. -/
theorem store_crash_safe (temp : Option String) (attempts : List Attempt)
    (hblank : json.RejectsBlank) (hjson : ∀ a ∈ attempts, ∀ c,
      normalizeCheckpoint a.checkpoint = .ok c → json.Inverts c) :
    ∃ loaded,
      load json store (runSaves json store ⟨none, temp, 0⟩ attempts).read = .ok loaded ∧
      LastNormal (renamed json store ⟨none, temp, 0⟩ attempts) loaded ∧
      (∀ a, (save json store a (runSaves json store ⟨none, temp, 0⟩ attempts)).1 = .returned () →
        Replaced json a (runSaves json store ⟨none, temp, 0⟩ attempts)
          (save json store a (runSaves json store ⟨none, temp, 0⟩ attempts)).2) ∧
      (∀ a message,
        (save json store a (runSaves json store ⟨none, temp, 0⟩ attempts)).1 = .threw message →
          load json store (save json store a
            (runSaves json store ⟨none, temp, 0⟩ attempts)).2.read = .ok loaded) ∧
      ∀ c, loaded = some c →
        c.lastProcessedLedger = c.nextLedger - 1 ∧ normalizeCheckpoint c.toJs = .ok c ∧
          (∀ a, a.checkpoint = c.toJs →
            (save json store a (runSaves json store ⟨none, temp, 0⟩ attempts)).1 = .returned () →
              load json store (save json store a
                (runSaves json store ⟨none, temp, 0⟩ attempts)).2.read = .ok (some c)) ∧
          (save json store (.faultless c.toJs)
            (runSaves json store ⟨none, temp, 0⟩ attempts)).1 = .returned () := by
  have hinitial : Holds json [] ⟨none, temp, 0⟩ := ⟨none, rfl, rfl⟩
  obtain ⟨loaded, hlast, htarget⟩ := holds_run json store attempts hinitial
  rw [List.nil_append] at hlast
  have hinverts : ∀ c, loaded = some c → json.Inverts c := by
    rintro c rfl
    obtain ⟨value, hvalue, hc⟩ := hlast
    obtain ⟨a, ha, rfl⟩ := mem_renamed json store (List.mem_of_getLast? hvalue)
    exact hjson a ha c hc
  have hload := load_of_target store hblank htarget hinverts
  refine ⟨loaded, hload, hlast, fun a => (save_meets json store a _).of_returned,
    fun a message hthrows => ?_, fun c hc => ⟨c.derived, normalizeCheckpoint_toJs c,
      fun a ha => ?_, save_faultless store c _⟩⟩
  · rw [load_of_rejected store hthrows]
    exact hload
  · exact load_of_saved store hblank (hinverts c hc) ha

end store

/-! ### Two saves, the second cut off -/

/-- The checkpoint of a keeper that resumes from ledger 5. -/
def atFive : KeeperCheckpoint := ⟨5, 4, rfl, 1000, none⟩

/-- The checkpoint of a keeper that resumes from ledger 6. -/
def atSix : KeeperCheckpoint := ⟨6, 5, rfl, 2000, none⟩

def textFive : String :=
  "\x7b\n  \"version\": 1,\n  \"nextLedger\": 5,\n  \"lastProcessedLedger\": 4,\n" ++
    "  \"updatedAt\": 1000\n\x7d"

def textSix : String :=
  "\x7b\n  \"version\": 1,\n  \"nextLedger\": 6,\n  \"lastProcessedLedger\": 5,\n" ++
    "  \"updatedAt\": 2000\n\x7d"

/-- The JSON functions on the two checkpoints and their texts. -/
def twoTexts : Json where
  stringify value :=
    match isKeeperCheckpoint value with
    | some raw => if raw.nextLedger = 5 then textFive else textSix
    | none => "null"
  parse text :=
    if text = textFive ++ "\n" then some atFive.toJs
    else if text = textSix ++ "\n" then some atSix.toJs
    else none

theorem twoTexts_inverts {c : KeeperCheckpoint} (hc : c = atFive ∨ c = atSix) :
    twoTexts.Inverts c := by
  obtain rfl | rfl := hc
  · have htext : twoTexts.payload atFive = textFive ++ "\n" := by
      simp only [Json.payload, twoTexts, isKeeperCheckpoint_toJs]
      rfl
    rw [Json.Inverts, htext]
    simp only [twoTexts, if_true]
  · have htext : twoTexts.payload atSix = textSix ++ "\n" := by
      simp only [Json.payload, twoTexts, isKeeperCheckpoint_toJs]
      rfl
    have hne : textSix ++ "\n" ≠ textFive ++ "\n" := by decide
    rw [Json.Inverts, htext]
    simp only [twoTexts, if_neg hne, if_true]

theorem twoTexts_rejectsBlank : twoTexts.RejectsBlank := by
  intro text hblank
  have hfive : text ≠ textFive ++ "\n" := by
    rintro rfl
    exact absurd hblank (by decide)
  have hsix : text ≠ textSix ++ "\n" := by
    rintro rfl
    exact absurd hblank (by decide)
  exact (if_neg hfive).trans (if_neg hsix)

/-- The second save crashes in the middle of writing the temporary file. -/
def cutOff : List Attempt :=
  [.faultless atFive.toJs,
   ⟨atSix.toJs, .succeeds, .crashes false, some "\x7b\n  \"vers", .succeeds, .succeeds⟩]

def keeperStore : FileCheckpointStore := ⟨"/state/keeper.json", "/state/keeper.json.tmp"⟩

theorem store_crash_safe_cutOff :
    ∃ loaded, load twoTexts keeperStore
        (runSaves twoTexts keeperStore ⟨none, none, 0⟩ cutOff).read = .ok loaded ∧
      LastNormal (renamed twoTexts keeperStore ⟨none, none, 0⟩ cutOff) loaded := by
  have hjson : ∀ a ∈ cutOff, ∀ c, normalizeCheckpoint a.checkpoint = .ok c →
      twoTexts.Inverts c := by
    intro a ha c hc
    apply twoTexts_inverts
    obtain rfl | ha := List.mem_cons.mp ha
    · rw [Attempt.faultless, normalizeCheckpoint_toJs] at hc
      exact .inl (Except.ok.inj hc).symm
    · obtain rfl := List.mem_singleton.mp ha
      rw [normalizeCheckpoint_toJs] at hc
      exact .inr (Except.ok.inj hc).symm
  obtain ⟨loaded, hload, hlast, -⟩ :=
    store_crash_safe twoTexts keeperStore none cutOff twoTexts_rejectsBlank hjson
  exact ⟨loaded, hload, hlast⟩

end YieldEngine.Checkpoint
