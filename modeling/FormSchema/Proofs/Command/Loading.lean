import FormSchema.Proofs.Command.Documents
import FormSchema.Proofs.Command.Outcomes

/-!
# Loading what a command needs

The jobs that load a schema and values come to what the stages of a command say: they succeed
exactly if the stage does, with the same result, and fail exactly as the stage fails.
-/

namespace FormSchema

namespace Job

variable {files : FileTree} {path : String} {error : CommandError}

/-! ## Reading a file -/

theorem steady_readText (failure : FileError → CommandError) : Steady (readText path failure) := by
  refine (steady_lift _).bind fun result => ?_
  cases result
  · exact steady_throw _
  · exact steady_pure _

theorem outcome_readText (failure : FileError → CommandError) :
    (readText path failure).outcome files = (files.readText path).mapError failure := by
  rw [readText, outcome_bind, outcome_lift]
  · have isRead :
        (FileSource.readText path : ReaderM FileTree (Except FileError String)).run files =
          files.readText path := rfl
    rw [isRead]
    cases files.readText path <;> rfl
  · intro result
    cases result
    · exact steady_throw _
    · exact steady_pure _

theorem readText_eq_ok_iff {failure : FileError → CommandError} {text : String} :
    (readText path failure).outcome files = .ok text ↔ files.readText path = .ok text := by
  rw [outcome_readText, Attempt.mapError_eq_ok_iff]

theorem readText_eq_error_iff {failure : FileError → CommandError} :
    (readText path failure).outcome files = .error error ↔
      ∃ fault, files.readText path = .error fault ∧ error = failure fault := by
  rw [outcome_readText, Attempt.mapError_eq_error_iff]

/-! ## Schemas -/

/-- What becomes of the text of a schema. -/
def settleSchema (path text : String) : Job (ReaderM FileTree) Schema :=
  match Schema.readLeading text with
  | .error error => throw (.malformedSchema path error)
  | .ok schema =>
      match schema.verify with
      | .error violation => do
          log [.verificationFailed violation]
          throw (.invalidSchema path violation)
      | .ok () => do
          log [.schemaVerified path schema.form]
          return schema

theorem loadSchema_eq : (loadSchema path : Job (ReaderM FileTree) Schema) =
    readText path (.unreadableSchema path) >>= settleSchema path :=
  rfl

theorem steady_settleSchema (path text : String) : Steady (settleSchema path text) := by
  unfold settleSchema
  split
  · exact steady_throw _
  · split
    · exact (steady_log _).bind fun _ => steady_throw _
    · exact (steady_log _).bind fun _ => steady_pure _

theorem settleSchema_eq_ok_iff {text : String} {schema : Schema} :
    (settleSchema path text).outcome files = .ok schema ↔
      Schema.readLeading text = .ok schema ∧ schema.verify = .ok () := by
  unfold settleSchema
  cases Schema.readLeading text with
  | error fault => exact iff_of_false nofun (by rintro ⟨⟨⟩, _⟩)
  | ok other =>
      dsimp only
      cases isVerified : other.verify with
      | error violation =>
          refine iff_of_false nofun ?_
          rintro ⟨⟨⟩, isOk⟩
          cases isVerified.symm.trans isOk
      | ok done =>
          constructor
          · rintro ⟨⟩
            exact ⟨rfl, isVerified⟩
          · rintro ⟨⟨⟩, -⟩
            rfl

/-- A schema is loaded exactly if it can be read and is verified. -/
theorem loadSchema_eq_ok_iff {schema : Schema} :
    (loadSchema path).outcome files = .ok schema ↔ SchemaLoads files path schema := by
  rw [loadSchema_eq, outcome_bind (steady_settleSchema path), Attempt.bind_eq_ok_iff]
  simp only [readText_eq_ok_iff, settleSchema_eq_ok_iff]
  rfl

theorem loadSchema_eq_error_iff :
    (loadSchema path).outcome files = .error error ↔ SchemaFails files path error := by
  rw [loadSchema_eq, outcome_bind (steady_settleSchema path), Attempt.bind_eq_error_iff]
  simp only [readText_eq_ok_iff, readText_eq_error_iff]
  constructor
  · rintro (⟨fault, isUnreadable, rfl⟩ | ⟨text, isText, fails⟩)
    · exact .unreadable isUnreadable
    · unfold settleSchema at fails
      split at fails
      · cases fails
        exact .malformed isText ‹_›
      · split at fails
        · cases fails
          exact .invalid isText ‹_› ‹_›
        · cases fails
  · rintro (isUnreadable | ⟨isText, isMalformed⟩ | ⟨isText, isSchema, isInvalid⟩)
    · exact .inl ⟨_, isUnreadable, rfl⟩
    · refine .inr ⟨_, isText, ?_⟩
      rw [settleSchema, isMalformed]
      rfl
    · refine .inr ⟨_, isText, ?_⟩
      rw [settleSchema, isSchema]
      dsimp only
      rw [isInvalid]
      rfl

/-! ## Inputs -/

/-- What becomes of the files that match a pattern. -/
def settleMatches (input : String) (search : Except Glob.Interruption (List String)) :
    Job (ReaderM FileTree) (List String) :=
  match search with
  | .error interruption => throw (.unreadableDirectory interruption)
  | .ok paths => if paths.isEmpty then throw (.nothingMatches input) else return paths

theorem steady_settleMatches (input : String) (search : Except Glob.Interruption (List String)) :
    Steady (settleMatches input search) := by
  unfold settleMatches
  split
  · exact steady_throw _
  · split
    · exact steady_throw _
    · exact steady_pure _

/-- What becomes of a pattern. -/
def settlePattern (input : String) (read : Except Glob.PatternError Glob.Pattern) :
    Job (ReaderM FileTree) (List String) :=
  match read with
  | .error error => throw (.badPattern input error)
  | .ok pattern => do
      let search ← (monadLift
        (pattern.expand : ReaderM FileTree (Except Glob.Interruption (List String))) :
          Job (ReaderM FileTree) (Except Glob.Interruption (List String)))
      settleMatches input search

theorem steady_settlePattern (input : String) (read : Except Glob.PatternError Glob.Pattern) :
    Steady (settlePattern input read) := by
  unfold settlePattern
  split
  · exact steady_throw _
  · exact (steady_lift _).bind (steady_settleMatches input)

theorem resolveInput_eq (input : String) :
    (resolveInput input : Job (ReaderM FileTree) (List String)) =
      if Glob.isPattern input then settlePattern input (Glob.Pattern.ofText input)
      else return [input] :=
  rfl

theorem steady_resolveInput (input : String) : Steady (resolveInput input) := by
  rw [resolveInput_eq]
  split
  · exact steady_settlePattern input _
  · exact steady_pure _

theorem outcome_settleMatches (input : String)
    (search : Except Glob.Interruption (List String)) :
    (settleMatches input search).outcome files =
      search.mapError .unreadableDirectory >>= fun paths =>
        if paths = [] then .error (.nothingMatches input) else .ok paths := by
  rcases search with _ | _ | _ <;> rfl

theorem outcome_settlePattern (input : String) (read : Except Glob.PatternError Glob.Pattern) :
    (settlePattern input read).outcome files =
      read.mapError (.badPattern input) >>= fun pattern =>
        (files.matching pattern).mapError .unreadableDirectory >>= fun paths =>
          if paths = [] then .error (.nothingMatches input) else .ok paths := by
  cases read with
  | error error => rfl
  | ok pattern =>
      rw [settlePattern, outcome_bind (steady_settleMatches input), outcome_lift]
      exact outcome_settleMatches input (files.matching pattern)

theorem resolveInput_eq_ok_iff {input : String} {paths : List String} :
    (resolveInput input).outcome files = .ok paths ↔ StandsFor files input paths := by
  rw [resolveInput_eq]
  split
  · rename_i isPattern
    simp only [outcome_settlePattern, Attempt.bind_eq_ok_iff, Attempt.mapError_eq_ok_iff]
    constructor
    · rintro ⟨pattern, isMeant, found, areMatches, isDone⟩
      split at isDone
      · cases isDone
      · cases isDone
        exact .pattern isPattern isMeant areMatches ‹_›
    · rintro (isPath | ⟨-, isMeant, areMatches, isMatched⟩)
      · cases isPath.symm.trans isPattern
      · exact ⟨_, isMeant, _, areMatches, if_neg isMatched⟩
  · rename_i notPattern
    constructor
    · rintro ⟨⟩
      exact .path (Bool.eq_false_iff.mpr notPattern)
    · rintro (_ | ⟨isPattern, -⟩)
      · rfl
      · exact absurd isPattern notPattern

theorem resolveInput_eq_error_iff {input : String} :
    (resolveInput input).outcome files = .error error ↔ InputFails files input error := by
  rw [resolveInput_eq]
  split
  · rename_i isPattern
    simp only [outcome_settlePattern, Attempt.bind_eq_error_iff, Attempt.mapError_eq_ok_iff,
      Attempt.mapError_eq_error_iff]
    constructor
    · rintro (⟨fault, isBad, rfl⟩ | ⟨pattern, isMeant,
        ⟨interruption, isInterrupted, rfl⟩ | ⟨paths, areMatches, fails⟩⟩)
      · exact .badPattern isPattern isBad
      · exact .unreadableDirectory isPattern isMeant isInterrupted
      · split at fails
        · rename_i isEmpty
          cases fails
          exact .nothingMatches isPattern isMeant (isEmpty ▸ areMatches)
        · cases fails
    · rintro (⟨-, isBad⟩ | ⟨-, isMeant, isInterrupted⟩ | ⟨-, isMeant, isUnmatched⟩)
      · exact .inl ⟨_, isBad, rfl⟩
      · exact .inr ⟨_, isMeant, .inl ⟨_, isInterrupted, rfl⟩⟩
      · exact .inr ⟨_, isMeant, .inr ⟨[], isUnmatched, if_pos rfl⟩⟩
  · rename_i notPattern
    refine iff_of_false nofun ?_
    rintro (⟨isPattern, -⟩ | ⟨isPattern, -, -⟩ | ⟨isPattern, -, -⟩) <;>
      exact notPattern isPattern

/-! ## Filters -/

section

variable {language : FilterLanguage}

theorem steady_loadFilter (text : Option String) : Steady (loadFilter language text) := by
  unfold loadFilter
  split
  · exact steady_pure _
  · split
    · exact steady_throw _
    · exact (steady_log _).bind fun _ => steady_pure _

theorem loadFilter_eq_ok_iff {text : Option String} {filter : Option language.Program} :
    (loadFilter language text).outcome files = .ok filter ↔ FilterLoads language text filter := by
  constructor
  · intro isDone
    unfold loadFilter at isDone
    split at isDone
    · cases isDone
      exact .none
    · split at isDone
      · cases isDone
      · cases isDone
        exact .some ‹_›
  · rintro (_ | isProgram)
    · rfl
    · rw [loadFilter, isProgram]
      rfl

theorem loadFilter_eq_error_iff {text : Option String} :
    (loadFilter language text).outcome files = .error error ↔
      ∃ filter fault, text = some filter ∧ language.compile filter = .error fault ∧
        error = .badFilter filter fault := by
  cases text with
  | none => exact iff_of_false nofun (by rintro ⟨_, _, ⟨⟩, _⟩)
  | some text =>
      rw [loadFilter]
      cases isCompiled : language.compile text with
      | error fault =>
          constructor
          · rintro ⟨⟩
            exact ⟨text, fault, rfl, isCompiled, rfl⟩
          · rintro ⟨_, _, ⟨⟩, isFault, rfl⟩
            cases isCompiled.symm.trans isFault
            rfl
      | ok program =>
          refine iff_of_false nofun ?_
          rintro ⟨_, _, ⟨⟩, isFault, -⟩
          cases isCompiled.symm.trans isFault

end

end Job

theorem Occurrence.instances_eq (occurrence : Occurrence) :
    occurrence.instances = numbered occurrence.path occurrence.taken.flatten := by
  rw [instances, numbered, List.mapIdx_eq_zipIdx_map]

namespace Job

variable {language : FilterLanguage} {files : FileTree} {path : String} {error : CommandError}
  {selection : Selection} {filter : Option language.Program}

/-! ## The values of a file -/

/-- What becomes of the text of a file with values. -/
def settleSource (selection : Selection) (filter : Option language.Program)
    (path text : String) : Job (ReaderM FileTree) (List Instance) :=
  match instancesIn selection filter path text with
  | .ok instances => return instances
  | .error error => throw error

theorem loadSource_eq : (loadSource selection filter path : Job (ReaderM FileTree) _) =
    readText path (.unreadableSource path) >>= settleSource selection filter path :=
  rfl

theorem steady_settleSource (text : String) : Steady (settleSource selection filter path text) := by
  unfold settleSource
  split
  · exact steady_pure _
  · exact steady_throw _

theorem steady_loadSource (path : String) : Steady (loadSource selection filter path) :=
  (steady_readText _).bind steady_settleSource

theorem outcome_settleSource {text : String} :
    (settleSource selection filter path text).outcome files =
      instancesIn selection filter path text := by
  unfold settleSource
  cases instancesIn selection filter path text <;> rfl

theorem loadSource_eq_ok_iff {instances : List Instance} :
    (loadSource selection filter path).outcome files = .ok instances ↔
      ∃ taken, SourceLoads files selection filter path taken ∧
        instances = (Occurrence.mk path taken).instances := by
  rw [loadSource_eq, outcome_bind steady_settleSource, Attempt.bind_eq_ok_iff]
  simp only [readText_eq_ok_iff, outcome_settleSource, instancesIn, Attempt.bind_eq_ok_iff,
    Attempt.mapM_eq_ok_iff, documents_eq_ok_iff, selectValues_eq_ok_iff,
    Occurrence.instances_eq]
  constructor
  · rintro ⟨text, isText, found, areDocuments, taken, areTaken, ⟨⟩⟩
    exact ⟨taken, ⟨text, found, isText, areDocuments, areTaken⟩, rfl⟩
  · rintro ⟨taken, ⟨text, found, isText, areDocuments, areTaken⟩, rfl⟩
    exact ⟨text, isText, found, areDocuments, taken, areTaken, rfl⟩

theorem loadSource_eq_error_iff :
    (loadSource selection filter path).outcome files = .error error ↔
      SourceFails files selection filter path error := by
  rw [loadSource_eq, outcome_bind steady_settleSource, Attempt.bind_eq_error_iff]
  simp only [readText_eq_ok_iff, readText_eq_error_iff, outcome_settleSource, instancesIn,
    Attempt.bind_eq_error_iff, Attempt.mapM_eq_error_iff, documents_eq_ok_iff,
    documents_eq_error_iff, selectValues_eq_ok_iff, selectValues_eq_error_iff]
  constructor
  · rintro (⟨fault, isUnreadable, rfl⟩ | ⟨text, isText, isMalformed | ⟨found, areDocuments,
      ⟨before, document, after, rfl, earlier, fails⟩ | ⟨_, -, ⟨⟩⟩⟩⟩)
    · exact .unreadable isUnreadable
    · exact .malformed isText isMalformed
    · exact .document isText areDocuments earlier fails
  · rintro (isUnreadable | ⟨isText, isMalformed⟩ | ⟨isText, areDocuments, earlier, fails⟩)
    · exact .inl ⟨_, isUnreadable, rfl⟩
    · exact .inr ⟨_, isText, .inl isMalformed⟩
    · exact .inr ⟨_, isText, .inr ⟨_, areDocuments, .inl ⟨_, _, _, rfl, earlier, fails⟩⟩⟩

/-! ## All values -/

/-- What becomes of the files with values. -/
def settlePaths (selection : Selection) (filter : Option language.Program)
    (paths : List String) : Job (ReaderM FileTree) (List Instance) := do
  let instances ← paths.mapM (loadSource selection filter)
  log [.instancesLoaded instances.flatten.length]
  return instances.flatten

theorem loadInstances_eq : (loadInstances language selection : Job (ReaderM FileTree) _) =
    selection.inputs.mapM resolveInput >>= fun paths =>
      loadFilter language selection.filter >>= fun filter =>
        settlePaths selection filter paths.flatten :=
  rfl

theorem steady_settlePaths (paths : List String) :
    Steady (settlePaths selection filter paths) :=
  (steady_mapM steady_loadSource paths).bind fun _ =>
    (steady_log _).bind fun _ => steady_pure _

theorem outcome_settlePaths (paths : List String) :
    (settlePaths selection filter paths).outcome files =
      paths.mapM (fun path => (loadSource selection filter path).outcome files) >>=
        fun instances => .ok instances.flatten := by
  rw [settlePaths, outcome_bind fun _ => (steady_log _).bind fun _ => steady_pure _,
    outcome_mapM steady_loadSource]
  rfl

theorem steady_loadInstances : Steady (loadInstances language selection) :=
  (steady_mapM steady_resolveInput _).bind fun _ =>
    (steady_loadFilter _).bind fun _ => steady_settlePaths _

theorem outcome_loadInstances :
    (loadInstances language selection).outcome files =
      selection.inputs.mapM (fun input => (resolveInput input).outcome files) >>= fun paths =>
        (loadFilter language selection.filter).outcome files >>= fun filter =>
          (settlePaths selection filter paths.flatten).outcome files := by
  have steady (paths : List (List String)) :
      Steady (loadFilter language selection.filter >>= fun filter =>
        settlePaths selection filter paths.flatten) :=
    (steady_loadFilter _).bind fun _ => steady_settlePaths _
  rw [loadInstances_eq, outcome_bind steady, outcome_mapM steady_resolveInput]
  refine congrArg _ (funext fun paths => ?_)
  rw [outcome_bind fun _ => steady_settlePaths _]

/-- The values of files are those of occurrences of the files. -/
theorem exists_occurrences_iff {loads : String → List (List Json) → Prop} {paths : List String}
    {results : List (List Instance)} :
    List.Forall₂ (fun path instances =>
        ∃ taken, loads path taken ∧ instances = (Occurrence.mk path taken).instances)
      paths results ↔
    ∃ occurrences, List.Forall₂ (fun path occurrence =>
        occurrence.path = path ∧ loads path occurrence.taken) paths occurrences ∧
      results = occurrences.map Occurrence.instances := by
  constructor
  · intro areLoaded
    induction areLoaded with
    | nil => exact ⟨[], .nil, rfl⟩
    | @cons path _ _ _ isLoaded _ inductionHypothesis =>
        obtain ⟨taken, isLoaded, rfl⟩ := isLoaded
        obtain ⟨occurrences, areLoaded, rfl⟩ := inductionHypothesis
        exact ⟨⟨path, taken⟩ :: occurrences, .cons ⟨rfl, isLoaded⟩ areLoaded, rfl⟩
  · rintro ⟨occurrences, areLoaded, rfl⟩
    refine List.forall₂_map_right_iff.mpr (areLoaded.imp ?_)
    rintro path occurrence ⟨rfl, isLoaded⟩
    exact ⟨occurrence.taken, isLoaded, rfl⟩

/-- Values are loaded exactly if the selection selects them, and in that order. -/
theorem loadInstances_eq_ok_iff {instances : List Instance} :
    (loadInstances language selection).outcome files = .ok instances ↔
      ∃ occurrences, Selects language files selection occurrences ∧
        instances = occurrences.flatMap Occurrence.instances := by
  simp only [outcome_loadInstances, outcome_settlePaths, Attempt.bind_eq_ok_iff,
    Attempt.mapM_eq_ok_iff, resolveInput_eq_ok_iff, loadFilter_eq_ok_iff, loadSource_eq_ok_iff,
    exists_occurrences_iff]
  constructor
  · rintro ⟨paths, stand, filter, filterLoads, _, ⟨occurrences, areLoaded, rfl⟩, ⟨⟩⟩
    exact ⟨occurrences, ⟨paths, filter, stand, filterLoads, areLoaded⟩, rfl⟩
  · rintro ⟨occurrences, ⟨paths, filter, stand, filterLoads, areLoaded⟩, rfl⟩
    exact ⟨paths, stand, filter, filterLoads, _, ⟨occurrences, areLoaded, rfl⟩, rfl⟩

theorem loadInstances_eq_error_iff :
    (loadInstances language selection).outcome files = .error error ↔
      SelectionFails language files selection error := by
  simp only [outcome_loadInstances, outcome_settlePaths, Attempt.bind_eq_error_iff,
    Attempt.mapM_eq_ok_iff, Attempt.mapM_eq_error_iff, resolveInput_eq_ok_iff,
    resolveInput_eq_error_iff, loadFilter_eq_ok_iff, loadFilter_eq_error_iff,
    loadSource_eq_ok_iff, loadSource_eq_error_iff]
  constructor
  · rintro (⟨before, input, after, split, earlier, fails⟩ | ⟨paths, stand,
      ⟨text, fault, isText, isBad, rfl⟩ | ⟨filter, filterLoads,
      ⟨before, path, after, split, earlier, fails⟩ | ⟨_, -, ⟨⟩⟩⟩⟩)
    · exact .input split earlier fails
    · exact .filter stand isText isBad
    · refine .source stand filterLoads split (fun other isEarlier => ?_) fails
      obtain ⟨_, taken, loads, -⟩ := earlier other isEarlier
      exact ⟨taken, loads⟩
  · rintro (⟨split, earlier, fails⟩ | ⟨stand, isText, isBad⟩ |
      ⟨stand, filterLoads, split, earlier, fails⟩)
    · exact .inl ⟨_, _, _, split, earlier, fails⟩
    · exact .inr ⟨_, stand, .inl ⟨_, _, isText, isBad, rfl⟩⟩
    · refine .inr ⟨_, stand, .inr ⟨_, filterLoads, .inl ⟨_, _, _, split, fun other isEarlier => ?_,
        fails⟩⟩⟩
      obtain ⟨taken, loads⟩ := earlier other isEarlier
      exact ⟨_, taken, loads, rfl⟩

end Job

end FormSchema
