import FormSchema.Command.Run
import FormSchema.Proofs.Json.Following
import Mathlib.Data.List.Forall2

/-!
# The stages of a command

What it takes for each stage of a command to succeed, and how it may fail: reading a schema,
finding the files that an input stands for, reading a filter, and reading the values of a file.
Both sides are stated on the tree of files and on what texts, pointers and filters mean, without
regard to how jobs are run.
-/

namespace FormSchema

/-! ## Schemas -/

/-- The schema in a file can be read, and is verified. -/
def SchemaLoads (files : FileTree) (path : String) (schema : Schema) : Prop :=
  ∃ text, files.readText path = .ok text ∧ Schema.readLeading text = .ok schema ∧
    schema.verify = .ok ()

/-- Why there is no schema to be had from a file. -/
inductive SchemaFails (files : FileTree) (path : String) : CommandError → Prop
  | unreadable {error : FileError} (isUnreadable : files.readText path = .error error) :
      SchemaFails files path (.unreadableSchema path error)
  | malformed {text : String} {error : DecodeError} (isText : files.readText path = .ok text)
      (isMalformed : Schema.readLeading text = .error error) :
      SchemaFails files path (.malformedSchema path error)
  | invalid {text : String} {schema : Schema} {violation : Violation}
      (isText : files.readText path = .ok text) (isSchema : Schema.readLeading text = .ok schema)
      (isInvalid : schema.verify = .error violation) :
      SchemaFails files path (.invalidSchema path violation)

/-! ## Inputs -/

/-- The files that match a pattern, unless a directory in which they may be cannot be listed. -/
def FileTree.matching (files : FileTree) (pattern : Glob.Pattern) :
    Except Glob.Interruption (List String) :=
  (pattern.expand : ReaderM FileTree (Except Glob.Interruption (List String))).run files

/-- An input stands for files: for itself, or for those that match it. -/
inductive StandsFor (files : FileTree) (input : String) : List String → Prop
  | path (isPath : Glob.isPattern input = false) : StandsFor files input [input]
  | pattern {pattern : Glob.Pattern} {paths : List String}
      (isPattern : Glob.isPattern input = true) (isMeant : Glob.Pattern.ofText input = .ok pattern)
      (areMatches : files.matching pattern = .ok paths) (isMatched : paths ≠ []) :
      StandsFor files input paths

/-- Why an input stands for nothing. -/
inductive InputFails (files : FileTree) (input : String) : CommandError → Prop
  | badPattern {error : Glob.PatternError} (isPattern : Glob.isPattern input = true)
      (isBad : Glob.Pattern.ofText input = .error error) :
      InputFails files input (.badPattern input error)
  | unreadableDirectory {pattern : Glob.Pattern} {interruption : Glob.Interruption}
      (isPattern : Glob.isPattern input = true) (isMeant : Glob.Pattern.ofText input = .ok pattern)
      (isInterrupted : files.matching pattern = .error interruption) :
      InputFails files input (.unreadableDirectory interruption)
  | nothingMatches {pattern : Glob.Pattern} (isPattern : Glob.isPattern input = true)
      (isMeant : Glob.Pattern.ofText input = .ok pattern)
      (isUnmatched : files.matching pattern = .ok []) :
      InputFails files input (.nothingMatches input)

/-! ## Documents -/

/-- The lines hold the documents: as many as there are lines that are not blank, and one on each of
these, in order. -/
def Hold (lines : List (List Char)) (documents : List Json) : Prop :=
  List.Forall₂ (fun line document => Json.read (String.ofList line) = .ok document)
    (lines.filter fun line => !Text.allBlank line) documents

/-- The text of a file holds documents: one, or those on its lines. -/
inductive TextHolds (ndjson : Bool) (text : String) : List Json → Prop
  | whole {document : Json} (isWhole : ndjson = false)
      (isDocument : Json.read text = .ok document) : TextHolds ndjson text [document]
  | lines {documents : List Json} (inLines : ndjson = true)
      (hold : Hold (Text.lines text.toList) documents) : TextHolds ndjson text documents

/-- Why the text of a file is no documents: it is not a document, or one of its lines is none.
Blank lines count, but need not be documents. -/
inductive TextFails (ndjson : Bool) (path text : String) : CommandError → Prop
  | whole {error : DecodeError} (isWhole : ndjson = false)
      (isMalformed : Json.read text = .error error) :
      TextFails ndjson path text (.malformedSource path error)
  | line {before after : List (List Char)} {line : List Char} {error : DecodeError}
      (inLines : ndjson = true) (split : Text.lines text.toList = before ++ line :: after)
      (earlier : ∀ other ∈ before, Text.allBlank other = false →
        ∃ document, Json.read (String.ofList other) = .ok document)
      (notBlank : Text.allBlank line = false)
      (isMalformed : Json.read (String.ofList line) = .error error) :
      TextFails ndjson path text (.malformedLine path (before.length + 1) error)

/-! ## Values -/

/-- A filter is the program with the given text, if there is one. -/
inductive FilterLoads (language : FilterLanguage) :
    Option String → Option language.Program → Prop
  | none : FilterLoads language none none
  | some {text : String} {program : language.Program}
      (isProgram : language.compile text = .ok program) :
      FilterLoads language (some text) (some program)

/-- The part of a document that a pointer leads to, token by token: all of it without a pointer. -/
inductive PartAt (document : Json) : Option String → Json → Prop
  | whole : PartAt document none document
  | pointer {pointer : String} {tokens : List String} {part : Json}
      (isPointer : Pointer.parse? pointer = some tokens)
      (leads : Json.Leads tokens document part) : PartAt document (some pointer) part

section

variable {language : FilterLanguage}

/-- The values that a filter makes of a value: the outputs of its program, in order and without a
failure among them.  Without a filter it is the value itself. -/
inductive FilterGives (value : Json) : Option language.Program → List Json → Prop
  | same : FilterGives value none [value]
  | outputs {program : language.Program} {values : List Json}
      (areOutputs : language.outputs program value = some (values.map .ok)) :
      FilterGives value (some program) values

/-- The values to take from a document are those that the filter makes of the part to take. -/
def Takes (selection : Selection) (filter : Option language.Program) (document : Json)
    (values : List Json) : Prop :=
  ∃ part, PartAt document selection.pointer part ∧ FilterGives part filter values

/-- Why nothing is to be had from a document: there is no such part, or an output of the filter is
a failure, or the filter goes on for ever. -/
inductive DocumentFails (selection : Selection) (filter : Option language.Program) (path : String)
    (document : Json) : CommandError → Prop
  | nothingThere {pointer : String} (isPointer : selection.pointer = some pointer)
      (isNothing : ∀ part, ¬ PartAt document (some pointer) part) :
      DocumentFails selection filter path document (.nothingAtPointer path pointer)
  | filterFails {part : Json} {program : language.Program}
      {before after : List (Except String Json)} {reason : String}
      (isPart : PartAt document selection.pointer part) (isProgram : filter = some program)
      (split : language.outputs program part = some (before ++ .error reason :: after))
      (earlier : ∀ output ∈ before, ∃ value, output = .ok value) :
      DocumentFails selection filter path document (.filterFails path reason)
  | filterEndless {part : Json} {program : language.Program}
      (isPart : PartAt document selection.pointer part) (isProgram : filter = some program)
      (never : language.outputs program part = none) :
      DocumentFails selection filter path document .endless

/-- The values to take from a file, document by document. -/
def SourceLoads (files : FileTree) (selection : Selection) (filter : Option language.Program)
    (path : String) (taken : List (List Json)) : Prop :=
  ∃ text documents, files.readText path = .ok text ∧ TextHolds selection.ndjson text documents ∧
    List.Forall₂ (Takes selection filter) documents taken

/-- Why there are no values to be had from a file.  All its documents are read before any of them
is looked into. -/
inductive SourceFails (files : FileTree) (selection : Selection)
    (filter : Option language.Program) (path : String) : CommandError → Prop
  | unreadable {error : FileError} (isUnreadable : files.readText path = .error error) :
      SourceFails files selection filter path (.unreadableSource path error)
  | malformed {text : String} {error : CommandError} (isText : files.readText path = .ok text)
      (isMalformed : TextFails selection.ndjson path text error) :
      SourceFails files selection filter path error
  | document {text : String} {before after : List Json} {document : Json} {error : CommandError}
      (isText : files.readText path = .ok text)
      (areDocuments : TextHolds selection.ndjson text (before ++ document :: after))
      (earlier : ∀ other ∈ before, ∃ values, Takes selection filter other values)
      (fails : DocumentFails selection filter path document error) :
      SourceFails files selection filter path error

end

/-! ## Selections -/

/-- A file that the inputs stand for, with the values to take from each of its documents.  A file
that the inputs name again occurs again. -/
structure Occurrence where
  path : String
  taken : List (List Json)

/-- The values of an occurrence, document by document, numbered from zero through all of them. -/
def Occurrence.instances (occurrence : Occurrence) : List Instance :=
  occurrence.taken.flatten.mapIdx fun index value => ⟨occurrence.path, index, value⟩

/-- The files that the inputs stand for, one input after the other, with the values to take. -/
def Selects (language : FilterLanguage) (files : FileTree) (selection : Selection)
    (occurrences : List Occurrence) : Prop :=
  ∃ paths filter, List.Forall₂ (StandsFor files) selection.inputs paths ∧
    FilterLoads language selection.filter filter ∧
    List.Forall₂ (fun path occurrence => occurrence.path = path ∧
      SourceLoads files selection filter path occurrence.taken) paths.flatten occurrences

/-- Why there are no values to be had: the first stage that fails, and the first thing in it. -/
inductive SelectionFails (language : FilterLanguage) (files : FileTree) (selection : Selection) :
    CommandError → Prop
  | input {before after : List String} {input : String} {error : CommandError}
      (split : selection.inputs = before ++ input :: after)
      (earlier : ∀ other ∈ before, ∃ paths, StandsFor files other paths)
      (fails : InputFails files input error) : SelectionFails language files selection error
  | filter {paths : List (List String)} {text : String} {fault : FilterFault}
      (stand : List.Forall₂ (StandsFor files) selection.inputs paths)
      (isText : selection.filter = some text) (isBad : language.compile text = .error fault) :
      SelectionFails language files selection (.badFilter text fault)
  | source {paths : List (List String)} {filter : Option language.Program}
      {before after : List String} {path : String} {error : CommandError}
      (stand : List.Forall₂ (StandsFor files) selection.inputs paths)
      (filterLoads : FilterLoads language selection.filter filter)
      (split : paths.flatten = before ++ path :: after)
      (earlier : ∀ other ∈ before, ∃ taken, SourceLoads files selection filter other taken)
      (fails : SourceFails files selection filter path error) :
      SelectionFails language files selection error

end FormSchema
