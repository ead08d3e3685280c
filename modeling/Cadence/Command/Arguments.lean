import Cadence.Calendar.DateText
import Cadence.Datum
import Cadence.Ending.Text
import Cadence.Legacy.Columns

/-!
# Command lines

The command line names a command with its operands and options:

    cadence summary PATTERN
    cadence normalize PATTERN
    cadence next PATTERN [--from DATE] [--count N] [--end END] [--done N]
    cadence import NAME
    cadence help [COMMAND]

Every command but the last two takes `--config FILE`, and all but `help` take `--strict`; both may
also stand in front of the command.  A value follows its option, or stands in the same word after an
equals sign.  The word `--` makes all words after it operands.

`Invocation.parse` reads a command line.  Words are judged one by one: the first one that does not
fit, or that asks for help, decides.
-/

namespace Cadence

/-- What the `next` command asks for. -/
structure NextRequest where
  pattern : String
  /-- The anchor; today if it is left out. -/
  anchor : Option Date := none
  /-- The most dates to list; as many as a preview has if it is left out. -/
  limit : Option Nat := none
  ending : Ending := .never
  /-- How many occurrences the series has up to the anchor. -/
  produced : Nat := 0
deriving DecidableEq

inductive Command where
  | summary (pattern : String)
  | normalize (pattern : String)
  | next (request : NextRequest)
  | importLegacy (columns : LegacyColumns)
deriving DecidableEq

/-- A command line that was understood. -/
structure Invocation where
  /-- The file with the settings, if one is named. -/
  settingsFile : Option String := none
  /-- Whether malformed patterns are refused whatever the settings say. -/
  strict : Bool := false
  command : Command
deriving DecidableEq

/-- Why a command line does not start a command. -/
inductive Refusal where
  | help
  /-- The command line does not have the form that it must have. -/
  | usage
  /-- Both the settings file and the list of an import claim the name `config`. -/
  | ambiguousConfig
deriving DecidableEq, Repr

namespace Arguments

/-- The words of a command line, told apart. -/
structure Words where
  /-- The options in order, with their values. -/
  options : List (String × Option String) := []
  operands : List String := []

/-- Whether a word starts an option.  A hyphen alone does not. -/
def startsOption (word : String) : Bool :=
  match word.toList with
  | '-' :: _ :: _ => true
  | _ => false

/-- The name of an option, with the value in the same word if there is one. -/
def cutOption (word : String) : String × Option String :=
  match Text.cutFirst '=' word.toList with
  | some (name, value) => (.ofList name, some (.ofList value))
  | none => (word, none)

/-- A test of the value of an option, or of an operand. -/
abbrev Test := String → Bool

/-- The test that a reader sets. -/
def passes {ε α : Type} (read : String → Except ε α) : Test := fun text => (read text).toBool

/-- The name of a file; it may not be empty. -/
def fileName (text : String) : Except Unit String :=
  if text.isEmpty then throw () else return text

/-- A number of 64 bits. -/
def longCount (text : String) : Except Unit Nat :=
  match (Text.numeral? text.toList).filter (· < UInt64.size) with
  | some n => return n
  | none => throw ()

/-- A number of 32 bits.  A zero may have a minus sign. -/
def count (text : String) : Except Unit Nat :=
  let found := match text.toList with
    | '-' :: digits => (Text.digits? digits).filter (· = 0)
    | text => (Text.numeral? text).filter (· < UInt32.size)
  match found with
  | some n => return n
  | none => throw ()

/-- The words that a command line may have, in front of the command or after it. -/
structure Grammar where
  flags : List String := ["--strict"]
  valued : List (String × Test) := [("--config", passes fileName)]
  /-- The words that ask about the program. -/
  questions : List String := ["--help"]
  /-- The letters that ask about the program, after a hyphen. -/
  questionLetters : List Char := ['h']
  operands : List Test := [fun _ => true]

/-- Whether a word asks about the program.  Nothing after the letter that asks is read. -/
def Grammar.isQuestion (grammar : Grammar) (word : String) : Bool :=
  grammar.questions.contains word ||
    match word.toList with
    | '-' :: letter :: _ => grammar.questionLetters.contains letter
    | _ => false

/-- Adds an option.  None may be given twice. -/
def Words.addOption (words : Words) (name : String) (value : Option String) :
    Except Refusal Words :=
  if (words.options.lookup name).isSome then throw .usage
  else return { words with options := words.options ++ [(name, value)] }

/-- Adds an option with a value, which has to pass the test. -/
def Words.addValued (words : Words) (name : String) (test : Test) (value : String) :
    Except Refusal Words :=
  if test value then words.addOption name (some value) else throw .usage

/-- Adds an operand, if there is place for one and it passes the test. -/
def Words.addOperand (words : Words) (grammar : Grammar) (operand : String) :
    Except Refusal Words :=
  match grammar.operands[words.operands.length]? with
  | some test =>
    if test operand then return { words with operands := words.operands ++ [operand] }
    else throw .usage
  | none => throw .usage

/-- Tells the words of a command line apart, given the words before them. -/
def read (grammar : Grammar) (found : Words) : List String → Except Refusal Words
  | [] => return found
  -- After this word nothing is an option.
  | "--" :: words => words.foldlM (·.addOperand grammar ·) found
  | word :: words =>
    if !startsOption word then do
      let found ← found.addOperand grammar word
      read grammar found words
    else if grammar.isQuestion word then throw .help
    else
      let (name, inWord) := cutOption word
      match grammar.valued.lookup name, inWord with
      | some test, some value => do
        let found ← found.addValued name test value
        read grammar found words
      | some test, none =>
        match words with
        | [] => throw .usage
        | value :: words =>
          -- A value that starts like an option has to stand in the same word.
          if startsOption value then throw .usage
          else do
            let found ← found.addValued name test value
            read grammar found words
      | none, some _ => throw .usage
      | none, none =>
        if name ∈ grammar.flags then do
          let found ← found.addOption name none
          read grammar found words
        else throw .usage

/-- The words in front of the command, and from the command on.  No command follows a `--`. -/
def cutCommand (valued : List String) : List String → List String × List String
  | [] => ([], [])
  | "--" :: words => ("--" :: words, [])
  | word :: words =>
    if startsOption word then
      if word ∈ valued then
        -- The word after it is its value, whether or not it names a command.
        match words with
        | value :: words =>
          let (before, command) := cutCommand valued words
          (word :: value :: before, command)
        | [] => ([word], [])
      else
        let (before, command) := cutCommand valued words
        (word :: before, command)
    else ([], word :: words)

/-- The value of an option, read; nothing if the option is not given. -/
def Words.value {ε α : Type} (words : Words) (name : String) (read : String → Except ε α) :
    Except Refusal (Option α) :=
  match words.options.lookup name with
  | some (some text) =>
    match read text with
    | .ok value => return some value
    | .error _ => throw .usage
  | some none | none => return none

def Words.has (words : Words) (name : String) : Bool := (words.options.lookup name).isSome

def Words.operand (words : Words) : Except Refusal String :=
  match words.operands with
  | [operand] => return operand
  | _ => throw .usage

end Arguments

namespace Invocation

open Arguments

def outerGrammar : Grammar :=
  { questions := ["--help", "--version"], questionLetters := ['h', 'V'], operands := [] }

def nextGrammar : Grammar :=
  { valued :=
      [("--config", passes fileName), ("--from", passes Date.parse), ("--count", passes longCount),
        ("--end", passes Ending.parse), ("--done", passes count)] }

def importGrammar : Grammar :=
  { valued := [], operands := [passes LegacyPattern.parse, fun _ => true] }

/-- What one can ask for help on. -/
def topics : List String := ["summary", "normalize", "next", "import", "help"]

/-- The command with the given name and the words after it, told apart. -/
def readCommand (name : String) (words : List String) : Except Refusal (Words × Command) :=
  match name with
  | "summary" => do
    let words ← read {} {} words
    return (words, .summary (← words.operand))
  | "normalize" => do
    let words ← read {} {} words
    return (words, .normalize (← words.operand))
  | "next" => do
    let words ← read nextGrammar {} words
    let pattern ← words.operand
    let anchor ← words.value "--from" Date.parse
    let limit ← words.value "--count" longCount
    let ending ← words.value "--end" Ending.parse
    let produced ← words.value "--done" count
    return (words, .next
      { pattern, anchor, limit, ending := ending.getD .never, produced := produced.getD 0 })
  | "import" => do
    let words ← read importGrammar {} words
    let (name, config) ← match words.operands with
      | [name] => pure (name, none)
      | [name, list] => pure (name, some list)
      | _ => throw .usage
    match LegacyPattern.parse name with
    | .error _ => throw .usage
    | .ok pattern => return (words, .importLegacy { pattern, config })
  | "help" => throw (if words.length ≤ 1 ∧ words ⊆ topics then .help else .usage)
  | _ => throw .usage

def parse (words : List String) : Except Refusal Invocation := do
  let (before, named) := cutCommand (outerGrammar.valued.map (·.1)) words
  let before ← read outerGrammar {} before
  let outer ← before.value "--config" fileName
  match named with
  | [] => throw .usage
  | name :: after =>
    let (after, command) ← readCommand name after
    let inner ← after.value "--config" fileName
    match command, outer with
    -- The list of an import goes by the name of the option for the settings file.
    | .importLegacy { config := some _, .. }, _ | .importLegacy _, some _ => throw .ambiguousConfig
    | _, _ =>
      return {
        settingsFile := inner <|> outer
        strict := before.has "--strict" || after.has "--strict"
        command }

end Invocation

end Cadence
