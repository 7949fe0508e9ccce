/-!
# Command line arguments

A command is a subcommand with its options and one positional argument at most. An option that takes
a value has it glued on, behind an equals sign, or as the next argument, which then must not look
like an option itself. Short flags may be written together. After `--` every argument is positional.
-/

namespace CampusQuery

/-- What the program is asked to do. -/
inductive Command
  | query (text : Option String) (data : List String) (pretty : Bool)
  | datasets (data : List String)
  | topics
  | topic (name : String)
  deriving DecidableEq, Repr

namespace Command

/-- A word of the command line after its dashes have been read. -/
inductive Word
  /-- An option with its value. -/
  | data (file : String)
  | pretty
  | positional (text : String)
  deriving DecidableEq, Repr

/-- Which options a subcommand has. -/
structure Options where
  data : Bool
  pretty : Bool

/-- The words of a group of short options. A flag may be followed by others, an option with a value
takes all that follows it, or `next` if nothing does. `none` stands for a usage error, and the
second component says whether `next` was taken. -/
def shortWords (options : Options) (next : Option String) :
    List Char → Option (List Word × Bool)
  | [] => some ([], false)
  | 'p' :: rest =>
    if options.pretty then
      (shortWords options next rest).map fun (words, taken) => (.pretty :: words, taken)
    else none
  | 'd' :: rest =>
    if options.data then
      match rest with
      | [] => next.map fun file => ([.data file], true)
      | '=' :: file => some ([.data (.ofList file)], false)
      | file => some ([.data (.ofList file)], false)
    else none
  | _ :: _ => none

/-- The words of a long option, its name behind the dashes. -/
def longWords (options : Options) (next : Option String) (name : List Char) :
    Option (List Word × Bool) :=
  let word := String.ofList (name.takeWhile (· ≠ '='))
  match word, name.dropWhile (· ≠ '=') with
  | "pretty", [] => if options.pretty then some ([.pretty], false) else none
  | "data", [] =>
    if options.data then next.map fun file => ([.data file], true) else none
  | "data", _ :: file => if options.data then some ([.data (.ofList file)], false) else none
  | _, _ => none

/-- Whether an argument is read as one or more options. A lone dash is not. -/
def looksLikeOption (argument : String) : Bool :=
  match argument.toList with
  | '-' :: _ :: _ => true
  | _ => false

/-- The words of one argument, and whether `next` was taken as its value. -/
def argumentWords (options : Options) (argument : String) (next : Option String) :
    Option (List Word × Bool) :=
  match argument.toList with
  | '-' :: '-' :: name => longWords options next name
  | '-' :: c :: flags => shortWords options next (c :: flags)
  | _ => some ([.positional argument], false)

/-- The words of all arguments. -/
def words (options : Options) : List String → Option (List Word)
  | [] => some []
  | "--" :: rest => some (rest.map .positional)
  | [argument] => (argumentWords options argument none).map Prod.fst
  | argument :: next :: rest => do
    let value := if looksLikeOption next then none else some next
    let (first, taken) ← argumentWords options argument value
    let others ← if taken then words options rest else words options (next :: rest)
    return first ++ others

namespace Word

def file? : Word → Option String
  | data file => some file
  | _ => none

def positional? : Word → Option String
  | positional text => some text
  | _ => none

end Word

/-- The files named by options: at least one, and none with an empty name. -/
def files? (words : List Word) : Option (List String) :=
  let files := words.filterMap Word.file?
  if files.isEmpty ∨ "" ∈ files then none else some files

/-- The command that the arguments ask for; `none` is a usage error. -/
def ofArguments? : List String → Option Command
  | "query" :: arguments => do
    let words ← words ⟨true, true⟩ arguments
    let data ← files? words
    let flags := words.count .pretty
    let texts := words.filterMap Word.positional?
    if flags ≤ 1 ∧ texts.length ≤ 1 then some (query texts.head? data (flags = 1)) else none
  | "datasets" :: arguments => do
    let words ← words ⟨true, false⟩ arguments
    let data ← files? words
    if (words.filterMap Word.positional?).isEmpty then some (datasets data) else none
  | "docs" :: arguments => do
    let words ← words ⟨false, false⟩ arguments
    if words.isEmpty then some topics else none
  | "doc" :: arguments => do
    match ← words ⟨false, false⟩ arguments with
    | [.positional name] => some (topic name)
    | _ => none
  | _ => none

end Command

end CampusQuery
