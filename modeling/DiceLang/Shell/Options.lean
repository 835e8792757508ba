import DiceLang.Text.Decimal

/-!
# Command-line options

The words of a command line are sorted before any of them is acted on.  A word that starts with a
hyphen names an option: in full, by the start of its long name, or by its letter.  A value may be
joined to the name of its option, after an equals sign or, behind a letter, without one.  What is
joined to a letter that takes no value is further letters, and an equals sign among those has no
meaning of its own.  All other words are plain: so are a single hyphen, a negative number, and an
unknown name with a space in it.

An option that takes a value and has none joined to it takes the next word, which must be plain.
Two hyphens joined to an option withhold its value.  A letter that names no option, and a value for
an option that takes none, are refused where they stand.  There is no place for any other plain
word, nor for an unknown name, and a command line that holds one is refused once all options have
been seen.  Asking for help takes effect as soon as the word that asks for it has been understood.
-/

namespace DiceLang

/-- The options there are. -/
inductive Switch
  | eval
  | seed
  | fresh
  | ast
  | builtins
  | verbose
  | help
deriving DecidableEq

namespace Switch

/-- All options. -/
def all : List Switch := [help, eval, seed, fresh, ast, builtins, verbose]

/-- The long name of an option, without its hyphens. -/
def name : Switch → String
  | eval => "eval"
  | seed => "seed"
  | fresh => "fresh"
  | ast => "ast"
  | builtins => "builtins"
  | verbose => "verbose"
  | help => "help"

/-- The letter of an option. -/
def letter? : Switch → Option Char
  | eval => some 'e'
  | verbose => some 'v'
  | help => some 'h'
  | _ => none

/-- Whether an option takes a value. -/
def takesValue : Switch → Bool
  | eval | seed => true
  | _ => false

/-- The option that has a letter. -/
def ofLetter? (c : Char) : Option Switch :=
  all.find? fun switch => switch.letter? == some c

/-- The options whose long names start with a text. -/
def startingWith (text : List Char) : List Switch :=
  all.filter fun switch => text.isPrefixOf switch.name.toList

/-- The option with a long name. -/
def ofName? (text : List Char) : Option Switch :=
  all.find? fun switch => switch.name.toList == text

end Switch

/-- What a word of the command line is. -/
inductive Word
  /-- An option by its long name, with the text that is joined to it after an equals sign. -/
  | long (switch : Switch) (joined : Option (List Char))
  /-- An option by its letter, with the text that is joined to it. -/
  | short (switch : Switch) (joined : Option (List Char))
  | plain (text : String)
  /-- A name that no option has. -/
  | unknown
  /-- A name that several options could be meant by. -/
  | ambiguous

namespace Word

/-- A text cut at its first equals sign. -/
def cut (text : List Char) : List Char × Option (List Char) :=
  match text.dropWhile (· != '=') with
  | [] => (text, none)
  | _ :: value => (text.takeWhile (· != '='), some value)

/-- Whether a text is a run of decimal digits. -/
def isDigits (text : List Char) : Bool :=
  !text.isEmpty && text.all fun c => (Text.digitValue? c).isSome

/-- Whether the text behind a hyphen is a number, with or without a decimal point.  A newline at
the very end is overlooked. -/
def isNumber (text : List Char) : Bool :=
  let text := if text.getLast? = some '\n' then text.dropLast else text
  let whole := text.takeWhile (· != '.')
  match text.dropWhile (· != '.') with
  | [] => isDigits text
  | _ :: fraction => (whole.isEmpty || isDigits whole) && isDigits fraction

/-- A word behind a hyphen that names no option. -/
def unnamed (text : List Char) : Word :=
  if isNumber text || text.contains ' ' then .plain (String.ofList ('-' :: text)) else .unknown

/-- Sorts a word that starts with two hyphens. -/
def ofLong (text : List Char) : Word :=
  let (name, joined) := cut text
  match Switch.ofName? name with
  | some switch => .long switch joined
  | none =>
    match Switch.startingWith name with
    | [] => unnamed ('-' :: text)
    | [switch] => .long switch joined
    | _ => .ambiguous

/-- Sorts a word that starts with a single hyphen, followed by the character `c`.  An equals sign
right behind the letter is not part of what is joined to it. -/
def ofShort (c : Char) (text : List Char) : Word :=
  match Switch.ofLetter? c, text with
  | none, _ => unnamed (c :: text)
  | some switch, [] => .short switch none
  | some switch, '=' :: value => .short switch (some value)
  | some switch, value => .short switch (some value)

/-- Sorts a word. -/
def ofText (text : String) : Word :=
  match text.toList with
  | '-' :: '-' :: rest => ofLong rest
  | '-' :: c :: rest => ofShort c rest
  | _ => .plain text

end Word

/-- What an option asks for. -/
structure Setting where
  switch : Switch
  /-- Nothing for an option that takes no value, and where the value is withheld. -/
  value : Option String

/-- What one word asks for, when it stands for one or more options. -/
structure Cluster where
  settings : List Setting
  /-- The option that takes the next word as its value. -/
  pending : Option Switch

namespace Cluster

/-- An option that has nothing joined to it. -/
def alone (switch : Switch) : Cluster :=
  if switch.takesValue then ⟨[], some switch⟩ else ⟨[⟨switch, none⟩], none⟩

/-- An option that takes a value, with the value joined to it.  Two hyphens withhold the value. -/
def withValue (switch : Switch) (text : List Char) : Cluster :=
  ⟨[⟨switch, if text = ['-', '-'] then none else some (String.ofList text)⟩], none⟩

/-- The cluster with an option in front that takes no value. -/
def after (switch : Switch) (cluster : Cluster) : Cluster :=
  { cluster with settings := ⟨switch, none⟩ :: cluster.settings }

/-- An option with the text that is joined to its letter: its value if it takes one, and otherwise
further letters, of which there must be some. -/
def ofLetters (switch : Switch) (text : List Char) : Option Cluster :=
  if switch.takesValue then some (withValue switch text)
  else
    match text with
    | [] => none
    | c :: text =>
      match Switch.ofLetter? c, text with
      | none, _ => none
      | some next, [] => some (after switch (alone next))
      | some next, text => (ofLetters next text).map (after switch)

/-- The cluster of a word that names an option, unless something is joined to it that has no
meaning there. -/
def ofWord? : Word → Option Cluster
  | .long switch none => some (alone switch)
  | .long switch (some text) =>
    if switch.takesValue then some (withValue switch text) else none
  | .short switch none => some (alone switch)
  | .short switch (some text) => ofLetters switch text
  | _ => none

end Cluster

/-- What a command line asks for. -/
structure Options where
  /-- The texts to be run, in order; nothing for one that is withheld. -/
  expressions : List (Option String)
  /-- The text of the seed, if the option is given; a seed that is withheld is empty. -/
  seed : Option String
  fresh : Bool
  ast : Bool
  builtins : Bool
  verbose : Bool

namespace Options

/-- What an empty command line asks for. -/
def initial : Options := ⟨[], none, false, false, false, false⟩

/-- Takes a setting into account.  Texts add up; of several seeds the last one counts. -/
def set (options : Options) (setting : Setting) : Options :=
  match setting.switch with
  | .eval => { options with expressions := options.expressions ++ [setting.value] }
  | .seed => { options with seed := some (setting.value.getD "") }
  | .fresh => { options with fresh := true }
  | .ast => { options with ast := true }
  | .builtins => { options with builtins := true }
  | .verbose => { options with verbose := true }
  | .help => options

end Options

/-- What becomes of a command line. -/
inductive Request
  /-- It cannot be understood. -/
  | refused
  /-- It asks for help. -/
  | help
  | granted (options : Options)

namespace Request

/-- Whether help is among some settings. -/
def asksHelp (settings : List Setting) : Bool :=
  settings.any fun setting => setting.switch == .help

/-- Goes through the words of a command line.  `stray` tells whether a word has been met that has
no place. -/
def ofWords (options : Options) (stray : Bool) : List Word → Request
  | [] => if stray then .refused else .granted options
  | .plain _ :: words => ofWords options true words
  | .unknown :: words => ofWords options true words
  | word :: words =>
    match Cluster.ofWord? word with
    | none => .refused
    | some cluster =>
      match cluster.pending, words with
      | none, words =>
        if asksHelp cluster.settings then .help
        else ofWords (cluster.settings.foldl Options.set options) stray words
      | some switch, .plain value :: words =>
        let settings := cluster.settings ++ [⟨switch, some value⟩]
        if asksHelp settings then .help
        else ofWords (settings.foldl Options.set options) stray words
      | some _, _ => .refused

/-- Understands a command line.  Two hyphens on their own end the options, and whatever they end
has no place. -/
def ofArguments (arguments : List String) : Request :=
  let words := (arguments.takeWhile (· != "--")).map Word.ofText
  let isAmbiguous : Word → Bool
    | .ambiguous => true
    | _ => false
  if words.any isAmbiguous then .refused
  else ofWords .initial (arguments.contains "--") words

end Request

end DiceLang
