/-!
# Options

How a list of arguments splits into options and other words. An option is given by its name after two
dashes or by its letter after one; a value follows in the next argument, or in the same one, after a `=` or
right after the letter. Two dashes alone end the options.

* `OptionSpec` -- an option that a command takes;
* `Token` -- an option that was given, or another word;
* `Options.scan?` -- the tokens of a list of arguments;
* `Options.isNegativeNumber` -- the one kind of value after a dash that an option may take.
-/

namespace GoalWatch

/-- An option that a command takes. -/
structure OptionSpec where
  name : String
  letter : Option Char := none
  takesValue : Bool := false
  repeatable : Bool := false
  /-- The next argument may be a negative number. -/
  negative : Bool := false
  deriving DecidableEq, Repr

/-- A piece of an argument list. -/
inductive Token where
  | word (text : String)
  | flag (name : String)
  | value (name text : String)
  deriving DecidableEq, Repr

namespace Options

/-! ## 1. Negative numbers -/

/-- Digits, with at most one dot, not in front, and at most one `e` or `E` after it, neither in front nor at
    the end. -/
def numberBody (dot mark : Bool) : List Char → Bool
  | [] => true
  | [c] => c.isDigit || (c == '.' && !dot && !mark)
  | c :: rest =>
    if c.isDigit then numberBody dot mark rest
    else if c == '.' && !dot && !mark then numberBody true mark rest
    else if (c == 'e' || c == 'E') && !mark then numberBody dot true rest
    else false

/-- A dash and a number. -/
def isNegativeNumber (arg : String) : Bool :=
  match arg.toList with
  | '-' :: c :: rest => c.isDigit && numberBody false false rest
  | _ => false

/-! ## 2. Scanning -/

def byName? (specs : List OptionSpec) (name : String) : Option OptionSpec :=
  specs.find? fun o => o.name == name

def byLetter? (specs : List OptionSpec) (c : Char) : Option OptionSpec :=
  specs.find? fun o => o.letter == some c

/-- What a group of letters gives: the tokens of it, and the option that still wants a value. -/
def scanLetters (specs : List OptionSpec) : List Char → Option (List Token × Option OptionSpec)
  | [] => some ([], none)
  | c :: rest => do
    let o ← byLetter? specs c
    if o.takesValue then
      match rest with
      | [] => some ([], some o)
      | '=' :: text => some ([.value o.name (String.ofList text)], none)
      | text => some ([.value o.name (String.ofList text)], none)
    else
      let (tokens, owed) ← scanLetters specs rest
      some (.flag o.name :: tokens, owed)

/-- What an argument after two dashes gives. -/
def scanName (specs : List OptionSpec) (text : List Char) : Option (List Token × Option OptionSpec) := do
  let o ← byName? specs (String.ofList (text.takeWhile (· != '=')))
  match o.takesValue, text.dropWhile (· != '=') with
  | true, [] => some ([], some o)
  | true, _ :: value => some ([.value o.name (String.ofList value)], none)
  | false, [] => some ([.flag o.name], none)
  | false, _ :: _ => none

/-- The tokens of a list of arguments; none if an option is unknown, lacks its value, or has one that it
    does not take. `owed` is the option that wants the next argument. -/
def scanFrom (specs : List OptionSpec) : (owed : Option OptionSpec) → List String → Option (List Token)
  | none, [] => some []
  | some _, [] => none
  | owed, arg :: rest =>
    match arg.toList, owed with
    | ['-', '-'], none => some (rest.map .word)
    | ['-', '-'], some _ => none
    | '-' :: '-' :: text, none => do
      let (tokens, owed) ← scanName specs text
      return tokens ++ (← scanFrom specs owed rest)
    | '-' :: '-' :: _, some _ => none
    | '-' :: c :: text, none => do
      let (tokens, owed) ← scanLetters specs (c :: text)
      return tokens ++ (← scanFrom specs owed rest)
    | '-' :: _ :: _, some o => do
      if o.negative && isNegativeNumber arg then
        return .value o.name arg :: (← scanFrom specs none rest)
      else none
    | _, none => do return .word arg :: (← scanFrom specs none rest)
    | _, some o => do return .value o.name arg :: (← scanFrom specs none rest)

/-- The option is named by a token. -/
def names (o : OptionSpec) : Token → Bool
  | .word _ => false
  | .flag name => name == o.name
  | .value name _ => name == o.name

/-- Options are given at most once, unless they may be repeated. -/
def respectsLimits (specs : List OptionSpec) (tokens : List Token) : Bool :=
  specs.all fun o => o.repeatable || tokens.countP (names o) ≤ 1

/-- The tokens of a list of arguments, if it uses the options as it may. -/
def scan? (specs : List OptionSpec) (args : List String) : Option (List Token) :=
  (scanFrom specs none args).filter (respectsLimits specs)

/-! ## 3. Looking things up -/

def words (tokens : List Token) : List String :=
  tokens.filterMap fun
    | .word text => some text
    | _ => none

def values (name : String) (tokens : List Token) : List String :=
  tokens.filterMap fun
    | .value n text => if n = name then some text else none
    | _ => none

def isSet (name : String) (tokens : List Token) : Bool :=
  tokens.contains (.flag name)

/-- The value of an option that may be absent, read; a refusal if it cannot be read. -/
def value? {α : Type} (name : String) (read : String → Option α) (tokens : List Token) : Option (Option α) :=
  match values name tokens with
  | [] => some none
  | text :: _ => (read text).map some

end Options

end GoalWatch
