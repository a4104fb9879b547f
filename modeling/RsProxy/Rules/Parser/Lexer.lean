import RsProxy.Rules.Action
import RsProxy.Rules.Language
import RsProxy.Text.Net

/-!
# Lexical structure of a rule line

A line is cut into tokens at white space outside parentheses and quotes, a call into its name and
its comma-separated arguments. Every scanner here keeps its state in a record and reads one
character at a time, so that what it does with a prefix does not depend on what follows, except
where it looks ahead for the end of a regular expression.
-/

namespace RsProxy.Rules

open Text

/-! ### Comments -/

/-- The text in front of a `#` outside quotes. -/
def commentFree : (quote : Option Char) → (escaped : Bool) → Str → Str
  | _, _, [] => []
  | quote, true, c :: cs => c :: commentFree quote false cs
  | quote, false, c :: cs =>
    if c = '\\' then c :: commentFree quote true cs
    else
      match quote with
      | some q => c :: commentFree (if c = q then none else some q) false cs
      | none =>
        if c = '"' ∨ c = '\'' then c :: commentFree (some c) false cs
        else if c = '#' then []
        else c :: commentFree none false cs

/-- The line without its comment; `none` when nothing is left. -/
def stripComment (input : Str) : Option Str :=
  let out := commentFree none false input
  if (trim out).isEmpty then none else some out

/-! ### Tokens -/

/-- A token with its byte range in the line. -/
structure RuleToken where
  text : Str
  start : Nat
  stop : Nat
  deriving DecidableEq, Repr

structure LexState where
  tokens : List RuleToken
  current : Str
  tokenStart : Option Nat
  parenDepth : Nat
  quote : Option Char
  escaped : Bool
  index : Nat
  deriving DecidableEq, Repr

namespace LexState

def initial : LexState := ⟨[], [], none, 0, none, false, 0⟩

def keep (st : LexState) (c : Char) : LexState := { st with current := st.current ++ [c] }

/-- End the current token, if there is one. -/
def flush (st : LexState) : LexState :=
  if st.current.isEmpty then { st with tokenStart := none }
  else
    { st with
      tokens := st.tokens ++ [⟨st.current, st.tokenStart.getD 0, st.index⟩]
      current := []
      tokenStart := none }

/-- One character, the position not yet advanced. -/
def read (st : LexState) (c : Char) : Except RuleModelError LexState :=
  let st := if st.tokenStart.isNone && !isWhitespace c then
      { st with tokenStart := some st.index } else st
  if st.escaped then .ok { st.keep c with escaped := false }
  else if c = '\\' then .ok { st.keep c with escaped := true }
  else
    match st.quote with
    | some q => .ok { st.keep c with quote := if c = q then none else some q }
    | none =>
      if c = '"' ∨ c = '\'' then .ok { st.keep c with quote := some c }
      else if c = '(' then
        if maxRuleParseNesting < st.parenDepth + 1 then
          .error (.limit "rule nesting" s!"rule nesting exceeds {maxRuleParseNesting} levels")
        else .ok { st.keep c with parenDepth := st.parenDepth + 1 }
      else if c = ')' then
        if st.parenDepth = 0 then .error (.badSyntax "rule" "unmatched `)`")
        else .ok { st.keep c with parenDepth := st.parenDepth - 1 }
      else if isWhitespace c && st.parenDepth == 0 then .ok st.flush
      else .ok (st.keep c)

def step (st : LexState) (c : Char) : Except RuleModelError LexState :=
  (st.read c).map fun st => { st with index := st.index + c.utf8Size }

def finish (st : LexState) : Except RuleModelError (List RuleToken) :=
  if st.quote.isSome then .error (.badSyntax "rule" "unterminated quote")
  else if st.parenDepth ≠ 0 then .error (.badSyntax "rule" "unclosed `(`")
  else .ok st.flush.tokens

end LexState

def tokenize (input : Str) : Except RuleModelError (List RuleToken) :=
  (input.foldlM LexState.step .initial).bind LexState.finish

/-! ### Arguments of a call -/

/-- How many characters a regular expression value takes after its opening `/`. It ends at a `/`
outside classes that is followed by a comma or by nothing. -/
def regexLengthAtArgumentBoundary :
    (escaped characterClass : Bool) → Str → Option Nat
  | _, _, [] => none
  | true, cls, _ :: cs => (regexLengthAtArgumentBoundary false cls cs).map (· + 1)
  | false, cls, c :: cs =>
    if c = '\\' then (regexLengthAtArgumentBoundary true cls cs).map (· + 1)
    else if c = '[' then (regexLengthAtArgumentBoundary false true cs).map (· + 1)
    else if c = ']' ∧ cls then (regexLengthAtArgumentBoundary false false cs).map (· + 1)
    else if c = '/' ∧ cls = false ∧ (trimStart cs).head?.all (· == ',') then some 1
    else (regexLengthAtArgumentBoundary false cls cs).map (· + 1)

structure SplitState where
  args : List Str
  /-- The argument being read. -/
  current : Str
  quote : Option Char
  angleDepth : Nat
  braceDepth : Nat
  bracketDepth : Nat
  parenDepth : Nat
  escaped : Bool
  /-- Characters of a regular expression value still to be passed over. -/
  regexLeft : Nat
  /-- The last character that was not white space. -/
  last : Option Char
  deriving DecidableEq, Repr

namespace SplitState

def initial : SplitState := ⟨[], [], none, 0, 0, 0, 0, false, 0, none⟩

def beginsFileValue (st : SplitState) : Bool :=
  st.last.all fun c => c == ',' || c == '(' || c == '='

def beginsRegexValue (st : SplitState) : Bool :=
  st.last.all fun c => c == ',' || c == '(' || c == '=' || c == '~'

def checkNesting (st : SplitState) : Except RuleModelError SplitState :=
  if maxRuleParseNesting < st.angleDepth + st.braceDepth + st.bracketDepth + st.parenDepth then
    .error (.limit "call nesting" s!"call nesting exceeds {maxRuleParseNesting} levels")
  else .ok st

def pushArgument (st : SplitState) (emptyMessage : String) : Except RuleModelError SplitState :=
  let argument := trim st.current
  if argument.isEmpty then .error (.empty "call argument" emptyMessage)
  else if st.args.length = maxRuleCallArguments then
    .error (.limit "call argument count"
      s!"call exceeds the {maxRuleCallArguments}-argument limit")
  else .ok { st with args := st.args ++ [argument], current := [] }

/-- The length of the regular expression value that starts at `c`, if one does. -/
def regexAt (st : SplitState) (c : Char) (rest : Str) : Option Nat :=
  if c = '/' ∧ st.beginsRegexValue then regexLengthAtArgumentBoundary false false rest
  else none

/-- A delimiter outside quotes. -/
def delimiter (st : SplitState) (c : Char) : Except RuleModelError SplitState :=
  if c = '"' ∨ c = '\'' then .ok { st with quote := some c }
  else if c = '(' then { st with parenDepth := st.parenDepth + 1 }.checkNesting
  else if c = ')' then
    if st.parenDepth = 0 then .error (.badSyntax "call argument" "unmatched `)`")
    else .ok { st with parenDepth := st.parenDepth - 1 }
  else if c = '<' ∧ st.beginsFileValue then
    { st with angleDepth := st.angleDepth + 1 }.checkNesting
  else if c = '>' ∧ 0 < st.angleDepth then .ok { st with angleDepth := st.angleDepth - 1 }
  else if c = '\x7b' then { st with braceDepth := st.braceDepth + 1 }.checkNesting
  else if c = '\x7d' then
    if st.braceDepth = 0 then .error (.badSyntax "call argument" "unmatched `\x7d`")
    else .ok { st with braceDepth := st.braceDepth - 1 }
  else if c = '[' then { st with bracketDepth := st.bracketDepth + 1 }.checkNesting
  else if c = ']' then
    if st.bracketDepth = 0 then .error (.badSyntax "call argument" "unmatched `]`")
    else .ok { st with bracketDepth := st.bracketDepth - 1 }
  else .ok st

def atTopLevel (st : SplitState) : Bool :=
  st.angleDepth == 0 && st.braceDepth == 0 && st.bracketDepth == 0 && st.parenDepth == 0

/-- One character that is not part of a regular expression value. -/
def plain (st : SplitState) (c : Char) : Except RuleModelError SplitState :=
  let kept := { st with current := st.current ++ [c] }
  if st.escaped then .ok { kept with escaped := false }
  else if c = '\\' then .ok { kept with escaped := true }
  else
    match st.quote with
    | some q => .ok { kept with quote := if c = q then none else some q }
    | none =>
      if c = ',' ∧ st.atTopLevel then st.pushArgument "call arguments must not be empty"
      else kept.delimiter c

def read (st : SplitState) (c : Char) (rest : Str) : Except RuleModelError SplitState :=
  if 0 < st.regexLeft then
    .ok { st with current := st.current ++ [c], regexLeft := st.regexLeft - 1 }
  else
    match st.regexAt c rest with
    | some n => .ok { st with current := st.current ++ [c], regexLeft := n }
    | none => st.plain c

/-- The loop; the last character is noted after the step that reads it. -/
def loop : SplitState → Str → Except RuleModelError SplitState
  | st, [] => .ok st
  | st, c :: cs =>
    (st.read c cs).bind fun st =>
      loop { st with last := if isWhitespace c then st.last else some c } cs

def unclosed (st : SplitState) : Option Char :=
  if st.angleDepth ≠ 0 then some '<'
  else if st.braceDepth ≠ 0 then some '\x7b'
  else if st.bracketDepth ≠ 0 then some '['
  else if st.parenDepth ≠ 0 then some '('
  else none

def finish (st : SplitState) : Except RuleModelError (List Str) :=
  if st.quote.isSome then .error (.badSyntax "call argument" "unterminated quote")
  else
    match st.unclosed with
    | some delimiter => .error (.badSyntax "call argument" s!"unclosed `{delimiter}`")
    | none =>
      (st.pushArgument "call arguments must not be empty or end with a comma").map fun st => st.args

end SplitState

def splitArgs (input : Str) : Except RuleModelError (List Str) :=
  if (trim input).isEmpty then .ok []
  else (SplitState.initial.loop input).bind SplitState.finish

/-! ### Calls -/

/-- The text between the first parenthesis and the last character. -/
def callParts (input : Str) : Option (Str × Str) :=
  (splitOnce ['('] input).map fun (name, rest) => (name, rest.dropLast)

def parseCall (input : Str) : Except RuleModelError (Str × List Str) :=
  match callParts input with
  | none => .error (.badSyntax "call" s!"expected call syntax: {str input}")
  | some (name, body) =>
    if input.getLast? ≠ some ')' then
      .error (.badSyntax "call" s!"call must end with `)`: {str input}")
    else if name.isEmpty then .error (.empty "call name" "call name is empty")
    else (splitArgs body).map fun args => (name, args)

def requireOne (args : List Str) (action : String) : Except RuleModelError Str :=
  match args with
  | [arg] =>
    if (trim arg).isEmpty then
      .error (.missing "action argument" s!"{action} requires exactly one argument")
    else .ok (trim arg)
  | _ => .error (.missing "action argument" s!"{action} requires exactly one argument")

def requireCallBody (input : Str) (action : String) : Except RuleModelError Str :=
  match callParts input with
  | none => .error (.badSyntax "call" s!"expected call syntax: {str input}")
  | some (_, body) =>
    if (trim body).isEmpty then
      .error (.missing "action argument" s!"{action} requires exactly one argument")
    else .ok (trim body)

/-! ### Quotes and values -/

def isQuoted (input : Str) : Bool :=
  (input.head? == some '"' && input.getLast? == some '"') ||
    (input.head? == some '\'' && input.getLast? == some '\'')

def unescapeQuoted : (escaped : Bool) → Str → Str
  | _, [] => []
  | true, c :: cs =>
    (if c = 'n' then '\n' else if c = 'r' then '\r' else if c = 't' then '\t' else c) ::
      unescapeQuoted false cs
  | false, c :: cs =>
    if c = '\\' then unescapeQuoted true cs else c :: unescapeQuoted false cs

def unquote (input : Str) : Str :=
  let input := trim input
  if !isQuoted input || utf8Len input < 2 then input
  else unescapeQuoted false input.tail.dropLast

def parseValue (input : Str) : Except RuleModelError Value :=
  let input := trim input
  if (input.head? == some '<') != (input.getLast? == some '>') then
    .error (.badSyntax "file value" "file values must use a paired `<path>` delimiter")
  else
    match (stripPrefix ['<'] input).bind (stripSuffix ['>']) with
    | some path =>
      if (trim path).isEmpty then
        .error (.empty "file value path" "file value path must not be empty")
      else if path.contains '\x00' then
        .error (.invalid "file value path" "file value path must not contain NUL")
      else .ok (.file path)
    | none =>
      match stripPrefix ['@'] input with
      | some key =>
        if validValueKey key then .ok (.reference key)
        else .error (.invalid "value key"
          (s!"invalid value key `{str key}`; use 1-128 ASCII letters, digits, dot, underscore, " ++
            "or hyphen"))
      | none => .ok (.inline (unquote input))

end RsProxy.Rules
