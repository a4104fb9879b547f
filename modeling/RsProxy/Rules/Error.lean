import RsProxy.Text.Basic

/-!
# Errors of the rule language

`RuleModelError` is what the parsers of single values return: the category of the failure, the
component that rejected the value and the text shown to the user. `RuleError` is a diagnostic of a
whole source, with the group, line and byte range it is about.
-/

namespace RsProxy.Rules

open Text

/-- A piece of source text inside a message. -/
def str (s : Str) : String := String.ofList s

inductive ErrorKind where
  | emptyInput
  | missingArgument
  | invalidSyntax
  | invalidInput
  | unsupportedInput
  | constraintViolation
  | limitExceeded
  | invalidInteger
  | invalidFloat
  | invalidRegex
  | invalidRegexMatcher
  | invalidExactUrlMatcher
  | invalidTemplate
  deriving DecidableEq, Repr

structure RuleModelError where
  kind : ErrorKind
  context : String
  message : String
  deriving DecidableEq, Repr

namespace RuleModelError

section

variable (context message : String)

def empty : RuleModelError := ⟨.emptyInput, context, message⟩

def missing : RuleModelError := ⟨.missingArgument, context, message⟩

def badSyntax : RuleModelError := ⟨.invalidSyntax, context, message⟩

def invalid : RuleModelError := ⟨.invalidInput, context, message⟩

def unsupported : RuleModelError :=
  ⟨.unsupportedInput, context, message⟩

def constraint : RuleModelError :=
  ⟨.constraintViolation, context, message⟩

def limit : RuleModelError := ⟨.limitExceeded, context, message⟩

def integer : RuleModelError := ⟨.invalidInteger, context, message⟩

def float : RuleModelError := ⟨.invalidFloat, context, message⟩

def template : RuleModelError := ⟨.invalidTemplate, context, message⟩

end

/-- A pattern the regular expression compiler rejects, with the compiler's own text. -/
def regex (context source : String) : RuleModelError :=
  ⟨.invalidRegex, context, s!"{context}: {source}"⟩

def regexMatcher (linear fancy : String) : RuleModelError :=
  ⟨.invalidRegexMatcher, "regex matcher",
    s!"invalid regex matcher: regex={linear}; fancy-regex={fancy}"⟩

def exactUrlMatcher (source : RuleModelError) : RuleModelError :=
  let text := source.message
  ⟨.invalidExactUrlMatcher, "exact matcher", s!"invalid exact URL matcher: {text}"⟩

end RuleModelError

/-- The machine-readable category of a diagnostic. -/
inductive RuleErrorCode where
  | badSyntax
  | matcher
  | action
  | condition
  | property
  deriving DecidableEq, Repr

/-- A half-open byte range within one source line. -/
structure RuleSourceSpan where
  start : Nat
  stop : Nat
  deriving DecidableEq, Repr

structure RuleError where
  code : RuleErrorCode
  group : Str
  line : Nat
  span : Option RuleSourceSpan
  message : String
  deriving DecidableEq, Repr

end RsProxy.Rules
