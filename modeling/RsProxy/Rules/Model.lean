import RsProxy.Data.SortedMap
import RsProxy.Rules.Action
import Mathlib.Data.Char
import Mathlib.Data.List.Lex

/-!
# Rules, requests and results

The data a snapshot is made of and the data resolution works on. A rule has a matcher over the URL,
conditions over the request and perhaps the response, and actions in source order.
-/

namespace RsProxy.Rules

open Text Data List

/-! ### Matchers -/

inductive RegexEngine where
  | linear
  | fancy
  deriving DecidableEq, Repr

/-- A regular expression and the engine that was selected for it. -/
structure RegexMatcher where
  pattern : Str
  caseInsensitive : Bool
  engine : RegexEngine
  deriving DecidableEq, Repr

/-- The components of a domain, glob or path matcher. -/
structure GlobMatcher where
  scheme : Option Str
  host : Str
  port : Option Str
  path : Option Str
  query : Option Str
  deriving DecidableEq, Repr

inductive Matcher where
  | exactUrl (url : Str)
  | glob (g : GlobMatcher)
  | port (port : Nat)
  | regex (r : RegexMatcher)
  | not (inner : Matcher)
  deriving DecidableEq, Repr

/-! ### Conditions -/

inductive UrlCondition where
  | glob (pattern : Str)
  | regex (r : RegexMatcher)
  deriving DecidableEq, Repr

inductive Condition where
  | method (methods : List Str)
  | host (pattern : Str)
  | url (condition : UrlCondition)
  | clientIp (patterns : List Str)
  | serverIp (patterns : List Str)
  | headerPresent (name : Str)
  | headerContains (name value : Str)
  | resHeaderPresent (name : Str)
  | resHeaderContains (name value : Str)
  | bodyContains (literal : Str)
  | bodyRegex (r : RegexMatcher)
  | status (statuses : List Nat)
  | chancePermille (permille : Nat)
  | envPresent (name : Str)
  | envEquals (name value : Str)
  | any (conditions : List Condition)
  | all (conditions : List Condition)
  | not (inner : Condition)
  deriving Repr

namespace Condition

/-- Neither a combinator nor a negation. -/
def isLeaf : Condition → Bool
  | .any _ | .all _ | .not _ => false
  | _ => true

/-- Induction over condition trees, the members of a combinator as elements of its list. -/
@[elab_as_elim]
theorem tree_induction {P : Condition → Prop} (leaf : ∀ c, c.isLeaf → P c)
    (any : ∀ cs, (∀ c ∈ cs, P c) → P (.any cs)) (all : ∀ cs, (∀ c ∈ cs, P c) → P (.all cs))
    (not : ∀ c, P c → P (.not c)) (c : Condition) : P c := by
  refine @rec P (fun cs => ∀ c ∈ cs, P c)
    ?_ ?_ ?_ ?_ ?_ ?_ ?_ ?_ ?_ ?_ ?_ ?_ ?_ ?_ ?_ any all not ?nil ?cons c
  case nil =>
    intro c hc
    cases hc
  case cons =>
    intro c cs hc hcs d hd
    rcases mem_cons.mp hd with rfl | hd
    · exact hc
    · exact hcs d hd
  all_goals intros; exact leaf _ rfl

mutual

/-- Every node of the tree, combinators included, in the order of a visit. -/
def nodes : Condition → List Condition
  | .any cs => .any cs :: nodesAll cs
  | .all cs => .all cs :: nodesAll cs
  | .not c => .not c :: nodes c
  | c => [c]

def nodesAll : List Condition → List Condition
  | [] => []
  | c :: cs => nodes c ++ nodesAll cs

end

mutual

def dependsOnRequestBody : Condition → Bool
  | .bodyContains _ | .bodyRegex _ => true
  | .any cs | .all cs => dependsOnRequestBodyAny cs
  | .not c => dependsOnRequestBody c
  | _ => false

def dependsOnRequestBodyAny : List Condition → Bool
  | [] => false
  | c :: cs => dependsOnRequestBody c || dependsOnRequestBodyAny cs

end

mutual

def dependsOnResponse : Condition → Bool
  | .resHeaderPresent _ | .resHeaderContains _ _ | .status _ => true
  | .any cs | .all cs => dependsOnResponseAny cs
  | .not c => dependsOnResponse c
  | _ => false

def dependsOnResponseAny : List Condition → Bool
  | [] => false
  | c :: cs => dependsOnResponse c || dependsOnResponseAny cs

end

@[simp] theorem nodesAll_eq {cs} : nodesAll cs = cs.flatMap nodes := by
  induction cs with
  | nil => rfl
  | cons c cs ih => rw [nodesAll, flatMap_cons, ih]

theorem mem_nodes_self (c : Condition) : c ∈ c.nodes := by
  cases c <;> exact mem_cons_self

theorem mem_nodes_trans {c d e : Condition} (hd : d ∈ c.nodes) (he : e ∈ d.nodes) :
    e ∈ c.nodes := by
  induction c using tree_induction with
  | leaf c hleaf =>
    have hd' : d = c := by cases c <;> first | exact mem_singleton.mp hd | cases hleaf
    exact hd' ▸ he
  | any cs ih | all cs ih =>
    rw [nodes, nodesAll_eq, mem_cons] at hd
    rcases hd with rfl | hd
    · exact he
    · obtain ⟨c, hc, hd⟩ := mem_flatMap.mp hd
      rw [nodes, nodesAll_eq]
      exact mem_cons_of_mem _ (mem_flatMap_of_mem hc (ih c hc hd))
  | not c ih =>
    rw [nodes, mem_cons] at hd
    rcases hd with rfl | hd
    · exact he
    · exact mem_cons_of_mem _ (ih hd)

@[simp] theorem dependsOnRequestBodyAny_eq {cs} :
    dependsOnRequestBodyAny cs = cs.any dependsOnRequestBody := by
  induction cs with
  | nil => rfl
  | cons c cs ih => rw [dependsOnRequestBodyAny, any_cons, ih]

@[simp] theorem dependsOnResponseAny_eq {cs} :
    dependsOnResponseAny cs = cs.any dependsOnResponse := by
  induction cs with
  | nil => rfl
  | cons c cs ih => rw [dependsOnResponseAny, any_cons, ih]

end Condition

/-! ### Rules -/

structure Rule where
  group : Str
  line : Nat
  raw : Str
  matcher : Matcher
  actions : List Action
  conditions : List Condition
  important : Bool
  disabled : Bool
  tags : List Str
  deriving Repr

/-- The actions of a rule that survive the `skip` actions in front of them. -/
def effectiveActionsFrom (skip : SkipState) : List Action → List Action
  | [] => []
  | a :: actions =>
    if skip.suppresses a.family then effectiveActionsFrom skip actions
    else a :: effectiveActionsFrom (skip.observe a) actions

def effectiveActions (rule : Rule) : List Action :=
  effectiveActionsFrom .initial rule.actions

/-! ### Requests and responses -/

structure RequestMeta where
  method : Str
  url : Str
  headers : List (Str × Str)
  body : List UInt8
  clientIp : Option Str
  serverIp : Option Str
  deriving DecidableEq, Repr

structure ResponseMeta where
  status : Nat
  headers : List (Str × Str)
  deriving DecidableEq, Repr

/-- The process environment, as far as its variables are valid text. -/
abbrev Env := Str → Option Str

/-! ### Captures -/

structure Captures where
  whole : Option Str
  indexed : List Str
  named : SortedMap Str Str

/-- The captures of a matcher that has none. -/
def Captures.default : Captures := ⟨none, [], .empty⟩

/-- Number the next capture; there are at most nine. -/
def Captures.insertIndex (c : Captures) (value : Str) : Captures :=
  if c.indexed.length < 9 then { c with indexed := c.indexed ++ [value] } else c

/-! ### Results -/

structure MatchedRule where
  group : Str
  line : Nat
  raw : Str
  deriving DecidableEq, Repr

structure ResolvedAction where
  action : Action
  rule : MatchedRule
  captures : Captures
  response : Option ResponseMeta

structure ResolveResult where
  actions : List ResolvedAction
  matchedRules : List MatchedRule

end RsProxy.Rules
