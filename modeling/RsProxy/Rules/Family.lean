import RsProxy.Text.Lemmas
import Mathlib.Data.List.Nodup
import Mathlib.Tactic.Common

/-!
# Action families

Every action belongs to a family. The family decides whether the first applicable action wins or
all of them are kept, in which phases the action can have an effect, and what a `skip` suppresses.
Sets of families are one machine word, one bit for each family in language order.
-/

namespace RsProxy.Rules

open Text

inductive Phase where
  | req
  | res
  deriving DecidableEq, Repr

inductive ResolutionPolicy where
  | firstWins
  | stackable
  deriving DecidableEq, Repr

inductive ActionFamily where
  | host | upstream | direct | mock | mapRemote | status | redirect | reqHeader | resHeader
  | resStatus | reqMethod | reqCookie | resCookie | reqUa | reqReferer | reqAuth | reqForwarded
  | reqType | reqCharset | resCors | resType | resCharset | resMerge | resTrailer | attachment
  | cache | tls | urlRewrite | urlQuery | delete | reqBodySet | reqBodyPrepend | reqBodyAppend
  | reqBodyReplace | resBodySet | resBodyPrepend | resBodyAppend | resBodyReplace | inject
  | delayReq | delayRes | throttleReq | throttleRes | bypass | hide | tag | skip
  deriving DecidableEq, Repr

namespace ActionFamily

/-- All families in language order. -/
def all : List ActionFamily :=
  [.host, .upstream, .direct, .mock, .mapRemote, .status, .redirect, .reqHeader, .resHeader,
   .resStatus, .reqMethod, .reqCookie, .resCookie, .reqUa, .reqReferer, .reqAuth, .reqForwarded,
   .reqType, .reqCharset, .resCors, .resType, .resCharset, .resMerge, .resTrailer, .attachment,
   .cache, .tls, .urlRewrite, .urlQuery, .delete, .reqBodySet, .reqBodyPrepend, .reqBodyAppend,
   .reqBodyReplace, .resBodySet, .resBodyPrepend, .resBodyAppend, .resBodyReplace, .inject,
   .delayReq, .delayRes, .throttleReq, .throttleRes, .bypass, .hide, .tag, .skip]

/-- The dotted identifier. -/
def asStr : ActionFamily → Str
  | .host => "host"
  | .upstream => "upstream"
  | .direct => "direct"
  | .mock => "mock"
  | .mapRemote => "map.remote"
  | .status => "status"
  | .redirect => "redirect"
  | .reqHeader => "req.header"
  | .resHeader => "res.header"
  | .resStatus => "res.status"
  | .reqMethod => "req.method"
  | .reqCookie => "req.cookie"
  | .resCookie => "res.cookie"
  | .reqUa => "req.ua"
  | .reqReferer => "req.referer"
  | .reqAuth => "req.auth"
  | .reqForwarded => "req.forwarded"
  | .reqType => "req.type"
  | .reqCharset => "req.charset"
  | .resCors => "res.cors"
  | .resType => "res.type"
  | .resCharset => "res.charset"
  | .resMerge => "res.merge"
  | .resTrailer => "res.trailer"
  | .attachment => "attachment"
  | .cache => "cache"
  | .tls => "tls"
  | .urlRewrite => "url.rewrite"
  | .urlQuery => "url.query"
  | .delete => "delete"
  | .reqBodySet => "req.body.set"
  | .reqBodyPrepend => "req.body.prepend"
  | .reqBodyAppend => "req.body.append"
  | .reqBodyReplace => "req.body.replace"
  | .resBodySet => "res.body.set"
  | .resBodyPrepend => "res.body.prepend"
  | .resBodyAppend => "res.body.append"
  | .resBodyReplace => "res.body.replace"
  | .inject => "inject"
  | .delayReq => "delay.req"
  | .delayRes => "delay.res"
  | .throttleReq => "throttle.req"
  | .throttleRes => "throttle.res"
  | .bypass => "bypass"
  | .hide => "hide"
  | .tag => "tag"
  | .skip => "skip"

def phases : ActionFamily → List Phase
  | .delete | .hide | .tag | .skip => [.req, .res]
  | .resHeader | .resStatus | .resCookie | .resCors | .resType | .resCharset | .resMerge
  | .resTrailer | .attachment | .cache | .resBodySet | .resBodyPrepend | .resBodyAppend
  | .resBodyReplace | .inject | .delayRes | .throttleRes => [.res]
  | _ => [.req]

def resolution : ActionFamily → ResolutionPolicy
  | .reqHeader | .resHeader | .reqCookie | .resCookie | .resMerge | .resTrailer | .urlQuery
  | .delete | .reqBodySet | .reqBodyPrepend | .reqBodyAppend | .reqBodyReplace | .resBodySet
  | .resBodyPrepend | .resBodyAppend | .resBodyReplace | .inject | .tag | .skip => .stackable
  | _ => .firstWins

end ActionFamily

/-- A family equals the name or is nested under it. -/
def familyWithin (family name : Str) : Bool :=
  match stripPrefix name family with
  | some suffix => suffix.isEmpty || suffix.head? == some '.'
  | none => false

/-! ### Sets of families -/

structure ActionFamilySet where
  bits : BitVec 64
  deriving DecidableEq, Repr

namespace ActionFamilySet

def empty : ActionFamilySet := ⟨0⟩

/-- The complete set: one bit for each of the families. -/
def full : ActionFamilySet := ⟨(1 <<< ActionFamily.all.length) - 1⟩

def bit (family : ActionFamily) : BitVec 64 := 1#64 <<< family.ctorIdx

def contains (s : ActionFamilySet) (family : ActionFamily) : Bool :=
  s.bits &&& bit family != 0

def insert (s : ActionFamilySet) (family : ActionFamily) : ActionFamilySet :=
  ⟨s.bits ||| bit family⟩

def isEmpty (s : ActionFamilySet) : Bool := s.bits == 0

def union (s t : ActionFamilySet) : ActionFamilySet := ⟨s.bits ||| t.bits⟩

/-- The families a name of `skip` stands for; `none` when it names no family. -/
def fromPrefix (name : Str) : Option ActionFamilySet :=
  if name = "all" ∨ name = "*" then some full
  else
    let set := ActionFamily.all.foldl
      (fun set family => if familyWithin family.asStr name then set.insert family else set) empty
    if set.isEmpty then none else some set

end ActionFamilySet

/-! ### Families and their names -/

variable (family : ActionFamily) {f g : ActionFamily} (s : ActionFamilySet)

namespace ActionFamily

theorem mem_all : family ∈ all := by
  cases family <;> decide

theorem ctorIdx_lt : family.ctorIdx < all.length := by
  cases family <;> decide

theorem ctorIdx_inj (h : f.ctorIdx = g.ctorIdx) : f = g := by
  rw [← ofNat_ctorIdx f, ← ofNat_ctorIdx g, h]

/-- No two families share a name. -/
theorem asStr_inj (h : f.asStr = g.asStr) : f = g := by
  have hnodup : (all.map asStr).Nodup := by decide +kernel
  exact List.inj_on_of_nodup_map hnodup (mem_all f) (mem_all g) h

end ActionFamily

/-! ### Membership -/

namespace ActionFamilySet

/-- Masking with a family's bit reads that bit. -/
theorem contains_eq_getLsbD : s.contains f = s.bits.getLsbD f.ctorIdx := by
  have hlt : f.ctorIdx < 64 := Nat.lt_trans f.ctorIdx_lt (by decide)
  have hbit : BitVec.twoPow 64 f.ctorIdx ≠ 0#64 := by
    intro hzero
    have := congrArg (fun b => BitVec.getLsbD b f.ctorIdx) hzero
    simp [hlt] at this
  unfold contains bit
  rw [← BitVec.twoPow_eq, BitVec.and_twoPow]
  cases s.bits.getLsbD f.ctorIdx <;> simp [hbit]

@[simp] theorem contains_empty : empty.contains f = false := by
  simp [contains_eq_getLsbD, empty]

@[simp] theorem contains_full : full.contains f := by
  cases f <;> decide

@[simp] theorem contains_union (s t : ActionFamilySet) :
    (s.union t).contains f = (s.contains f || t.contains f) := by
  simp [contains_eq_getLsbD, union]

@[simp] theorem contains_insert : (s.insert f).contains g = (s.contains g || decide (g = f)) := by
  have hlt : f.ctorIdx < 64 := Nat.lt_trans f.ctorIdx_lt (by decide)
  have hbit : (bit f).getLsbD g.ctorIdx = decide (g = f) := by
    unfold bit
    rw [← BitVec.twoPow_eq]
    have heq : f.ctorIdx = g.ctorIdx ↔ g = f :=
      ⟨fun h => (ActionFamily.ctorIdx_inj h).symm, fun h => by rw [h]⟩
    simp [hlt, heq]
  simp [contains_eq_getLsbD, insert, hbit]

end ActionFamilySet

end RsProxy.Rules
