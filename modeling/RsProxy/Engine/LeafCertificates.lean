import Mathlib.Data.List.Forall2
import RsProxy.Data.Machine
import RsProxy.Text.Case

/-!
# The files of leaf certificates

The certificate, the chain and the key of a host are kept in files that are named after it. The name
has the letters of the host in lower case, its digits, dots and hyphens, and underscores for all
else. What tells the three files apart stands behind the name, where a host may have it, too.
-/

namespace RsProxy.Engine

open Text Data List Bool

/-! ### The code -/

def leafCacheChar (c : Char) : Char :=
  if c.isAlphanum || c == '.' || c == '-' || c == '_' then c.toLower else '_'

def leafCacheName (host : Str) : Str := host.map leafCacheChar

inductive LeafFile where
  | cert
  | chain
  | key
deriving DecidableEq

/-- What stands between the name of the host and `.pem`. -/
def LeafFile.mark : LeafFile → Str
  | .cert => []
  | .chain => "-chain"
  | .key => "-key"

/-- The files that are written before this one. -/
def LeafFile.earlier : LeafFile → List LeafFile
  | .cert => []
  | .chain => [.cert]
  | .key => [.cert, .chain]

def leafPath (host : Str) (file : LeafFile) : Str :=
  leafCacheName host ++ file.mark ++ ".pem".toList

abbrev LeafFiles := Str → Option Str

structure LeafRequest where
  host : Str
  /-- The texts that are generated for the host, if the issuer has any. -/
  issued : Option (LeafFile → Str)
  /-- The write that fails, if one does, and what it leaves in the file. -/
  failure : Option (LeafFile × Option Str)

def LeafFiles.present (files : LeafFiles) (host : Str) : Bool :=
  [LeafFile.cert, .key, .chain].all fun file => (files (leafPath host file)).isSome

/-- The paths of the chain and the key, or none after an error. -/
def ensureLeafCertificate (files : LeafFiles) (request : LeafRequest) :
    Option (Str × Str) × LeafFiles :=
  let path := leafPath request.host
  if files.present request.host then (some (path .chain, path .key), files)
  else
    match request.issued with
    | none => (none, files)
    | some issued =>
      let write (files : LeafFiles) (file : LeafFile) : LeafFiles :=
        Function.update files (path file) (some (issued file))
      match request.failure with
      | none => (some (path .chain, path .key), [LeafFile.cert, .chain, .key].foldl write files)
      | some (file, left) =>
        let files := file.earlier.foldl write files
        (none, left.elim files fun left => Function.update files (path file) (some left))

structure LeafStore where
  files : LeafFiles
  /-- What was generated last for a host in lower case. -/
  latest : Str → Option (LeafFile → Str)

def LeafStore.request (s : LeafStore) (request : LeafRequest) : LeafStore where
  files := (ensureLeafCertificate s.files request).2
  latest :=
    if s.files.present request.host then s.latest
    else request.issued.elim s.latest fun issued =>
      Function.update s.latest (toAsciiLowercase request.host) (some issued)

def leafMachine : Machine LeafStore LeafRequest where
  initial := ⟨fun _ => none, fun _ => none⟩
  step s request := some (s.request request)

/-! ### Hosts that look alike -/

/-- The character is an underscore in the names of files. -/
def isReplaced (c : Char) : Bool := !(c.isAlphanum || c == '.' || c == '-')

def LooksLike (a b : Str) : Prop :=
  Forall₂ (fun c d => c.toLower = d.toLower ∨ isReplaced c ∧ isReplaced d) a b

/-- The hosts look different, also when one of them or both go on like the names of files. -/
def Apart (a b : Str) : Prop := ∀ f g : LeafFile, ¬ LooksLike (a ++ f.mark) (b ++ g.mark)

theorem isReplaced_iff {c} :
    isReplaced c ↔ ¬(65 ≤ c.toNat ∧ c.toNat ≤ 90) ∧ ¬(97 ≤ c.toNat ∧ c.toNat ≤ 122) ∧
      ¬(45 ≤ c.toNat ∧ c.toNat ≤ 57 ∧ c.toNat ≠ 47) := by
  have hdot : '.'.toNat = 46 := rfl
  have hhyphen : '-'.toNat = 45 := rfl
  simp only [isReplaced, not_eq_true', ← not_eq_true, or_eq_true, isAlphanum_iff,
    beq_iff_eq, ← Char.toNat_inj]
  omega

theorem isReplaced_toLower {c} : isReplaced c.toLower = isReplaced c := by
  rw [Bool.eq_iff_iff, isReplaced_iff, isReplaced_iff, toNat_toLower]
  split <;> omega

theorem leafCacheChar_eq {c} : leafCacheChar c = if isReplaced c then '_' else c.toLower := by
  unfold leafCacheChar isReplaced
  by_cases hc : c = '_'
  · subst hc
    rfl
  · cases hkept : c.isAlphanum || c == '.' || c == '-' <;> simp_all

theorem leafCacheChar_eq_iff {c d} :
    leafCacheChar c = leafCacheChar d ↔ c.toLower = d.toLower ∨ isReplaced c ∧ isReplaced d := by
  have hkept {c d : Char} (h : c.toLower = d.toLower) : isReplaced c = isReplaced d := by
    rw [← isReplaced_toLower, h, isReplaced_toLower]
  have hunderscore {c : Char} (h : '_' = c.toLower) : isReplaced c := by
    rw [← isReplaced_toLower, ← h]
    rfl
  rw [leafCacheChar_eq, leafCacheChar_eq]
  cases hc : isReplaced c <;> cases hd : isReplaced d <;> grind

variable {f g : LeafFile}

/-- The files of two hosts have one name exactly if the hosts look alike, with what tells the files
apart. -/
theorem leafPath_eq_iff {a b} :
    leafPath a f = leafPath b g ↔ LooksLike (a ++ f.mark) (b ++ g.mark) := by
  have hmark (f : LeafFile) : f.mark.map leafCacheChar = f.mark := by cases f <;> rfl
  have hname (host : Str) (f : LeafFile) :
      leafCacheName host ++ f.mark = (host ++ f.mark).map leafCacheChar := by
    rw [map_append, hmark, leafCacheName]
  rw [leafPath, leafPath, append_left_inj, hname, hname, ← forall₂_eq_eq_eq,
    forall₂_map_left_iff, forall₂_map_right_iff, LooksLike]
  simp [leafCacheChar_eq_iff]

theorem leafPath_congr {a b} (h : toAsciiLowercase a = toAsciiLowercase b) :
    leafPath a = leafPath b := by
  have hname (host : Str) : leafCacheName (toAsciiLowercase host) = leafCacheName host := by
    rw [leafCacheName, toAsciiLowercase, map_map]
    exact map_congr_left fun c _ => leafCacheChar_eq_iff.mpr (.inl (toLower_toLower c))
  funext file
  rw [leafPath, leafPath, ← hname a, h, hname]

/-! ### Whole runs -/

/-- A request for one of these hosts. A write that fails leaves its file as it was or complete. -/
def LeafRequest.Regular (hosts : Set Str) (request : LeafRequest) : Prop :=
  request.host ∈ hosts ∧ ∀ file left, request.failure = some (file, some left) →
    request.issued.map (· file) = some left

/-- A host that has a key has the files that were generated last. -/
def LeafStore.Kept (hosts : Set Str) (s : LeafStore) : Prop :=
  ∀ host ∈ hosts, (s.files (leafPath host .key)).isSome →
    ∃ issued, s.latest (toAsciiLowercase host) = some issued ∧
      ∀ file, s.files (leafPath host file) = some (issued file)

theorem leafPath_inj {host} : leafPath host f = leafPath host g ↔ f = g := by
  rw [leafPath, leafPath, append_left_inj, append_right_inj]
  cases f <;> cases g <;> decide

section Requests

variable {files : LeafFiles} {request : LeafRequest}

/-- A request touches the files of its host only. -/
theorem ensureLeafCertificate_frame {path} (h : ∀ file, path ≠ leafPath request.host file) :
    (ensureLeafCertificate files request).2 path = files path := by
  unfold ensureLeafCertificate
  split
  · rfl
  · split
    · rfl
    · split
      · simp [h]
      next file left _ => cases file <;> cases left <;> simp [LeafFile.earlier, h]

/-- What is generated is written whole, or the key is not written. -/
theorem ensureLeafCertificate_generates {issued} (habsent : files.present request.host = false)
    (hissued : request.issued = some issued)
    (hfailure : ∀ file left, request.failure = some (file, some left) → issued file = left) :
    (∀ file, (ensureLeafCertificate files request).2 (leafPath request.host file) =
        some (issued file)) ∨
      (ensureLeafCertificate files request).1 = none ∧
        (ensureLeafCertificate files request).2 (leafPath request.host .key) =
          files (leafPath request.host .key) := by
  simp only [ensureLeafCertificate, habsent, hissued]
  cases hfails : request.failure with
  | none =>
    left
    intro file
    cases file <;> simp [leafPath_inj]
  | some failure =>
    obtain ⟨file, left⟩ := failure
    cases left with
    | none =>
      cases file <;> simp [LeafFile.earlier, leafPath_inj]
    | some left =>
      have hleft := hfailure file left hfails
      cases file with
      | cert | chain =>
        simp [LeafFile.earlier, leafPath_inj]
      | key =>
        left
        intro file
        cases file <;> simp [LeafFile.earlier, leafPath_inj, hleft]

theorem ensureLeafCertificate_paths {chainPath keyPath}
    (h : (ensureLeafCertificate files request).1 = some (chainPath, keyPath)) :
    chainPath = leafPath request.host .chain ∧ keyPath = leafPath request.host .key ∧
      ((ensureLeafCertificate files request).2 (leafPath request.host .key)).isSome := by
  cases hpresent : files.present request.host with
  | true =>
    have hkey := hpresent
    simp only [LeafFiles.present, all_cons, and_eq_true] at hkey
    simp only [ensureLeafCertificate, hpresent] at h ⊢
    cases h
    exact ⟨rfl, rfl, hkey.2.1⟩
  | false =>
    cases hissued : request.issued with
    | none => simp [ensureLeafCertificate, hpresent, hissued] at h
    | some issued =>
      cases hfails : request.failure with
      | some failure => simp [ensureLeafCertificate, hpresent, hissued, hfails] at h
      | none =>
        simp only [ensureLeafCertificate, hpresent, hissued, hfails] at h ⊢
        cases h
        simp

end Requests

variable {hosts : Set Str} {s : LeafStore} {request : LeafRequest}

theorem LeafStore.Kept.step
    (hapart : ∀ a ∈ hosts, ∀ b ∈ hosts, toAsciiLowercase a ≠ toAsciiLowercase b → Apart a b)
    (h : s.Kept hosts) (hregular : request.Regular hosts) : (s.request request).Kept hosts := by
  intro host hhost hkey
  by_cases hsame : toAsciiLowercase host = toAsciiLowercase request.host
  · -- the files of the request; where they are generated, a key would have kept them
    rw [leafPath_congr hsame] at hkey ⊢
    rw [hsame]
    cases hpresent : s.files.present request.host with
    | true =>
      simp only [LeafStore.request, ensureLeafCertificate, hpresent] at hkey ⊢
      exact h request.host hregular.1 hkey
    | false =>
      cases hissued : request.issued with
      | none =>
        simp only [LeafStore.request, ensureLeafCertificate, hpresent, hissued] at hkey ⊢
        exact h request.host hregular.1 hkey
      | some issued =>
        have hfailure (file : LeafFile) (left : Str)
            (hfails : request.failure = some (file, some left)) : issued file = left := by
          have hleft := hregular.2 file left hfails
          rw [hissued] at hleft
          exact Option.some.inj hleft
        rcases ensureLeafCertificate_generates hpresent hissued hfailure with hall | ⟨-, hold⟩
        · refine ⟨issued, ?_, hall⟩
          simp [LeafStore.request, hpresent, hissued]
        · simp only [LeafStore.request, hold] at hkey
          obtain ⟨last, -, hfiles⟩ := h request.host hregular.1 hkey
          simp [LeafFiles.present, hfiles] at hpresent
  · have hframe (file : LeafFile) :
        (s.request request).files (leafPath host file) = s.files (leafPath host file) := by
      refine ensureLeafCertificate_frame fun other heq => ?_
      exact hapart host hhost request.host hregular.1 hsame _ _ (leafPath_eq_iff.mp heq)
    have hlatest : (s.request request).latest (toAsciiLowercase host) =
        s.latest (toAsciiLowercase host) := by
      rw [LeafStore.request]
      split
      · rfl
      · cases request.issued with
        | none => rfl
        | some issued => exact Function.update_of_ne hsame _ _
    simp only [hframe, hlatest] at hkey ⊢
    exact h host hhost hkey

/-- Two hosts share no file exactly if they look different, with the ends of the names of files too.
Among such hosts, and where failed writes leave no part of a file, the chain and the key that a
request returns are those generated last for its host. -/
theorem leafFiles_apart (a b : Str) (hosts : Set Str) :
    (toAsciiLowercase a ≠ toAsciiLowercase b →
      ((∀ f g, leafPath a f ≠ leafPath b g) ↔ Apart a b)) ∧
    ((∀ a ∈ hosts, ∀ b ∈ hosts, toAsciiLowercase a ≠ toAsciiLowercase b → Apart a b) →
      ∀ s request chainPath keyPath, leafMachine.Reachable (LeafRequest.Regular hosts) s →
        request.Regular hosts →
        (ensureLeafCertificate s.files request).1 = some (chainPath, keyPath) →
        ∃ issued, (s.request request).latest (toAsciiLowercase request.host) = some issued ∧
          (s.request request).files chainPath = some (issued .chain) ∧
          (s.request request).files keyPath = some (issued .key)) := by
  refine ⟨fun _ => ?_, fun hapart s request chainPath keyPath hreach hregular hpaths => ?_⟩
  · simp [Apart, ← leafPath_eq_iff]
  · have hkept : s.Kept hosts := by
      refine hreach.invariant ?_ ?_
      · intro host _ hkey
        cases hkey
      · rintro s s' request - hs hrequest ⟨⟩
        exact hs.step hapart hrequest
    obtain ⟨rfl, rfl, hkey⟩ := ensureLeafCertificate_paths hpaths
    obtain ⟨issued, hlatest, hfiles⟩ := hkept.step hapart hregular request.host hregular.1 hkey
    exact ⟨issued, hlatest, hfiles .chain, hfiles .key⟩

/-- A request for a host, whose name is part of what is generated for it. -/
def sampleLeafRequest (host : Str) : LeafRequest := ⟨host, some fun file => file.mark ++ host, none⟩

theorem leafFiles_apart_of_two :
    let s := (leafMachine.initial.request (sampleLeafRequest "a.test")).request
      (sampleLeafRequest "b.test")
    let s' := s.request (sampleLeafRequest "A.test")
    ∃ issued, s'.latest "a.test" = some issued ∧
      s'.files "a.test-chain.pem" = some (issued .chain) ∧
      s'.files "a.test-key.pem" = some (issued .key) := by
  intro s
  let hosts := ["a.test".toList, "A.test", "b.test"]
  let files := [LeafFile.cert, .chain, .key]
  have hfile (file : LeafFile) : file ∈ files := by cases file <;> decide
  have hapart : ∀ a ∈ hosts, ∀ b ∈ hosts, toAsciiLowercase a ≠ toAsciiLowercase b →
      ∀ f ∈ files, ∀ g ∈ files, leafPath a f ≠ leafPath b g := by decide +kernel
  have hregular (host : Str) (hhost : host ∈ hosts) :
      (sampleLeafRequest host).Regular (fun host => host ∈ hosts) := ⟨hhost, nofun⟩
  refine (leafFiles_apart [] [] fun host => host ∈ hosts).2 ?_ s
    (sampleLeafRequest "A.test") _ _ ?_ (hregular _ (by decide)) (by decide +kernel)
  · intro a ha b hb hne
    refine ((leafFiles_apart a b ∅).1 hne).mp fun f g => ?_
    exact hapart a ha b hb hne f (hfile f) g (hfile g)
  · exact (Machine.Reachable.initial.step (hregular _ (by decide)) rfl).step
      (hregular _ (by decide)) rfl

/-- The certificate of `a.test-key` stands where the key of `a.test` should be. -/
theorem leafFiles_collide :
    toAsciiLowercase "a.test" ≠ toAsciiLowercase "a.test-key" ∧
      leafPath "a.test" .key = leafPath "a.test-key" .cert ∧
      let s := (leafMachine.initial.request (sampleLeafRequest "a.test")).request
        (sampleLeafRequest "a.test-key")
      (ensureLeafCertificate s.files (sampleLeafRequest "a.test")).1 =
          some ("a.test-chain.pem".toList, "a.test-key.pem".toList) ∧
        (s.latest "a.test").map (fun issued => issued .key) = some "-keya.test".toList ∧
        s.files "a.test-key.pem" = some "a.test-key".toList := by
  decide +kernel

end RsProxy.Engine
