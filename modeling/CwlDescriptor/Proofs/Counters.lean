import CwlDescriptor.Proofs.Expansion.Contract
set_option autoImplicit false

/-!
# What an expansion counts

With strict limits the two counters of an expansion follow from the files that were asked for: one
counts all of them, found or not, and the other one counts the characters of those that were looked
up and found. Only a request can make a counter exceed its limit, and such a request ends the
expansion. So both counters are within their limits wherever an expansion succeeds, and wherever it
fails for another reason.

## Main definitions

* `Limits.Admit`: the counters of a state are within the limits.
* `Expander.characters`: the number of characters of the texts that are found for requests.
* `Expander.lookedUp`: the requests that are looked up.
* `Expander.Counts`: the counters follow from the requests.
* `Expander.Overruns`: the last request ends an expansion since it exceeds a limit.
* `Contract.counting`: what every part of an expansion counts.

## Main results

* `expand_counts`: the counters of an expansion, whether it succeeds or fails.
-/

namespace CwlDescriptor

open Expansion Expander

/-- Both counters are within their limits. -/
structure Limits.Admit (l : Limits) (s : ExpansionState) : Prop where
  files : s.fileCount ≤ l.maxFiles
  characters : s.charCount ≤ l.maxCharacters

namespace Expander

/-- The number of characters of the texts that are found for requests. -/
def characters (x : Expander) (requests : List Request) : Nat :=
  ((requests.filterMap fun r => r.path.bind x.store.get?).map Text.length).sum

/-- The characters of two runs of requests add up. -/
private lemma characters_append (x : Expander) (rs rs' : List Request) :
    x.characters (rs ++ rs') = x.characters rs + x.characters rs' := by
  unfold characters
  rw [List.filterMap_append, List.map_append, List.sum_append]

/-- The requests that are looked up, of those made from the state `s` on. With strict limits, a file
is not looked up if it is one file too many. -/
def lookedUp (x : Expander) (s : ExpansionState) (requests : List Request) : List Request :=
  requests.take (x.limits.maxFiles - s.fileCount)

/-- The requests between two states, from which the two counters follow. -/
structure Counts (x : Expander) (s : ExpansionState) (asked : List Request)
    (t : ExpansionState) : Prop where
  requests : t.requests = s.requests ++ asked
  fileCount : t.fileCount = s.fileCount + asked.length
  charCount : t.charCount = s.charCount + x.characters (x.lookedUp s asked)

/-- The last of the requests between two states fails, and by this ends an expansion, since it
exceeds the limit on files or that on characters. After each of the requests before it both counters
were within their limits. -/
def Overruns (x : Expander) (s : ExpansionState) (requests : List Request) (e : Failure)
    (t : ExpansionState) : Prop :=
  ∃ earlier last u, requests = earlier ++ [last] ∧ u.requests = s.requests ++ earlier ∧
    x.loadFile last.asDocument last.path u = .error e t ∧
    e = .refuse (if x.limits.maxFiles < t.fileCount
      then .limitExceeded .files x.limits.maxFiles
      else .limitExceeded .characters x.limits.maxCharacters) last.path ∧
    ∀ before, before <+: earlier → s.fileCount + before.length ≤ x.limits.maxFiles ∧
      s.charCount + x.characters before ≤ x.limits.maxCharacters

end Expander

/-! ## One request -/

section Request

variable {x : Expander} {s t : ExpansionState} {asDocument : Bool} {path : Option String}

/-- A request that succeeds is counted, and the characters of what it has found are; this exceeds no
limit. -/
private lemma loadFile_ok_counts (hstrict : x.strict = true) {content : Option String}
    (h : x.loadFile asDocument path s = .ok content t) :
    t.requests = s.requests ++ [⟨path, asDocument⟩] ∧ t.fileCount = s.fileCount + 1 ∧
      t.charCount = s.charCount + x.characters [⟨path, asDocument⟩] ∧
      (x.limits.Admit s → x.limits.Admit t) := by
  rw [loadFile_strict hstrict] at h
  by_cases hf : x.limits.maxFiles < s.fileCount + 1
  · simp [hf] at h
  rw [if_neg hf] at h
  cases hget : path.bind x.store.get? with
  | none =>
    rw [hget] at h
    cases h
    exact ⟨rfl, rfl, by simp [characters, hget, counted], fun hs =>
      ⟨Nat.not_lt.1 hf, hs.characters⟩⟩
  | some text =>
    rw [hget] at h
    by_cases hc : x.limits.maxCharacters < s.charCount + Text.length text
    · simp [hc] at h
    simp only [if_neg hc] at h
    cases h
    exact ⟨rfl, rfl, by simp [characters, hget, charged, counted], fun _ =>
      ⟨Nat.not_lt.1 hf, Nat.not_lt.1 hc⟩⟩

/-- A request that fails is one file too many and is not looked up, or what it has found has too
many characters. -/
private lemma loadFile_error_counts (hstrict : x.strict = true) {e : Failure}
    (h : x.loadFile asDocument path s = .error e t) :
    t.requests = s.requests ++ [⟨path, asDocument⟩] ∧ t.fileCount = s.fileCount + 1 ∧
      ((x.limits.maxFiles < t.fileCount ∧ t.charCount = s.charCount ∧
          e = .refuse (.limitExceeded .files x.limits.maxFiles) path) ∨
        (t.fileCount ≤ x.limits.maxFiles ∧
          t.charCount = s.charCount + x.characters [⟨path, asDocument⟩] ∧
          e = .refuse (.limitExceeded .characters x.limits.maxCharacters) path)) := by
  rw [loadFile_strict hstrict] at h
  by_cases hf : x.limits.maxFiles < s.fileCount + 1
  · rw [if_pos hf] at h
    cases h
    exact ⟨rfl, rfl, .inl ⟨hf, rfl, rfl⟩⟩
  rw [if_neg hf] at h
  cases hget : path.bind x.store.get? with
  | none =>
    rw [hget] at h
    cases h
  | some text =>
    rw [hget] at h
    by_cases hc : x.limits.maxCharacters < s.charCount + Text.length text
    · simp only [if_pos hc] at h
      cases h
      exact ⟨rfl, rfl, .inr ⟨Nat.not_lt.1 hf, by simp [characters, hget, charged, counted], rfl⟩⟩
    · simp [hc] at h

end Request

/-! ## Runs of requests -/

/-- All requests between two states have succeeded: each was counted, the characters of what was
found were, and this exceeded no limit. -/
def Passed (x : Expander) (s t : ExpansionState) : Prop :=
  ∃ requests, t.requests = s.requests ++ requests ∧
    t.fileCount = s.fileCount + requests.length ∧
    t.charCount = s.charCount + x.characters requests ∧ (x.limits.Admit s → x.limits.Admit t)

namespace Passed

variable {x : Expander} {s t u : ExpansionState}

/-- Counters are right if nothing has been requested. -/
lemma of_eq (hr : t.requests = s.requests) (hf : t.fileCount = s.fileCount)
    (hc : t.charCount = s.charCount) : Passed x s t :=
  ⟨[], by simp [hr], by simp [hf], by simp [hc, characters], fun hs =>
    ⟨hf ▸ hs.files, hc ▸ hs.characters⟩⟩

/-- Two runs of requests one after another are counted like one. -/
lemma trans (h : Passed x s t) (h' : Passed x t u) : Passed x s u := by
  obtain ⟨rs, hr, hf, hc, ha⟩ := h
  obtain ⟨rs', hr', hf', hc', ha'⟩ := h'
  refine ⟨rs ++ rs', ?_, ?_, ?_, fun hs => ha' (ha hs)⟩
  · rw [hr', hr, List.append_assoc]
  · rw [hf', hf, List.length_append, Nat.add_assoc]
  · rw [hc', hc, characters_append, Nat.add_assoc]

/-- The load of a file is counted like its request. -/
private lemma of_loadFile (hstrict : x.strict = true) {asDocument : Bool}
    {path content : Option String} (h : x.loadFile asDocument path s = .ok content t) :
    Passed x s t :=
  ⟨_, loadFile_ok_counts hstrict h⟩

/-- Behind requests that have succeeded, the counters follow from the requests. -/
lemma counts (h : Passed x s t) (hs : x.limits.Admit s) :
    x.limits.Admit t ∧ ∃ requests, x.Counts s requests t := by
  obtain ⟨rs, hr, hf, hc, ha⟩ := h
  refine ⟨ha hs, rs, hr, hf, ?_⟩
  have hlength : rs.length ≤ x.limits.maxFiles - s.fileCount := by
    have := (ha hs).files
    omega
  rw [hc, lookedUp, List.take_of_length_le hlength]

end Passed

/-- With strict limits, every computation passes all its requests, or the last one fails and all
before it have passed. -/
def Contract.counting (x : Expander) (hstrict : x.strict = true) : Contract x where
  ready _ _ := True
  success := Passed x
  failure e s t := Passed x s t ∨
    ∃ (last : Request) (u : ExpansionState), Passed x s u ∧
      x.loadFile last.asDocument last.path u = .error e t
  refl _ := .of_eq rfl rfl rfl
  trans := Passed.trans
  failure_trans h h' := h'.imp h.trans fun ⟨last, u, hu, he⟩ => ⟨last, u, h.trans hu, he⟩
  ready_of_success _ _ := trivial
  exhausted _ := .inl (.of_eq rfl rfl rfl)
  checkDepth frame s := by
    refine checkDepth_ensures.weaken ?_ ?_
    · rintro _ _ ⟨ws, rfl⟩
      exact .of_eq rfl rfl rfl
    · rintro _ _ rfl
      exact .inl (.of_eq rfl rfl rfl)
  claimId es path s := by
    rcases claimId_cases x es path s with ⟨id, -, -, h⟩ | ⟨-, h⟩
    · exact .of_ok h (.of_eq rfl rfl rfl)
    · exact .of_ok h (.of_eq rfl rfl rfl)
  loadFile _ asDocument path s _ := by
    cases h : x.loadFile asDocument path s with
    | ok content t => exact .of_ok h ⟨.of_loadFile hstrict h, trivial⟩
    | error e t => exact .of_error h (.inr ⟨⟨path, asDocument⟩, s, .of_eq rfl rfl rfl, h⟩)
  merge _ := .of_eq rfl rfl rfl
  read _ _ _ _ _ _ _ := .inl (.of_eq rfl rfl rfl)
  shown _ _ _ _ := .inl (.of_eq rfl rfl rfl)

/-- A request that fails behind requests that have succeeded is counted like them, and it alone may
exceed a limit. -/
private lemma counts_of_error {x : Expander} (hstrict : x.strict = true) {s u t : ExpansionState}
    (hs : x.limits.Admit s) (hu : Passed x s u) {last : Request} {e : Failure}
    (h : x.loadFile last.asDocument last.path u = .error e t) :
    ∃ requests, x.Counts s requests t ∧ t.fileCount ≤ x.limits.maxFiles + 1 ∧
      x.Overruns s requests e t := by
  obtain ⟨earlier, hr, hf, hc, ha⟩ := hu
  obtain ⟨hfiles, hchars⟩ := ha hs
  obtain ⟨hr', hf', hcases⟩ := loadFile_error_counts hstrict h
  have hbefore : ∀ before, before <+: earlier → s.fileCount + before.length ≤ x.limits.maxFiles ∧
      s.charCount + x.characters before ≤ x.limits.maxCharacters := by
    rintro before ⟨after, rfl⟩
    rw [List.length_append] at hf
    rw [characters_append] at hc
    constructor <;> omega
  have hlength : (earlier ++ [last]).length = earlier.length + 1 := by simp
  refine ⟨earlier ++ [last], ⟨?_, ?_, ?_⟩, by omega, earlier, last, u, rfl, hr, h, ?_, hbefore⟩
  · rw [hr', hr, List.append_assoc]
  · rw [hf', hf, hlength, Nat.add_assoc]
  · rcases hcases with ⟨hover, hc', -⟩ | ⟨hwithin, hc', -⟩
    · -- the limit on files is reached before the last request, which is not looked up
      have hall : x.limits.maxFiles - s.fileCount = earlier.length := by omega
      rw [hc', hc, lookedUp, hall, List.take_left]
    · rw [lookedUp, List.take_of_length_le (by omega), hc', hc, characters_append, Nat.add_assoc]
  · rcases hcases with ⟨hover, -, he⟩ | ⟨hwithin, -, he⟩
    · rw [if_pos hover, he]
    · rw [if_neg (Nat.not_lt.2 hwithin), he]

/-- **The counters of an expansion.** With strict limits, and from counters within them, the files
that are asked for are counted, and so are the characters of those that are looked up and found.
Where the expansion succeeds, both counters are within their limits. Where it fails, no more than
one file beyond the limit was asked for, and a counter exceeds its limit only if the last request
has ended the expansion for this reason.

**Proof sketch.** By `Contract.counting` every computation passes its requests, or ends with one
that fails; the first request beyond a limit is the one that fails. -/
theorem expand_counts (x : Expander) (hstrict : x.strict = true) (frame : Frame)
    (document : Node) (s : ExpansionState) (hs : x.limits.Admit s) :
    (x.expand frame document).Ensures s
      (fun _ t => x.limits.Admit t ∧ ∃ requests, x.Counts s requests t)
      (fun e t => ∃ requests, x.Counts s requests t ∧ t.fileCount ≤ x.limits.maxFiles + 1 ∧
        (¬ x.limits.Admit t → x.Overruns s requests e t)) := by
  have h := (Contract.counting x hstrict).expandWithin_meets x.limits.maxFiles .whole frame
    document s trivial
  refine Ensures.weaken h (fun r t ht => ht.1.counts hs) fun e t ht => ?_
  rcases ht with hpassed | ⟨last, u, hu, he⟩
  · obtain ⟨hlimits, requests, hcounts⟩ := hpassed.counts hs
    exact ⟨requests, hcounts, Nat.le_succ_of_le hlimits.files, fun hnot => absurd hlimits hnot⟩
  · obtain ⟨requests, hcounts, hfiles, hoverruns⟩ := counts_of_error hstrict hs hu he
    exact ⟨requests, hcounts, hfiles, fun _ => hoverruns⟩

/-- A repository of which one file may be asked for. -/
def narrowShelf : Expander := { shelf with limits := { maxFiles := 1 } }

/-- A list of two imports of the same file. -/
def twice : Node :=
  .list [.map [(.str "$import", .str "f")], .map [(.str "$import", .str "f")]]

/-- The second request is one file too many, and is not looked up. -/
theorem narrowShelf_expand_counts :
    narrowShelf.strict = true ∧ narrowShelf.limits.Admit {} ∧
      ∃ e t, narrowShelf.expand (.root "/main") twice {} = .error e t ∧ t.fileCount = 2 ∧
        t.charCount = 2 ∧ ∃ requests, narrowShelf.Counts {} requests t ∧
          narrowShelf.Overruns {} requests e t := by
  have hlimits : narrowShelf.limits.Admit {} := ⟨Nat.zero_le _, Nat.zero_le _⟩
  obtain ⟨e, t, h, hfiles, hchars⟩ : ∃ e t, narrowShelf.expand (.root "/main") twice {} =
      .error e t ∧ t.fileCount = 2 ∧ t.charCount = 2 := ⟨_, _, rfl, rfl, rfl⟩
  have hcounts := expand_counts narrowShelf rfl (.root "/main") twice {} hlimits
  unfold Ensures at hcounts
  rw [h] at hcounts
  obtain ⟨requests, hrequests, -, hoverruns⟩ := hcounts
  have hnot : ¬ narrowShelf.limits.Admit t := by
    intro ht
    have hle : t.fileCount ≤ 1 := ht.files
    omega
  exact ⟨rfl, hlimits, e, t, h, hfiles, hchars, requests, hrequests, hoverruns hnot⟩

end CwlDescriptor
