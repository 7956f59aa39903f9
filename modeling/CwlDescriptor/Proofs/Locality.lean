import CwlDescriptor.Proofs.Counters
import CwlDescriptor.Proofs.Expansion.Coupling
import CwlDescriptor.Proofs.Stores
set_option autoImplicit false

/-!
# An expansion depends on nothing but the files that it asks for

Which file an expansion asks for may depend on what it has found in the files before. So the files
that two expansions of one document ask for can be compared step by step only: as long as both
stores have given the same answers, the next request is the same. It follows that a store may be
changed in all places that are not asked for, and neither the outcome of the expansion nor anything
that it records changes.

## Main definitions

* `Expansion.asked`: the requests of a computation.
* `Request.answer?`: what a store answers to a request.
* `SourceFile.isAskedFor`: a file is asked for in some spelling of its path.
* `Coupling.relocated`: the coupling of the expansions over two stores.

## Main results

* `expand_local`: a change of files that are not asked for changes nothing.
-/

namespace CwlDescriptor

open Expansion Expander

/-! ## Requests and their answers -/

/-- What a store answers to a request: the text of the file, or nothing. -/
def Request.answer? (r : Request) (store : SourceStore) : Option String :=
  r.path.bind store.get?

/-- A file is asked for by one of the requests, in whatever way its path is spelled. -/
def SourceFile.isAskedFor (requests : List Request) (f : SourceFile) : Bool :=
  requests.any fun r => r.path.any fun path => Path.normalize path = Path.normalize f.path

/-- The files that are not asked for make no difference to the answers. -/
private lemma answer?_ofFiles_filter {requests : List Request} (files : List SourceFile)
    {r : Request} (hr : r ∈ requests) :
    r.answer? (.ofFiles (files.filter (SourceFile.isAskedFor requests))) =
      r.answer? (.ofFiles files) := by
  unfold Request.answer?
  cases hpath : r.path with
  | none => rfl
  | some path =>
    refine SourceStore.get?_ofFiles_filter fun f _ hf => ?_
    rw [SourceFile.isAskedFor, List.any_eq_true]
    exact ⟨r, hr, by simp [hpath, hf]⟩

/-! ## Two computations that ask for the same -/

section Asked

variable {α β : Type} {m m' : Expansion α} {f f' : α → Expansion β} {s t : ExpansionState}

/-- The requests that a computation makes if it begins in a state. -/
def Expansion.asked (m : Expansion α) (s : ExpansionState) : List Request :=
  (final m s).requests.drop s.requests.length

/-- A computation makes some requests, and another one does the same if all these are answered
alike. -/
def Expansion.DeterminedBy (alike : Request → Prop) (m m' : Expansion α) : Prop :=
  ∀ s, ∃ requests, (final m s).requests = s.requests ++ requests ∧
    ((∀ r ∈ requests, alike r) → m' s = m s)

namespace Expansion.DeterminedBy

variable {alike : Request → Prop}

/-- A computation that makes no request. -/
lemma of_silent (h : ∀ s, (final m s).requests = s.requests) : DeterminedBy alike m m :=
  fun s => ⟨[], by rw [h, List.append_nil], fun _ => rfl⟩

/-- If the requests of the first part are answered alike, then the second part begins alike. -/
lemma bind (hm : DeterminedBy alike m m') (hf : ∀ a, DeterminedBy alike (f a) (f' a)) :
    DeterminedBy alike (m >>= f) (m' >>= f') := by
  intro s
  obtain ⟨requests, hrequests, hsame⟩ := hm s
  cases hr : m s with
  | error e t =>
    refine ⟨requests, ?_, fun halike => ?_⟩
    · rw [final_bind_of_error hr, ← final_of_error hr, hrequests]
    · rw [bind_apply, bind_apply, hsame halike, hr]
  | ok a t =>
    obtain ⟨more, hmore, hsame'⟩ := hf a t
    refine ⟨requests ++ more, ?_, fun halike => ?_⟩
    · rw [final_bind_of_ok hr, hmore, ← final_of_ok hr, hrequests, List.append_assoc]
    · obtain ⟨hfirst, hsecond⟩ := List.forall_mem_append.1 halike
      rw [bind_apply, bind_apply, hsame hfirst, hr]
      exact hsame' hsecond

/-- The requests are those that the computation makes. -/
private lemma eq_of_asked (h : DeterminedBy alike m m') (s : ExpansionState)
    (halike : ∀ r ∈ m.asked s, alike r) : m' s = m s := by
  obtain ⟨requests, hrequests, hsame⟩ := h s
  apply hsame
  intro r hr
  apply halike
  rw [asked, hrequests, List.drop_left]
  exact hr

end Expansion.DeterminedBy

end Asked

/-! ## Other stores -/

/-- The same expander over another store. -/
def Expander.over (x : Expander) (store : SourceStore) : Expander := { x with store := store }

section Relocated

variable {x : Expander} {store : SourceStore}

/-- A computation that promises so asks for nothing more. -/
private lemma final_requests_of_ensures {α : Type} {m : Expansion α} {s : ExpansionState}
    {requests : List Request}
    (h : m.Ensures s (fun _ t => t.requests = requests) fun _ t => t.requests = requests) :
    (final m s).requests = requests := by
  unfold Ensures at h
  unfold final
  cases hr : m s <;> rw [hr] at h <;> exact h

/-- The check of the depth asks for no file. -/
private lemma final_checkDepth (frame : Frame) (s : ExpansionState) :
    (final (x.checkDepth frame) s).requests = s.requests := by
  apply final_requests_of_ensures
  apply checkDepth_ensures.weaken
  · rintro _ _ ⟨ws, rfl⟩
    rfl
  · rintro _ _ rfl
    rfl

/-- Claiming an id asks for no file. -/
private lemma final_claimId (es : Entries) (path : String) (s : ExpansionState) :
    (final (x.claimId es path) s).requests = s.requests := by
  unfold final
  rcases claimId_cases x es path s with ⟨id, -, -, h⟩ | ⟨-, h⟩ <;> rw [h] <;> rfl

/-- Asking for a file is one request, whatever comes of it. -/
private lemma final_loadFile (asDocument : Bool) (path : Option String) (s : ExpansionState) :
    (final (x.loadFile asDocument path) s).requests = s.requests ++ [⟨path, asDocument⟩] := by
  apply final_requests_of_ensures
  apply (loadFile_ensures asDocument path).weaken
  · rintro _ _ ⟨-, ws, rfl⟩
    rfl
  · rintro _ _ ⟨chars, ws, rfl⟩
    rfl

/-- The answer is all that matters of a store when a file is asked for. -/
private lemma loadFile_over {asDocument : Bool} {path : Option String}
    (h : Request.answer? ⟨path, asDocument⟩ store = Request.answer? ⟨path, asDocument⟩ x.store) :
    (x.over store).loadFile asDocument path = x.loadFile asDocument path := by
  unfold Request.answer? at h
  unfold loadFile
  rw [show (x.over store).store = store from rfl, h]
  rfl

variable (x store)

/-- The expansions of one document over two stores. -/
def Coupling.relocated : Coupling x (x.over store) where
  Related := DeterminedBy fun r => r.answer? store = r.answer? x.store
  pure _ := .of_silent fun _ => rfl
  throw _ := .of_silent fun _ => rfl
  bind := .bind
  merge := .of_silent fun _ => rfl
  checkDepth frame := .of_silent (final_checkDepth frame)
  loadFile asDocument path s := by
    refine ⟨_, final_loadFile asDocument path s, fun halike => ?_⟩
    rw [loadFile_over (halike _ (List.mem_singleton_self _))]
  claimId es path := .of_silent (final_claimId es path)
  read := .refl x

end Relocated

/-- **An expansion depends on nothing but the files that it asks for.** If another store gives the
same answer to every request of an expansion, then the expansion over that store has the same
outcome, be it a document or a failure, and ends in the same state: the same requests in the same
order, the same ids with their paths, and the same counters. In particular, files that are not asked
for may be added, removed, changed and moved.

**Proof sketch.** Both expansions begin alike, and they stay alike with every request that is
answered alike. Requests are never taken back, so that each request of a part of an expansion is one
of the whole. -/
theorem expand_local (x : Expander) (frame : Frame) (document : Node) (s : ExpansionState) :
    (∀ store, (∀ r ∈ (x.expand frame document).asked s, r.answer? store = r.answer? x.store) →
      (x.over store).expand frame document s = x.expand frame document s) ∧
    ∀ files files', x.store = .ofFiles files →
      files'.filter (SourceFile.isAskedFor ((x.expand frame document).asked s)) =
        files.filter (SourceFile.isAskedFor ((x.expand frame document).asked s)) →
      (x.over (.ofFiles files')).expand frame document s = x.expand frame document s := by
  have hlocal : ∀ store,
      (∀ r ∈ (x.expand frame document).asked s, r.answer? store = r.answer? x.store) →
      (x.over store).expand frame document s = x.expand frame document s := fun store =>
    ((Coupling.relocated x store).expandWithin_related x.limits.maxFiles .whole frame
      document).eq_of_asked s
  refine ⟨hlocal, fun files files' hstore hfiles => hlocal _ fun r hr => ?_⟩
  rw [← answer?_ofFiles_filter files' hr, hfiles, answer?_ofFiles_filter files hr, hstore]

/-- The file of `shelf`. -/
def shelfFiles : List SourceFile := [⟨"/f", "[]"⟩]

/-- The file of `shelf` with another spelling of its path. -/
def respelledFiles : List SourceFile := [⟨"//x/../f", "[]"⟩]

/-- The file of `shelf` and another one. -/
def widerFiles : List SourceFile := ⟨"g", "[1]"⟩ :: shelfFiles

/-- Two imports of the first file are expanded in the same way if its path is spelled differently,
and if there is a second file. -/
theorem shelf_expand_local :
    shelf.store = .ofFiles shelfFiles ∧ ∃ requests t,
      (shelf.expand (.root "/main") twice).asked {} = requests ∧
      requests = [⟨some "/f", true⟩, ⟨some "/f", true⟩] ∧
      (∀ r ∈ requests, r.answer? (.ofFiles respelledFiles) = r.answer? shelf.store) ∧
      widerFiles.filter (SourceFile.isAskedFor requests) =
        shelfFiles.filter (SourceFile.isAskedFor requests) ∧
      (shelf.over (.ofFiles respelledFiles)).expand (.root "/main") twice {} =
        .ok (.list [.list [], .list []]) t ∧
      (shelf.over (.ofFiles widerFiles)).expand (.root "/main") twice {} =
        .ok (.list [.list [], .list []]) t := by
  obtain ⟨t, h, hrequests⟩ : ∃ t, shelf.expand (.root "/main") twice {} =
      .ok (.list [.list [], .list []]) t ∧
        t.requests = [⟨some "/f", true⟩, ⟨some "/f", true⟩] := ⟨_, rfl, rfl⟩
  have hasked : (shelf.expand (.root "/main") twice).asked {} =
      [⟨some "/f", true⟩, ⟨some "/f", true⟩] := by
    rw [asked, final, h, hrequests]
    rfl
  obtain ⟨hstores, hlists⟩ := expand_local shelf (.root "/main") twice {}
  rw [hasked] at hstores hlists
  have halike : ∀ r ∈ [(⟨some "/f", true⟩ : Request), ⟨some "/f", true⟩],
      r.answer? (.ofFiles respelledFiles) = r.answer? shelf.store := by decide
  have hfiles : widerFiles.filter (SourceFile.isAskedFor [⟨some "/f", true⟩, ⟨some "/f", true⟩]) =
      shelfFiles.filter (SourceFile.isAskedFor [⟨some "/f", true⟩, ⟨some "/f", true⟩]) := by decide
  exact ⟨rfl, _, t, hasked, rfl, halike, hfiles, (hstores _ halike).trans h,
    (hlists _ _ rfl hfiles).trans h⟩

end CwlDescriptor
