import Librespot.Ids.Range
import Librespot.Playlists.Pages
import Librespot.Tracks.Panics

/-!
# Contexts as they are decoded (`spclient/context_resolver.go`)

What comes off the wire has fields that are absent, maps that are nil, and `null` for a page or a
track, which is a nil pointer. Reading a nil map gives nothing, writing to one panics, and reading
through a nil pointer panics.
-/

open Base.Run
open Librespot.Tracks List Option

namespace Librespot.Playlists

open TrackList ContextResolver

structure DecodedTrack where
  uri : String := ""
  uid : String := ""
  gid : Bytes := []
  metadata : Option Metadata := none
deriving DecidableEq, Repr

structure DecodedPage where
  tracks : List (Option DecodedTrack) := []
  pageUrl : String := ""
  nextPageUrl : String := ""
deriving DecidableEq, Repr

structure DecodedContext where
  uri : String := ""
  url : String := ""
  pages : List (Option DecodedPage) := []
  metadata : Metadata := []
  loading : Bool := false
deriving DecidableEq, Repr

def DecodedTrack.track (t : DecodedTrack) : ContextTrack :=
  { uri := t.uri, uid := t.uid, gid := t.gid, metadata := t.metadata.getD [] }

/-- A nil track in the list, which panics where it is compared or shown. -/
def nilTrack : ContextTrack := { gid := [0] }

theorem nilTrack_panics (typ : SpotifyIdType) : contextTrackComparator typ nilTrack = none ∧
    (∀ target isTarget, contextTrackComparator typ target = some isTarget →
      isTarget nilTrack = none) ∧ contextTrackToProvidedTrack typ nilTrack = none := by
  have hgid : gidUri typ nilTrack.gid = none := gidUri_eq_none (by decide)
  refine ⟨?_, fun target isTarget h => ?_, (provided_eq_none _).mpr (by simp [Named, nilTrack])⟩
  · rw [comparator_eq, targetUri, if_pos (by decide), hgid]
    rfl
  · rw [comparator_eq] at h
    obtain ⟨uri, -, rfl⟩ := map_eq_some_iff.mp h
    unfold isSame
    rw [if_neg (by simp [nilTrack]), if_neg (by simp [nilTrack]), if_pos (by decide), hgid]
    rfl

def asTrack (t : Option DecodedTrack) : ContextTrack := t.elim nilTrack DecodedTrack.track

def DecodedPage.page (p : DecodedPage) : ContextPage :=
  { tracks := p.tracks.map asTrack, pageUrl := p.pageUrl, nextPageUrl := p.nextPageUrl }

/-! ## `NewContextResolver` -/

/-- A loop that returns at the first entry that gives a result, and panics where `f` does. -/
def visit {α β : Type} (f : α → Option (Option β)) : List α → Option (Option β)
  | [] => some none
  | a :: rest => (f a).bind fun res => res.elim (visit f rest) fun b => some (some b)

/-- Whether the loop returns at an entry, each of which it reads. -/
def returns {α : Type} (f : α → Bool) (l : List (Option α)) : Option Bool :=
  (visit (Option.map fun a => if f a then some () else none) l).map Option.isSome

def DecodedPage.resolvable (page : DecodedPage) : Bool :=
  0 < page.tracks.length || page.pageUrl ≠ "" || page.nextPageUrl ≠ ""

def hasResolvablePages : List (Option DecodedPage) → Option Bool := returns DecodedPage.resolvable

def countsTo (expected : Int) (pages : List (Option DecodedPage)) : Option Bool :=
  (returns (·.nextPageUrl ≠ "") pages).map fun more =>
    more || expected = (pages.reduceOption.map (·.tracks.length)).sum

structure ContextService where
  resolveUrl : String → Except Err DecodedContext
  resolve : String → Except Err DecodedContext

def isItemUri (uri : String) : Bool :=
  contextUriType uri ∈ ["track", "episode", "chapter"] && !hasPrefix uri "spotify:user:"

def DecodedTrack.markAutoplay (t : DecodedTrack) : Option DecodedTrack :=
  t.metadata.map fun metadata =>
    { t with metadata := some (metadata.set "autoplay.is_autoplay" "true") }

def DecodedPage.markAutoplay (p : DecodedPage) : Option DecodedPage :=
  (p.tracks.mapM fun t : Option DecodedTrack => t.bind DecodedTrack.markAutoplay).map fun tracks =>
    { p with tracks := tracks.map some }

namespace DecodedContext

def isTracksComplete (ctx : DecodedContext) : Option Bool :=
  match (ctx.metadata.lookup "playlist_number_of_tracks").bind atoi with
  | none => some true
  | some expected => if expected < 0 then some true else countsTo expected ctx.pages

/-- Whether the backend is asked for the context. -/
def asks (ctx : DecodedContext) : Option Bool := do
  if ctx.pages = [] then return true
  if !(← hasResolvablePages ctx.pages) then return true
  return !(← ctx.isTracksComplete)

def answer (svc : ContextService) (ctx : DecodedContext) : Except Err DecodedContext :=
  if hasPrefix ctx.url "hm://" then svc.resolveUrl ctx.url else svc.resolve ctx.uri

def copyMetadata (metadata : Metadata) (ctx : DecodedContext) : DecodedContext :=
  { ctx with metadata := metadata.foldl (fun m entry => m.set entry.1 entry.2) ctx.metadata }

def resolved (svc : ContextService) (ctx : DecodedContext) : Except Err DecodedContext :=
  match ctx.answer svc with
  | .error err => .error (err.wrap ("failed resolving context " ++ ctx.uri ++ ": "))
  | .ok new =>
    if new.loading then .error { text := "context " ++ new.uri ++ " is loading" }
    else .ok (new.copyMetadata ctx.metadata)

/-- A context without anything to read is the single item that its uri names. -/
def filled (ctx : DecodedContext) : Option (Except Err DecodedContext) := do
  if ← hasResolvablePages ctx.pages then return .ok ctx
  else if isItemUri ctx.uri then
    return .ok { ctx with pages :=
      [some { tracks := [some { uri := ctx.uri, metadata := some [] }] }] }
  else return .error { text := "context " ++ ctx.uri ++ " has no tracks" }

def isStation (ctx : DecodedContext) : Bool := hasPrefix ctx.uri "spotify:station:"

def marked (ctx : DecodedContext) : Option (List DecodedPage) :=
  ctx.pages.mapM fun page => page.bind fun page =>
    if ctx.isStation then page.markAutoplay else some page

def finish (ctx : DecodedContext) : Option (Except Err (List ContextPage)) := do
  match ← ctx.filled with
  | .error err => return .error err
  | .ok used => return .ok ((← used.marked).map DecodedPage.page)

end DecodedContext

namespace DecodedContext

end DecodedContext

section Loops

variable {α β : Type} {f : α → Option (Option β)} {l : List α}

variable {f : α → Bool} {l : List (Option α)}

end Loops

namespace DecodedContext

variable {ctx : DecodedContext}

end DecodedContext

namespace ContextResolver

variable {svc : Service} {r : ContextResolver}

end ContextResolver

/-! ## The list -/

/-- A call on the list, with the queue entries that a command carries. -/
inductive ListCall
  | list (op : TrackList.Op)
  | addToQueue (track : Option DecodedTrack)
  | setQueue (next : List (Option DecodedTrack))

def isQueued (t : DecodedTrack) : Bool := t.track.metadata.get "is_queued" = "true"

/-- The loop of `SetQueue` ends at the first entry that is not queued. -/
def readQueue : List (Option DecodedTrack) → Option Bool := returns fun t => !isQueued t

namespace ListCall

def decode : ListCall → Option TrackList.Op
  | .list op => some op
  | .addToQueue track => track.map fun t => .addToQueue t.track
  | .setQueue next => (readQueue next).map fun _ => .setQueue (next.map asTrack)

def step (g : Rand) (tl : TrackList) (call : ListCall) : Option TrackList :=
  call.decode.bind (TrackList.step g tl)

end ListCall

namespace ListCall

variable {g : Rand} {tl tl' : TrackList} {call : ListCall} {calls : List ListCall}
  {typ : SpotifyIdType} {first : TrackList.Op}

end ListCall

def radio : DecodedContext :=
  { uri := "spotify:station:track:a"
    pages := [some { tracks := [some { uri := "spotify:track:b" }] }] }

def single (track : ContextTrack) : Pages ContextTrack := fun idx =>
  if idx = 0 then .ok [track] else .error ContextResolver.eof

end Librespot.Playlists
