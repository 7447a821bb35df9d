import Librespot.Base.Hex
import Librespot.Ids.RoundTrip

/-!
# The pages of a playlist (`spclient/playlist_context.go`, `spclient/context_resolver.go`)

Where the Go code panics, the definition gives `none`.
-/

open List Option
open Base.Hex

namespace Librespot.Playlists

def hasPrefix (s start : String) : Bool := start.toList.isPrefixOf s.toList

def trimPrefix (s start : String) : List Char :=
  if hasPrefix s start then s.toList.drop start.toList.length else s.toList

def cutQuery (s : List Char) : List Char × List Char :=
  (s.takeWhile (· ≠ '?'), (s.dropWhile (· ≠ '?')).drop 1)

/-! ## The playlist service -/

structure Item where
  uri : String
  itemId : Bytes
  addedBy : String := ""
  timestamp : Option Int := none
  formatAttributes : List (String × String) := []
deriving DecidableEq, Repr

structure SelectedListContent where
  ownerUsername : String := ""
  items : List Item
  pos : Int
  truncated : Bool
deriving DecidableEq, Repr

/-- The backend. `playlist` gets the path and the query of a request, `page` the url of a page that
is not one of a playlist. -/
structure Service where
  playlist : List Char → List Char → Except Err SelectedListContent
  page : String → Except Err ContextPage

def playlistPageSize : Nat := 50

def playlistPageUrlPrefix : String := "hm://playlist/v2/playlist/"

def playlistPageUrl (playlist : SpotifyId) (start : Int) : Option String :=
  (gidToBase62 playlist.id).map fun id => playlistPageUrlPrefix ++ id ++ "?from=" ++
    toString start ++ "&length=" ++ toString playlistPageSize

def isPlaylistPageUrl (url : String) : Bool := hasPrefix url playlistPageUrlPrefix

def Service.getPlaylist (svc : Service) (pageUrl : String) : Except Err SelectedListContent :=
  if hasPrefix pageUrl "hm://" then
    let (path, query) := cutQuery (trimPrefix pageUrl "hm://")
    svc.playlist path query
  else .error { text := "invalid hm url: " ++ pageUrl }

def contextTrack (owner : String) (item : Item) : ContextTrack :=
  let uid := hexEncode item.itemId
  let addedBy := if item.addedBy = "" then owner else item.addedBy
  let metadata : Metadata := [("added_by_username", addedBy), ("highlight_id", uid)]
  let metadata :=
    match item.timestamp with
    | some timestamp => metadata.set "added_at" (toString timestamp)
    | none => metadata
  { uri := item.uri, uid
    metadata := item.formatAttributes.foldl (fun metadata attr => metadata.set attr.1 attr.2)
      metadata }

def playlistContextPage (playlist : SpotifyId) (list : SelectedListContent) :
    Option ContextPage := do
  let tracks := list.items.map (contextTrack list.ownerUsername)
  if list.truncated ∧ 0 < list.items.length then
    let next ← playlistPageUrl playlist (list.pos + list.items.length)
    return { tracks, nextPageUrl := next }
  else return { tracks }

def playlistPage (svc : Service) (pageUrl : String) : Option (Except Err ContextPage) := do
  let base62 := (cutQuery (trimPrefix pageUrl playlistPageUrlPrefix)).1
  match ← spotifyIdFromBase62 "playlist" (String.ofList base62) with
  | .error err =>
    return .error (err.wrap ("invalid playlist page url " ++ pageUrl ++ ": "))
  | .ok playlist =>
    match svc.getPlaylist pageUrl with
    | .error err => return .error err
    | .ok list =>
      let page ← playlistContextPage playlist list
      return .ok page

/-! ## The context resolver -/

structure ContextResolver where
  pages : List ContextPage
  requests : List String := []
deriving DecidableEq, Repr

namespace ContextResolver

def loadPage (svc : Service) (url : String) : Option (Except Err ContextPage) :=
  if hasPrefix url "hm://" then
    if isPlaylistPageUrl url then
      (playlistPage svc url).map fun res =>
        res.mapError (Err.wrap ("failed requesting page at " ++ url ++ ": "))
    else some (svc.page url)
  else some (.error { text := "invalid page url: " ++ url })

def eof : Err := { text := "EOF", isEOF := true }

/-- The loop of `Page`. Every round adds one page, so `n` of them are needed. -/
def grow (svc : Service) : Nat → ContextResolver → Option (Except Err Unit × ContextResolver)
  | 0, r => some (.ok (), r)
  | n + 1, r =>
    match r.pages.getLast? with
    | none => some (.error eof, r)
    | some last =>
      if last.nextPageUrl = "" then some (.error eof, r)
      else do
        let asked := { r with requests := r.requests ++ [last.nextPageUrl] }
        match ← loadPage svc last.nextPageUrl with
        | .error err => some (.error (err.wrap "failed fetching next page: "), asked)
        | .ok page => grow svc n { asked with pages := asked.pages ++ [page] }

/-- The end of `Page`: a page without tracks is loaded from its own url. -/
def tracksAt (svc : Service) (idx : Nat) (r : ContextResolver) :
    Option (Except Err (List ContextTrack) × ContextResolver) := do
  let page ← r.pages[idx]?
  if page.tracks.length = 0 then
    if page.pageUrl = "" then
      some (.error { text := "invalid empty page without url" }, r)
    else
      let asked := { r with requests := r.requests ++ [page.pageUrl] }
      match ← loadPage svc page.pageUrl with
      | .error err => some (.error (err.wrap "failed fetching page: "), asked)
      | .ok page => some (.ok page.tracks, { asked with pages := asked.pages.set idx page })
  else some (.ok page.tracks, r)

def page (svc : Service) (idx : Int) (r : ContextResolver) :
    Option (Except Err (List ContextTrack) × ContextResolver) :=
  if idx < 0 then some (.error { text := "invalid page index " ++ toString idx }, r)
  else do
    match ← grow svc (idx.toNat + 1 - r.pages.length) r with
    | (.error err, r) => some (.error err, r)
    | (.ok _, r) => tracksAt svc idx.toNat r

end ContextResolver

/-! ## The url of a page -/

def playlistPath (id : List Char) : List Char := "playlist/v2/playlist/".toList ++ id

def pageQuery (start : Nat) : List Char := ("from=" ++ toString start ++ "&length=50").toList

def pageUrl (id : List Char) (start : Nat) : String :=
  String.ofList (playlistPageUrlPrefix.toList ++ (id ++ '?' :: pageQuery start))

variable {playlist : SpotifyId} {page : ContextPage}

section Url

variable {id : List Char} (hmark : '?' ∉ id) (start : Nat)
include hmark

end Url

/-! ## Reading every page -/

/-- The service gives the playlist in parts: asked for what begins at item `start`, it gives
`len start` items, or what there is, and says whether there are more. -/
structure Serves (svc : Service) (id : List Char) (owner : String) (items : List Item)
    (len : Nat → Nat) : Prop where
  positive : ∀ start < items.length, 0 < len start
  answers : ∀ start < items.length, svc.playlist (playlistPath id) (pageQuery start) = .ok {
    ownerUsername := owner, items := (items.drop start).take (len start), pos := start
    truncated := start + len start < items.length }

namespace ContextResolver

variable {svc : Service} {id : List Char} {owner : String} {items : List Item} {len : Nat → Nat}

variable {start : Nat} {r : ContextResolver}

theorem tracksAt_filled {idx : Nat} (hpage : r.pages[idx]? = some page)
    (hne : page.tracks ≠ []) : tracksAt svc idx r = some (.ok page.tracks, r) := by
  have hlength : ¬ page.tracks.length = 0 := fun h => hne (length_eq_zero_iff.mp h)
  simp only [tracksAt, hpage, bind_eq_bind, bind_some, if_neg hlength]

theorem page_again {idx : Nat} (hpage : r.pages[idx]? = some page)
    (hne : page.tracks ≠ []) : ContextResolver.page svc idx r = some (.ok page.tracks, r) := by
  have hlt := (List.getElem?_eq_some_iff.mp hpage).1
  have hnone : (idx : Int).toNat + 1 - r.pages.length = 0 := by
    rw [Int.toNat_natCast]
    omega
  rw [ContextResolver.page, if_neg (by omega), hnone]
  simp only [grow, bind_eq_bind, bind_some, Int.toNat_natCast]
  exact tracksAt_filled hpage hne

theorem grow_last (r : ContextResolver) :
    ((r.pages.length : Nat) : Int).toNat + 1 - r.pages.length = 1 := by
  rw [Int.toNat_natCast]
  omega

end ContextResolver

end Librespot.Playlists
