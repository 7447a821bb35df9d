import Mathlib.Data.Nat.Digits.Defs

/-!
# Ids and context tracks

The parts of `ids.go` that the track list and the daemon use, and the protobuf
messages they work on. Where the Go code panics, the definition gives `none`.
-/

namespace Librespot

/-- A Go error: its text, and whether `errors.Is(err, io.EOF)` holds of it. -/
structure Err where
  text : String
  isEOF : Bool := false
deriving DecidableEq, Repr

def Err.wrap (text : String) (err : Err) : Err := { err with text := text ++ err.text }

def ioEOF : Err := { text := "EOF", isEOF := true }

def ioErrUnexpectedEOF : Err := { text := "unexpected EOF" }

/-! ## Decimal numbers -/

def decimal (digits : List Char) : Option Nat :=
  if digits ≠ [] ∧ digits.all Char.isDigit then
    some (digits.foldl (fun n c => 10 * n + (c.toNat - '0'.toNat)) 0)
  else none

/-- `strconv.Atoi`, and `strconv.ParseInt` to 64 bits. -/
def atoi (text : String) : Option Int :=
  let n : Option Int :=
    match text.toList with
    | '-' :: digits => (decimal digits).map fun n => -n
    | '+' :: digits => (decimal digits).map fun n => n
    | digits => (decimal digits).map fun n => n
  n.filter fun n => -2 ^ 63 ≤ n ∧ n < 2 ^ 63

/-! ## Gids and uris -/

abbrev Bytes := List UInt8

/-- Any lower-case word can stand in a uri, so this is a string in the source too. -/
abbrev SpotifyIdType := String

structure SpotifyId where
  typ : SpotifyIdType
  id : Bytes
deriving DecidableEq, Repr

def base62Alphabet : List Char :=
  "0123456789abcdefghijklmnopqrstuvwxyzABCDEFGHIJKLMNOPQRSTUVWXYZ".toList

def bytesToNat (id : Bytes) : Nat := id.foldl (fun n b => 256 * n + b.toNat) 0

def text62 (n : Nat) : List Char :=
  if n = 0 then ['0'] else (Nat.digits 62 n).reverse.map fun d => base62Alphabet.getD d '0'

/-- Pads to 22 characters. `strings.Repeat` panics on a negative count. -/
def gidToBase62 (id : Bytes) : Option String :=
  let s := text62 (bytesToNat id)
  if s.length ≤ 22 then some (String.ofList (List.replicate (22 - s.length) '0' ++ s)) else none

def SpotifyId.uri (id : SpotifyId) : Option String :=
  (gidToBase62 id.id).map fun s => "spotify:" ++ id.typ ++ ":" ++ s

def spotifyIdFromGid (typ : SpotifyIdType) (id : Bytes) : Option SpotifyId :=
  if id.length = 16 then some ⟨typ, id⟩ else none

def gidUri (typ : SpotifyIdType) (gid : Bytes) : Option String :=
  (spotifyIdFromGid typ gid).bind SpotifyId.uri

/-- `UriRegexp.FindStringSubmatch`: the type and the id of `spotify:<type>:<21 or 22 digits>`. -/
def matchUri (uri : String) : Option (SpotifyIdType × List Char) :=
  let chars := uri.toList
  if chars.take 8 = "spotify:".toList then
    let rest := chars.drop 8
    let typ := rest.takeWhile Char.isLower
    match typ, rest.dropWhile Char.isLower with
    | _ :: _, ':' :: id =>
      if (id.length = 21 ∨ id.length = 22) ∧ id.all (base62Alphabet.contains ·) then
        some (String.ofList typ, id)
      else none
    | _, _ => none
  else none

def base62Value (id : List Char) : Nat :=
  id.foldl (fun n c => 62 * n + base62Alphabet.idxOf c) 0

def natToBytes16 (n : Nat) : Bytes := (List.range 16).map fun i => UInt8.ofNat (n / 256 ^ (15 - i))

/-- `FillBytes` panics when the value does not fit the 16 bytes. -/
def spotifyIdFromUri (uri : String) : Option (Except Err SpotifyId) :=
  match matchUri uri with
  | none => some (.error { text := "invalid uri: " ++ uri })
  | some (typ, id) =>
    if base62Value id < 256 ^ 16 then some (.ok ⟨typ, natToBytes16 (base62Value id)⟩) else none

/-- A `map[string]string`. A missing key reads as the empty string. -/
abbrev Metadata := List (String × String)

def Metadata.get (m : Metadata) (key : String) : String := (m.lookup key).getD ""

def Metadata.delete (m : Metadata) (key : String) : Metadata := m.filter (·.1 ≠ key)

def Metadata.set (m : Metadata) (key value : String) : Metadata := (key, value) :: m.delete key

/-- `connectpb.ContextTrack`. An absent string or byte field is empty. -/
structure ContextTrack where
  uri : String := ""
  uid : String := ""
  gid : Bytes := []
  metadata : Metadata := []
deriving DecidableEq, Repr

structure ProvidedTrack where
  uri : String
  uid : String
  metadata : Metadata
  artistUri : String
  albumUri : String
  provider : String
deriving DecidableEq, Repr

def contextTrackToProvidedTrack (typ : SpotifyIdType) (track : ContextTrack) :
    Option ProvidedTrack := do
  let uri ←
    if track.uri ≠ "" then some track.uri
    else if track.gid ≠ [] then gidUri typ track.gid
    else none
  let provider :=
    if track.metadata.get "is_queued" = "true" then "queue"
    else if track.metadata.get "autoplay.is_autoplay" = "true" then "autoplay"
    else "context"
  return {
    uri, uid := track.uid, metadata := track.metadata
    artistUri := track.metadata.get "artist_uri"
    albumUri := track.metadata.get "album_uri"
    provider }

structure ContextPage where
  tracks : List ContextTrack := []
  pageUrl : String := ""
  nextPageUrl : String := ""
deriving DecidableEq, Repr

structure Restrictions where
  togglingShuffle : Bool := false
  togglingRepeatTrack : Bool := false
  togglingRepeatContext : Bool := false
deriving DecidableEq, Repr

/-- `connectpb.Context`. A context without restrictions has none of the three. -/
structure Context where
  uri : String := ""
  url : String := ""
  pages : List ContextPage := []
  restrictions : Restrictions := {}
deriving DecidableEq, Repr

def contextUriType (uri : String) : String :=
  match uri.splitOn ":" with
  | "spotify" :: "user" :: _ :: typ :: _ => typ
  | "spotify" :: typ :: _ :: _ => typ
  | _ => ""

def inferSpotifyIdTypeFromContextUri (uri : String) : SpotifyIdType :=
  let typ := contextUriType uri
  if typ ∈ ["episode", "show", "chapter", "audiobook"] then "episode"
  else if typ ∈ ["album", "artist", "playlist", "track", "station", "dailymix", "collection", "top",
      "trackset", "list", "local", "concept", "running", "genre", "radio", "folder"] then
    if uri.endsWith ":collection:your-episodes" then "episode" else "track"
  else ""

def inferSpotifyIdTypeFromContext (ctx : Context) : SpotifyIdType :=
  if ctx.uri ≠ "" then inferSpotifyIdTypeFromContextUri ctx.uri
  else
    let items := ctx.pages.flatMap ContextPage.tracks
    let named := items.findSome? fun track =>
      (matchUri track.uri).bind fun (typ, _) =>
        if typ = "track" ∨ typ = "episode" then some typ else none
    named.getD (if items = [] then "" else "track")

end Librespot
