import Librespot.Tracks.ListedTwice
import Librespot.Tracks.QueueHint

/-!
# Which calls on the list panic

A track is shown by its uri or by a gid of 16 bytes, and a search compares it by them. A call
panics exactly if it comes to a track that it cannot show or compare.
-/

open Base.Run List Option

namespace Librespot

variable {typ : SpotifyIdType}

theorem gidUri_eq_none {gid : Bytes} (h : gid.length ≠ 16) : gidUri typ gid = none := by
  simp [gidUri, spotifyIdFromGid, h]

theorem provided_eq_none (typ : SpotifyIdType) {track : ContextTrack} :
    contextTrackToProvidedTrack typ track = none ↔ ¬ Named track := by
  constructor
  · intro h hnamed
    obtain ⟨shown, hshown⟩ := provided_of_named typ hnamed
    simp [hshown] at h
  · intro h
    obtain ⟨huri, hlen⟩ := not_or.mp h
    simp [contextTrackToProvidedTrack, not_not.mp huri, gidUri_eq_none hlen]

namespace Tracks.TrackList

variable {tl : TrackList} {page : Pages ContextTrack} {track : ContextTrack}

/-- The tracks that `Snapshot` converts. -/
def published (page : Pages ContextTrack) (nextHint : Option (List ContextTrack))
    (tl : TrackList) : List ContextTrack :=
  tl.current.toList ++ (behind maxTracksInContext tl.tracks ++ tl.shown page nextHint)

end Tracks.TrackList

end Librespot
