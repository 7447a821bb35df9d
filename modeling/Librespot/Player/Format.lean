import Mathlib.Data.List.Induction
import Mathlib.Data.List.TakeWhile
import Librespot.Ids

/-!
# The file that is played

`selectBestMediaFormat` of `player/format.go`. The bitrate of a format that has none in the
table is 0. Where the code panics, the definition gives `none`.
-/

open List Option

namespace Librespot.Player

inductive AudioFileFormat
  | oggVorbis96 | oggVorbis160 | oggVorbis320
  | mp3256 | mp3320 | mp3160 | mp396 | mp3160Enc
  | aac24 | aac48 | flacFlac | xheAac24 | xheAac16 | xheAac12 | flacFlac24Bit
deriving DecidableEq, Repr

inductive AudioFormat
  | flac | oggVorbis | mp3 | aac
deriving DecidableEq, Repr

structure AudioFile where
  fileId : Bytes
  /-- An optional field, which is absent too where the server's value is not in the enum. -/
  format : Option AudioFileFormat
deriving DecidableEq, Repr

def getFormatBitrate : AudioFileFormat → Int
  | .mp396 => 96
  | .mp3160 => 160
  | .mp3256 => 256
  | .mp3320 => 320
  | .oggVorbis96 => 96
  | .oggVorbis160 => 160
  | .oggVorbis320 => 320
  | _ => 0

def getAudioFileFormatAudioFormat : AudioFileFormat → AudioFormat
  | .oggVorbis96 | .oggVorbis160 | .oggVorbis320 => .oggVorbis
  | .flacFlac | .flacFlac24Bit => .flac
  | .mp396 | .mp3160 | .mp3256 | .mp3320 | .mp3160Enc => .mp3
  | .aac24 | .aac48 | .xheAac12 | .xheAac16 | .xheAac24 => .aac

def absDist (a b : Int) : Int := if a > b then (a - b).bmod (2 ^ 64) else (b - a).bmod (2 ^ 64)

def isFlac (format : AudioFileFormat) : Bool := format == .flacFlac24Bit || format == .flacFlac

def selectFrom (preferredBitrate : Int) (flac : Bool) (best : Option (AudioFile × Int)) :
    List AudioFile → Option (Option AudioFile)
  | [] => some (best.map Prod.fst)
  | ff :: files => do
    let format ← ff.format
    if flac && isFlac format then some (some ff)
    else
      let dist := absDist (getFormatBitrate format) preferredBitrate
      if best.all (dist < ·.2) then selectFrom preferredBitrate flac (some (ff, dist)) files
      else selectFrom preferredBitrate flac best files

def selectBestMediaFormat (files : List AudioFile) (preferredBitrate : Int) (flac : Bool) :
    Option (Option AudioFile) :=
  selectFrom preferredBitrate flac none files

/-! ## Files that can be played -/

/-- The formats with a decoder in `NewStream`: Vorbis and MP3 of a known bitrate, and FLAC
where it is switched on. -/
def decodable (flac : Bool) (format : AudioFileFormat) : Bool :=
  match getAudioFileFormatAudioFormat format with
  | .oggVorbis | .mp3 => getFormatBitrate format ≠ 0
  | .flac => flac
  | .aac => false

def AudioFile.Decodable (flac : Bool) (file : AudioFile) : Prop :=
  file.format.any (decodable flac) = true

def AudioFile.Flac (file : AudioFile) : Prop := file.format.any isFlac = true

instance : DecidablePred AudioFile.Flac := fun _ => inferInstanceAs (Decidable (_ = true))

def AudioFile.bitrate (file : AudioFile) : Int := (file.format.map getFormatBitrate).getD 0

/-- The distance as it is computed. -/
def AudioFile.dist (preferredBitrate : Int) (file : AudioFile) : Int :=
  absDist file.bitrate preferredBitrate

theorem AudioFile.Flac.decodable {file : AudioFile} {flac : Bool} (hfile : file.Flac)
    (hon : flac = true) : file.Decodable flac := by
  obtain ⟨format, hformat, hflac⟩ := (any_eq_true _ _).mp hfile
  refine (any_eq_true _ _).mpr ⟨format, hformat, ?_⟩
  cases format <;> simp_all [isFlac, Player.decodable, getAudioFileFormatAudioFormat]

section Select

variable {preferredBitrate : Int} {flac : Bool} {files : List AudioFile}
  {best : Option (AudioFile × Int)}

def AudioFile.formatted (file : AudioFile) : Bool := file.format.isSome

/-- What the loop keeps of the best file so far and of another one. -/
def nearer (preferredBitrate : Int) (best : Option (AudioFile × Int)) (ff : AudioFile) :
    Option (AudioFile × Int) :=
  if best.all (ff.dist preferredBitrate < ·.2) then some (ff, ff.dist preferredBitrate) else best

/-- The first of the files whose distance is least. -/
def Nearest (preferredBitrate : Int) (files : List AudioFile) (file : AudioFile) : Prop :=
  ∃ before after, files = before ++ file :: after ∧
    (∀ f ∈ before, file.dist preferredBitrate < f.dist preferredBitrate) ∧
    ∀ f ∈ after, file.dist preferredBitrate ≤ f.dist preferredBitrate

theorem Nearest.mem {file : AudioFile} (h : Nearest preferredBitrate files file) : file ∈ files := by
  obtain ⟨before, after, rfl, -⟩ := h
  simp

theorem Nearest.le {file f : AudioFile} (h : Nearest preferredBitrate files file) (hf : f ∈ files) :
    file.dist preferredBitrate ≤ f.dist preferredBitrate := by
  obtain ⟨before, after, rfl, hbefore, hafter⟩ := h
  rcases mem_append.mp hf with hf | hf
  · exact (hbefore f hf).le
  · rcases mem_cons.mp hf with rfl | hf
    · exact le_rfl
    · exact hafter f hf

theorem Nearest.concat {file : AudioFile} (h : Nearest preferredBitrate files file)
    (ff : AudioFile) : Nearest preferredBitrate (files ++ [ff])
      (if ff.dist preferredBitrate < file.dist preferredBitrate then ff else file) := by
  split
  next hlt => exact ⟨files, [], rfl, fun f hf => hlt.trans_le (h.le hf), by simp⟩
  next hge =>
    obtain ⟨before, after, rfl, hbefore, hafter⟩ := h
    refine ⟨before, after ++ [ff], by simp, hbefore, fun f hf => ?_⟩
    rcases mem_append.mp hf with hf | hf
    · exact hafter f hf
    · exact mem_singleton.mp hf ▸ not_lt.mp hge

theorem Nearest.unique {file file' : AudioFile} (h : Nearest preferredBitrate files file)
    (h' : Nearest preferredBitrate files file') : file = file' := by
  obtain ⟨before, after, rfl, hbefore, hafter⟩ := h
  obtain ⟨before', after', heq, hbefore', hafter'⟩ := h'
  rcases append_eq_append_iff.mp heq with ⟨l, rfl, hl⟩ | ⟨l, rfl, hl⟩ <;>
    rcases l with _ | ⟨f, l⟩ <;> obtain ⟨rfl, rfl⟩ := cons_eq_cons.mp hl
  · rfl
  · exact absurd (hafter file' (by simp)) (not_le.mpr (hbefore' file (by simp)))
  · rfl
  · exact absurd (hafter' file (by simp)) (not_le.mpr (hbefore file' (by simp)))

theorem foldl_nearer (preferredBitrate : Int) (hne : files ≠ []) :
    ∃ file, Nearest preferredBitrate files file ∧
      files.foldl (nearer preferredBitrate) none = some (file, file.dist preferredBitrate) := by
  induction files using List.reverseRecOn with
  | nil => exact absurd rfl hne
  | append_singleton files ff ih =>
    rw [foldl_append]
    by_cases hnil : files = []
    · subst hnil
      exact ⟨ff, ⟨[], [], rfl, by simp, by simp⟩, rfl⟩
    · obtain ⟨file, hnearest, hfold⟩ := ih hnil
      refine ⟨_, hnearest.concat ff, ?_⟩
      simp only [hfold, foldl_cons, foldl_nil, nearer, all_some, decide_eq_true_eq]
      split <;> rfl

theorem selectFrom_cons (ff : AudioFile) :
    selectFrom preferredBitrate flac best (ff :: files) =
      if ff.formatted then
        if flac = true ∧ ff.Flac then some (some ff)
        else selectFrom preferredBitrate flac (nearer preferredBitrate best ff) files
      else none := by
  cases hformat : ff.format with
  | none => simp [selectFrom, AudioFile.formatted, hformat]
  | some format =>
    simp only [selectFrom, AudioFile.formatted, AudioFile.Flac, nearer, AudioFile.dist,
      AudioFile.bitrate, hformat, bind_eq_bind, bind_some, isSome_some, map_some, getD_some,
      any_some, if_true, Bool.and_eq_true]
    rw [apply_ite (fun b => selectFrom preferredBitrate flac b files)]

theorem selectFrom_flac (hon : flac = true)
    (hflac : ∃ f ∈ files.takeWhile AudioFile.formatted, f.Flac) :
    ∃ f ∈ files, f.Flac ∧ selectFrom preferredBitrate flac best files = some (some f) := by
  induction files generalizing best with
  | nil => simp at hflac
  | cons ff files ih =>
    obtain ⟨f, hf, hflac⟩ := hflac
    rw [takeWhile_cons] at hf
    split at hf
    next hformatted =>
      by_cases hff : ff.Flac
      · exact ⟨ff, mem_cons_self, hff,
          by rw [selectFrom_cons, if_pos hformatted, if_pos ⟨hon, hff⟩]⟩
      · have hf := (mem_cons.mp hf).resolve_left (by rintro rfl; exact hff hflac)
        obtain ⟨g, hg, hgflac, hselect⟩ := ih ⟨f, hf, hflac⟩
        refine ⟨g, mem_cons_of_mem _ hg, hgflac, ?_⟩
        rw [selectFrom_cons, if_pos hformatted, if_neg fun h => hff h.2, hselect]
    next => simp at hf

/-- Where no FLAC file is reached, a file without a format panics, and otherwise the first of the
nearest files is chosen. -/
theorem selectFrom_nearer
    (hnone : ¬ (flac = true ∧ ∃ f ∈ files.takeWhile AudioFile.formatted, f.Flac)) :
    selectFrom preferredBitrate flac best files =
      if files.all AudioFile.formatted then
        some ((files.foldl (nearer preferredBitrate) best).map Prod.fst)
      else none := by
  induction files generalizing best with
  | nil => simp [selectFrom]
  | cons ff files ih =>
    rw [selectFrom_cons]
    cases hformatted : ff.formatted with
    | false => simp [hformatted]
    | true =>
      rw [takeWhile_cons_of_pos hformatted] at hnone
      have hff : ¬ (flac = true ∧ ff.Flac) := fun h => hnone ⟨h.1, ff, mem_cons_self, h.2⟩
      rw [if_pos rfl, if_neg hff, ih fun ⟨hon, f, hf, hflac⟩ =>
        hnone ⟨hon, f, mem_cons_of_mem _ hf, hflac⟩]
      simp [hformatted]

structure Best (preferredBitrate : Int) (flac : Bool) (files : List AudioFile)
    (file : AudioFile) : Prop where
  mem : file ∈ files
  decodable : file.Decodable flac
  lossless : flac = true → (∃ f ∈ files, f.Flac) → file.Flac
  nearest : (flac = true → ∀ f ∈ files, ¬ f.Flac) → ∀ f ∈ files, f.Decodable flac →
    |file.bitrate - preferredBitrate| ≤ |f.bitrate - preferredBitrate|

/-- The choice is right exactly if there is nothing to decode, a FLAC file is wanted and stands
before every file without a format, or all files have a format and the first of the nearest ones
is decodable. The distance is that of 0 for formats that are not in the table; it wraps around only
for a bitrate near -2^63. -/
theorem selectBestMediaFormat_best_iff (preferredBitrate : Int) (flac : Bool)
    (files : List AudioFile) :
    ((∃ f ∈ files, f.Decodable flac) →
      ∃ file, selectBestMediaFormat files preferredBitrate flac = some (some file) ∧
        Best preferredBitrate flac files file) ↔
    (¬ ∃ f ∈ files, f.Decodable flac) ∨
    (flac = true ∧ ∃ f ∈ files.takeWhile AudioFile.formatted, f.Flac) ∨
    files.all AudioFile.formatted = true ∧
      ∃ d, Nearest preferredBitrate files d ∧ d.Decodable flac ∧
        ∀ f ∈ files, f.Decodable flac →
          |d.bitrate - preferredBitrate| ≤ |f.bitrate - preferredBitrate| := by
  by_cases hdecodable : ∃ f ∈ files, f.Decodable flac
  swap
  · simp only [hdecodable, false_implies, not_false_eq_true, true_or]
  by_cases hflac : flac = true ∧ ∃ f ∈ files.takeWhile AudioFile.formatted, f.Flac
  · refine iff_of_true (fun _ => ?_) (.inr (.inl hflac))
    obtain ⟨f, hf, hisFlac, hselect⟩ := selectFrom_flac hflac.1 hflac.2
    exact ⟨f, hselect, hf, hisFlac.decodable hflac.1, fun _ _ => hisFlac,
      fun hnone => absurd hisFlac (hnone hflac.1 f hf)⟩
  have hselect : selectBestMediaFormat files preferredBitrate flac = _ := selectFrom_nearer hflac
  simp only [hdecodable, hflac, true_implies, not_true_eq_false, false_or, hselect]
  split
  next hall =>
    have hwhole : files.takeWhile AudioFile.formatted = files :=
      takeWhile_eq_self_iff.mpr (by simpa using hall)
    rw [hwhole] at hflac
    obtain ⟨d, hd, hfold⟩ := foldl_nearer preferredBitrate (ne_nil_of_mem hdecodable.choose_spec.1)
    simp only [hall, true_and, hfold, map_some, some.injEq]
    constructor
    · rintro ⟨_, rfl, h⟩
      exact ⟨_, hd, h.decodable, h.nearest fun hon f hf hisFlac => hflac ⟨hon, f, hf, hisFlac⟩⟩
    · rintro ⟨file, hfile, hdec, hle⟩
      obtain rfl := hd.unique hfile
      exact ⟨_, rfl, hd.mem, hdec, fun hon hex => absurd ⟨hon, hex⟩ hflac, fun _ => hle⟩
  next hnot => simp [hnot]

end Select

def oggVorbis320File : AudioFile := ⟨[2], some .oggVorbis320⟩

def aac24File : AudioFile := ⟨[1], some .aac24⟩

/-- With 160 preferred the two are equally far, and the AAC file stands first. -/
theorem undecodable_selected :
    selectBestMediaFormat [aac24File, oggVorbis320File] 160 false = some (some aac24File) ∧
      decodable false .aac24 = false ∧ decodable false .oggVorbis320 = true ∧
      selectBestMediaFormat [⟨[3], none⟩, oggVorbis320File] 160 false = none := by
  decide

end Librespot.Player
