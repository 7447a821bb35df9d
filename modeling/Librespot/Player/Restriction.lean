import Librespot.Ids

/-!
# Restricted media

`isMediaRestricted` of `player/restriction.go` and `getUnrestrictedTrack` of
`player/player.go`. A country list is a text of two-letter codes without separators. Where
the code panics, the definition gives `none`.
-/

open List Option

namespace Librespot.Player

inductive CountryRestriction
  | countriesAllowed (list : Bytes)
  | countriesForbidden (list : Bytes)
  | unset
deriving DecidableEq, Repr

def lowerByte (b : UInt8) : UInt8 := if 65 ≤ b ∧ b ≤ 90 then b + 32 else b

/-- `strings.EqualFold` on two bytes, of which one pair is two ASCII letters. -/
def equalFold (code country : Bytes) : Bool := code.map lowerByte == country.map lowerByte

/-- The last slice `list[i:i+2]` of a list of odd length is out of range. -/
def contains (country : Bytes) : Bytes → Option Bool
  | [] => some false
  | [_] => none
  | a :: b :: rest => if equalFold [a, b] country then some true else contains country rest

/-- Every case of the switch leaves the function, so the loop sees the first entry only. -/
def isMediaRestricted (restriction : List CountryRestriction) (country : Bytes) : Option Bool :=
  if country.length ≠ 2 then some false
  else match restriction with
    | [] => some false
    | .countriesAllowed list :: _ =>
      if list.length = 0 then some true else (contains country list).map (! ·)
    | .countriesForbidden list :: _ => contains country list
    | .unset :: _ => none

/-! ## Tracks and their alternatives -/

/-- The fields that `getUnrestrictedTrack` reads of a track or copies from an alternative. -/
structure Recording where
  gid : Bytes
  file : List Bytes
  preview : List Bytes
  originalAudio : Option Bytes
  restriction : List CountryRestriction
deriving DecidableEq, Repr

structure TrackMeta extends Recording where
  alternative : List Recording
deriving DecidableEq, Repr

def errMediaRestricted : Err := { text := "media is restricted" }

def TrackMeta.play (trackMeta : TrackMeta) (alt : Recording) : TrackMeta :=
  { trackMeta with
    alternative := []
    gid := alt.gid
    file := alt.file
    preview := alt.preview
    originalAudio := alt.originalAudio }

def firstUnrestricted (country : Bytes) : List Recording → Option (Option Recording)
  | [] => some none
  | alt :: alts => do
    if ← isMediaRestricted alt.restriction country then firstUnrestricted country alts
    else some (some alt)

def getUnrestrictedTrack (fetched : Except Err TrackMeta) (country : Bytes) :
    Option (Except Err TrackMeta) :=
  match fetched with
  | .error err => some (.error (err.wrap "failed getting track metadata: "))
  | .ok trackMeta => do
    if ← isMediaRestricted trackMeta.restriction country then
      match ← firstUnrestricted country trackMeta.alternative with
      | some alt => some (.ok (trackMeta.play alt))
      | none => some (.error errMediaRestricted)
    else some (.ok trackMeta)

/-! ## What the entries say -/

def TwoLetters (country : Bytes) : Prop :=
  country.length = 2 ∧ ∀ b ∈ country, 97 ≤ lowerByte b ∧ lowerByte b ≤ 122

instance (country : Bytes) : Decidable (TwoLetters country) := by
  have := List.decidableBAll (fun b => 97 ≤ lowerByte b ∧ lowerByte b ≤ 122) country
  exact instDecidableAnd

def codes : Bytes → List Bytes
  | a :: b :: rest => [a, b] :: codes rest
  | _ => []

def names (country list : Bytes) : Bool := (codes list).any (equalFold · country)

def excludes (country : Bytes) : CountryRestriction → Bool
  | .countriesAllowed list => !names country list
  | .countriesForbidden list => names country list
  | .unset => false

def Readable (country : Bytes) : CountryRestriction → Prop
  | .countriesAllowed list | .countriesForbidden list =>
    list.length % 2 = 0 ∨ names country list = true
  | .unset => False

def FirstDecides (country : Bytes) : List CountryRestriction → Prop
  | [] => True
  | entry :: rest =>
    Readable country entry ∧ (excludes country entry = true ∨ rest.any (excludes country) = false)

theorem names_cons (country : Bytes) (a b : UInt8) (rest : Bytes) :
    names country (a :: b :: rest) = (equalFold [a, b] country || names country rest) := rfl

theorem contains_eq_some_iff (country list : Bytes) (found : Bool) :
    contains country list = some found ↔
      (list.length % 2 = 0 ∨ names country list = true) ∧ names country list = found := by
  induction list using contains.induct country with
  | case1 | case2 => simp [contains, names, codes]
  | case3 _ _ _ heq => simp [contains, names_cons, heq]
  | case4 a b rest hne ih =>
    have hlen : (a :: b :: rest).length % 2 = rest.length % 2 := by
      simp only [length_cons]; omega
    rw [contains, if_neg hne, ih, names_cons, hlen]
    simp [hne]

variable {country : Bytes}

theorem isMediaRestricted_cons_iff (hcountry : country.length = 2) (entry : CountryRestriction)
    (rest : List CountryRestriction) (verdict : Bool) :
    isMediaRestricted (entry :: rest) country = some verdict ↔
      Readable country entry ∧ excludes country entry = verdict := by
  unfold isMediaRestricted
  rw [if_neg (not_not.mpr hcountry)]
  cases entry with
  | countriesAllowed list =>
    cases list with
    | nil => simp [Readable, excludes, names, codes]
    | cons =>
      simp only [length_cons, Nat.add_eq_zero_iff, one_ne_zero, and_false, if_false,
        map_eq_some_iff, contains_eq_some_iff, Readable, excludes]
      grind
  | countriesForbidden list => exact contains_eq_some_iff country list verdict
  | unset => simp [Readable]

theorem isMediaRestricted_eq_any_iff (hcountry : country.length = 2)
    (restriction : List CountryRestriction) :
    isMediaRestricted restriction country = some (restriction.any (excludes country)) ↔
      FirstDecides country restriction := by
  cases restriction with
  | nil => simp [isMediaRestricted, FirstDecides]
  | cons entry =>
    rw [isMediaRestricted_cons_iff hcountry, any_cons, FirstDecides]
    cases excludes country entry <;> simp

theorem firstUnrestricted_spec {alts : List Recording} {alt : Recording}
    (h : firstUnrestricted country alts = some (some alt)) :
    alt ∈ alts ∧ isMediaRestricted alt.restriction country = some false := by
  induction alts with
  | nil => simp [firstUnrestricted] at h
  | cons _ _ ih =>
    simp only [firstUnrestricted, Option.bind_eq_bind, Option.bind_eq_some_iff] at h
    obtain ⟨restricted, hrestricted, h⟩ := h
    cases restricted with
    | true =>
      obtain ⟨hmem, halt⟩ := ih h
      exact ⟨List.mem_cons_of_mem _ hmem, halt⟩
    | false =>
      cases h
      exact ⟨List.mem_cons_self, hrestricted⟩

theorem getUnrestrictedTrack_spec {fetched : Except Err TrackMeta} {played : TrackMeta}
    (h : getUnrestrictedTrack fetched country = some (.ok played)) :
    ∃ trackMeta, fetched = .ok trackMeta ∧
      (played = trackMeta ∧ isMediaRestricted trackMeta.restriction country = some false ∨
        ∃ alt ∈ trackMeta.alternative, played = trackMeta.play alt ∧
          isMediaRestricted alt.restriction country = some false) := by
  cases fetched with
  | error => simp [getUnrestrictedTrack] at h
  | ok trackMeta =>
    refine ⟨trackMeta, rfl, ?_⟩
    simp only [getUnrestrictedTrack, Option.bind_eq_bind, Option.bind_eq_some_iff] at h
    obtain ⟨restricted, hrestricted, h⟩ := h
    cases restricted with
    | false =>
      cases h
      exact .inl ⟨rfl, hrestricted⟩
    | true =>
      obtain ⟨alt?, halt, h⟩ := Option.bind_eq_some_iff.mp h
      cases alt? with
      | none => cases h
      | some alt =>
        cases h
        obtain ⟨hmem, hfree⟩ := firstUnrestricted_spec halt
        exact .inr ⟨alt, hmem, rfl, hfree⟩

theorem unexcluded_iff (hcountry : country.length = 2) {restriction : List CountryRestriction}
    (h : isMediaRestricted restriction country = some false) :
    (∀ entry ∈ restriction, excludes country entry = false) ↔
      FirstDecides country restriction := by
  rw [← isMediaRestricted_eq_any_iff hcountry, h, some.injEq, eq_comm, List.any_eq_false]
  simp

/-- The verdict is that of all entries exactly where the first one can be read and decides,
and what is returned has no entry against the country exactly there. -/
theorem restricted_iff_excluded_of_first {country : Bytes} (hcountry : TwoLetters country) :
    (∀ restriction,
      isMediaRestricted restriction country = some (restriction.any (excludes country)) ↔
        FirstDecides country restriction) ∧
    ∀ fetched played, getUnrestrictedTrack fetched country = some (.ok played) →
      ∃ trackMeta, fetched = .ok trackMeta ∧
        ∃ chosen ∈ trackMeta.toRecording :: trackMeta.alternative,
          (played.gid = chosen.gid ∧ played.file = chosen.file ∧ played.preview = chosen.preview ∧
            played.originalAudio = chosen.originalAudio) ∧
          ((∀ entry ∈ chosen.restriction, excludes country entry = false) ↔
            FirstDecides country chosen.restriction) := by
  refine ⟨isMediaRestricted_eq_any_iff hcountry.1, ?_⟩
  intro fetched played h
  obtain ⟨trackMeta, rfl, ⟨rfl, hfree⟩ | ⟨alt, hmem, rfl, hfree⟩⟩ := getUnrestrictedTrack_spec h
  · exact ⟨played, rfl, played.toRecording, mem_cons_self, ⟨rfl, rfl, rfl, rfl⟩,
      unexcluded_iff hcountry.1 hfree⟩
  · exact ⟨trackMeta, rfl, alt, mem_cons_of_mem _ hmem, ⟨rfl, rfl, rfl, rfl⟩,
      unexcluded_iff hcountry.1 hfree⟩

theorem restricted_iff_excluded_at_germany :
    TwoLetters [68, 69] ∧
      FirstDecides [68, 69] [.countriesAllowed [83, 69, 100, 101]] ∧
      isMediaRestricted [.countriesAllowed [83, 69, 100, 101]] [68, 69] = some false ∧
      ¬ FirstDecides [68, 69]
        [.countriesAllowed [83, 69, 100, 101], .countriesForbidden [68, 69]] := by
  have hfirst : FirstDecides [68, 69] [.countriesAllowed [83, 69, 100, 101]] :=
    ⟨.inl rfl, .inr rfl⟩
  have hgermany := restricted_iff_excluded_of_first (by decide +kernel : TwoLetters [68, 69])
  refine ⟨by decide +kernel, hfirst, (hgermany.1 _).mpr hfirst, ?_⟩
  rw [← hgermany.1]
  decide

/-- A later entry against the country is not seen, so the track is returned; an entry without
a list, and an odd list, panic. -/
theorem later_entry_ignored :
    isMediaRestricted [.countriesForbidden [70, 82], .countriesForbidden [68, 69]] [68, 69] =
        some false ∧
      excludes [68, 69] (.countriesForbidden [68, 69]) = true ∧
      getUnrestrictedTrack (.ok ⟨⟨[1], [], [], none,
        [.countriesForbidden [70, 82], .countriesForbidden [68, 69]]⟩, []⟩) [68, 69] =
        some (.ok ⟨⟨[1], [], [], none,
          [.countriesForbidden [70, 82], .countriesForbidden [68, 69]]⟩, []⟩) ∧
      isMediaRestricted [.unset] [68, 69] = none ∧
      isMediaRestricted [.countriesForbidden [70, 82, 68]] [68, 69] = none := by
  decide

end Librespot.Player
