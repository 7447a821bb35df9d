import Librespot.Base.Run
import Librespot.Ids

/-!
# Editing a playlist (`daemon/library.go`, `spclient/library_write.go`)

One call of `appendToPlaylist` or `removeFromPlaylist`, the server and the other clients of the
playlist. The id of the playlist has been parsed, and a position is not negative (the API refuses
others).
-/

open Base.Run List Option

namespace Librespot.Playlists

structure Version where
  revision : Bytes
  items : List String
deriving DecidableEq, Repr

/-- The operation of a change. `rem` removes `length` items from `fromIndex` on. -/
inductive ListOp
  | add (items : List String)
  | rem (fromIndex : BitVec 32) (length : Nat)
deriving DecidableEq, Repr

def ListOp.apply : ListOp → List String → List String
  | .add uris, items => items ++ uris
  | .rem fromIndex length, items =>
    items.take fromIndex.toNat ++ items.drop (fromIndex.toNat + length)

structure ListChanges where
  baseRevision : Bytes
  op : ListOp
deriving DecidableEq, Repr

inductive EditErr
  | playlistConflict
  | playlistItemMoved
  | notFound
  | stillTruncated
  /-- A status other than 200 and 409, a network error, a token that cannot be renewed. -/
  | request
deriving DecidableEq, Repr

inductive Edit
  | append (uris : List String)
  | remove (uri : String) (position : Option Nat)
deriving DecidableEq, Repr

def playlistContentsPageSize : Nat := 1000

def playlistMaxPages : Nat := 50

def itemPosition (uris : List String) (uri : String) (position : Option Nat) :
    Except EditErr Nat :=
  match position with
  | some position =>
    if uris[position]? = some uri then .ok position else .error .playlistItemMoved
  | none =>
    match uris.findIdx? (· = uri) with
    | some i => .ok i
    | none => .error .notFound

def removal (revision : Bytes) (position : Nat) : ListChanges :=
  { baseRevision := revision, op := .rem (BitVec.ofNat 32 position) 1 }

def addition (revision : Bytes) (uris : List String) : ListChanges :=
  { baseRevision := revision, op := .add uris }

/-- Where the call stands: at a request it has sent, or at its end. `reading` is the loop of
`PlaylistContents`. -/
inductive Call
  | revising (attempt : Nat)
  | reading (attempt page : Nat) (revision : Bytes) (uris : List String)
  | posting (attempt : Nat) (changes : ListChanges)
  | returned (err : Option EditErr)
deriving DecidableEq, Repr

def Edit.attempt (edit : Edit) (n : Nat) : Call :=
  match edit with
  | .append _ => .revising n
  | .remove .. => .reading n 0 [] []

def Edit.settle (edit : Edit) (attempt : Nat) (err : Option EditErr) : Call :=
  if err ≠ some .playlistConflict ∨ 0 < attempt then .returned err else edit.attempt (attempt + 1)

structure Content where
  revision : Bytes
  items : List String
  truncated : Bool
deriving DecidableEq, Repr

def Edit.found (edit : Edit) (attempt : Nat) (revision : Bytes) (uris : List String) : Call :=
  match edit with
  | .append _ => .returned none
  | .remove uri position =>
    match itemPosition uris uri position with
    | .error err => .returned (some err)
    | .ok index => .posting attempt (removal revision index)

def Edit.page (edit : Edit) (attempt page : Nat) (revision : Bytes) (uris : List String)
    (content : Content) : Call :=
  if 0 < page ∧ revision ≠ content.revision then edit.settle attempt (some .playlistConflict)
  else
    let uris := uris ++ content.items
    if !content.truncated ∨ content.items.length = 0 then
      edit.found attempt content.revision uris
    else if page + 1 < playlistMaxPages then .reading attempt (page + 1) content.revision uris
    else edit.settle attempt (some .stillTruncated)

/-- The server with the versions it has had since the call began, newest first, and the call.
`applied` are the changes of the call that the server has made, with the version before and after.
`waiting` are changes without an answer, which the server may still get. -/
structure World where
  current : Version
  history : List Version := []
  call : Call
  applied : List (Version × Version) := []
  waiting : List ListChanges := []
deriving DecidableEq, Repr

inductive Event
  | other (next : Version)
  /-- The server answers the read with `length` items at most. -/
  | getAnswered (length : Nat) (truncated : Bool)
  | getFails
  /-- The server gets the change, makes it if it can, giving it the revision, and answers. -/
  | postAnswered (revision : Bytes)
  /-- A 401: the token is renewed and the change sent again. -/
  | postUnauthorized
  /-- No token, or the context is done. -/
  | postGivenUp
  /-- Another status, or no answer at all. -/
  | postFails
  /-- The server gets a change it has not answered. -/
  | late (i : Nat) (revision : Bytes)
deriving DecidableEq, Repr

namespace World

def Distinct (w : World) (next : Version) : Prop :=
  ∀ v ∈ w.current :: w.history, v.revision = next.revision → v.items = next.items

instance (w : World) (next : Version) : Decidable (w.Distinct next) :=
  inferInstanceAs (Decidable (∀ v ∈ _, _ → _))

def move (w : World) (next : Version) : World :=
  { w with current := next, history := w.current :: w.history }

def after (w : World) (changes : ListChanges) (revision : Bytes) : Version :=
  { revision, items := changes.op.apply w.current.items }

def make (w : World) (changes : ListChanges) (revision : Bytes) : World :=
  { w.move (w.after changes revision) with
    applied := w.applied ++ [(w.current, w.after changes revision)] }

def content (w : World) (start length : Nat) (truncated : Bool) : Content :=
  { revision := w.current.revision, items := (w.current.items.drop start).take length, truncated }

def step (edit : Edit) (w : World) : Event → Option World
  | .other next => if w.Distinct next then some (w.move next) else none
  | .getAnswered length truncated =>
    match w.call with
    | .revising attempt =>
      match edit with
      | .append uris =>
        some { w with call := .posting attempt (addition w.current.revision uris) }
      | .remove .. => none
    | .reading attempt page revision uris =>
      if length ≤ playlistContentsPageSize then
        let content := w.content uris.length length truncated
        some { w with call := edit.page attempt page revision uris content }
      else none
    | _ => none
  | .getFails =>
    match w.call with
    | .revising _ => some { w with call := .returned (some .request) }
    | .reading attempt .. => some { w with call := edit.settle attempt (some .request) }
    | _ => none
  | .postAnswered revision =>
    match w.call with
    | .posting attempt changes =>
      if changes.baseRevision = w.current.revision then
        if w.Distinct (w.after changes revision) then
          some { w.make changes revision with call := edit.settle attempt none }
        else none
      else some { w with call := edit.settle attempt (some .playlistConflict) }
    | _ => none
  | .postUnauthorized =>
    match w.call with
    | .posting .. => some w
    | _ => none
  | .postGivenUp =>
    match w.call with
    | .posting attempt _ => some { w with call := edit.settle attempt (some .request) }
    | _ => none
  | .postFails =>
    match w.call with
    | .posting attempt changes => some { w with
        call := edit.settle attempt (some .request), waiting := w.waiting ++ [changes] }
    | _ => none
  | .late i revision =>
    match w.waiting[i]? with
    | some changes =>
      if changes.baseRevision = w.current.revision then
        if w.Distinct (w.after changes revision) then
          some { w.make changes revision with waiting := w.waiting.eraseIdx i }
        else none
      else some { w with waiting := w.waiting.eraseIdx i }
    | none => none

def start (edit : Edit) (current : Version) : World := { current, call := edit.attempt 0 }

end World

/-! ## What an edit is for -/

/-- The edit turns the first list into the second. A removal takes out one entry that is the uri:
the one at the position, or the first one. -/
def Edit.Makes (edit : Edit) (before after : List String) : Prop :=
  match edit with
  | .append uris => after = before ++ uris
  | .remove uri position => ∃ i, before[i]? = some uri ∧ after = before.eraseIdx i ∧
      (∀ p ∈ position, i = p) ∧ (position = none → uri ∉ before.take i)

variable {position : Option Nat} {uri : String}

theorem itemPosition_found {uris : List String} {i : Nat}
    (h : itemPosition uris uri position = .ok i) :
    uris[i]? = some uri ∧ (∀ p ∈ position, i = p) ∧ (position = none → uri ∉ uris.take i) := by
  unfold itemPosition at h
  rcases position with _ | p
  · simp only at h
    split at h
    · rename_i j hj
      obtain rfl := Except.ok.inj h
      obtain ⟨hlt, heq, hbefore⟩ := findIdx?_eq_some_iff_getElem.mp hj
      refine ⟨?_, by simp, fun _ hmem => ?_⟩
      · rw [getElem?_eq_getElem hlt]
        simpa using heq
      · obtain ⟨k, hk, hu⟩ := mem_take_iff_getElem.mp hmem
        have hne := hbefore k (by omega)
        simp [hu] at hne
    · cases h
  · simp only at h
    split at h
    · rename_i hp
      obtain rfl := Except.ok.inj h
      exact ⟨hp, by simp, by simp⟩
    · cases h

theorem removal_makes {uris items : List String} {i : Nat}
    (revision : Bytes) (h : itemPosition uris uri position = .ok i) (hread : uris <+: items)
    (hlen : uris.length < 2 ^ 32) :
    (Edit.remove uri position).Makes items ((removal revision i).op.apply items) := by
  obtain ⟨hat, hposition, hfirst⟩ := itemPosition_found h
  have hlt := (List.getElem?_eq_some_iff.mp hat).1
  have hi : (BitVec.ofNat 32 i).toNat = i := by
    rw [BitVec.toNat_ofNat]
    exact Nat.mod_eq_of_lt (by omega)
  obtain ⟨rest, rfl⟩ := hread
  refine ⟨i, ?_, ?_, hposition, fun hnone => ?_⟩
  · rw [getElem?_append_left hlt]
    exact hat
  · simp only [removal, ListOp.apply, hi]
    exact (eraseIdx_eq_take_drop_succ _ _).symm
  · rw [take_append_of_le_length (by omega)]
    exact hfirst hnone

namespace World

/-! ## What a step preserves -/

def versions (w : World) : List Version := w.current :: w.history

def Based (edit : Edit) (w : World) (changes : ListChanges) : Prop :=
  ∃ v ∈ w.versions, v.revision = changes.baseRevision ∧
    edit.Makes v.items (changes.op.apply v.items)

def Reads (edit : Edit) (w : World) : Call → Prop
  | .reading _ page revision uris => (∃ uri position, edit = .remove uri position) ∧
      page < playlistMaxPages ∧ uris.length ≤ page * playlistContentsPageSize ∧
      (page = 0 ∨ ∃ v ∈ w.versions, v.revision = revision ∧ uris <+: v.items)
  | .posting _ changes => w.Based edit changes
  | _ => True

def Counted (w : World) : Call → Prop
  | .returned none => w.applied.length = 1 ∧ w.waiting = []
  | .returned (some _) => w.applied.length + w.waiting.length ≤ 1
  | _ => w.applied = [] ∧ w.waiting = []

structure Inv (edit : Edit) (w : World) : Prop where
  distinct : ∀ u ∈ w.versions, ∀ v ∈ w.versions, u.revision = v.revision → u.items = v.items
  reads : w.Reads edit w.call
  counted : w.Counted w.call
  waits : ∀ changes ∈ w.waiting, w.Based edit changes
  makes : ∀ made ∈ w.applied, edit.Makes made.1.items made.2.items

variable {edit : Edit} {w : World} {uris : List String}

theorem Based.current {changes : ListChanges} (h : w.Based edit changes)
    (hdistinct : ∀ u ∈ w.versions, ∀ v ∈ w.versions, u.revision = v.revision → u.items = v.items)
    (hbase : changes.baseRevision = w.current.revision) :
    edit.Makes w.current.items (changes.op.apply w.current.items) := by
  obtain ⟨v, hv, hrev, hmakes⟩ := h
  have hitems := hdistinct v hv w.current mem_cons_self (hrev.trans hbase)
  rwa [hitems] at hmakes

theorem Based.move {changes : ListChanges} (h : w.Based edit changes) (next : Version) :
    (w.move next).Based edit changes := by
  obtain ⟨v, hv, hrest⟩ := h
  exact ⟨v, mem_cons_of_mem _ hv, hrest⟩

theorem Reads.move {call : Call} (h : w.Reads edit call) (next : Version) :
    (w.move next).Reads edit call := by
  cases call with
  | reading =>
    refine ⟨h.1, h.2.1, h.2.2.1, h.2.2.2.imp_right ?_⟩
    rintro ⟨v, hv, hrest⟩
    exact ⟨v, mem_cons_of_mem _ hv, hrest⟩
  | posting => exact Based.move h next
  | revising | returned => trivial

theorem distinct_move {next : Version}
    (hdistinct : ∀ u ∈ w.versions, ∀ v ∈ w.versions, u.revision = v.revision → u.items = v.items)
    (hnext : w.Distinct next) :
    ∀ u ∈ (w.move next).versions, ∀ v ∈ (w.move next).versions,
      u.revision = v.revision → u.items = v.items := by
  intro u hu v hv he
  rcases mem_cons.mp hu with rfl | hu <;> rcases mem_cons.mp hv with rfl | hv
  · rfl
  · exact (hnext v hv he.symm).symm
  · exact hnext u hu he
  · exact hdistinct u hu v hv he

theorem settle_cases (edit : Edit) (attempt : Nat) (err : Option EditErr) :
    edit.settle attempt err = .returned err ∨
    err = some .playlistConflict ∧ edit.settle attempt err = edit.attempt (attempt + 1) := by
  unfold Edit.settle
  by_cases h : err ≠ some .playlistConflict ∨ 0 < attempt
  · exact .inl (if_pos h)
  · exact .inr ⟨by simpa using (not_or.mp h).1, if_neg h⟩

theorem settle_failed (hnone : w.applied = [] ∧ w.waiting = []) (attempt : Nat) (err : EditErr) :
    w.Reads edit (edit.settle attempt (some err)) ∧
    w.Counted (edit.settle attempt (some err)) := by
  rcases settle_cases edit attempt (some err) with h | ⟨-, h⟩
  · rw [h]
    exact ⟨trivial, by simp [Counted, hnone]⟩
  · rw [h]
    cases edit with
    | append => exact ⟨trivial, hnone⟩
    | remove uri position =>
      exact ⟨⟨⟨uri, position, rfl⟩, by decide, by simp, .inl rfl⟩, hnone⟩

theorem found_reads {revision : Bytes} (attempt : Nat)
    (hnone : w.applied = [] ∧ w.waiting = []) (hlen : uris.length < 2 ^ 32)
    (hread : ∃ v ∈ w.versions, v.revision = revision ∧ uris <+: v.items) :
    w.Reads (.remove uri position) ((Edit.remove uri position).found attempt revision uris) ∧
    w.Counted ((Edit.remove uri position).found attempt revision uris) := by
  simp only [Edit.found]
  split
  · exact ⟨trivial, by simp [Counted, hnone]⟩
  · rename_i index hindex
    obtain ⟨v, hv, hrev, hstarts⟩ := hread
    exact ⟨⟨v, hv, hrev, removal_makes revision hindex hstarts hlen⟩, hnone⟩

theorem prefix_drop_take {items : List String} (h : uris <+: items) (n : Nat) :
    uris ++ (items.drop uris.length).take n <+: items := by
  obtain ⟨rest, rfl⟩ := h
  rw [drop_left]
  exact (prefix_append_right_inj uris).mpr <| take_prefix n rest

theorem page_reads {attempt page : Nat} {revision : Bytes} {length : Nat} (truncated : Bool)
    (hw : w.Inv edit) (hcall : w.call = .reading attempt page revision uris)
    (hlength : length ≤ playlistContentsPageSize) :
    w.Reads edit (edit.page attempt page revision uris (w.content uris.length length truncated)) ∧
    w.Counted (edit.page attempt page revision uris
      (w.content uris.length length truncated)) := by
  have hreads := hw.reads
  have hnone := hw.counted
  rw [hcall] at hreads hnone
  obtain ⟨⟨uri, position, rfl⟩, hpage, hlen, hversion⟩ := hreads
  have hsize : (uris ++ (w.content uris.length length truncated).items).length ≤
      (page + 1) * playlistContentsPageSize := by
    simp only [content, length_append, length_take, Nat.add_mul, Nat.one_mul]
    omega
  unfold Edit.page
  by_cases hchanged : 0 < page ∧ revision ≠ (w.content uris.length length truncated).revision
  · rw [if_pos hchanged]
    exact settle_failed hnone attempt .playlistConflict
  · rw [if_neg hchanged]
    -- What has been read so far begins the current version.
    have hsofar : uris <+: w.current.items := by
      rcases hversion with rfl | ⟨v, hv, hrev, hstarts⟩
      · obtain rfl : uris = [] := length_eq_zero_iff.mp (by omega)
        exact nil_prefix
      · rcases Nat.eq_zero_or_pos page with rfl | hpos
        · obtain rfl : uris = [] := length_eq_zero_iff.mp (by omega)
          exact nil_prefix
        · have hsame : revision = w.current.revision := by
            by_contra hne
            exact hchanged ⟨hpos, hne⟩
          rwa [← hw.distinct v hv w.current mem_cons_self (hrev.trans hsame)]
    have hread : ∃ v ∈ w.versions, v.revision = w.current.revision ∧
        uris ++ (w.content uris.length length truncated).items <+: v.items :=
      ⟨w.current, mem_cons_self, rfl, prefix_drop_take hsofar length⟩
    simp only
    split
    · refine found_reads attempt hnone ?_ hread
      simp only [playlistContentsPageSize, playlistMaxPages] at hsize hpage
      omega
    · split
      · rename_i hmore
        exact ⟨⟨⟨uri, position, rfl⟩, hmore, hsize, .inr hread⟩, hnone⟩
      · exact settle_failed hnone attempt .stillTruncated

/-! One lemma for each event. -/

variable {w' : World} {call : Call} {changes : ListChanges} {revision : Bytes}

theorem Inv.counted_at (hw : w.Inv edit) (hcall : w.call = call) : w.Counted call :=
  hcall ▸ hw.counted

theorem Inv.moveOn (hw : w.Inv edit) (h : w.Reads edit call ∧ w.Counted call) :
    ({ w with call } : World).Inv edit :=
  ⟨hw.distinct, h.1, h.2, hw.waits, hw.makes⟩

theorem Inv.makes_change (hw : w.Inv edit) (hbased : w.Based edit changes)
    (hbase : changes.baseRevision = w.current.revision) :
    ∀ made ∈ (w.make changes revision).applied, edit.Makes made.1.items made.2.items := by
  intro made hmade
  simp only [make, mem_append, mem_singleton] at hmade
  rcases hmade with hmade | rfl
  · exact hw.makes made hmade
  · exact hbased.current hw.distinct hbase

theorem Counted.le (h : w.Counted call) : w.applied.length + w.waiting.length ≤ 1 := by
  rcases call with _ | _ | _ | (_ | err)
  case returned.some => exact h
  all_goals simp [h.1, h.2]

/-- Only a call that has returned an error leaves a change behind. -/
theorem Counted.of_waiting (h : w.Counted call) (hne : w.waiting ≠ []) :
    ∃ err, call = .returned (some err) := by
  rcases call with _ | _ | _ | (_ | err)
  case returned.some => exact ⟨err, rfl⟩
  all_goals exact absurd h.2 hne

theorem other_inv {next : Version} (hw : w.Inv edit) (h : w.step edit (.other next) = some w') :
    w'.Inv edit := by
  simp only [step, ite_none_right_eq_some, some.injEq] at h
  obtain ⟨hdistinct, rfl⟩ := h
  exact ⟨distinct_move hw.distinct hdistinct, hw.reads.move next, hw.counted,
    fun changes hc => (hw.waits changes hc).move next, hw.makes⟩

theorem getAnswered_inv {length : Nat} {truncated : Bool} (hw : w.Inv edit)
    (h : w.step edit (.getAnswered length truncated) = some w') : w'.Inv edit := by
  simp only [step] at h
  split at h
  · rename_i hc
    split at h
    · cases h
      have hnone := hw.counted_at hc
      exact hw.moveOn ⟨⟨w.current, mem_cons_self, rfl, rfl⟩, hnone⟩
    · cases h
  · rename_i hc
    simp only [ite_none_right_eq_some, some.injEq] at h
    obtain ⟨hlength, rfl⟩ := h
    exact hw.moveOn (page_reads truncated hw hc hlength)
  · cases h

theorem getFails_inv (hw : w.Inv edit) (h : w.step edit .getFails = some w') : w'.Inv edit := by
  simp only [step] at h
  split at h
  · rename_i hc
    cases h
    exact hw.moveOn ⟨trivial, (hw.counted_at hc).le⟩
  · rename_i attempt _ _ _ hc
    cases h
    exact hw.moveOn (settle_failed (hw.counted_at hc) attempt .request)
  · cases h

theorem postAnswered_inv (hw : w.Inv edit)
    (h : w.step edit (.postAnswered revision) = some w') : w'.Inv edit := by
  simp only [step] at h
  split at h
  · rename_i attempt changes hc
    obtain ⟨happlied, hwaiting⟩ := hw.counted_at hc
    have hbased : w.Reads edit (.posting attempt changes) := hc ▸ hw.reads
    split at h
    · rename_i hbase
      simp only [ite_none_right_eq_some, some.injEq] at h
      obtain ⟨hdistinct, rfl⟩ := h
      have hreturned : edit.settle attempt none = .returned none := by simp [Edit.settle]
      rw [hreturned]
      refine ⟨distinct_move hw.distinct hdistinct, trivial, ?_, ?_, hw.makes_change hbased hbase⟩
      · simp [Counted, make, move, happlied, hwaiting]
      · simp [make, move, hwaiting]
    · cases h
      exact hw.moveOn (settle_failed ⟨happlied, hwaiting⟩ attempt .playlistConflict)
  · cases h

theorem postFails_inv (hw : w.Inv edit) (h : w.step edit .postFails = some w') : w'.Inv edit := by
  simp only [step] at h
  split at h
  · rename_i attempt changes hc
    cases h
    obtain ⟨happlied, hwaiting⟩ := hw.counted_at hc
    have hbased : w.Reads edit (.posting attempt changes) := hc ▸ hw.reads
    have hreturned : edit.settle attempt (some .request) = .returned (some .request) := by
      simp [Edit.settle]
    rw [hreturned]
    refine ⟨hw.distinct, trivial, by simp [Counted, happlied, hwaiting], fun other hother => ?_,
      hw.makes⟩
    obtain rfl : other = changes := by simpa [hwaiting] using hother
    exact hbased
  · cases h

theorem late_inv {i : Nat} (hw : w.Inv edit) (h : w.step edit (.late i revision) = some w') :
    w'.Inv edit := by
  simp only [step] at h
  split at h
  · rename_i changes hi
    have hmem := mem_of_getElem? hi
    have hlen : (w.waiting.eraseIdx i).length + 1 = w.waiting.length := by
      have hlt := (List.getElem?_eq_some_iff.mp hi).1
      rw [length_eraseIdx_of_lt hlt]
      omega
    obtain ⟨err, hc⟩ := hw.counted.of_waiting (ne_nil_of_mem hmem)
    have hcounted := hw.counted.le
    split at h
    · rename_i hbase
      simp only [ite_none_right_eq_some, some.injEq] at h
      obtain ⟨hdistinct, rfl⟩ := h
      refine ⟨distinct_move hw.distinct hdistinct, hw.reads.move _, ?_, fun other hother => ?_,
        hw.makes_change (hw.waits changes hmem) hbase⟩
      · simp only [make, move, hc, Counted, length_append, length_singleton]
        omega
      · exact (hw.waits other (mem_of_mem_eraseIdx hother)).move _
    · cases h
      refine ⟨hw.distinct, hw.reads, ?_, fun other hother => ?_, hw.makes⟩
      · simp only [hc, Counted]
        omega
      · exact hw.waits other (mem_of_mem_eraseIdx hother)
  · cases h

theorem step_inv {ev : Event} (hw : w.Inv edit) (h : w.step edit ev = some w') : w'.Inv edit := by
  cases ev with
  | other => exact other_inv hw h
  | getAnswered => exact getAnswered_inv hw h
  | getFails => exact getFails_inv hw h
  | postAnswered => exact postAnswered_inv hw h
  | postUnauthorized =>
    simp only [step] at h
    split at h
    · exact some.inj h ▸ hw
    · cases h
  | postGivenUp =>
    simp only [step] at h
    split at h
    · rename_i attempt _ hc
      cases h
      exact hw.moveOn (settle_failed (hw.counted_at hc) attempt .request)
    · cases h
  | postFails => exact postFails_inv hw h
  | late => exact late_inv hw h

theorem inv_start (edit : Edit) (current : Version) : (start edit current).Inv edit := by
  refine ⟨?_, ?_, ?_, by simp [start], by simp [start]⟩
  · intro u hu v hv _
    simp only [versions, start, mem_singleton] at hu hv
    rw [hu, hv]
  · cases edit with
    | append => trivial
    | remove uri position => exact ⟨⟨uri, position, rfl⟩, by decide, by simp, .inl rfl⟩
  · cases edit <;> exact ⟨rfl, rfl⟩

/-- Whatever the other clients and the network do, a call changes the playlist once at most, and
once if it returns no error; and the change is the one that was asked for, made on the version it
was applied to. -/
theorem edit_applied_once {edit : Edit} {current : Version} {evs : List Event} {w : World}
    (h : exec (step edit) (start edit current) evs = some w) :
    w.applied.length ≤ 1 ∧ (w.call = .returned none → w.applied.length = 1) ∧
    ∀ made ∈ w.applied, edit.Makes made.1.items made.2.items := by
  have hw : w.Inv edit := exec_invariant (fun _ _ _ => step_inv) (inv_start edit current) h
  have hle := hw.counted.le
  exact ⟨by omega, fun hc => (hw.counted_at hc).1, hw.makes⟩

def racedRun : List Event :=
  [.getAnswered 2 true, .other ⟨[2], ["a", "b", "a", "c"]⟩, .getAnswered 2 false,
    .getAnswered 2 true, .getAnswered 2 false, .postUnauthorized, .postAnswered [3]]

theorem edit_applied_once_racedRun : ∃ w,
    exec (step (.remove "c" none)) (start (.remove "c" none) ⟨[1], ["b", "a", "c"]⟩) racedRun =
      some w ∧ w.call = .returned none ∧ w.applied.length = 1 ∧
    w.current.items = ["a", "b", "a"] :=
  ⟨Option.get _ (by decide +kernel), exec_get _, by decide +kernel,
    (edit_applied_once (exec_get _)).2.1 (by decide +kernel), by decide +kernel⟩

end World

end Librespot.Playlists
