import Librespot.Cache.Limiter
import Mathlib.Algebra.Order.Group.Int
import Mathlib.Data.List.Induction
import Mathlib.Data.List.Nodup
import Mathlib.Data.List.Perm.Basic

/-! # What is evicted was used least recently -/

open Base.Run List Option

namespace Librespot.Cache

open SizeLimiter

/-! ## The sum of the sizes -/

def total (files : Files) : Int := files.foldr (fun e sum => e.2.size + sum) 0

theorem total_cons (e : String × LimiterEntry) (files : Files) :
    total (e :: files) = e.2.size + total files := rfl

theorem total_nonneg (files : Files) : 0 ≤ total files := by
  induction files with
  | nil => exact le_refl 0
  | cons =>
    rw [total_cons]
    omega

def Distinct (files : Files) : Prop := (files.map Prod.fst).Nodup

variable {path : String} {files : Files} {removal : Nat → Removal}

theorem filter_of_not_mem (h : path ∉ files.map Prod.fst) : files.filter (·.1 ≠ path) = files := by
  refine filter_eq_self.mpr fun e he => ?_
  simpa using fun heq : e.1 = path => h (heq ▸ List.mem_map_of_mem he)

theorem Distinct.filter (h : Distinct files) (q : String × LimiterEntry → Bool) :
    Distinct (files.filter q) := h.sublist (filter_sublist.map _)

theorem Distinct.insert (h : Distinct files) (path : String) (e : LimiterEntry) :
    Distinct ((path, e) :: files.filter (·.1 ≠ path)) := by
  refine nodup_cons.mpr ⟨fun hmem => ?_, h.filter _⟩
  obtain ⟨k, hk, hpath⟩ := List.mem_map.mp hmem
  simp only [mem_filter, ne_eq, decide_not, Bool.not_eq_true', decide_eq_false_iff_not] at hk
  exact hk.2 hpath

theorem total_filter (h : Distinct files) (path : String) :
    total (files.filter (·.1 ≠ path)) + SizeLimiter.sizeOf path files = total files := by
  induction files with
  | nil => rfl
  | cons e files ih =>
    obtain ⟨hnot, hrest⟩ := nodup_cons.mp h
    by_cases he : e.1 = path
    · subst he
      have hfilter : (e :: files).filter (·.1 ≠ e.1) = files := by
        rw [filter_cons_of_neg (by simp), filter_of_not_mem hnot]
      rw [hfilter, total_cons, SizeLimiter.sizeOf, find?_cons_of_pos (by simp)]
      exact add_comm _ _
    · have hsize : SizeLimiter.sizeOf path (e :: files) = SizeLimiter.sizeOf path files := by
        rw [SizeLimiter.sizeOf, find?_cons_of_neg (by simpa using he), SizeLimiter.sizeOf]
      rw [filter_cons_of_pos (by simpa using he), total_cons, total_cons, hsize, add_assoc,
        ih hrest]

theorem Distinct.eq_of_mem (h : Distinct files) {e e' : LimiterEntry} (he : (path, e) ∈ files)
    (he' : (path, e') ∈ files) : e = e' := by
  have heq := inj_on_of_nodup_map h he he' rfl
  exact (Prod.mk.inj heq).2

theorem sizeOf_of_mem (h : Distinct files) {e : LimiterEntry} (he : (path, e) ∈ files) :
    SizeLimiter.sizeOf path files = e.size := by
  obtain ⟨⟨k, e'⟩, hfind⟩ : ∃ k, files.find? (·.1 = path) = some k :=
    isSome_iff_exists.mp (find?_isSome.mpr ⟨(path, e), he, by simp⟩)
  obtain rfl : k = path := by simpa using find?_some hfind
  obtain rfl := h.eq_of_mem he (mem_of_find?_eq_some hfind)
  rw [SizeLimiter.sizeOf, hfind]
  rfl

namespace SizeLimiter

variable {s : SizeLimiter}

theorem oldest_fold (files : Files) (b : String × LimiterEntry) :
    ∃ e, files.foldl (fun best e =>
        match best with
        | none => some e
        | some b => if e.2.atime < b.2.atime then some e else some b) (some b) = some e ∧
      (e = b ∨ e ∈ files) ∧ e.2.atime ≤ b.2.atime ∧ ∀ k ∈ files, e.2.atime ≤ k.2.atime := by
  induction files generalizing b with
  | nil => exact ⟨b, rfl, .inl rfl, le_refl _, by simp⟩
  | cons k _ ih =>
    rw [foldl_cons]
    by_cases hlt : k.2.atime < b.2.atime
    · simp only [if_pos hlt]
      obtain ⟨e, he, hmem, hle, hall⟩ := ih k
      refine ⟨e, he, .inr (mem_cons.mpr hmem), hle.trans hlt.le, ?_⟩
      exact forall_mem_cons.mpr ⟨hle, hall⟩
    · simp only [if_neg hlt]
      obtain ⟨e, he, hmem, hle, hall⟩ := ih b
      refine ⟨e, he, hmem.imp_right (mem_cons_of_mem k), hle, ?_⟩
      exact forall_mem_cons.mpr ⟨hle.trans (not_lt.mp hlt), hall⟩

theorem oldest_cases (files : Files) : (oldest files = none ∧ files = []) ∨
    ∃ path e, oldest files = some (path, e) ∧ (path, e) ∈ files ∧
      ∀ k ∈ files, e.atime ≤ k.2.atime := by
  cases files with
  | nil => exact .inl ⟨rfl, rfl⟩
  | cons b files =>
    obtain ⟨⟨path, e⟩, he, hmem, hle, hall⟩ := oldest_fold files b
    exact .inr ⟨path, e, he, mem_cons.mpr hmem, forall_mem_cons.mpr ⟨hle, hall⟩⟩

structure Accounted (s : SizeLimiter) : Prop where
  distinct : Distinct s.files
  inUse : s.inUse = wrap (total s.files)

theorem wrap_eq {n : Int} (h0 : 0 ≤ n) : wrap n = n ↔ n < 2 ^ 63 := by
  constructor
  · intro h
    have hlt := Int.bmod_lt (x := n) (m := 2 ^ 64) (by decide)
    rw [← wrap, h] at hlt
    omega
  · intro h
    exact Int.bmod_eq_of_le (by omega) (by omega)

theorem Accounted.inUse_eq (hs : s.Accounted) (hfits : total s.files < 2 ^ 63) :
    s.inUse = total s.files :=
  hs.inUse.trans ((wrap_eq (total_nonneg _)).mpr hfits)

theorem Accounted.add (hs : s.Accounted) (path : String) (size : Nat) (now : Int) :
    (s.add path size now).Accounted := by
  refine ⟨hs.distinct.insert path _, ?_⟩
  have htotal := total_filter hs.distinct path
  simp only [SizeLimiter.add, total_cons, hs.inUse, wrap, Int.bmod_sub_bmod, Int.bmod_add_bmod]
  congr 1
  omega

theorem Accounted.touch (hs : s.Accounted) (path : String) (now : Int) :
    (s.touch path now).Accounted := by
  have hkeys : (s.touch path now).files.map Prod.fst = s.files.map Prod.fst := by
    rw [SizeLimiter.touch, List.map_map]
    refine map_congr_left fun e _ => ?_
    by_cases he : e.1 = path <;> simp [he]
  have hsizes : total (s.touch path now).files = total s.files := by
    rw [SizeLimiter.touch, total, foldr_map, total]
    refine congrArg (s.files.foldr · 0) (funext fun e => funext fun sum => ?_)
    by_cases he : e.1 = path <;> simp [he]
  exact ⟨by rw [Distinct, hkeys]; exact hs.distinct, hs.inUse.trans (congrArg wrap hsizes.symm)⟩

variable {path : String} {e : LimiterEntry}

theorem Accounted.drop (hs : s.Accounted) (he : (path, e) ∈ s.files) :
    ({ s with files := s.files.filter (·.1 ≠ path), inUse := wrap (s.inUse - e.size) } :
      SizeLimiter).Accounted := by
  refine ⟨hs.distinct.filter _, ?_⟩
  have htotal := total_filter hs.distinct path
  rw [sizeOf_of_mem hs.distinct he] at htotal
  simp only [hs.inUse, wrap, Int.bmod_sub_bmod]
  congr 1
  omega

theorem Accounted.pruneLoop (hs : s.Accounted) (v : Visits) (removal : Nat → Removal)
    (fuel i : Nat) : (SizeLimiter.pruneLoop v removal fuel i s).2.Accounted := by
  induction fuel generalizing i s with
  | zero => exact hs
  | succ _ ih =>
    unfold pruneLoop
    split
    · rcases oldest_cases (v.order i s.files) with ⟨hnone, -⟩ | ⟨path, e, hsome, hmem, -⟩
      · rw [hnone]
        exact hs
      · rw [hsome]
        have hdrop := hs.drop ((v.perm i s.files).mem_iff.mp hmem)
        simp only
        split
        · exact hdrop
        · exact ih hdrop (i + 1)
    · exact hs

/-! ## A whole prune -/

structure Pruned (s : SizeLimiter) (res : List String × SizeLimiter) : Prop where
  kept : res.2.files = s.files.filter (·.1 ∉ res.1)
  tracked : ∀ path ∈ res.1, ∃ e, (path, e) ∈ s.files
  nothing : res.1 = [] → res.2 = s
  within : 0 ≤ s.limit → res.2.inUse ≤ s.limit
  oldestFirst : ∀ path e, (path, e) ∈ s.files → path ∈ res.1 →
    ∀ k ∈ res.2.files, e.atime ≤ k.2.atime
  needed : ∀ before path, res.1 = before ++ [path] →
    ∃ e, (path, e) ∈ s.files ∧ s.limit < res.2.inUse + e.size

theorem pruned_self (h : 0 ≤ s.limit → s.inUse ≤ s.limit) : Pruned s ([], s) where
  kept := by simp
  tracked := by simp
  nothing _ := rfl
  within := h
  oldestFirst := by simp
  needed before path hpath := by simp at hpath

theorem Pruned.cons (hs : Distinct s.files) (he : (path, e) ∈ s.files)
    (hold : ∀ k ∈ s.files, e.atime ≤ k.2.atime) (hexceeded : s.limit < s.inUse) {inUse : Int}
    (hinUse : inUse + e.size = s.inUse) {evicted : List String} {s' : SizeLimiter}
    (h : Pruned { s with files := s.files.filter (·.1 ≠ path), inUse } (evicted, s')) :
    Pruned s (path :: evicted, s') := by
  have hsub : ∀ k ∈ s.files.filter (·.1 ≠ path), k ∈ s.files := fun k hk => mem_of_mem_filter hk
  refine ⟨?_, ?_, (nomatch ·), h.within, ?_, ?_⟩
  · rw [h.kept, List.filter_filter]
    refine filter_congr fun k _ => ?_
    by_cases hk : k.1 = path <;> simp [hk]
  · refine forall_mem_cons.mpr ⟨⟨e, he⟩, fun q hq => ?_⟩
    obtain ⟨e', he'⟩ := h.tracked q hq
    exact ⟨e', hsub _ he'⟩
  · intro q e' he' hq k hk
    by_cases hqp : q = path
    · subst hqp
      obtain rfl := hs.eq_of_mem he he'
      rw [h.kept] at hk
      exact hold k (hsub k (mem_of_mem_filter hk))
    · refine h.oldestFirst q e' ?_ ((mem_cons.mp hq).resolve_left hqp) k hk
      exact mem_filter.mpr ⟨he', by simpa using hqp⟩
  · intro before q hq
    cases before with
    | nil =>
      obtain ⟨rfl, rfl⟩ : path = q ∧ evicted = [] := by simpa using hq
      refine ⟨e, he, ?_⟩
      rw [h.nothing rfl, hinUse]
      exact hexceeded
    | cons _ before =>
      obtain ⟨e', he', hlimit⟩ := h.needed before q (List.cons.inj hq).2
      exact ⟨e', hsub _ he', hlimit⟩

theorem length_filter_lt {files : Files} (he : (path, e) ∈ files) :
    (files.filter (·.1 ≠ path)).length < files.length :=
  length_filter_lt_length_iff_exists.mpr ⟨(path, e), he, by simp⟩

theorem pruneLoop_pruned (hs : s.Accounted) (hfits : total s.files < 2 ^ 63) (v : Visits)
    (hremoval : ∀ i, removal i ≠ .failed) {fuel : Nat} (hfuel : s.files.length < fuel) (i : Nat) :
    Pruned s (SizeLimiter.pruneLoop v removal fuel i s) := by
  induction fuel generalizing i s with
  | zero => exact absurd hfuel (Nat.not_lt_zero _)
  | succ _ ih =>
    unfold pruneLoop
    split
    · rename_i hexceeded
      have hperm := v.perm i s.files
      rcases oldest_cases (v.order i s.files) with ⟨hnone, hnil⟩ | ⟨path, e, hsome, hmem, hold⟩
      · -- without files nothing is in use
        have hempty : s.files = [] := (hnil ▸ hperm).nil_eq.symm
        rw [hnone]
        refine pruned_self fun hlimit => ?_
        rw [hs.inUse_eq hfits, hempty]
        exact hlimit
      · have he := hperm.mem_iff.mp hmem
        have htotal := total_filter hs.distinct path
        rw [sizeOf_of_mem hs.distinct he] at htotal
        have hrest' : total (s.files.filter (·.1 ≠ path)) < 2 ^ 63 := by omega
        have hrest := ih (hs.drop he) hrest' (Nat.lt_of_lt_of_le (length_filter_lt he)
          (Nat.le_of_lt_succ hfuel)) (i + 1)
        have hinUse : wrap (s.inUse - e.size) + e.size = s.inUse := by
          rw [hs.inUse_eq hfits, ← htotal, add_sub_cancel_right,
            (wrap_eq (total_nonneg _)).mpr hrest']
        rw [hsome]
        simp only [if_neg (hremoval i)]
        exact hrest.cons hs.distinct he (fun k hk => hold k (hperm.mem_iff.mpr hk)) hexceeded
          hinUse
    · rename_i hwithin
      exact pruned_self fun _ => not_lt.mp hwithin

theorem prune_pruned (hs : s.Accounted) (hfits : total s.files < 2 ^ 63) (v : Visits)
    (hremoval : ∀ i, removal i ≠ .failed) : Pruned s (s.prune v removal) :=
  pruneLoop_pruned hs hfits v hremoval (Nat.lt_succ_self _) 0

end SizeLimiter

namespace History

variable {r r' : History}

structure Inv (r : History) : Prop where
  accounted : r.limiter.Accounted
  lastUse : ∀ k ∈ r.limiter.files, r.lastUse k.1 = some k.2.atime
  past : ∀ k ∈ r.limiter.files, k.2.atime ≤ r.clock

theorem lastUse_cons (path : String) (now : Int) (limiter : SizeLimiter) (clock : Int)
    (uses : List (String × Int)) (q : String) :
    ({ limiter, clock, uses := (path, now) :: uses } : History).lastUse q =
      if q = path then some now else ({ limiter, clock, uses } : History).lastUse q := by
  by_cases hq : q = path
  · subst hq
    simp [History.lastUse]
  · simp [History.lastUse, hq, Ne.symm hq]

variable {path : String} {now : Int} {s : SizeLimiter} {k : String × LimiterEntry}

theorem Inv.use {clock : Int} {limiter : SizeLimiter} (hr : r.Inv) (hclock : r.clock ≤ clock)
    (hnow : now ≤ clock) (hacc : limiter.Accounted)
    (hfiles : ∀ k ∈ limiter.files, k.1 = path ∧ k.2.atime = now ∨
      k.1 ≠ path ∧ k ∈ r.limiter.files) :
    ({ limiter, clock, uses := (path, now) :: r.uses } : History).Inv := by
  refine ⟨hacc, fun k hk => ?_, fun k hk => ?_⟩
  · rw [lastUse_cons]
    rcases hfiles k hk with ⟨hpath, htime⟩ | ⟨hpath, hmem⟩
    · rw [if_pos hpath, htime]
    · rw [if_neg hpath]
      exact hr.lastUse k hmem
  · rcases hfiles k hk with ⟨-, htime⟩ | ⟨-, hmem⟩
    · exact htime.le.trans hnow
    · exact (hr.past k hmem).trans hclock

theorem mem_add {size : Nat} (hk : k ∈ (s.add path size now).files) :
    k.1 = path ∧ k.2.atime = now ∨ k.1 ≠ path ∧ k ∈ s.files := by
  rcases mem_cons.mp hk with rfl | hk
  · exact .inl ⟨rfl, rfl⟩
  · obtain ⟨hmem, hne⟩ := mem_filter.mp hk
    exact .inr ⟨by simpa using hne, hmem⟩

theorem mem_touch (hk : k ∈ (s.touch path now).files) :
    k.1 = path ∧ k.2.atime = now ∨ k.1 ≠ path ∧ k ∈ s.files := by
  obtain ⟨e, he, rfl⟩ := List.mem_map.mp hk
  by_cases hpath : e.1 = path
  · simp [hpath]
  · simp [hpath, he]

theorem mem_pruneLoop {v : Visits} {fuel i : Nat}
    (hk : k ∈ (SizeLimiter.pruneLoop v removal fuel i s).2.files) : k ∈ s.files := by
  induction fuel generalizing i s with
  | zero => exact hk
  | succ _ ih =>
    unfold pruneLoop at hk
    split at hk
    · split at hk
      · exact hk
      · split at hk
        · exact mem_of_mem_filter hk
        · exact mem_of_mem_filter (ih hk)
    · exact hk

theorem Inv.step {op : Op} (hr : r.Inv) (h : r.step op = some r') : r'.Inv := by
  cases op with
  | add path size now =>
    obtain ⟨hnow, hr'⟩ := ite_none_right_eq_some.mp h
    obtain rfl := some.inj hr'
    exact hr.use hnow.le (le_refl now) (hr.accounted.add path size now) fun k hk => mem_add hk
  | touch path now =>
    obtain ⟨hnow, hr'⟩ := ite_none_right_eq_some.mp h
    obtain rfl := some.inj hr'
    exact hr.use hnow.le (le_refl now) (hr.accounted.touch path now) fun k hk => mem_touch hk
  | prune v removal =>
    cases h
    exact ⟨hr.accounted.pruneLoop v removal _ _, fun k hk => hr.lastUse k (mem_pruneLoop hk),
      fun k hk => hr.past k (mem_pruneLoop hk)⟩

theorem start_append (limit : Int) (walked : List FileInfo) (info : FileInfo) (clock : Int) :
    start limit (walked ++ [info]) clock =
      { limiter := (start limit walked clock).limiter.visitFile info
        clock
        uses := (info.path, info.modTime) :: (start limit walked clock).uses } := by
  simp [start, init]

theorem accounted_visitFile {info : FileInfo} (hs : s.Accounted)
    (hnew : info.path ∉ s.files.map Prod.fst) : (s.visitFile info).Accounted := by
  unfold visitFile
  split
  · exact hs
  · split
    · exact hs
    · refine ⟨hs.distinct.insert _ _, ?_⟩
      simp only [total_cons, filter_of_not_mem hnew, hs.inUse, wrap, Int.bmod_add_bmod]
      rw [add_comm]

theorem mem_visitFile {info : FileInfo} (hk : k ∈ (s.visitFile info).files) :
    k.1 = info.path ∧ k.2.atime = info.modTime ∨ k ∈ s.files := by
  unfold visitFile at hk
  split at hk
  · exact .inr hk
  · split at hk
    · exact .inr hk
    · rcases mem_cons.mp hk with rfl | hk
      · exact .inl ⟨rfl, rfl⟩
      · exact .inr (mem_of_mem_filter hk)

theorem inv_start (limit : Int) {walked : List FileInfo} {clock : Int}
    (hpaths : (walked.map FileInfo.path).Nodup) (hclock : ∀ info ∈ walked, info.modTime ≤ clock) :
    (start limit walked clock).Inv ∧
      ∀ k ∈ (start limit walked clock).limiter.files, k.1 ∈ walked.map FileInfo.path := by
  induction walked using List.reverseRecOn with
  | nil =>
    have hfiles : (start limit [] clock).limiter.files = [] := rfl
    exact ⟨⟨⟨nodup_nil, rfl⟩, by simp [hfiles], by simp [hfiles]⟩, by simp [hfiles]⟩
  | append_singleton walked info ih =>
    rw [map_append, nodup_append] at hpaths
    obtain ⟨hinv, hkeys⟩ := ih hpaths.1 fun q hq => hclock q (mem_append_left _ hq)
    have hne : ∀ k ∈ (start limit walked clock).limiter.files, k.1 ≠ info.path := fun k hk =>
      hpaths.2.2 k.1 (hkeys k hk) info.path (by simp)
    have hnew : info.path ∉ (start limit walked clock).limiter.files.map Prod.fst := by
      intro hmem
      obtain ⟨k, hk, hpath⟩ := List.mem_map.mp hmem
      exact hne k hk hpath
    rw [start_append]
    refine ⟨hinv.use (le_refl clock) (hclock info (by simp))
      (accounted_visitFile hinv.accounted hnew) fun k hk => ?_, fun k hk => ?_⟩
    · exact (mem_visitFile hk).imp_right fun hmem => ⟨hne k hmem, hmem⟩
    · rw [map_append, mem_append]
      rcases mem_visitFile hk with ⟨hpath, -⟩ | hmem
      · exact .inr (by simp [hpath])
      · exact .inl (hkeys k hmem)

structure Sound (r : History) : Prop where
  inUse : r.limiter.inUse = total r.limiter.files
  nonneg : 0 ≤ r.limiter.inUse
  within : ∀ v removal, (∀ i, removal i ≠ .failed) → 0 ≤ r.limiter.limit →
    (r.limiter.prune v removal).2.inUse ≤ r.limiter.limit
  leastRecent : ∀ v removal, (∀ i, removal i ≠ .failed) →
    ∀ k ∈ r.limiter.files, k ∉ (r.limiter.prune v removal).2.files →
    ∀ q ∈ (r.limiter.prune v removal).2.files,
      ∃ t u, r.lastUse k.1 = some t ∧ r.lastUse q.1 = some u ∧ t ≤ u
  needed : ∀ v removal, (∀ i, removal i ≠ .failed) →
    ∀ before path, (r.limiter.prune v removal).1 = before ++ [path] →
      ∃ e, (path, e) ∈ r.limiter.files ∧
        r.limiter.limit < (r.limiter.prune v removal).2.inUse + e.size
  addedLast : ∀ path size now v removal, r.clock < now →
    total (r.limiter.add path size now).files < 2 ^ 63 → (∀ i, removal i ≠ .failed) →
    (∀ e, (path, e) ∉ ((r.limiter.add path size now).prune v removal).2.files) →
      ((r.limiter.add path size now).prune v removal).2.files = []

theorem Inv.sound (hr : r.Inv) (hfits : total r.limiter.files < 2 ^ 63) : r.Sound where
  inUse := hr.accounted.inUse_eq hfits
  nonneg := hr.accounted.inUse_eq hfits ▸ total_nonneg _
  within v removal hremoval := (prune_pruned hr.accounted hfits v hremoval).within
  needed v removal hremoval := (prune_pruned hr.accounted hfits v hremoval).needed
  leastRecent v removal hremoval k hk hgone q hq := by
    have hpruned := prune_pruned hr.accounted hfits v hremoval
    rw [hpruned.kept, mem_filter, not_and] at hgone
    have hevicted : k.1 ∈ (r.limiter.prune v removal).1 := by simpa using hgone hk
    have hq' : q ∈ r.limiter.files := mem_of_mem_filter (hpruned.kept ▸ hq)
    exact ⟨k.2.atime, q.2.atime, hr.lastUse k hk, hr.lastUse q hq',
      hpruned.oldestFirst k.1 k.2 hk hevicted q hq⟩
  addedLast path size now v removal hnow hadd hremoval hgone := by
    have hpruned := prune_pruned (hr.accounted.add path size now) hadd v hremoval
    have hadded : (path, { size, atime := now }) ∈ (r.limiter.add path size now).files :=
      mem_cons_self
    have hevicted : path ∈ ((r.limiter.add path size now).prune v removal).1 := by
      by_contra hkept
      refine hgone { size, atime := now } ?_
      rw [hpruned.kept]
      exact mem_filter.mpr ⟨hadded, by simpa using hkept⟩
    -- what is kept was used before, and it would have been evicted first
    refine eq_nil_iff_forall_not_mem.mpr fun k hk => ?_
    have hle : now ≤ k.2.atime := hpruned.oldestFirst _ _ hadded hevicted k hk
    rw [hpruned.kept] at hk
    obtain ⟨hmem, hkept⟩ := mem_filter.mp hk
    rcases mem_add hmem with ⟨hpath, -⟩ | ⟨-, hold⟩
    · have hkept : k.1 ∉ ((r.limiter.add path size now).prune v removal).1 := by simpa using hkept
      rw [hpath] at hkept
      exact hkept hevicted
    · exact absurd (hr.past k hold) (not_le.mpr (hnow.trans_le hle))

/-- In any run, the limiter is as it should be exactly while the sizes of the tracked files add up
to an `int64`. -/
theorem sound_iff_of_run {limit clock : Int} {walked : List FileInfo} {ops : List Op} {r : History}
    (hpaths : (walked.map FileInfo.path).Nodup) (hclock : ∀ info ∈ walked, info.modTime ≤ clock)
    (hrun : exec step (start limit walked clock) ops = some r) :
    r.Sound ↔ total r.limiter.files < 2 ^ 63 := by
  have hinv : r.Inv :=
    exec_invariant (fun _ _ _ hs h => Inv.step hs h) (inv_start limit hpaths hclock).1 hrun
  refine ⟨fun hsound => ?_, hinv.sound⟩
  have hinUse := hsound.inUse
  rw [hinv.accounted.inUse, wrap_eq (total_nonneg _)] at hinUse
  exact hinUse

def asListed : Visits := ⟨fun _ files => files, fun _ _ => List.Perm.refl _⟩

def twoFiles : List FileInfo :=
  [{ path := "a", size := 4, modTime := 1 }, { path := "b", size := 5, modTime := 2 }]

def touchedRun : List Op :=
  [.touch "a" 3, .add "c" 4 4, .prune asListed fun _ => .removed]

theorem sound_iff_of_run_touched : ∃ r, exec step (start 10 twoFiles 2) touchedRun = some r ∧
    r.limiter.files.map Prod.fst = ["c", "a"] ∧ r.Sound := by
  have hpaths : (twoFiles.map FileInfo.path).Nodup := by decide
  have hclock : ∀ info ∈ twoFiles, info.modTime ≤ 2 := by decide
  exact ⟨Option.get _ (by decide +kernel), exec_get _, by decide +kernel,
    (sound_iff_of_run hpaths hclock (exec_get _)).mpr (by decide +kernel)⟩

/-- Two sparse files of 2^62 bytes: what is in use is negative, and nothing is evicted. -/
theorem inUse_overflows :
    (start 10 [{ path := "a", size := 2 ^ 62, modTime := 1 },
      { path := "b", size := 2 ^ 62, modTime := 2 }] 2).limiter.inUse = -2 ^ 63 ∧
    ((start 10 [{ path := "a", size := 2 ^ 62, modTime := 1 },
      { path := "b", size := 2 ^ 62, modTime := 2 }] 2).limiter.prune asListed
        fun _ => .removed).1 = [] := by
  decide +kernel

end History

end Librespot.Cache
