import Librespot.Base.Lru
import Librespot.Base.Run

/-!
# The listings of enumerated contexts (`daemon/track_meta_cache.go`)

What runs under the lock of the cache is one step. The clock may show any time at any step, and
listings are evicted as the cache fills up.
-/

open Base Base.Run List Option

namespace Librespot.Daemon

def contextListTTL : Int := 5 * 60 * 1000

structure ContextListEntry where
  uris : List String
  fetched : Int
  producer : Nat
deriving DecidableEq, Repr

/-- The cache of `golang-lru`, whatever it evicts. -/
structure ContextListCache (L : Lru String ContextListEntry) where
  lru : L.State := L.new
  inFlight : String → Option Nat := fun _ => none

variable {L : Lru String ContextListEntry}

namespace ContextListCache

def get (uri : String) (now : Int) (c : ContextListCache L) :
    Option ContextListEntry × ContextListCache L :=
  match L.get uri c.lru with
  | (none, lru) => (none, { c with lru })
  | (some e, lru) =>
    let c := { c with lru }
    if now - e.fetched > contextListTTL then (none, c) else (some e, c)

def put (uri : String) (entry : ContextListEntry) (gen : Nat) (c : ContextListCache L) :
    ContextListCache L :=
  match c.inFlight uri with
  | some started => if started ≠ gen then c else { c with lru := L.add uri entry c.lru }
  | none => { c with lru := L.add uri entry c.lru }

def invalidate (uri : String) (c : ContextListCache L) : ContextListCache L :=
  { lru := L.remove uri c.lru
    inFlight := Function.update c.inFlight uri ((c.inFlight uri).map (· + 1)) }

def claim (uri : String) (c : ContextListCache L) : Option (Nat × ContextListCache L) :=
  if (c.inFlight uri).isSome then none
  else some (0, { c with inFlight := Function.update c.inFlight uri (some 0) })

def endFetch (uri : String) (c : ContextListCache L) : ContextListCache L :=
  { c with inFlight := Function.update c.inFlight uri none }

variable {c : ContextListCache L}

theorem lru_get (uri : String) (now : Int) (c : ContextListCache L) :
    (c.get uri now).2 = { c with lru := (L.get uri c.lru).2 } := by
  unfold get
  split
  · next h => rw [h]
  · next h =>
    rw [h]
    dsimp only
    split_ifs <;> rfl

theorem found_of_get {uri : String} {now : Int} {e : ContextListEntry}
    (h : (c.get uri now).1 = some e) : L.found uri c.lru = some e := by
  unfold get at h
  split at h
  · simp at h
  · next hget =>
    dsimp only at h
    split_ifs at h
    · rw [Lru.found, hget]
      exact h

theorem inFlight_put (uri : String) (entry : ContextListEntry) (gen : Nat)
    (c : ContextListCache L) : (c.put uri entry gen).inFlight = c.inFlight := by
  unfold put
  split
  · split_ifs <;> rfl
  · rfl

theorem found_put (hL : L.Lawful) {uri key : String} {entry e : ContextListEntry}
    {gen started : Nat} (hin : c.inFlight uri = some started)
    (h : L.found key (c.put uri entry gen).lru = some e) :
    L.found key c.lru = some e ∨ (key = uri ∧ e = entry) ∧ started = gen := by
  simp only [put, hin] at h
  split_ifs at h with hne
  · exact .inl h
  · rcases hL.found_add _ _ _ _ _ h with hnew | hold
    · exact .inr ⟨hnew, not_not.mp hne⟩
    · exact .inl hold

end ContextListCache

/-! ## Enumerations -/

inductive FetchStage
  | checked
  | fetching (gen : Nat)
  | over
deriving DecidableEq, Repr

structure Enumeration where
  uri : String
  stage : FetchStage
  began : Nat := 0
deriving DecidableEq, Repr

/-- `invalidated` is the step at which a uri was last invalidated. -/
structure Listings (L : Lru String ContextListEntry) where
  cache : ContextListCache L := {}
  enumerations : List Enumeration := []
  clock : Nat := 1
  invalidated : String → Nat := fun _ => 0

namespace Listings

inductive Label
  | check (uri : String) (now : Int)
  | claim (i : Nat)
  | put (i : Nat) (uris : List String) (now : Int)
  | endFetch (i : Nat)
  | invalidate (uri : String)
  | get (uri : String) (now : Int)
deriving DecidableEq, Repr

def act (w : Listings L) : Label → Option (Listings L)
  | .check uri now =>
    let (found, cache) := w.cache.get uri now
    some { w with
      cache
      enumerations :=
        if found.isSome then w.enumerations
        else w.enumerations ++ [{ uri, stage := .checked }] }
  | .claim i => do
    let e ← w.enumerations[i]?
    if e.stage = .checked then
      match w.cache.claim e.uri with
      | none => some { w with enumerations := w.enumerations.set i { e with stage := .over } }
      | some (gen, cache) => some { w with
          cache
          enumerations := w.enumerations.set i { e with stage := .fetching gen, began := w.clock } }
    else none
  | .put i uris now => do
    let e ← w.enumerations[i]?
    match e.stage with
    | .fetching gen =>
      some { w with cache := w.cache.put e.uri { uris, fetched := now, producer := i } gen }
    | _ => none
  | .endFetch i => do
    let e ← w.enumerations[i]?
    match e.stage with
    | .fetching _ => some { w with
        cache := w.cache.endFetch e.uri
        enumerations := w.enumerations.set i { e with stage := .over } }
    | _ => none
  | .invalidate uri => some { w with
      cache := w.cache.invalidate uri
      invalidated := Function.update w.invalidated uri w.clock }
  | .get uri now => some { w with cache := (w.cache.get uri now).2 }

def step (w : Listings L) (label : Label) : Option (Listings L) :=
  (w.act label).map fun w' => { w' with clock := w.clock + 1 }

/-! ## What every step keeps -/

structure Inv (w : Listings L) : Prop where
  inFlight : ∀ (i : Nat) (e : Enumeration) (gen : Nat), w.enumerations[i]? = some e →
    e.stage = .fetching gen →
    ∃ k, w.cache.inFlight e.uri = some k ∧ gen ≤ k ∧ (k = gen → w.invalidated e.uri < e.began)
  single : ∀ (i j : Nat) (e f : Enumeration) (gen gen' : Nat), w.enumerations[i]? = some e →
    w.enumerations[j]? = some f → e.stage = .fetching gen → f.stage = .fetching gen' →
      e.uri = f.uri → i = j
  fresh : ∀ uri entry, L.found uri w.cache.lru = some entry →
    ∃ e, w.enumerations[entry.producer]? = some e ∧ e.uri = uri ∧ w.invalidated uri < e.began
  past : ∀ uri, w.invalidated uri < w.clock

variable {w : Listings L}

theorem Inv.looked (hL : L.Lawful) (h : Inv w) (uri : String) (now : Int) :
    Inv { w with cache := (w.cache.get uri now).2 } := by
  rw [ContextListCache.lru_get]
  refine ⟨h.inFlight, h.single, fun key entry hfound => h.fresh key entry ?_, h.past⟩
  rw [← hL.found_get key uri]
  exact hfound

theorem Inv.checked (h : Inv w) (uri : String) :
    Inv { w with enumerations := w.enumerations ++ [{ uri, stage := .checked }] } := by
  have hold : ∀ {i : Nat} {e : Enumeration} {gen : Nat},
    (w.enumerations ++ [{ uri, stage := .checked }])[i]? = some e →
      e.stage = .fetching gen → w.enumerations[i]? = some e := by
    intro i e gen he hg
    rcases Nat.lt_or_ge i w.enumerations.length with hlt | hge
    · rwa [getElem?_append_left hlt] at he
    · rw [getElem?_append_right hge, getElem?_singleton] at he
      split_ifs at he
      simp only [some.injEq] at he
      simp [← he] at hg
  refine ⟨fun i e gen he hg => h.inFlight i e gen (hold he hg) hg, ?_, ?_, h.past⟩
  · intro i j e f gen gen' he hf hg hg' huri
    exact h.single i j e f gen gen' (hold he hg) (hold hf hg') hg hg' huri
  · intro key entry hfound
    obtain ⟨e, he, huri, hlt⟩ := h.fresh key entry hfound
    refine ⟨e, ?_, huri, hlt⟩
    rw [getElem?_append_left (List.getElem?_eq_some_iff.mp he).1]
    exact he

variable {i : Nat} {e : Enumeration}

theorem Inv.producers (h : Inv w) {e' : Enumeration} (he : w.enumerations[i]? = some e)
    (huri : e'.uri = e.uri)
    (hbegan : w.invalidated e.uri < e.began → w.invalidated e.uri < e'.began) :
    ∀ uri entry, L.found uri w.cache.lru = some entry →
      ∃ f, (w.enumerations.set i e')[entry.producer]? = some f ∧ f.uri = uri ∧
        w.invalidated uri < f.began := by
  intro uri entry hfound
  obtain ⟨f, hf, hfuri, hlt⟩ := h.fresh uri entry hfound
  rw [getElem?_set]
  split_ifs with hij hbound
  · rw [← hij, he, some.injEq] at hf
    subst hf
    exact ⟨e', rfl, huri.trans hfuri, hfuri ▸ hbegan (hfuri ▸ hlt)⟩
  · exact absurd (hij ▸ (List.getElem?_eq_some_iff.mp he).1) hbound
  · exact ⟨f, hf, hfuri, hlt⟩

theorem Inv.ended (h : Inv w) (he : w.enumerations[i]? = some e) :
    Inv { w with enumerations := w.enumerations.set i { e with stage := .over } } := by
  have hold : ∀ {j : Nat} {f : Enumeration} {gen : Nat},
    (w.enumerations.set i { e with stage := .over })[j]? = some f →
      f.stage = .fetching gen → w.enumerations[j]? = some f := by
    intro j f gen hf hg
    rw [getElem?_set] at hf
    split_ifs at hf with hij hlt
    · simp only [some.injEq] at hf
      simp [← hf] at hg
    · exact hf
  refine ⟨fun j f gen hf hg => h.inFlight j f gen (hold hf hg) hg, ?_, ?_, h.past⟩
  · intro j k f f' gen gen' hf hf' hg hg' huri
    exact h.single j k f f' gen gen' (hold hf hg) (hold hf' hg') hg hg' huri
  · exact h.producers he rfl id

theorem Inv.claimed (h : Inv w) (he : w.enumerations[i]? = some e)
    (hfree : w.cache.inFlight e.uri = none) :
    Inv { w with
      cache := { w.cache with inFlight := Function.update w.cache.inFlight e.uri (some 0) }
      enumerations := w.enumerations.set i { e with stage := .fetching 0, began := w.clock } } := by
  -- Nobody else fetches this uri.
  have hother : ∀ {j : Nat} {f : Enumeration} {gen : Nat}, w.enumerations[j]? = some f →
      f.stage = .fetching gen → f.uri ≠ e.uri := by
    intro j f gen hf hg heq
    obtain ⟨k, hk, -⟩ := h.inFlight j f gen hf hg
    rw [heq, hfree] at hk
    simp at hk
  have hcases : ∀ {j : Nat} {f : Enumeration} {gen : Nat},
      (w.enumerations.set i { e with stage := .fetching 0, began := w.clock })[j]? = some f →
      f.stage = .fetching gen →
      j = i ∧ f = { e with stage := .fetching 0, began := w.clock } ∧ gen = 0 ∨
      w.enumerations[j]? = some f := by
    intro j f gen hf hg
    rw [getElem?_set] at hf
    split_ifs at hf with hij hlt
    · simp only [some.injEq] at hf
      refine .inl ⟨hij.symm, hf.symm, ?_⟩
      simpa [← hf, eq_comm] using hg
    · exact .inr hf
  refine ⟨?_, ?_, ?_, h.past⟩
  · intro j f gen hf hg
    rcases hcases hf hg with ⟨-, rfl, rfl⟩ | hold
    · exact ⟨0, by simp, Nat.le_refl 0, fun _ => h.past e.uri⟩
    · simp only [Function.update_of_ne (hother hold hg)]
      exact h.inFlight j f gen hold hg
  · intro j k f f' gen gen' hf hf' hg hg' huri
    rcases hcases hf hg with ⟨rfl, rfl, -⟩ | hold
    · rcases hcases hf' hg' with ⟨rfl, -, -⟩ | hold'
      · rfl
      · exact absurd huri.symm (hother hold' hg')
    · rcases hcases hf' hg' with ⟨rfl, rfl, -⟩ | hold'
      · exact absurd huri (hother hold hg)
      · exact h.single j k f f' gen gen' hold hold' hg hg' huri
  · exact h.producers he rfl fun _ => h.past e.uri

theorem Inv.stored (hL : L.Lawful) (h : Inv w) {gen : Nat} (he : w.enumerations[i]? = some e)
    (hg : e.stage = .fetching gen) (uris : List String) (now : Int) :
    Inv { w with cache := w.cache.put e.uri { uris, fetched := now, producer := i } gen } := by
  obtain ⟨k, hk, -, hfresh⟩ := h.inFlight i e gen he hg
  refine ⟨?_, h.single, ?_, h.past⟩
  · intro j f gen' hf hg'
    simp only [ContextListCache.inFlight_put]
    exact h.inFlight j f gen' hf hg'
  · intro key entry hfound
    rcases ContextListCache.found_put hL hk hfound with hold | ⟨⟨rfl, rfl⟩, hsame⟩
    · exact h.fresh key entry hold
    · exact ⟨e, he, rfl, hfresh hsame⟩

theorem Inv.released (h : Inv w) {gen : Nat} (he : w.enumerations[i]? = some e)
    (hg : e.stage = .fetching gen) :
    Inv { w with
      cache := w.cache.endFetch e.uri
      enumerations := w.enumerations.set i { e with stage := .over } } := by
  have hended := h.ended he
  refine ⟨?_, hended.single, hended.fresh, h.past⟩
  intro j f gen' hf hg'
  have hne : f.uri ≠ e.uri := by
    intro heq
    simp only [getElem?_set] at hf
    split_ifs at hf with hij hlt
    · simp only [some.injEq] at hf
      simp [← hf] at hg'
    · exact hij (h.single i j e f gen gen' he hf hg hg' heq.symm)
  obtain ⟨k, hk, hrest⟩ := hended.inFlight j f gen' hf hg'
  exact ⟨k, by simpa [ContextListCache.endFetch, Function.update_of_ne hne] using hk, hrest⟩

theorem Inv.invalidate (hL : L.Lawful) (h : Inv w) (uri : String) :
    Inv { w with
      cache := w.cache.invalidate uri
      invalidated := Function.update w.invalidated uri w.clock
      clock := w.clock + 1 } := by
  refine ⟨?_, h.single, ?_, ?_⟩
  · intro i e gen he hg
    obtain ⟨k, hk, hle, hfresh⟩ := h.inFlight i e gen he hg
    by_cases heq : e.uri = uri
    · subst heq
      refine ⟨k + 1, by simp [ContextListCache.invalidate, hk], Nat.le_succ_of_le hle, ?_⟩
      intro hgen
      omega
    · refine ⟨k, ?_, hle, fun hgen => ?_⟩
      · simpa [ContextListCache.invalidate, Function.update_of_ne heq] using hk
      · simpa [Function.update_of_ne heq] using hfresh hgen
  · intro key entry hfound
    obtain ⟨hne, hold⟩ := hL.found_remove _ _ _ _ hfound
    obtain ⟨e, he, huri, hlt⟩ := h.fresh key entry hold
    exact ⟨e, he, huri, by simpa [Function.update_of_ne hne] using hlt⟩
  · intro uri'
    have := h.past uri'
    by_cases heq : uri' = uri
    · subst heq
      simp
    · simp only [Function.update_of_ne heq]
      omega

theorem Inv.tick (h : Inv w) : Inv { w with clock := w.clock + 1 } :=
  ⟨h.inFlight, h.single, h.fresh, fun uri => Nat.lt_succ_of_lt (h.past uri)⟩

theorem step_inv (hL : L.Lawful) {label : Label} {w' : Listings L} (h : Inv w)
    (hs : w.step label = some w') : Inv w' := by
  obtain ⟨w₁, hact, rfl⟩ := map_eq_some_iff.mp hs
  cases label with
  | check uri now =>
    cases hact
    have hlooked := h.looked hL uri now
    split_ifs
    · exact hlooked.tick
    · exact (hlooked.checked uri).tick
  | claim i =>
    simp only [act, run_eq_some] at hact
    obtain ⟨e, he, hact⟩ := hact
    split_ifs at hact
    rcases hfree : w.cache.inFlight e.uri with _ | k
    · simp only [ContextListCache.claim, hfree, isSome_none, Bool.false_eq_true, if_false,
        some.injEq] at hact
      subst hact
      exact (h.claimed he hfree).tick
    · simp only [ContextListCache.claim, hfree, isSome_some, if_true, some.injEq] at hact
      subst hact
      exact (h.ended he).tick
  | put i uris now =>
    simp only [act, run_eq_some] at hact
    obtain ⟨e, he, hact⟩ := hact
    split at hact
    · rename_i gen hg
      cases hact
      exact (h.stored hL he hg uris now).tick
    · simp at hact
  | endFetch i =>
    simp only [act, run_eq_some] at hact
    obtain ⟨e, he, hact⟩ := hact
    split at hact
    · rename_i gen hg
      cases hact
      exact (h.released he hg).tick
    · simp at hact
  | invalidate uri =>
    cases hact
    exact h.invalidate hL uri
  | get uri now =>
    cases hact
    exact (h.looked hL uri now).tick

theorem inv_new (hL : L.Lawful) : Inv ({} : Listings L) :=
  ⟨by simp, by simp, by simp [hL.found_new], by simp⟩

/-- A listing that the cache gives out is from an enumeration that began after the last
invalidation of its uri, and no uri is enumerated twice at a time. -/
theorem listings_current (hL : L.Lawful) (labels : List Label)
    (w : Listings L) (hrun : exec step {} labels = some w) :
    (∀ uri now entry, (w.cache.get uri now).1 = some entry →
      ∃ e, w.enumerations[entry.producer]? = some e ∧ e.uri = uri ∧
        w.invalidated uri < e.began) ∧
    ∀ (i j : Nat) (e f : Enumeration) (gen gen' : Nat), w.enumerations[i]? = some e →
      w.enumerations[j]? = some f → e.stage = .fetching gen → f.stage = .fetching gen' →
      e.uri = f.uri → i = j := by
  have h : Inv w := exec_invariant (fun _ _ _ h hs => step_inv hL h hs) (inv_new hL) hrun
  refine ⟨fun uri now entry hget => ?_, h.single⟩
  exact h.fresh uri entry (ContextListCache.found_of_get hget)

/-- A cache that is far from full. -/
def roomyLru : Lru String ContextListEntry where
  State := String → Option ContextListEntry
  new _ := none
  get key s := (s key, s)
  add key entry s other := if other = key then some entry else s other
  remove key s other := if other = key then none else s other

theorem roomyLru_lawful : roomyLru.Lawful where
  found_new _ := rfl
  found_get _ _ _ := rfl
  found_add key other a s b h := by
    dsimp only [Lru.found, roomyLru] at h ⊢
    split_ifs at h with hkey
    · exact .inl ⟨hkey, (some.inj h).symm⟩
    · exact .inr h
  found_remove key other s b h := by
    dsimp only [Lru.found, roomyLru] at h ⊢
    split_ifs at h with hkey
    exact ⟨hkey, h⟩

def overtakenRun : List Label :=
  [.check "u" 0, .claim 0, .invalidate "u", .put 0 ["old"] 5, .endFetch 0, .check "u" 6, .claim 1,
    .put 1 ["new"] 10]

theorem listings_current_overtakenRun :
    ∃ (w : Listings roomyLru) (entry : _), exec step {} overtakenRun = some w ∧
      (w.cache.get "u" 20).1 = some entry ∧ entry.uris = ["new"] ∧
      ∃ e, w.enumerations[entry.producer]? = some e ∧ w.invalidated "u" < e.began := by
  have hsome : (exec step ({} : Listings roomyLru) overtakenRun).map
      (fun w => (w.cache.get "u" 20).1) = some (some ⟨["new"], 10, 1⟩) := by decide
  obtain ⟨w, hrun, hget⟩ := map_eq_some_iff.mp hsome
  obtain ⟨e, he, -, hlt⟩ := (listings_current roomyLru_lawful overtakenRun w hrun).1 "u" 20 _ hget
  exact ⟨w, _, hrun, hget, rfl, e, he, hlt⟩

end Listings

end Librespot.Daemon
