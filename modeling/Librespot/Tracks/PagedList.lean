import Librespot.Base.Exchange
import Librespot.Ids

/-!
# The paged list (`tracks/paged-list.go`)

The loaded items of a context with a cursor. A walk never asks for the same page twice, so the
answers that the resolver gives during one walk are a function of the page index. Another walk may
get other answers.
-/

open Base.Exchange

namespace Librespot.Tracks

structure PagedListItem (α : Type) where
  item : α
  pageIdx : Int
  itemIdx : Int
deriving DecidableEq, Repr

/-- `pagedList`: `list` and `pos` come from the marked list. -/
abbrev PagedList (α : Type) := Marked (PagedListItem α)

/-- `librespot.PageResolver`: what `Page` answers during one walk. -/
abbrev Pages (α : Type) := Int → Except Err (List α)

variable {α : Type}

namespace PagedList

def new : PagedList α := ⟨[], -1⟩

def pageItems (pageIdx : Int) (items : List α) : List (PagedListItem α) :=
  items.zipIdx.map fun (item, trackIdx) => ⟨item, pageIdx, trackIdx⟩

def nextPageIdx (l : PagedList α) : Int :=
  match l.list.getLast? with
  | none => 0
  | some curr => curr.pageIdx + 1

def fetchNextPage (page : Pages α) (l : PagedList α) : Option Err × PagedList α :=
  match page l.nextPageIdx with
  | .error err => (some err, l)
  | .ok [] => (some { text := s!"loaded an empty page for {l.nextPageIdx}" }, l)
  | .ok items => (none, { l with list := l.list ++ pageItems l.nextPageIdx items })

def moveStart (page : Pages α) (l : PagedList α) : Option Err × PagedList α :=
  if l.list.length = 0 then
    match l.fetchNextPage page with
    | (some err, l') =>
      if err.isEOF then
        (some { text := s!"failed moving to start: no more pages as of {l.nextPageIdx}" }, l')
      else (some (err.wrap "failed moving to start: "), l')
    | (none, l') => (none, { l' with pos := 0 })
  else (none, { l with pos := 0 })

def moveInjected (l : PagedList α) (item : α) : PagedList α :=
  ⟨⟨item, -1, -1⟩ :: l.list, 0⟩

def get (l : PagedList α) : Option (PagedListItem α) := l.entry

def swap (l : PagedList α) (i j : Int) : Option (PagedList α) :=
  if i < 0 ∨ i ≥ l.list.length ∨ j < 0 ∨ j ≥ l.list.length then none
  else some (l.exchange i.toNat j.toNat)

def clear (_ : PagedList α) : PagedList α := new

def resident (l : PagedList α) : List α := l.list.map (·.item)

end PagedList

/-! ## The iterator -/

structure Iter where
  pos : Int
  err : Option Err := none
deriving DecidableEq, Repr

namespace Iter

def start : Iter := { pos := -1 }

def here (l : PagedList α) : Option Iter := if l.pos < 0 then none else some { pos := l.pos }

def prev (i : Iter) : Option (Bool × Iter) :=
  if i.pos < 0 then none
  else if i.pos = 0 then some (false, { i with err := none })
  else some (true, { pos := i.pos - 1 })

/-- The fetching loop of `next`. The first argument bounds the fetches it can still need. -/
def nextLoop (page : Pages α) (i : Iter) : Nat → PagedList α → Bool × Iter × PagedList α
  | 0, l => (true, { pos := i.pos + 1 }, l)
  | n + 1, l =>
    if i.pos + 1 ≥ l.list.length then
      match l.fetchNextPage page with
      | (some err, l') =>
        if err.isEOF then (false, { i with err := none }, l')
        else
          let text := s!"failed moving to next index {i.pos + 1} (page {l.nextPageIdx}): "
          (false, { i with err := some (err.wrap text) }, l')
      | (none, l') => nextLoop page i n l'
    else (true, { pos := i.pos + 1 }, l)

def next (page : Pages α) (i : Iter) (l : PagedList α) : Bool × Iter × PagedList α :=
  nextLoop page i (i.pos + 2 - l.list.length).toNat l

def get (i : Iter) (l : PagedList α) : Option (PagedListItem α) := Marked.entry ⟨l.list, i.pos⟩

end Iter

inductive WalkEnd (β : Type)
  | left (value : β)
  | ended
  | outOfFuel
deriving DecidableEq, Repr

/-- `for iter.next(ctx) { body }`. The body gets the iterator's position and entry, and it can
panic, leave the loop or go on. -/
def walk {β : Type} (page : Pages α) (body : Int → PagedListItem α → Option (Option β)) :
    Nat → Iter → PagedList α → Option (WalkEnd β × Iter × PagedList α)
  | 0, iter, l => some (.outOfFuel, iter, l)
  | n + 1, iter, l =>
    match iter.next page l with
    | (false, iter, l) => some (.ended, iter, l)
    | (true, iter, l) => do
      let curr ← iter.get l
      match ← body iter.pos curr with
      | some value => some (.left value, iter, l)
      | none => walk page body n iter l

def seekMaxPages : Nat := 256

def pageLength (page : Pages α) (i : Nat) : Nat :=
  match page i with
  | .error _ => 0
  | .ok items => items.length

/-- Enough for a walk from the start that leaves the loop at page `seekMaxPages`: it visits what
is loaded and then the pages up to there. -/
def walkFuel (page : Pages α) (l : PagedList α) : Nat :=
  l.list.length + ((List.range (seekMaxPages + 1)).map (pageLength page)).sum + 1

/-- `golang.org/x/exp/rand`, as far as shuffling relies on it: the draws are determined by the
seed, and `Intn(n)` is below `n`. -/
structure Rand where
  Source : Type
  newSource : UInt64 → Source
  intn : Source → Nat → Nat × Source
  intn_lt : ∀ s n, 0 < n → (intn s n).1 < n

def drawZero : Rand where
  Source := Unit
  newSource _ := ()
  intn _ _ := (0, ())
  intn_lt _ _ h := h

namespace PagedList

def shuffleLoop (g : Rand) : Nat → g.Source → PagedList α → PagedList α
  | 0, _, l => l
  | i + 1, rnd, l =>
    let (j, rnd) := g.intn rnd (i + 2)
    shuffleLoop g i rnd (l.exchange (i + 1) j)

def shuffle (g : Rand) (rnd : g.Source) (l : PagedList α) : PagedList α :=
  if l.list.length ≤ 1 then l else shuffleLoop g (l.list.length - 1) rnd l

def draws (g : Rand) : Nat → g.Source → List Nat
  | 0, _ => []
  | i + 1, rnd =>
    let (j, rnd) := g.intn rnd (i + 2)
    j :: draws g i rnd

/-- Draws everything first, then exchanges from 1 up, reading the draws from the end. -/
def unshuffle (g : Rand) (rnd : g.Source) (l : PagedList α) : PagedList α :=
  if l.list.length ≤ 1 then l
  else
    let n := l.list.length
    let exchanges := draws g (n - 1) rnd
    (List.range' 1 (n - 1)).foldl (fun l i => l.exchange i (exchanges.getD (n - i - 1) 0)) l

end PagedList

end Librespot.Tracks
