import Mathlib.Algebra.Group.Int.Defs
import Mathlib.Algebra.Group.Nat.Defs
import Librespot.Base.Run

/-!
# The size limit of the cache (`cache/limiter.go`)

The sum of the sizes is kept in 64 bits, and wraps around. The map of the files is a list without an
order: each time the source visits it, the list is permuted.
-/

open Base.Run

namespace Librespot.Cache

structure LimiterEntry where
  size : Nat
  atime : Int
deriving DecidableEq, Repr

abbrev Files := List (String × LimiterEntry)

structure SizeLimiter where
  limit : Int
  inUse : Int := 0
  files : Files := []
deriving DecidableEq, Repr

structure FileInfo where
  path : String
  isDir : Bool := false
  size : Nat
  modTime : Int
deriving DecidableEq, Repr

structure Visits where
  order : Nat → Files → Files
  perm : ∀ i files, (order i files).Perm files

inductive Removal where
  | removed
  | notExist
  | failed
deriving DecidableEq, Repr

/-- An `int64`. -/
def wrap (n : Int) : Int := n.bmod (2 ^ 64)

namespace SizeLimiter

def isTmp (path : String) : Bool := ".tmp".toList.isSuffixOf path.toList

def visitFile (s : SizeLimiter) (info : FileInfo) : SizeLimiter :=
  if info.isDir then s
  else if isTmp info.path then s
  else
    { s with
      files := (info.path, { size := info.size, atime := info.modTime }) ::
        s.files.filter (·.1 ≠ info.path)
      inUse := wrap (s.inUse + info.size) }

def init (walked : List FileInfo) (s : SizeLimiter) : SizeLimiter := walked.foldl visitFile s

def sizeOf (path : String) (files : Files) : Int :=
  ((files.find? (·.1 = path)).map fun e => (e.2.size : Int)).getD 0

def add (path : String) (size : Nat) (now : Int) (s : SizeLimiter) : SizeLimiter :=
  { s with
    files := (path, { size, atime := now }) :: s.files.filter (·.1 ≠ path)
    inUse := wrap (wrap (s.inUse - sizeOf path s.files) + size) }

def touch (path : String) (now : Int) (s : SizeLimiter) : SizeLimiter :=
  { s with files := s.files.map fun e =>
      if e.1 = path then (path, { e.2 with atime := now }) else e }

/-- The scan for the entry to evict: the first of those with the lowest time. -/
def oldest (files : Files) : Option (String × LimiterEntry) :=
  files.foldl (fun best e =>
    match best with
    | none => some e
    | some b => if e.2.atime < b.2.atime then some e else some b) none

/-- The loop of `prune` from its round `i` on. It has a round for each file, at most, and a last
one. -/
def pruneLoop (v : Visits) (removal : Nat → Removal) :
    Nat → Nat → SizeLimiter → List String × SizeLimiter
  | 0, _, s => ([], s)
  | fuel + 1, i, s =>
    if s.inUse > s.limit then
      match oldest (v.order i s.files) with
      | none => ([], s)
      | some (path, e) =>
        let s := { s with
          files := s.files.filter (·.1 ≠ path)
          inUse := wrap (s.inUse - e.size) }
        if removal i = .failed then ([], s)
        else
          let (evicted, s) := pruneLoop v removal fuel (i + 1) s
          (path :: evicted, s)
    else ([], s)

def prune (v : Visits) (removal : Nat → Removal) (s : SizeLimiter) : List String × SizeLimiter :=
  pruneLoop v removal (s.files.length + 1) 0 s

end SizeLimiter

inductive Op where
  | add (path : String) (size : Nat) (now : Int)
  | touch (path : String) (now : Int)
  | prune (v : Visits) (removal : Nat → Removal)

/-- The limiter, the last reading of the clock, and every use of a file, the latest first. -/
structure History where
  limiter : SizeLimiter
  clock : Int
  uses : List (String × Int) := []

namespace History

def lastUse (path : String) (r : History) : Option Int :=
  (r.uses.find? (·.1 = path)).map Prod.snd

def start (limit : Int) (walked : List FileInfo) (clock : Int) : History where
  limiter := SizeLimiter.init walked { limit }
  clock
  uses := (walked.map fun info => (info.path, info.modTime)).reverse

def step (r : History) : Op → Option History
  | .add path size now =>
    if r.clock < now then
      some { limiter := r.limiter.add path size now, clock := now, uses := (path, now) :: r.uses }
    else none
  | .touch path now =>
    if r.clock < now then
      some { limiter := r.limiter.touch path now, clock := now, uses := (path, now) :: r.uses }
    else none
  | .prune v removal => some { r with limiter := (r.limiter.prune v removal).2 }

end History

end Librespot.Cache
