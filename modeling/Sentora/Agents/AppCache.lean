import Sentora.Lib.Machine
import Sentora.Taxonomy.References

/-!
# The matcher cache

The matchers that `domains/agents/app_cache.py` keeps for each database, under the
tasks of one process: the services that change the taxonomy, the calls that want a
matcher, and the rebuilds of the summaries.  An act takes a task from one `await` to the
next.

The numbers are bookkeeping: how many writes the entries of a database had when they
were read, which write was the last of a task, and which writes no matcher may be
older than.
-/

namespace Sentora.Agents

open Lib Taxonomy

/-- The entries that a matcher is built of, and the writes before they were read. -/
structure Loaded where
  entries : List EntryDoc
  readAt : Nat
deriving DecidableEq

def loadTaxonomyEntries (s : TaxonomyStore) : List EntryDoc :=
  s.entries.docs.filter fun doc => doc.patterns != some []

/-- Building the matcher raises at null patterns. -/
def Loaded.builds (m : Loaded) : Bool := m.entries.all fun doc => doc.patterns.isSome

/-- `_taxonomy_matchers` and `_detail_matchers`. -/
inductive Kind where
  | taxonomy
  | detail
deriving DecidableEq

def program (py : Library.PyText) : Request → TaxonomyM Unit
  | .createCategory r => createCategory r >>= fun _ => pure ()
  | .updateCategory fails categoryKey r => updateCategory fails categoryKey r >>= fun _ => pure ()
  | .deleteCategory categoryKey => deleteCategory categoryKey >>= fun _ => pure ()
  | .addEntry r => addEntry r >>= fun _ => pure ()
  | .editEntry entryId r => editEntry entryId r >>= fun _ => pure ()
  | .deleteEntry entryId => deleteEntry entryId
  | .toggleUniversal entryId => toggleUniversal entryId >>= fun _ => pure ()
  | .promote r found => promoteToTaxonomy py r found >>= fun _ => pure ()

def writesEntries : TaxonomyOp → Bool
  | .updateEntries _ _ _ => true
  | .deleteEntries _ => true
  | .insertEntry _ => true
  | .updateEntry _ _ => true
  | .deleteEntry _ => true
  | .pushPatterns _ _ => true
  | _ => false

inductive Call where
  | mutate (db : String) (request : Request)
  | getMatcher (kind : Kind) (db : String)
  /-- Whether there are apps to summarise. -/
  | rebuild (db : String) (hasApps : Bool)

/-- Where a call for a matcher is: before the cache, waiting for the lock, in the cursor with
the lock, or behind it. -/
inductive Lookup where
  | looking
  | waiting
  | reading
  | loaded (m : Loaded)
deriving DecidableEq

/-- Where a rebuild is: waiting for its lock, behind it, in the cursor, or behind the
refreshed cache. -/
inductive Rebuild where
  | waiting
  | counting
  | loaded (m : Loaded)
  | summarising
deriving DecidableEq

/-- A task.  A service has written at `wrote` last, and has not invalidated since if it is
`dirty`; a call for a matcher has begun behind the first `since` writes of those that had
returned. -/
inductive Task where
  | idle
  | service (db : String) (request : Request) (wrote : Nat) (dirty : Bool)
      (rest : Process TaxonomyStore TaxonomyOp (Except TaxonomyFailure Unit))
  | getter (kind : Kind) (db : String) (since : Nat) (at_ : Lookup)
  | rebuild (db : String) (hasApps : Bool) (at_ : Rebuild)

structure Answer where
  db : String
  since : Nat
  matcher : Loaded
deriving DecidableEq

structure System (ι : Type) where
  store : String → TaxonomyStore
  matchers : Kind → String → Option Loaded := fun _ _ => none
  /-- Who holds `_matcher_lock`. -/
  lock : Option ι := none
  rebuildLock : Option ι := none
  task : ι → Task := fun _ => .idle
  answers : List Answer := []
  /-- How often the entries were written. -/
  writes : String → Nat := fun _ => 0
  /-- The last write of a service that has returned. -/
  returned : String → Nat := fun _ => 0
  /-- The last write of a service that has invalidated or returned. -/
  settled : String → Nat := fun _ => 0

namespace System

variable {ι : Type} [DecidableEq ι]

def become (s : System ι) (i : ι) (task : Task) : System ι :=
  { s with task := Function.update s.task i task }

def put (s : System ι) (kind : Kind) (db : String) (m : Option Loaded) : System ι :=
  { s with matchers := Function.update s.matchers kind (Function.update (s.matchers kind) db m) }

def answer (s : System ι) (i : ι) (db : String) (since : Nat) (m : Loaded) : System ι :=
  { s with answers := s.answers ++ [Answer.mk db since m] }.become i .idle

/-- `invalidate_taxonomy_cache`, when it has the lock. -/
def clear (s : System ι) : System ι := { s with matchers := fun _ _ => none }

def settle (s : System ι) (db : String) (wrote : Nat) : System ι :=
  { s with settled := Function.update s.settled db (max (s.settled db) wrote) }

def start (py : Library.PyText) (s : System ι) (i : ι) : Call → System ι
  | .mutate db request => s.become i (.service db request 0 false (program py request).run)
  | .getMatcher kind db => s.become i (.getter kind db (s.returned db) .looking)
  | .rebuild db hasApps => s.become i (.rebuild db hasApps .waiting)

/-- The next call of a service. -/
def perform (s : System ι) (i : ι) (db : String) (request : Request) (wrote : Nat) (dirty : Bool)
    (op : TaxonomyOp) (update : TaxonomyStore → TaxonomyStore)
    (rest : Process TaxonomyStore TaxonomyOp (Except TaxonomyFailure Unit)) : System ι :=
  let t := { s with store := Function.update s.store db (update (s.store db)) }
  if op = .invalidate then (t.clear.settle db wrote).become i (.service db request wrote false rest)
  else if writesEntries op then
    { t with writes := Function.update t.writes db (t.writes db + 1) }.become i
      (.service db request (t.writes db + 1) true rest)
  else t.become i (.service db request wrote dirty rest)

def finish (s : System ι) (i : ι) (db : String) (wrote : Nat) :
    Except TaxonomyFailure Unit → System ι
  | .ok _ =>
    { s.settle db wrote with
      returned := Function.update s.returned db (max (s.returned db) wrote) }.become i .idle
  | .error _ => s.become i .idle

/-- `get_taxonomy_matcher` and `get_detail_matcher`. -/
def advanceGetter (s : System ι) (i : ι) (kind : Kind) (db : String) (since : Nat) :
    Lookup → System ι
  | .looking =>
    match s.matchers kind db with
    | some m => s.answer i db since m
    | none => s.become i (.getter kind db since .waiting)
  | .waiting =>
    match s.matchers kind db with
    | some m => s.answer i db since m
    | none => { s with lock := some i }.become i (.getter kind db since .reading)
  | .reading =>
    s.become i (.getter kind db since (.loaded ⟨loadTaxonomyEntries (s.store db), s.writes db⟩))
  | .loaded m =>
    if m.builds then ({ s with lock := none }.put kind db (some m)).answer i db since m
    else { s with lock := none }.become i .idle

/-- `rebuild_app_summaries`, which writes the caches without their lock. -/
def advanceRebuild (s : System ι) (i : ι) (db : String) (hasApps : Bool) : Rebuild → System ι
  | .waiting => { s with rebuildLock := some i }.become i (.rebuild db hasApps .counting)
  | .counting =>
    if hasApps then
      s.become i (.rebuild db hasApps (.loaded ⟨loadTaxonomyEntries (s.store db), s.writes db⟩))
    else { s with rebuildLock := none }.become i .idle
  | .loaded m =>
    if m.builds then
      ((s.put .taxonomy db (some m)).put .detail db none).become i
        (.rebuild db hasApps .summarising)
    else { s with rebuildLock := none }.become i .idle
  | .summarising => { s with rebuildLock := none }.become i .idle

def advance (s : System ι) (i : ι) : System ι :=
  match s.task i with
  | .idle => s
  | .service db _ wrote _ (.ret result) => s.finish i db wrote result
  | .service db request wrote dirty (.step op update rest) =>
    s.perform i db request wrote dirty op update (rest (s.store db))
  | .getter kind db since at_ => s.advanceGetter i kind db since at_
  | .rebuild db hasApps at_ => s.advanceRebuild i db hasApps at_

end System

def Task.isIdle : Task → Bool
  | .idle => true
  | _ => false

/-- What may go on: not what waits for a lock that is held. -/
def Task.ready {ι : Type} (s : System ι) : Task → Bool
  | .idle => false
  | .service _ _ _ _ (.step .invalidate _ _) => s.lock.isNone
  | .getter _ _ _ .waiting => s.lock.isNone
  | .rebuild _ _ .waiting => s.rebuildLock.isNone
  | _ => true

inductive Act (ι : Type) where
  | start (i : ι) (call : Call)
  | advance (i : ι)

def appCache (py : Library.PyText) (ι : Type) [DecidableEq ι] : Machine (System ι) (Act ι) where
  Enabled s
    | .start i _ => (s.task i).isIdle = true
    | .advance i => (s.task i).ready s = true
  next s
    | .start i call => s.start py i call
    | .advance i => s.advance i

end Sentora.Agents
