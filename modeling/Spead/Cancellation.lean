/-!
Telling work to stop.

A token is cancelled by raising its flag, which its clones share. A child has a flag of its own and
also looks at the flag of its parent, but no further up.
-/

namespace Spead

structure CancelToken where
  flag : Nat
  parentFlag : Option Nat := none
  deriving DecidableEq, Repr

/-- The flags handed out so far and those among them that are raised. -/
structure CancelFlags where
  count : Nat := 0
  raised : List Nat := []
  deriving DecidableEq, Repr

namespace CancelFlags

def newToken (flags : CancelFlags) : CancelToken × CancelFlags :=
  (⟨flags.count, none⟩, { flags with count := flags.count + 1 })

def newChild (flags : CancelFlags) (parent : CancelToken) : CancelToken × CancelFlags :=
  (⟨flags.count, some parent.flag⟩, { flags with count := flags.count + 1 })

/-- Cancel a token and its clones. Its children notice. -/
def cancel (flags : CancelFlags) (token : CancelToken) : CancelFlags :=
  { flags with raised := token.flag :: flags.raised }

def isCancelled (flags : CancelFlags) (token : CancelToken) : Bool :=
  flags.raised.contains token.flag || token.parentFlag.any flags.raised.contains

end CancelFlags

/-- Workers that take jobs from one queue. A job changes what the workers share. -/
structure WorkerPool (shared : Type) where
  threads : Nat
  /-- Jobs not yet done, the oldest first. -/
  jobs : List (shared → shared) := []
  token : CancelToken
  flags : CancelFlags

namespace WorkerPool

variable {shared : Type}

/-- A pool without jobs. It has at least one thread. -/
def new (threads : Nat) : WorkerPool shared :=
  let (token, flags) := CancelFlags.newToken {}
  { threads := max 1 threads, token, flags }

def spawn (pool : WorkerPool shared) (job : shared → shared) : WorkerPool shared :=
  { pool with jobs := pool.jobs ++ [job] }

/-- Shut the pool down: its token is cancelled, and the jobs in the queue are done before the
workers end. -/
def shutDown (pool : WorkerPool shared) (start : shared) : shared × WorkerPool shared :=
  (pool.jobs.foldl (fun current job => job current) start,
    { pool with jobs := [], flags := pool.flags.cancel pool.token })

end WorkerPool
end Spead
