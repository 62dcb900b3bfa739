import PagedTables.Pool.Scan
import PagedTables.Session.Request

/-! A pool together with what its users hold: named guards, named scans, and the requests that wait.
Every waiting request has a ticket. When locks are given back or joined, requests that fell due are
worked on, the oldest first, until nothing moves. -/

namespace PagedTables

structure Session where
  pool : Pool
  /-- Whether requests wait until they are decided; otherwise they give up at once. -/
  patient : Bool
  jobs : List Job
  nextTicket : Nat
  guards : Std.ExtTreeMap String Guard
  scans : Std.ExtTreeMap String Cursor
deriving DecidableEq

inductive GuardAnswer (α : Type)
  | noGuard
  | readOnly
  | result (result : Except Failure α)

namespace Session

def start (pool : Pool) (patient : Bool) : Session :=
  { pool, patient, jobs := [], nextTicket := 0, guards := ∅, scans := ∅ }

def isBusy (session : Session) (owner : TransactionId) : Bool :=
  session.jobs.any fun job => job.task.owner = owner

def pending (session : Session) : List Nat := session.jobs.map Job.ticket

def dropGuard (session : Session) (name : String) : Session × Bool :=
  match session.guards[name]? with
  | none => (session, false)
  | some guard =>
    ({ session with pool := (session.pool.drop guard).1, guards := session.guards.erase name },
      true)

def useGuard (session : Session) (owner : TransactionId) (guard : Guard) :
    GuardUse → Session × Option Reply
  | .view =>
    ({ session with pool := (session.pool.drop guard).1 },
      (session.pool.view guard).map (.page · guard.writable))
  | .keep name =>
    let shown := session.pool.view guard
    let session := (session.dropGuard name).1
    ({ session with guards := session.guards.insert name guard },
      shown.map (.page · guard.writable))
  | .insert tuple marked =>
    let (pool, result) := session.pool.edit guard (·.insert tuple)
    let pool :=
      if marked then (pool.edit guard fun heap => .ok (heap.markDirty (some owner), ())).1 else pool
    ({ session with pool := (pool.drop guard).1 }, result.map (.inserted guard.page ·))

def conclude (session : Session) (owner : TransactionId) (plan : Plan) (finish : Finish) :
    Session × Reply :=
  match finish with
  | .failed failure => (session, .failed failure)
  | .locked => (session, .granted)
  | .modified pages => (session, .modified pages)
  | .scanned cursor failure => (session, .ofScan cursor.pending failure)
  | .guarded guard =>
    let use :=
      match plan with
      | .useGuard use => use
      | _ => .view
    let (session, reply) := session.useGuard owner guard use
    (session, reply.getD .granted)

/-- Inserts one tuple after another. The one numbered `number` is in progress, and a given number of
them come after it. -/
def insertMore (patient : Bool) (owner : TransactionId) (table : TableId) (tuple : Tuple)
    (number : Nat) (pool : Pool) (progress : Progress) : Nat → Pool × Standing
  | 0 =>
    match pool.run patient progress with
    | (pool, .running task) => (pool, .waiting task (.insertMore table tuple number 0))
    | (pool, .finished (.failed failure)) => (pool, .answered (.ofBatch number failure))
    | (pool, .finished _) => (pool, .answered (.insertedMany (number + 1) none))
  | left + 1 =>
    match pool.run patient progress with
    | (pool, .running task) => (pool, .waiting task (.insertMore table tuple number (left + 1)))
    | (pool, .finished (.failed failure)) => (pool, .answered (.ofBatch number failure))
    | (pool, .finished _) =>
      insertMore patient owner table tuple (number + 1) pool
        (pool.insertion owner table (tuple.numbered (number + 1))) left

def proceed (session : Session) (owner : TransactionId) (progress : Progress) (plan : Plan) :
    Session × Standing :=
  match plan with
  | .insertMore table tuple number left =>
    let (pool, standing) :=
      insertMore session.patient owner table tuple number session.pool progress left
    ({ session with pool }, standing)
  | plan =>
    match session.pool.run session.patient progress with
    | (pool, .running task) => ({ session with pool }, .waiting task plan)
    | (pool, .finished finish) =>
      let (session, reply) := { session with pool }.conclude owner plan finish
      (session, .answered reply)

def begin (session : Session) (owner : TransactionId) (request : Request) : Session × Standing :=
  let pool := session.pool
  match request with
  | .lock page mode => session.proceed owner (.ask owner page (.lock mode)) .answer
  | .fetch page mode use =>
    session.proceed owner (.ask owner page (.guard mode)) (.useGuard use)
  | .insert table tuple => session.proceed owner (pool.insertion owner table tuple) .answer
  | .insertNumbered _ _ 0 => (session, .answered (.insertedMany 0 none))
  | .insertNumbered table tuple (left + 1) =>
    session.proceed owner (pool.insertion owner table (tuple.numbered 0))
      (.insertMore table tuple 0 left)
  | .delete tuple => session.proceed owner (pool.deletion owner tuple) .answer
  | .fileInsert table tuple => session.proceed owner (pool.fileInsertion owner table tuple) .answer
  | .fileDelete table tuple => session.proceed owner (pool.fileDeletion owner table tuple) .answer
  | .scan table => session.proceed owner (pool.scanning owner table) .answer

def submit (session : Session) (owner : TransactionId) (request : Request) :
    Session × Except Nat Reply :=
  match session.begin owner request with
  | (session, .answered reply) => (session, .ok reply)
  | (session, .waiting task plan) =>
    ({ session with
        jobs := session.jobs ++ [⟨session.nextTicket, task, plan⟩]
        nextTicket := session.nextTicket + 1 },
      .error session.nextTicket)

def resume (session : Session) (job : Job) : Session × Option Reply :=
  match session.proceed job.task.owner (.running job.task) job.plan with
  | (session, .answered reply) =>
    ({ session with jobs := session.jobs.filter (·.ticket ≠ job.ticket) }, some reply)
  | (session, .waiting task plan) =>
    ({ session with
        jobs := session.jobs.map fun other =>
          if other.ticket = job.ticket then ⟨job.ticket, task, plan⟩ else other },
      none)

def nextDue (session : Session) : Option Job :=
  session.jobs.find? (·.task.isDue session.pool)

def Plan.left : Plan → Nat
  | .insertMore _ _ _ left => left
  | _ => 0

/-- Rounds that suffice until nothing moves. In each one a request is refused once more or gets on by
a page, and after each page all others may be refused once. -/
def roundsNeeded (session : Session) : Nat :=
  let inserts := session.jobs.foldl (fun total job => total + 1 + Plan.left job.plan) 0
  let extent := session.pool.tables.toList.foldl
    (fun total (_, file) => total + (file.numPages session.pool.disk).toNat) 0
  (session.jobs.length + 1) * (inserts + 1)
    * (extent + session.pool.cache.size + inserts + session.jobs.length + 4)

def settleRounds : Nat → Session → Session × List (Nat × Reply)
  | 0, session => (session, [])
  | fuel + 1, session =>
    match session.nextDue with
    | none => (session, [])
    | some job =>
      match session.resume job with
      | (session, none) => settleRounds fuel session
      | (session, some reply) =>
        let (session, ended) := settleRounds fuel session
        (session, (job.ticket, reply) :: ended)

def settle (session : Session) : Session × List (Nat × Reply) :=
  let (session, ended) := settleRounds session.roundsNeeded session
  (session, ended.mergeSort fun a b => a.1 ≤ b.1)

def editGuard {α : Type} (session : Session) (name : String)
    (change : HeapPage → Except Failure (HeapPage × α)) : Session × GuardAnswer α :=
  match session.guards[name]? with
  | none => (session, .noGuard)
  | some guard =>
    if guard.writable then
      match session.pool.edit guard change with
      | (_, none) => (session, .noGuard)
      | (pool, some result) => ({ session with pool }, .result result)
    else (session, .readOnly)

def viewGuard (session : Session) (name : String) : Option HeapPage := do
  let guard ← session.guards[name]?
  session.pool.view guard

def stepScan {α : Type} (session : Session) (name : String)
    (step : Pool → Cursor → Pool × Cursor × α) : Session × Option α :=
  match session.scans[name]? with
  | none => (session, none)
  | some cursor =>
    let (pool, cursor, result) := step session.pool cursor
    ({ session with pool, scans := session.scans.insert name cursor }, some result)

def addScan (session : Session) (name : String) (owner : TransactionId) (table : TableId) :
    Session × Except Failure Unit :=
  match session.pool.file table with
  | .error failure => (session, .error failure)
  | .ok file =>
    ({ session with scans := session.scans.insert name (Cursor.closed file owner) }, .ok ())

end Session
end PagedTables
