import Gamely.Broker
import Gamely.Interleaving
import Gamely.JobCodec

/-!
# Mail jobs between the publisher and the workers

Publishers and message handlers are programs over one broker and one mail
server, a call at a time in any order. A task is one run of either; when its
process dies its connection is lost, its next call is never answered and the
broker takes back what it held.
-/

set_option autoImplicit false

namespace Gamely.MailWorker
open Gamely.Calls Gamely.Broker Gamely.Json Gamely.EmailJobs Gamely.JobCodec

/-! ## The topology -/

def deadQueue : Queue := ⟨"auth.email.dead", "dead", none, none⟩

def primaryQueue : Queue := ⟨"auth.email.primary", "send", none, some "dead"⟩

def retryQueue (delay : ℕ) : Queue :=
  ⟨s!"auth.email.retry.{delay}", s!"retry.{delay}", some (delay*1000), some "send"⟩

/-- `declare_topology`; every queue is bound to `auth.email`. -/
def topology : List Queue := [deadQueue, primaryQueue] ++ [30, 60, 120, 240].map retryQueue

def retryDelays : List ℕ := [30, 60, 120, 240]

/-! ## Calls -/

/-- A message, and what no code reads: the task that published its job and how
often the job has been put off since. -/
structure Mail where
  origin : ℕ
  retry : ℕ
  body : Bytes
  deriving DecidableEq, Repr

abbrev Uuid := {s : String // s ≠ ""}

/-- Every call to another process names the task it is made by. -/
inductive Command (F : Type) where
  | utcnow
  | uuid4
  | channel (task : ℕ)
  | declareTopology (task : ℕ)
  | close (task : ℕ)
  | publish (task : ℕ) (key : String) (body : Bytes)
  | consume (task : ℕ)
  | send (task : ℕ) (job : Job F)
  | ack (task : ℕ)
  | reject (task : ℕ)

abbrev Reply {F : Type} : Command F → Type
  | .utcnow => ℤ
  | .uuid4 => Uuid
  | .consume _ => Mail
  | _ => Unit

structure Attempt where
  task : ℕ
  origin : ℕ
  deriving DecidableEq, Repr

/-- The clock counts microseconds. `attempts` are the mails SMTP was asked to send,
`sent` the jobs it took, `dropped` those acknowledged by a task that sent nothing,
with the time; `lost` are the tasks whose process has died. -/
structure World where
  now : ℕ
  broker : Messages Mail
  attempts : List Attempt
  sent : List ℕ
  dropped : List (ℕ × ℤ)
  lost : List ℕ
  deriving DecidableEq, Repr

structure Choice where
  pick : ℕ := 0
  failure : Option Failure := none
  uuid : Uuid := ⟨"uuid", by decide⟩
  deriving DecidableEq, Repr

def Command.task? {F : Type} : Command F → Option ℕ
  | .utcnow => none
  | .uuid4 => none
  | .channel task => some task
  | .declareTopology task => some task
  | .close task => some task
  | .publish task _ _ => some task
  | .consume task => some task
  | .send task _ => some task
  | .ack task => some task
  | .reject task => some task

/-- A handler's message descends from the one it handles. -/
def mailOf (b : Messages Mail) (task : ℕ) (key : String) (body : Bytes) : Mail :=
  match heldBy b task with
  | some u => ⟨u.entry.message.origin,
      if key = "dead" then u.entry.message.retry else u.entry.message.retry+1, body⟩
  | none => ⟨task, 0, body⟩

def World.millis (w : World) : ℕ := w.now/1000

variable {F : Type}

def answer (x : Choice) (w : World) : (c : Command F) → Option (Reply c × World)
  | .utcnow => some ((w.now : ℤ), w)
  | .uuid4 => some (x.uuid, w)
  | .channel _ => some ((), w)
  | .declareTopology _ => some ((), w)
  | .close _ => some ((), w)
  | .publish task key body =>
    (publish topology w.millis key (mailOf w.broker task key body) w.broker).map
      (fun b => ((), { w with broker := b }))
  | .consume task => (take "auth.email.primary" x.pick task w.broker).map
      (fun r => (r.1, { w with broker := r.2 }))
  | .send task _ => (heldBy w.broker task).map (fun u => ((),
      { w with
        attempts := w.attempts ++ [⟨task, u.entry.message.origin⟩]
        sent := w.sent ++ [u.entry.message.origin] }))
  | .ack task => (heldBy w.broker task).map (fun u => ((),
      { w with
        broker := Broker.ack task w.broker
        dropped := if w.attempts.any (fun a => a.task = task) then w.dropped
          else w.dropped ++ [(u.entry.message.origin, (w.now : ℤ))] }))
  | .reject task => (heldBy w.broker task).map (fun u => ((),
      { w with broker := reject topology w.millis u w.broker }))

/-- What a failed call leaves: SMTP was asked all the same. -/
def failed (w : World) : Command F → Option World
  | .channel _ => some w
  | .declareTopology _ => some w
  | .close _ => some w
  | .publish .. => some w
  | .send task _ => (heldBy w.broker task).map (fun u =>
      { w with attempts := w.attempts ++ [⟨task, u.entry.message.origin⟩] })
  | _ => none

def perform (c : Command F) (x : Choice) (w : World) :
    Option (Except Failure (Reply c) × World) :=
  if ∃ task ∈ c.task?, task ∈ w.lost then none
  else match x.failure with
    | none => (answer x w c).map (fun r => (.ok r.1, r.2))
    | some e => (failed w c).map (fun w => (.error e, w))

/-! ## Publishing -/

abbrev Act (F : Type) := Program (Command F) Reply Failure

variable (py : Interpreter F)

/-- `to_bytes`. -/
def encodeJob (job : Job F) : Act F Bytes := do
  let id ← if truthy py job.id then pure job.id
    else (fun u => Value.str (text u.val)) <$> invoke (Command.uuid4 (F := F))
  ofResult (Job.toBytes py { job with id := id })

/-- The error of a call, as a value. -/
def attempt (p : Act F Unit) : Act F (Option Failure) :=
  tryCatchThe Failure (do
    p
    return none) (fun e => return some e)

/-- `EmailPublisher.publish`. -/
def publishJob (task : ℕ) (connected : Bool) (job : EmailJob) : Act F Unit :=
  if connected = false then
    throw (.serviceUnavailable "Email delivery is temporarily unavailable.")
  else do
    invoke (Command.channel (F := F) task)
    let raised ← attempt (do
      invoke (Command.declareTopology (F := F) task)
      let body ← encodeJob py (fieldsJob F job.fields)
      invoke (Command.publish (F := F) task "send" body))
    invoke (Command.close (F := F) task)
    match raised with
    | none => return ()
    | some e => throw e

/-! ## Handling -/

/-- The errors of `from_bytes` that the handler expects. -/
def isDecodeError : Failure → Bool
  | .valueError _ => true
  | .keyError => true
  | .typeError _ => true
  | _ => false

def republish (task : ℕ) (body : Bytes) (job : Job F) : Act F Unit := do
  if ← ofResult (atLeast py retryDelays.length job.attempts) then
    invoke (Command.publish (F := F) task "dead" body)
  else do
    let attempts ← ofResult (increment py job.attempts)
    let retry ← ofResult (Job.make py { job with attempts := attempts })
    let body ← encodeJob py retry
    let delay ← ofResult (item retryDelays job.attempts)
    invoke (Command.publish (F := F) task s!"retry.{delay}" body)
  invoke (Command.ack (F := F) task)

def handleMessage (task : ℕ) (body : Bytes) : Act F Unit :=
  match fromBytes py body with
  | .error e => if isDecodeError e then invoke (Command.reject (F := F) task) else throw e
  | .ok job => do
    let now : ℤ ← invoke (Command.utcnow (F := F))
    if job.expiresAt.instant ≤ now then invoke (Command.ack (F := F) task)
    else do
      match ← attempt (invoke (Command.send task job)) with
      | none => invoke (Command.ack (F := F) task)
      | some .recipientRefused => invoke (Command.reject (F := F) task)
      | some _ =>
        tryCatchThe Failure (republish py task body job)
          (fun _ => invoke (Command.reject (F := F) task))

/-! ## The system -/

inductive Request where
  | publish (connected : Bool) (job : EmailJob)
  | work
  deriving DecidableEq

/-- A worker starts one task for each delivery. -/
def program (task : ℕ) : Request → Act F Unit
  | .publish connected job => publishJob py task connected job
  | .work => do
    let message : Mail ← invoke (Command.consume (F := F) task)
    handleMessage py task message.body

inductive Passing where
  | elapse (micros : ℕ)
  | expire (n : ℕ)
  | crash (tasks : List ℕ)
  deriving DecidableEq

def passed : Passing → World → World
  | .elapse micros, w => { w with now := w.now+micros }
  | .expire n, w => { w with broker := expire topology w.millis n w.broker }
  | .crash tasks, w => { w with broker := lose tasks w.broker, lost := w.lost ++ tasks }

def system : Interleaving.System (Command F) Reply Failure Unit World Choice Request Passing where
  perform := perform
  program := program py
  cancelled := fun _ => none
  pass := passed

def World.fresh (now : ℕ) : World := ⟨now, Broker.empty, [], [], [], []⟩

def survives : Interleaving.Label Request Choice Passing → Bool
  | .pass (.crash _) => false
  | _ => true

/-- An interpreter with a single float and the C module. -/
def plainInterpreter : Interpreter Unit where
  parseFloat _ := ()
  repr _ := [48, 46, 48]
  nan := ()
  infinity := ()
  negInfinity := ()
  truthy _ := false
  less _ n := 0 < n
  atLeast _ n := n ≤ 0
  plus _ _ := ()
  depth := 900
  depth_pos := by decide
  fromisoformat := DateTimes.fromisoformat
  fromisoformat_isoformat := DateTimes.fromisoformat_isoformat
  read_fromisoformat _ _ := DateTimes.read_fromisoformat

end Gamely.MailWorker
