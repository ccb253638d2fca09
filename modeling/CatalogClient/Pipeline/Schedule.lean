import CatalogClient.Pipeline.Task
/-!
Tasks carried out together. One task at a time goes on until it has to wait; those that can go on
stand in a queue. Time passes only while no task can go on: the clock then moves to the next timer.
At most a window of tasks is under way, and a new one begins when the first of them is done.
-/

namespace CatalogClient

structure Timer where
  time : Instant
  task : Nat
  /-- The timer is the task's deadline, and not what the task waits for. -/
  isDeadline : Bool
  deriving DecidableEq, Repr

/-- A task that has not begun. -/
structure Order where
  goal : Goal
  deadline : Option Span

structure Schedule (σ : Type) where
  world : World σ
  /-- The tasks that have begun, in the order in which they did. -/
  tasks : List Task
  ready : List Nat
  /-- Timers in the order in which they were set. -/
  timers : List Timer
  orders : List Order
  window : Nat

namespace Schedule

variable {σ : Type}

/-- The task that the lock passed on to in a step of task `i`. -/
def passedOn (before after : Turnstile) (i : Nat) : List Nat :=
  if before.holder = after.holder ∨ after.holder = some i then [] else after.holder.toList

/-- The steps of one task up to the first at which it has to wait, and the tasks that may go on
because of them. A fault comes with the world in which it arose. -/
def advance (p : Peer σ) (c : Setup) :
    Nat → World σ → Task → List Nat → Except (World σ × Fault) (World σ × Task × List Nat)
  | 0, w, t, woken => .ok (w, t, woken)
  | fuel + 1, w, t, woken =>
    match t.step p c w with
    | .error fault => .error (w, fault)
    | .ok none => .ok (w, t, woken)
    | .ok (some (w', t')) => advance p c fuel w' t' (woken ++ passedOn w.turnstile w'.turnstile t.id)

/-- A task that waits past its deadline expires. -/
def checkDeadline (w : World σ) (t : Task) : World σ × Task × List Nat :=
  if t.stage.outcome?.isNone ∧ t.deadline.any (· ≤ w.now) then
    let (w', t') := t.expire w
    (w', t', passedOn w.turnstile w'.turnstile t.id)
  else (w, t, [])

/-- Puts tasks at the end of the queue, unless they stand in it. -/
def enqueue (ready : List Nat) (woken : List Nat) : List Nat :=
  woken.foldl (fun q i => if i ∈ q then q else q ++ [i]) ready

def resetTimers (timers : List Timer) (t : Task) : List Timer :=
  let others := timers.filter fun x => x.task ≠ t.id
  let own := timers.filter fun x => x.task = t.id
  if t.stage.outcome?.isSome then others
  else
    let kept := timers.filter fun x => x.task ≠ t.id ∨ x.isDeadline ∨ some x.time = t.stage.wake?
    let wakes := (t.stage.wake?.map fun i => Timer.mk i t.id false).toList
    let deadlines := (t.deadline.map fun i => Timer.mk i t.id true).toList
    kept ++ (wakes ++ deadlines).filter (· ∉ own)

/-- The number of tasks under way: from the first that is not done, to the last that has begun. -/
def underWay (tasks : List Task) : Nat :=
  (tasks.dropWhile fun t => t.stage.outcome?.isSome).length

/-- Begins tasks as long as the window has room. -/
def commence (s : Schedule σ) : List Order → Schedule σ
  | [] => { s with orders := [] }
  | o :: orders =>
    if underWay s.tasks < s.window then
      let id := s.world.tasks
      let t := Task.start s.world id o.goal o.deadline
      commence { s with
        world := { s.world with tasks := id + 1 }
        tasks := s.tasks ++ [t]
        ready := s.ready ++ [id] } orders
    else { s with orders := o :: orders }

def poll (p : Peer σ) (c : Setup) (fuel : Nat) (s : Schedule σ) (t : Task) :
    Except (World σ × Fault) (Schedule σ) := do
  let (w, t, woken) ← advance p c fuel s.world t []
  let (w, t, freed) := checkDeadline w t
  let s := { s with
    world := w
    tasks := s.tasks.map fun (u : Task) => if u.id = t.id then t else u
    ready := enqueue s.ready (woken ++ freed)
    timers := resetTimers s.timers t }
  return s.commence s.orders

/-- The clock moves to the next timer, and the tasks whose timers have come go on. It never goes
back. -/
def elapse (s : Schedule σ) (time : Instant) : Schedule σ :=
  let due := s.timers.filter (·.time ≤ time)
  { s with
    world := { s.world with now := if s.world.now ≤ time then time else s.world.now }
    ready := enqueue s.ready (due.map (·.task))
    timers := s.timers.filter (¬ ·.time ≤ time) }

/-- The earlier of an instant and that of a timer. -/
def sooner (best : Option Instant) (x : Timer) : Option Instant :=
  match best with
  | none => some x.time
  | some i => some (if x.time < i then x.time else i)

def nextTime? (timers : List Timer) : Option Instant := timers.foldl sooner none

/-- Carries out all tasks. The number bounds the steps. -/
def run (p : Peer σ) (c : Setup) : Nat → Schedule σ → Except (World σ × Fault) (Schedule σ)
  | 0, s => .ok s
  | fuel + 1, s =>
    match s.ready with
    | i :: ready =>
      let s := { s with ready := ready }
      match s.tasks.find? (·.id = i) with
      | none => run p c fuel s
      | some t => do run p c fuel (← poll p c fuel s t)
    | [] =>
      match nextTime? s.timers with
      | none => .ok s
      | some time => run p c fuel (s.elapse time)

def ofOrders (w : World σ) (window : Nat) (orders : List Order) : Schedule σ :=
  commence ⟨w, [], [], [], [], max window 1⟩ orders

/-- The most steps that an attempt takes with all that leads up to it: at most as many exchanges as
two grants and their retries allow, and the steps around them. -/
def attemptSteps (maxRetries : Nat) : Nat := 4 * maxRetries + 9

def taskSteps (maxRetries : Nat) : Nat := (maxRetries + 2) * attemptSteps maxRetries

/-- As many steps as any run of so many orders takes. After each step that is no refusal, every task
may be refused a slot three times; with a step go the timers it sets and the tasks it wakes. -/
def enough (maxRetries orders : Nat) : Nat :=
  orders * (5 * ((3 * orders + 1) * taskSteps maxRetries + 3) + 3)

end Schedule

namespace World

variable {σ : Type}

/-- Carries out tasks, at most a window of them at a time; their outcomes stand in the order of the
orders. A fault ends all of them. -/
def perform (p : Peer σ) (c : Setup) (w : World σ) (window : Nat) (orders : List Order) :
    World σ × Except Fault (List Outcome) :=
  match Schedule.run p c (Schedule.enough c.policy.maxRetries orders.length)
      (Schedule.ofOrders w window orders) with
  | .error (w, fault) => ({ w with turnstile := .free }, .error fault)
  | .ok s => (s.world, .ok (s.tasks.filterMap (·.stage.outcome?)))

/-- Lets time pass while no task is under way. -/
def advance (w : World σ) (d : Span) : World σ := { w with now := ⟨w.now.nanos + d.nanos⟩ }

end World

end CatalogClient
