import WolfInterp.Sched.Doors

/-!
# Who waits where

The board is the part of the scheduler's state that says what every task is doing, which wake it
has been given, in which queues it stands and who holds which mutex. A task stands in a queue only
while it is inside a door that registers it there and nobody has woken it. Waking a task that no
queue lists keeps that so, and every operation of the scheduler wakes tasks in this way only.
-/

namespace WolfInterp.Sched

variable {Data : Type}

/-- A queue a task can stand in while it is inside a door. -/
inductive Post where
  | sender (chan : ChanId)
  | receiver (chan : ChanId)
  | selecter (chan : ChanId)
  | timer
  | sleep
  | waiter (mutex : MutexId)
  deriving DecidableEq

/-- Does a door register its caller in a queue? -/
def Op.StandsAt : Op Data → Post → Prop
  | .send _ chan _, .sender other => chan = other
  | .recv _ chan, .receiver other => chan = other
  | .select _ arms _, .selecter chan => ∃ pair ∈ arms, pair.2 = chan
  | .select .., .timer => True
  | .sleepPark .., .sleep => True
  | .acquire _ mutex, .waiter other => mutex = other
  | _, _ => False

/-- Is a door the acquisition of a mutex? -/
def Op.acquires : Op Data → Option MutexId
  | .acquire _ mutex => some mutex
  | _ => none

/-- The queues in which a task stands once at most, and in no other queue beside it. -/
def Post.alone : Post → Bool
  | .selecter _ | .timer => false
  | _ => true

theorem Op.StandsAt.unique {op : Op Data} {post other : Post} (here : op.StandsAt post)
    (alone : post.alone = true) (there : op.StandsAt other) : other = post := by
  revert here alone
  fun_cases Op.StandsAt op post with
  | case3 | case4 => exact fun _ => nofun
  | case7 => exact fun here => here.elim
  | _ =>
    intro here _
    cases other <;> first | exact there.elim | simp_all [Op.StandsAt]

/-- A wake that tells a task it does not get what it waits for. -/
def Wake.refuses : Wake Data → Bool
  | .cancelled | .killed | .deadlock _ => true
  | .ok _ | .closed | .arm .. => false

/-- The doors that the tasks are inside of. -/
abbrev Calls (Data : Type) := TaskId → Option (Op Data)

/-- What the tasks do and where they wait. A task that has ended has no wake. -/
structure Board (Data : Type) where
  doing : TaskId → TaskState
  wake : TaskId → Option (Wake Data)
  ready : List TaskId
  queue : Post → List TaskId
  holder : MutexId → Option TaskId

namespace Board

/-- Set what a task is doing. -/
def set (board : Board Data) (task : TaskId) (doing : TaskState) (wake : Option (Wake Data)) :
    Board Data :=
  { board with
    doing := Function.update board.doing task doing
    wake := Function.update board.wake task wake }

/-- Wake a task. -/
def makeReady (board : Board Data) (task : TaskId) (wake : Wake Data) : Board Data :=
  match board.doing task with
  | .blocked | .fresh => { board.set task .ready (some wake) with ready := board.ready ++ [task] }
  | .ready => board.set task .ready (some wake)
  | .running => board.set task .running (some wake)
  | .done => board

/-- Take a task out of every queue. -/
def deregister (board : Board Data) (task : TaskId) : Board Data :=
  { board with queue := fun post => (board.queue post).filter (· ≠ task) }

/-- Set one queue. -/
def line (board : Board Data) (post : Post) (tasks : List TaskId) : Board Data :=
  { board with queue := Function.update board.queue post tasks }

/-- The parked task on its way out. -/
def lieDown (board : Board Data) (me : TaskId) : Board Data :=
  match board.wake me with
  | none => board.set me .blocked none
  | some wake => { board.set me .ready (some wake) with ready := board.ready ++ [me] }

/-! ## Standing in a queue -/

/-- Inside a door, with no wake yet. -/
def Unwoken (board : Board Data) (task : TaskId) : Prop :=
  (board.doing task = .blocked ∨ board.doing task = .running) ∧ board.wake task = none

/-- Back in the ready queue with what was waited for. -/
def Granted (board : Board Data) (task : TaskId) : Prop :=
  board.doing task = .ready ∧ ∃ value, board.wake task = some (.ok value)

/-- Back in the ready queue with a refusal. -/
def Told (board : Board Data) (task : TaskId) : Prop :=
  board.doing task = .ready ∧ ∃ wake, board.wake task = some wake ∧ wake.refuses = true

/-- Every task in a queue is inside a door that registers it there and waits for its wake. -/
structure Placed (board : Board Data) (calls : Calls Data) : Prop where
  posted : ∀ post, ∀ task ∈ board.queue post,
    board.Unwoken task ∧ ∃ op ∈ calls task, op.StandsAt post
  single : ∀ post, post.alone = true → (board.queue post).Nodup
  ready : board.ready.Nodup
  queued : ∀ task ∈ board.ready, board.doing task = .ready
  asleep : ∀ task, board.doing task = .blocked → board.wake task = none

/-- What may happen on the board while the doors the tasks are inside of stay the same: nobody
gets or loses a mutex, and a task inside an acquisition is told nothing but a refusal. -/
structure Moves (calls : Calls Data) (before after : Board Data) : Prop where
  placed : after.Placed calls
  holder : after.holder = before.holder
  queues : ∀ post, after.queue post ⊆ before.queue post
  waits : ∀ task, ∀ op ∈ calls task, op.acquires.isSome = true →
    (before.Unwoken task → after.Unwoken task ∨ after.Told task) ∧
      (before.Granted task → after.Granted task) ∧ (before.Told task → after.Told task)
  running : ∀ task, after.doing task = .running → before.doing task = .running ∧
    (calls task = none → after.wake task = before.wake task)
  alive : ∀ task, before.doing task ≠ .done → after.doing task ≠ .done
  blocked : ∀ task, after.doing task = .blocked →
    before.doing task = .blocked ∨ before.doing task = .running

section Basics

variable {board middle after : Board Data} {calls : Calls Data} {task : TaskId}

@[simp]
theorem set_doing_self (doing : TaskState) (wake : Option (Wake Data)) :
    (board.set task doing wake).doing task = doing := Function.update_self ..

@[simp]
theorem set_wake_self (doing : TaskState) (wake : Option (Wake Data)) :
    (board.set task doing wake).wake task = wake := Function.update_self ..

theorem set_doing_of_ne {other : TaskId} (differs : other ≠ task) (doing : TaskState)
    (wake : Option (Wake Data)) : (board.set task doing wake).doing other = board.doing other :=
  Function.update_of_ne differs ..

theorem set_wake_of_ne {other : TaskId} (differs : other ≠ task) (doing : TaskState)
    (wake : Option (Wake Data)) : (board.set task doing wake).wake other = board.wake other :=
  Function.update_of_ne differs ..

@[simp]
theorem set_set (doing doing' : TaskState) (wake wake' : Option (Wake Data)) :
    (board.set task doing wake).set task doing' wake' = board.set task doing' wake' := by
  simp [set]

theorem set_same : board.set task (board.doing task) (board.wake task) = board := by
  simp [set]

@[simp]
theorem makeReady_queue (task : TaskId) (wake : Wake Data) :
    (board.makeReady task wake).queue = board.queue := by
  unfold makeReady
  split <;> rfl

theorem makeReady_doing_of_ne {other : TaskId} (differs : other ≠ task) (wake : Wake Data) :
    (board.makeReady task wake).doing other = board.doing other := by
  unfold makeReady
  split
  · exact set_doing_of_ne differs .ready (some wake)
  · exact set_doing_of_ne differs .ready (some wake)
  · exact set_doing_of_ne differs .ready (some wake)
  · exact set_doing_of_ne differs .running (some wake)
  · rfl

theorem line_queue_self (post : Post) (tasks : List TaskId) :
    (board.line post tasks).queue post = tasks := Function.update_self ..

theorem line_queue_of_ne {post other : Post} (differs : other ≠ post) (tasks : List TaskId) :
    (board.line post tasks).queue other = board.queue other := Function.update_of_ne differs ..

theorem mem_deregister {post : Post} {other : TaskId} :
    other ∈ (board.deregister task).queue post ↔ other ∈ board.queue post ∧ other ≠ task := by
  simp [deregister]

/-- A task that no queue lists is not listed after it was taken out of every queue. -/
theorem not_mem_deregister (post : Post) : task ∉ (board.deregister task).queue post :=
  fun member => (mem_deregister.mp member).2 rfl

theorem Moves.trans (first : Moves calls board middle) (second : Moves calls middle after) :
    Moves calls board after where
  placed := second.placed
  holder := second.holder.trans first.holder
  queues post := List.Subset.trans (second.queues post) (first.queues post)
  waits task op inside acquires := by
    obtain ⟨unwoken, granted, told⟩ := first.waits task op inside acquires
    obtain ⟨unwoken', granted', told'⟩ := second.waits task op inside acquires
    refine ⟨fun waits => ?_, fun holds => granted' (granted holds), fun holds => told' (told holds)⟩
    rcases unwoken waits with waits | holds
    · exact unwoken' waits
    · exact .inr (told' holds)
  running task runs := by
    obtain ⟨runs, same⟩ := second.running task runs
    obtain ⟨runs, same'⟩ := first.running task runs
    exact ⟨runs, fun outside => (same outside).trans (same' outside)⟩
  alive task alive := second.alive task (first.alive task alive)
  blocked task blocked := by
    rcases second.blocked task blocked with blocked | runs
    · exact first.blocked task blocked
    · exact .inr (first.running task runs).1

end Basics

/-! ## The moves -/

section Laws

variable {board : Board Data} {calls : Calls Data} {task : TaskId}

section

variable (placed : board.Placed calls)
include placed

/-- Queues may lose tasks. -/
theorem Placed.thin {queue : Post → List TaskId}
    (thinner : ∀ post, (queue post).Sublist (board.queue post)) :
    Moves calls board { board with queue } where
  placed :=
    { posted := fun post task member => placed.posted post task ((thinner post).subset member)
      single := fun post exclusive => (placed.single post exclusive).sublist (thinner post)
      ready := placed.ready
      queued := placed.queued
      asleep := placed.asleep }
  holder := rfl
  queues post := (thinner post).subset
  waits _ _ _ _ := ⟨.inl, id, id⟩
  running _ runs := ⟨runs, fun _ => rfl⟩
  alive _ alive := alive
  blocked _ := .inl

/-- A task in a queue may be set as far as the tasks that stand in queues are concerned. -/
theorem Placed.posted_set
    (free : ∀ post, task ∉ board.queue post) (doing : TaskState) (wake : Option (Wake Data))
    (post : Post) (other : TaskId) (member : other ∈ board.queue post) :
    (board.set task doing wake).Unwoken other ∧ ∃ op ∈ calls other, op.StandsAt post := by
  obtain ⟨unwoken, inside⟩ := placed.posted post other member
  have differs : other ≠ task := by
    rintro rfl
    exact free post member
  refine ⟨?_, inside⟩
  rw [Unwoken, set_doing_of_ne differs, set_wake_of_ne differs]
  exact unwoken

/-- Setting a task that no queue lists. -/
theorem Placed.set (free : ∀ post, task ∉ board.queue post)
    {doing : TaskState} {wake : Option (Wake Data)} (stays : task ∈ board.ready → doing = .ready)
    (sleeps : doing ≠ .blocked) (waits : ∀ op ∈ calls task, op.acquires.isSome = true →
      (board.Unwoken task → (board.set task doing wake).Unwoken task ∨
        (board.set task doing wake).Told task) ∧
      (board.Granted task → (board.set task doing wake).Granted task) ∧
      (board.Told task → (board.set task doing wake).Told task))
    (runs : doing = .running → board.doing task = .running ∧
      (calls task = none → wake = board.wake task))
    (alive : board.doing task ≠ .done → doing ≠ .done) :
    Moves calls board (board.set task doing wake) where
  placed :=
    { posted := placed.posted_set free doing wake
      single := placed.single
      ready := placed.ready
      queued := by
        intro other member
        rcases eq_or_ne other task with rfl | differs
        · rw [set_doing_self]
          exact stays member
        · rw [set_doing_of_ne differs]
          exact placed.queued other member
      asleep := by
        intro other blocked
        rcases eq_or_ne other task with rfl | differs
        · rw [set_doing_self] at blocked
          exact absurd blocked sleeps
        · rw [set_doing_of_ne differs] at blocked
          rw [set_wake_of_ne differs]
          exact placed.asleep other blocked }
  holder := rfl
  queues _ := List.Subset.refl _
  waits other op inside acquires := by
    rcases eq_or_ne other task with rfl | differs
    · exact waits op inside acquires
    · simp only [Unwoken, Granted, Told, set_doing_of_ne differs, set_wake_of_ne differs]
      exact ⟨.inl, id, id⟩
  running other running := by
    rcases eq_or_ne other task with rfl | differs
    · rw [set_doing_self] at running
      rw [set_wake_self]
      exact runs running
    · rw [set_doing_of_ne differs] at running
      rw [set_wake_of_ne differs]
      exact ⟨running, fun _ => rfl⟩
  alive other living := by
    rcases eq_or_ne other task with rfl | differs
    · rw [set_doing_self]
      exact alive living
    · rw [set_doing_of_ne differs]
      exact living
  blocked other blocked := by
    rcases eq_or_ne other task with rfl | differs
    · rw [set_doing_self] at blocked
      exact absurd blocked sleeps
    · rw [set_doing_of_ne differs] at blocked
      exact .inl blocked

/-- Pushing a task that is ready and not yet in the ready queue. -/
theorem Placed.push (ready : board.doing task = .ready)
    (fresh : task ∉ board.ready) :
    Moves calls board { board with ready := board.ready ++ [task] } where
  placed :=
    { posted := placed.posted
      single := placed.single
      ready := by
        rw [← List.concat_eq_append]
        exact placed.ready.concat fresh
      queued := by
        intro other member
        rcases List.mem_append.mp member with member | member
        · exact placed.queued other member
        · rw [List.mem_singleton.mp member]
          exact ready
      asleep := placed.asleep }
  holder := rfl
  queues _ := List.Subset.refl _
  waits _ _ _ _ := ⟨.inl, id, id⟩
  running _ runs := ⟨runs, fun _ => rfl⟩
  alive _ alive := alive
  blocked _ := .inl

/-- A task that is not ready is not in the ready queue. -/
theorem Placed.not_mem_ready (busy : board.doing task ≠ .ready) :
    task ∉ board.ready :=
  fun member => busy (placed.queued task member)

/-- A task that has a wake or does not wait stands in no queue. -/
theorem Placed.free_of_not_unwoken (woken : ¬ board.Unwoken task)
    (post : Post) : task ∉ board.queue post :=
  fun member => woken (placed.posted post task member).1

/-- A task that is outside of every door stands in no queue. -/
theorem Placed.free_of_outside (outside : calls task = none)
    (post : Post) : task ∉ board.queue post := by
  intro member
  obtain ⟨_, op, inside, _⟩ := placed.posted post task member
  rw [outside] at inside
  cases inside

/-- A task that leaves the one queue it stands in stands in none. -/
theorem Placed.free_of_left {post : Post} (alone : post.alone = true)
    {tasks : List TaskId} (member : task ∈ board.queue post) (left : task ∉ tasks) (other : Post) :
    task ∉ (board.line post tasks).queue other := by
  rcases eq_or_ne other post with rfl | differs
  · rw [line_queue_self]
    exact left
  · rw [line_queue_of_ne differs]
    intro again
    obtain ⟨_, op, inside, here⟩ := placed.posted post task member
    obtain ⟨_, op', inside', there⟩ := placed.posted other task again
    obtain rfl := Option.eq_some_unique inside inside'
    exact differs (here.unique alone there)

/-- The parked task on its way out. -/
theorem Placed.lieDown (runs : board.doing task = .running) :
    Moves calls board (board.lieDown task) := by
  have absent : task ∉ board.ready := placed.not_mem_ready (by rw [runs]; simp)
  have neither : ¬ board.Granted task ∧ ¬ board.Told task := by
    refine ⟨fun granted => ?_, fun told => ?_⟩
    · cases runs.symm.trans granted.1
    · cases runs.symm.trans told.1
  rw [Board.lieDown]
  cases wake : board.wake task with
  | some given =>
    have free : ∀ post, task ∉ board.queue post := placed.free_of_not_unwoken fun unwoken => by
      rw [unwoken.2] at wake
      cases wake
    have lain : Moves calls board (board.set task .ready (some given)) := by
      refine placed.set free (fun _ => rfl) (by simp) ?_
        nofun nofun
      refine fun op inside acquires => ⟨fun unwoken => ?_, fun granted => ?_, fun told => ?_⟩
      · rw [unwoken.2] at wake
        cases wake
      · exact absurd granted neither.1
      · exact absurd told neither.2
    exact lain.trans (lain.placed.push (set_doing_self ..) absent)
  | none =>
    -- the task stays in its queues: it was unwoken while it ran and is unwoken while it sleeps
    have unwoken : ∀ other, board.Unwoken other → (board.set task .blocked none).Unwoken other := by
      intro other before
      rcases eq_or_ne other task with rfl | differs
      · exact ⟨.inl (set_doing_self ..), set_wake_self ..⟩
      · rw [Unwoken, set_doing_of_ne differs, set_wake_of_ne differs]
        exact before
    constructor
    · constructor
      · intro post other member
        obtain ⟨before, inside⟩ := placed.posted post other member
        exact ⟨unwoken other before, inside⟩
      · exact placed.single
      · exact placed.ready
      · intro other member
        have differs : other ≠ task := by
          rintro rfl
          exact absent member
        rw [set_doing_of_ne differs]
        exact placed.queued other member
      · intro other blocked
        rcases eq_or_ne other task with rfl | differs
        · exact set_wake_self ..
        · rw [set_doing_of_ne differs] at blocked
          rw [set_wake_of_ne differs]
          exact placed.asleep other blocked
    · rfl
    · exact fun _ => List.Subset.refl _
    · intro other op inside acquires
      refine ⟨fun before => .inl (unwoken other before), ?_, ?_⟩
      · intro granted
        have differs : other ≠ task := by
          rintro rfl
          exact neither.1 granted
        rw [Granted, set_doing_of_ne differs, set_wake_of_ne differs]
        exact granted
      · intro told
        have differs : other ≠ task := by
          rintro rfl
          exact neither.2 told
        rw [Told, set_doing_of_ne differs, set_wake_of_ne differs]
        exact told
    · intro other running
      rcases eq_or_ne other task with rfl | differs
      · rw [set_doing_self] at running
        cases running
      · rw [set_doing_of_ne differs] at running
        rw [set_wake_of_ne differs]
        exact ⟨running, fun _ => rfl⟩
    · intro other living
      rcases eq_or_ne other task with rfl | differs
      · rw [set_doing_self]
        simp
      · rw [set_doing_of_ne differs]
        exact living
    · intro other blocked
      rcases eq_or_ne other task with rfl | differs
      · exact .inr runs
      · rw [set_doing_of_ne differs] at blocked
        exact .inl blocked

end

end Laws

end Board

end WolfInterp.Sched
