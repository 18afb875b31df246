import Mathlib.Data.List.Pairwise
import WolfInterp.Lib.Shares
import WolfInterp.Sched.Joins

/-!
# Parallel map

A `par` call cuts its list into contiguous chunks, spawns one task a chunk under a scope of its own,
joins the scope and collects the slots the chunks have filled. Between the steps of one call the
other tasks enter whatever doors they like, and so do the chunks while they run the fn value.
-/

namespace WolfInterp.Sched

open Execution Shares

variable {Data : Type}

/-- What the fn value answers for an element: a value, or the end of a task that carries on with
it, an error value of the fn or a signal. -/
abbrev Invoked (Data : Type) := Except (TaskEnd Data) (Value Data)

/-- A chunk and the task that runs it. -/
structure Chunk extends Share where
  task : TaskId

/-- A `par` call. It runs on its own task without a scope when there is one chunk at most. -/
structure Par (Data : Type) where
  me : TaskId
  scope : Option ScopeId
  items : List (Value Data)
  chunks : List Chunk
  next : TaskId → Nat
  slots : List (Option (Value Data))
  writes : List (TaskId × Nat) := []
  woken : Option (Wake Data) := none
  answer : Option (Except (TaskEnd Data) (List (Value Data))) := none

namespace Par

/-- A call with its slots still empty. -/
def begin (me : TaskId) (scope : Option ScopeId) (items : List (Value Data)) (chunks : List Chunk)
    (next : TaskId → Nat) : Par Data :=
  { me, scope, items, chunks, next, slots := List.replicate items.length none }

/-- The filled slots, in order. -/
def collect (slots : List (Option (Value Data))) : Except (TaskEnd Data) (List (Value Data)) :=
  match slots.mapM id with
  | some values => .ok values
  | none => .error (.unsupported
      "a `par` slot was never filled after a clean join — an interpreter bug")

/-- What the call makes of the failures its join reports. -/
def afterJoin (failures : List (TaskEnd Data)) (slots : List (Option (Value Data))) :
    Except (TaskEnd Data) (List (Value Data)) :=
  match failures with
  | [] => collect slots
  | failure :: _ => .error failure

/-- Store the value of an element in its slot. -/
def store (par : Par Data) (task : TaskId) (value : Value Data) : Par Data :=
  { par with
    next := Function.update par.next task (par.next task + 1)
    slots := par.slots.set (par.next task) (some value)
    writes := par.writes ++ [(task, par.next task)] }

/-- May a chunk's body end so? Past its last element with unit, before that with the end that the fn
value's answer makes, or killed. -/
def mayEnd (f : Value Data → Invoked Data → Bool) (par : Par Data) (chunk : Chunk) (killed : Bool) :
    TaskEnd Data → Bool
  | .value .unit => par.next chunk.task = chunk.hi
  | .value _ | .cancelled => false
  | .killed => par.next chunk.task < chunk.hi ∧ killed
  | ended => par.next chunk.task < chunk.hi ∧
      (par.items[par.next chunk.task]?).any fun item => f item (.error ended)

/-- Does a door name the scope of the call, end one of its chunks, or run on the task that is inside
of the call? -/
def claims (par : Par Data) (op : Op Data) : Bool :=
  (match op with
    | .endTask task _ => par.chunks.any fun chunk => chunk.task = task
    | .spawnTask _ (some scope) _ | .joinScope _ scope | .cancelScope scope =>
      par.scope = some scope
    | _ => false) ||
    (par.scope.isSome && par.answer.isNone && op.caller = some par.me)

/-- The call answers. -/
def answered (par : Par Data) (answer : Except (TaskEnd Data) (List (Value Data))) : Par Data :=
  { par with answer := some answer }

/-- Does the calling task go on to join? A kill and a deadlock cut the join short. -/
def joins (par : Par Data) : Bool :=
  match par.woken with
  | some .killed | some (.deadlock _) => false
  | _ => true

/-- The wake with which the calling task resumes. -/
def hear (par : Par Data) : Answer Data → Par Data
  | .resumed task wake => if task = par.me then { par with woken := wake } else par
  | _ => par

end Par

/-- A run with one `par` call in it. -/
structure Floor (Data : Type) where
  chronicle : Chronicle Data
  par : Option (Par Data) := none

/-- A step of such a run: a door of the program, the call, the value of a chunk's next element, the
end of a chunk, the join. -/
inductive ParOp (Data : Type) where
  | door (op : Op Data)
  | call (me : TaskId) (items : List (Value Data)) (start : Nat)
  | fill (task : TaskId) (value : Value Data)
  | finish (task : TaskId) (ended : TaskEnd Data)
  | join

/-- Spawn a task for each chunk, from chunk number `chunk` on. -/
def spawnChunks (me : TaskId) (scope : ScopeId) (start : Nat) :
    List Share → Nat → Chronicle Data → Option (List Chunk × Chronicle Data)
  | [], _, chronicle => some ([], chronicle)
  | share :: rest, chunk, chronicle =>
    match chronicle.perform (.spawnTask me (some scope) s!"par@{start}#{chunk}") with
    | some (.id task, next) =>
      (spawnChunks me scope start rest (chunk + 1) next).map fun (chunks, last) =>
        ({ toShare := share, task } :: chunks, last)
    | _ => none

namespace Floor

def initial (chooser : Chooser) : Floor Data := { chronicle := .initial chooser }

def sched (floor : Floor Data) : State Data := floor.chronicle.sched

/-- The call, on a machine with `workers` workers. -/
def call (workers : Nat) (chronicle : Chronicle Data) (me : TaskId) (items : List (Value Data))
    (start : Nat) : Option (Floor Data) :=
  let count := items.length
  let chunks := min count workers
  if chunks ≤ 1 then
    let chunk : Chunk := { lo := 0, hi := count, task := me }
    some { chronicle, par := some (.begin me none items [chunk] fun _ => 0) }
  else
    match chronicle.perform (.openScope me) with
    | some (.id scope, opened) =>
      (spawnChunks me scope start (even count chunks) 0 opened).map fun (chunks, chronicle) =>
        let next := fun task =>
          ((chunks.find? fun chunk => chunk.task = task).map fun chunk => chunk.lo).getD 0
        { chronicle, par := some (.begin me (some scope) items chunks next) }
    | _ => none

/-- One step, for a fn value that may give the answers `f` to an element. -/
def step (workers : Nat) (f : Value Data → Invoked Data → Bool) (floor : Floor Data) :
    ParOp Data → Option (Floor Data)
  | .door op =>
    if floor.par.any fun par => par.claims op then none
    else (floor.chronicle.perform op).map fun (answer, chronicle) =>
      { chronicle, par := floor.par.map fun par => par.hear answer }
  | .call me items start =>
    if floor.par.isSome ∨ floor.sched.stateOf me ≠ .running then none
    else call workers floor.chronicle me items start
  | .fill task value =>
    floor.par.bind fun par =>
      (par.chunks.find? fun chunk => chunk.task = task).bind fun chunk =>
        if floor.sched.stateOf task = .running ∧ (par.scope.isSome ∨ par.answer.isNone) ∧
            par.next task < chunk.hi ∧
            (par.items[par.next task]?).any fun item => f item (.ok value) then
          some { floor with par := some (par.store task value) }
        else none
  | .finish task ended =>
    floor.par.bind fun par =>
      (par.chunks.find? fun chunk => chunk.task = task).bind fun chunk =>
        (floor.sched.tasks[task]?).bind fun tcb =>
          if tcb.state ≠ .running ∨ ¬ par.mayEnd f chunk tcb.killed ended then none
          else if par.scope.isSome then
            (floor.chronicle.perform (.endTask task ended)).map fun (answer, chronicle) =>
              { chronicle, par := some (par.hear answer) }
          else if par.answer.isSome then none
          else
            let answer := match ended with
              | .value _ => Par.collect par.slots
              | _ => .error ended
            some { floor with par := some (par.answered answer) }
  | .join =>
    floor.par.bind fun par =>
      par.scope.bind fun scope =>
        if par.answer.isSome ∨ floor.sched.stateOf par.me ≠ .running then none
        else
          match par.woken with
          | some .killed =>
            some { floor with par := some (par.answered (.error .killed)) }
          | some (.deadlock _) =>
            some { floor with par := some (par.answered (.error (.trapped .deadlock))) }
          | _ =>
            (floor.chronicle.perform (.joinScope par.me scope)).map fun (answer, chronicle) =>
              match answer with
              | .joined failures =>
                { chronicle, par := some (par.answered (Par.afterJoin failures par.slots)) }
              | answer => { chronicle, par := some (par.hear answer) }

end Floor

/-! ## What a call keeps -/

namespace Par

/-- Is the slot of an element filled? -/
def Filled (par : Par Data) (index : Nat) : Prop := ∃ value, par.slots[index]? = some (some value)

/-- The slots of a call: the chunks tile the list, each has filled its slots up to its next element,
every slot was written once, by its chunk, with an answer of the fn value. -/
structure Kept (f : Value Data → Invoked Data → Bool) (par : Par Data) : Prop where
  tiles : Tiles 0 (par.chunks.map Chunk.toShare) par.items.length
  even : ∀ first ∈ par.chunks, ∀ second ∈ par.chunks,
    first.hi - first.lo ≤ second.hi - second.lo + 1
  distinct : (par.chunks.map Chunk.task).Nodup
  started : ∀ chunk ∈ par.chunks,
    chunk.lo ≤ par.next chunk.task ∧ par.next chunk.task ≤ chunk.hi
  length : par.slots.length = par.items.length
  filled : ∀ chunk ∈ par.chunks, ∀ index, chunk.Has index →
    (par.Filled index ↔ index < par.next chunk.task)
  right : ∀ (index : Nat) item value, par.items[index]? = some item →
    par.slots[index]? = some (some value) → f item (.ok value) = true
  written : ∀ index, index ∈ par.writes.map Prod.snd ↔ par.Filled index
  once : (par.writes.map Prod.snd).Nodup
  mine : ∀ write ∈ par.writes, ∃ chunk ∈ par.chunks, chunk.task = write.1 ∧ chunk.Has write.2
  answered : ∀ values, par.answer = some (.ok values) → collect par.slots = .ok values

variable {f : Value Data → Invoked Data → Bool} {par : Par Data}

theorem mapM_id_eq_some {slots : List (Option (Value Data))} {values : List (Value Data)} :
    slots.mapM id = some values ↔ slots = values.map some := by
  induction slots generalizing values with
  | nil => cases values <;> simp
  | cons slot slots induction =>
    cases slot with
    | none => cases values <;> simp
    | some value =>
      simp only [List.mapM_cons, id_eq, Option.bind_eq_bind, Option.bind_some,
        Option.bind_eq_some_iff, induction]
      constructor
      · rintro ⟨rest, rfl, made⟩
        cases made
        rfl
      · intro same
        cases values with
        | nil => cases same
        | cons first values =>
          obtain ⟨taken, rest⟩ := List.cons.inj same
          exact ⟨values, rest, by rw [Option.some.inj taken]; rfl⟩

theorem collect_eq_ok {slots : List (Option (Value Data))} {values : List (Value Data)} :
    collect slots = .ok values ↔ slots = values.map some := by
  rw [← mapM_id_eq_some, collect]
  cases slots.mapM id with
  | none => exact iff_of_false nofun nofun
  | some collected =>
    constructor
    · rintro ⟨⟩
      rfl
    · rintro ⟨⟩
      rfl

section

variable {first second : Chunk} (kept : par.Kept f) (member : first ∈ par.chunks)
  (other : second ∈ par.chunks)
include kept member other

/-- Two chunks of one task, or with one index, are one. -/
theorem Kept.chunk_eq (same : first.task = second.task) : first = second :=
  List.inj_on_of_nodup_map kept.distinct member other same

theorem Kept.chunk_eq_of_has {index : Nat} (has : first.Has index) (also : second.Has index) :
    first = second := by
  have symmetric : Std.Symm fun first second : Chunk =>
      ∀ index, first.Has index → ¬ second.Has index :=
    ⟨fun first second apart index has also => apart index also has⟩
  by_contra differ
  exact (List.pairwise_map.mp kept.tiles.pairwise).forall member other differ index has also

end

/-- The slot of the next element of a chunk is its own and still empty. -/
theorem Kept.next_free (kept : par.Kept f) {chunk : Chunk} (member : chunk ∈ par.chunks)
    (left : par.next chunk.task < chunk.hi) :
    chunk.Has (par.next chunk.task) ∧ par.next chunk.task < par.items.length ∧
      ¬ par.Filled (par.next chunk.task) := by
  have has : chunk.Has (par.next chunk.task) := ⟨(kept.started chunk member).1, left⟩
  refine ⟨has, ?_, ?_⟩
  · exact left.trans_le (kept.tiles.bounds (List.mem_map_of_mem member)).2.2
  · rw [kept.filled chunk member _ has]
    exact Nat.lt_irrefl _

theorem next_store (par : Par Data) (task other : TaskId) (value : Value Data) :
    (par.store task value).next other =
      if other = task then par.next task + 1 else par.next other := by
  unfold store
  dsimp only
  split
  · next same => rw [same, Function.update_self]
  · next differs => rw [Function.update_of_ne differs]

theorem filled_store {task : TaskId} {value : Value Data} {index : Nat}
    (within : par.next task < par.slots.length) :
    (par.store task value).Filled index ↔ index = par.next task ∨ par.Filled index := by
  unfold Filled store
  dsimp only
  by_cases here : index = par.next task
  · subst here
    rw [List.getElem?_set_self within]
    exact iff_of_true ⟨value, rfl⟩ (.inl rfl)
  · rw [List.getElem?_set_ne (Ne.symm here)]
    exact (or_iff_right here).symm

/-- Storing an answer of the fn value keeps all that. -/
theorem Kept.store (kept : par.Kept f) {chunk : Chunk} (member : chunk ∈ par.chunks)
    (left : par.next chunk.task < chunk.hi) {value : Value Data}
    (gives : ∀ item, par.items[par.next chunk.task]? = some item → f item (.ok value) = true) :
    (par.store chunk.task value).Kept f := by
  obtain ⟨has, below, free⟩ := kept.next_free member left
  have within : par.next chunk.task < par.slots.length := kept.length.symm ▸ below
  have others : ∀ other ∈ par.chunks, other.task = chunk.task → other = chunk :=
    fun other there same => kept.chunk_eq there member same
  constructor
  · exact kept.tiles
  · exact kept.even
  · exact kept.distinct
  · intro other there
    by_cases same : other.task = chunk.task
    · obtain rfl := others other there same
      rw [next_store, if_pos rfl]
      exact ⟨(kept.started other there).1.trans (Nat.le_succ _), left⟩
    · rw [next_store, if_neg same]
      exact kept.started other there
  · exact (List.length_set).trans kept.length
  · intro other there index inside
    rw [filled_store within, kept.filled other there index inside]
    by_cases same : other.task = chunk.task
    · obtain rfl := others other there same
      rw [next_store, if_pos rfl]
      omega
    · rw [next_store, if_neg same]
      refine or_iff_right ?_
      rintro rfl
      exact same (congrArg Chunk.task (kept.chunk_eq_of_has there member inside has))
  · intro index item stored found there
    by_cases here : index = par.next chunk.task
    · subst here
      rw [Par.store, List.getElem?_set_self within] at there
      obtain rfl := Option.some.inj (Option.some.inj there)
      exact gives item found
    · rw [Par.store, List.getElem?_set_ne (Ne.symm here)] at there
      exact kept.right index item stored found there
  · intro index
    rw [filled_store within, ← kept.written, Par.store, List.map_append, List.mem_append]
    simp [or_comm]
  · rw [Par.store, List.map_append, List.nodup_append_comm]
    refine List.nodup_cons.mpr ⟨?_, kept.once⟩
    intro already
    exact free ((kept.written _).mp already)
  · intro write there
    rcases List.mem_append.mp there with before | now
    · exact kept.mine write before
    · obtain rfl := List.mem_singleton.mp now
      exact ⟨chunk, member, rfl, has⟩
  · intro values answered
    have full := collect_eq_ok.mp (kept.answered values answered)
    refine absurd ?_ free
    have bound : par.next chunk.task < values.length := by
      rw [full, List.length_map] at within
      exact within
    refine ⟨values[par.next chunk.task], ?_⟩
    rw [full, List.getElem?_map, List.getElem?_eq_getElem bound]
    rfl

/-- An answer that is a list is made of the slots. -/
theorem Kept.answer (kept : par.Kept f) {answer : Except (TaskEnd Data) (List (Value Data))}
    (made : ∀ values, answer = .ok values → collect par.slots = .ok values) :
    (par.answered answer).Kept f where
  tiles := kept.tiles
  even := kept.even
  distinct := kept.distinct
  started := kept.started
  length := kept.length
  filled := kept.filled
  right := kept.right
  written := kept.written
  once := kept.once
  mine := kept.mine
  answered values same := made values (Option.some.inj same)

theorem scope_hear (par : Par Data) (answer : Answer Data) :
    (par.hear answer).scope = par.scope := by
  cases answer with
  | resumed task wake =>
    rw [hear]
    split
    · rfl
    · rfl
  | _ => rfl

theorem Kept.hear (kept : par.Kept f) (answer : Answer Data) : (par.hear answer).Kept f := by
  cases answer with
  | resumed task wake =>
    rw [Par.hear]
    split
    · exact ⟨kept.tiles, kept.even, kept.distinct, kept.started, kept.length, kept.filled,
        kept.right, kept.written, kept.once, kept.mine, kept.answered⟩
    · exact kept
  | _ => exact kept

/-- A call begins with all of its slots empty. -/
theorem kept_begin {me : TaskId} {scope : Option ScopeId} {items : List (Value Data)}
    {chunks : List Chunk} {next : TaskId → Nat}
    (tiles : Tiles 0 (chunks.map Chunk.toShare) items.length)
    (even : ∀ first ∈ chunks, ∀ second ∈ chunks,
      first.hi - first.lo ≤ second.hi - second.lo + 1) (distinct : (chunks.map Chunk.task).Nodup)
    (starts : ∀ chunk ∈ chunks, next chunk.task = chunk.lo) :
    (begin me scope items chunks next).Kept f := by
  have empty : ∀ index, ¬ (begin me scope items chunks next).Filled index := by
    rintro index ⟨value, found⟩
    rw [begin, List.getElem?_replicate] at found
    split at found
    · cases Option.some.inj found
    · cases found
  constructor
  · exact tiles
  · exact even
  · exact distinct
  · intro chunk member
    change chunk.lo ≤ next chunk.task ∧ next chunk.task ≤ chunk.hi
    rw [starts chunk member]
    exact ⟨Nat.le_refl _, (tiles.bounds (List.mem_map_of_mem member)).2.1⟩
  · exact List.length_replicate
  · intro chunk member index has
    change _ ↔ index < next chunk.task
    rw [starts chunk member]
    exact iff_of_false (empty index) (Nat.not_lt.mpr has.1)
  · intro index item value _ found
    exact absurd ⟨value, found⟩ (empty index)
  · intro index
    exact iff_of_false List.not_mem_nil (empty index)
  · exact List.nodup_nil
  · nofun
  · nofun

end Par

/-! ## The chunks and their tasks -/

/-- Did a task end with a value? -/
def Completion.valued (completion : Completion Data) : Bool :=
  match completion.ended with
  | .value _ => true
  | _ => false

/-- The children of the call's scope are its chunks, and those that have ended with a value are the
ones that are through. -/
structure Staffed (chronicle : Chronicle Data) (par : Par Data) (scope : ScopeId) : Prop where
  children : ∀ task, chronicle.sched.ChildOf task scope ↔ task ∈ par.chunks.map Chunk.task
  ends : ∀ completion ∈ chronicle.past, ∀ chunk ∈ par.chunks, chunk.task = completion.task →
    (completion.valued = true ↔ par.next chunk.task = chunk.hi)

section Staff

variable {f : Value Data → Invoked Data → Bool} {chronicle later : Chronicle Data} {par : Par Data}
  {scope : ScopeId} {answer : Answer Data}

section

variable (staffed : Staffed chronicle par scope)
include staffed

theorem Staffed.hear (answer : Answer Data) :
    Staffed chronicle (par.hear answer) scope := by
  cases answer with
  | resumed task wake =>
    rw [Par.hear]
    split
    · exact ⟨staffed.children, staffed.ends⟩
    · exact staffed
  | _ => exact staffed

theorem Staffed.answered (answer : Except (TaskEnd Data) (List (Value Data))) :
    Staffed chronicle (par.answered answer) scope :=
  ⟨staffed.children, staffed.ends⟩

/-- A step that neither spawns in the scope nor ends a chunk changes nothing. -/
theorem Staffed.elsewhere (accounted : chronicle.Accounted)
    {op : Op Data} (performed : chronicle.perform op = some (answer, later))
    (noSpawn : ∀ parent name, op ≠ .spawnTask parent (some scope) name)
    (noEnd : ∀ chunk ∈ par.chunks, ∀ ended, op ≠ .endTask chunk.task ended) :
    Staffed later par scope where
  children task := by
    rw [Chronicle.childOf_perform accounted performed scope noSpawn]
    exact staffed.children task
  ends completion member chunk there same := by
    obtain ⟨⟨_, world⟩, _, answered⟩ := Option.map_eq_some_iff.mp performed
    obtain ⟨_, rfl⟩ := Prod.mk.inj answered
    rcases List.mem_append.mp member with before | now
    · exact staffed.ends completion before chunk there same
    · cases op with
      | endTask me ended =>
        obtain ⟨tcb, _, rfl⟩ := Option.map_eq_some_iff.mp (Option.mem_toList.mp now)
        exact absurd (congrArg (Op.endTask · ended) same.symm) (noEnd chunk there ended)
      | _ => cases now

/-- The end of a chunk. -/
theorem Staffed.finish (accounted : chronicle.Accounted)
    (kept : par.Kept f) {chunk : Chunk} (member : chunk ∈ par.chunks) {killed : Bool}
    {ended : TaskEnd Data} (may : par.mayEnd f chunk killed ended = true)
    (performed : chronicle.perform (.endTask chunk.task ended) = some (answer, later)) :
    Staffed later par scope where
  children task := by
    rw [Chronicle.childOf_perform accounted performed scope (by simp)]
    exact staffed.children task
  ends completion entered other there same := by
    obtain ⟨⟨_, world⟩, _, answered⟩ := Option.map_eq_some_iff.mp performed
    obtain ⟨_, rfl⟩ := Prod.mk.inj answered
    rcases List.mem_append.mp entered with before | now
    · exact staffed.ends completion before other there same
    · obtain ⟨tcb, _, rfl⟩ := Option.map_eq_some_iff.mp (Option.mem_toList.mp now)
      obtain rfl := kept.chunk_eq there member same
      cases ended with
      | value value =>
        cases value with
        | unit => exact iff_of_true rfl (of_decide_eq_true may)
        | _ => cases may
      | cancelled => cases may
      | _ =>
        have left := (of_decide_eq_true may).1
        exact iff_of_false nofun (Nat.ne_of_lt left)

/-- A chunk that stores a value has not ended. -/
theorem Staffed.store (accounted : chronicle.Accounted)
    {task : TaskId} (running : chronicle.sched.stateOf task = .running) (value : Value Data) :
    Staffed chronicle (par.store task value) scope where
  children := staffed.children
  ends completion member chunk there same := by
    rw [Par.next_store, if_neg]
    · exact staffed.ends completion member chunk there same
    · intro mine
      obtain ⟨tcb, found, done, _⟩ := accounted.ended completion member
      rw [← same, mine] at found
      rw [State.stateOf, found] at running
      simp [done] at running

end

/-- What the spawns of the chunks do. -/
theorem spawnChunks_spec (scope : ScopeId) {me : TaskId} {start chunk : Nat} {shares : List Share}
    {chunks : List Chunk} (accounted : chronicle.Accounted)
    (spawned : spawnChunks me scope start shares chunk chronicle = some (chunks, later)) :
    later.Accounted ∧ later.past = chronicle.past ∧ chunks.map Chunk.toShare = shares ∧
      (chunks.map Chunk.task).Nodup ∧
      (∀ chunk ∈ chunks, chronicle.sched.tasks.length ≤ chunk.task) ∧
      ∀ task, later.sched.ChildOf task scope ↔
        chronicle.sched.ChildOf task scope ∨ task ∈ chunks.map Chunk.task := by
  induction shares generalizing chunk chunks chronicle with
  | nil =>
    cases spawned
    exact ⟨accounted, rfl, rfl, List.nodup_nil, by simp, by simp⟩
  | cons share shares induction =>
    rw [spawnChunks] at spawned
    split at spawned
    · next task next performed =>
        obtain ⟨⟨rest, last⟩, others, made⟩ := Option.map_eq_some_iff.mp spawned
        cases made
        obtain ⟨told, past, spawns⟩ := Chronicle.spawned accounted performed
        obtain rfl : task = chronicle.sched.tasks.length := by cases told; rfl
        obtain ⟨accounts, same, shared, distinct, fresh, children⟩ :=
          induction (Chronicle.accounted_perform accounted performed) others
        rw [spawns.count] at fresh
        refine ⟨accounts, same.trans past, by rw [List.map_cons, shared], ?_, ?_, ?_⟩
        · rw [List.map_cons]
          refine List.nodup_cons.mpr ⟨?_, distinct⟩
          intro again
          obtain ⟨other, member, same⟩ := List.mem_map.mp again
          have beyond := fresh other member
          rw [same] at beyond
          exact absurd beyond (Nat.not_succ_le_self _)
        · intro other member
          rcases List.mem_cons.mp member with rfl | member
          · exact Nat.le_refl _
          · exact (Nat.le_succ _).trans (fresh other member)
        · intro task
          rw [children, spawns.childOf, List.map_cons, List.mem_cons]
          simp [or_assoc]
    · cases spawned

end Staff

namespace Floor

variable {f : Value Data → Invoked Data → Bool} {floor next : Floor Data} {workers : Nat}

/-- The account of the run, and what the call keeps. -/
structure Held (f : Value Data → Invoked Data → Bool) (floor : Floor Data) : Prop where
  accounted : floor.chronicle.Accounted
  kept : ∀ par, floor.par = some par → par.Kept f
  staffed : ∀ par scope, floor.par = some par → par.scope = some scope →
    Staffed floor.chronicle par scope

theorem held_initial (chooser : Chooser) : (initial chooser : Floor Data).Held f where
  accounted := Chronicle.accounted_initial chooser
  kept par there := by cases there
  staffed par scope there := by cases there

/-- The first element of a chunk that is spawned is its lower bound. -/
theorem find_lo {chunks : List Chunk} (distinct : (chunks.map Chunk.task).Nodup) {chunk : Chunk}
    (member : chunk ∈ chunks) :
    ((chunks.find? fun other => other.task = chunk.task).map fun other => other.lo).getD 0 =
      chunk.lo := by
  cases found : chunks.find? fun other => other.task = chunk.task with
  | none =>
    have absent := List.find?_eq_none.mp found chunk member
    simp at absent
  | some other =>
    have picked := List.find?_some found
    have same : other.task = chunk.task := of_decide_eq_true picked
    obtain rfl := List.inj_on_of_nodup_map distinct (List.mem_of_find?_eq_some found) member same
    rfl

theorem held_call {chronicle : Chronicle Data} (accounted : chronicle.Accounted) {me : TaskId}
    {items : List (Value Data)} {start : Nat}
    (called : call workers chronicle me items start = some next) : next.Held f := by
  unfold call at called
  dsimp only at called
  split at called
  · cases called
    constructor
    · exact accounted
    · rintro par ⟨⟩
      refine Par.kept_begin ⟨rfl, Nat.zero_le _, rfl⟩ ?_ (List.nodup_singleton _) ?_
      · intro first member second other
        obtain rfl := List.mem_singleton.mp member
        obtain rfl := List.mem_singleton.mp other
        exact Nat.le_succ _
      · intro chunk member
        obtain rfl := List.mem_singleton.mp member
        rfl
    · rintro par scope ⟨⟩ ⟨⟩
  · next several =>
      split at called
      · next scope opened performed =>
          obtain ⟨⟨chunks, last⟩, spawned, made⟩ := Option.map_eq_some_iff.mp called
          subst made
          obtain ⟨told, past, tasks⟩ := Chronicle.opened accounted performed
          obtain rfl : scope = chronicle.sched.scopes.length := by cases told; rfl
          obtain ⟨accounts, same, shared, distinct, fresh, children⟩ :=
            spawnChunks_spec chronicle.sched.scopes.length
              (Chronicle.accounted_perform accounted performed) spawned
          constructor
          · exact accounts
          · rintro par ⟨⟩
            refine Par.kept_begin ?_ ?_ distinct fun chunk member => find_lo distinct member
            · rw [shared]
              exact tiles_even (by omega)
            · intro first member second other
              have inside : ∀ chunk ∈ chunks, chunk.toShare ∈ even items.length
                  (min items.length workers) := by
                intro chunk there
                rw [← shared]
                exact List.mem_map_of_mem there
              exact even_lengths (inside first member) (inside second other)
          · rintro par scope ⟨⟩ ⟨⟩
            constructor
            · intro task
              rw [children]
              refine or_iff_right ?_
              rintro ⟨tcb, found, placed⟩
              rw [tasks] at found
              have enrolled := accounted.enrolled task tcb _ found placed
              rw [State.rollOf, List.getElem?_eq_none (Nat.le_refl _)] at enrolled
              cases enrolled
            · intro completion member chunk there mine
              rw [same, past] at member
              obtain ⟨tcb, found, _⟩ := accounted.ended completion member
              have bound := (List.getElem?_eq_some_iff.mp found).1
              have beyond := fresh chunk there
              rw [tasks, mine] at beyond
              exact absurd bound (Nat.not_lt.mpr beyond)
      · cases called

/-- Every step keeps the account and the call. -/
theorem held_step {op : ParOp Data} (held : floor.Held f)
    (stepped : step workers f floor op = some next) : next.Held f := by
  cases op with
  | door op =>
    change (if _ then _ else _) = some next at stepped
    split at stepped
    · cases stepped
    · next free =>
        obtain ⟨⟨answer, later⟩, performed, rfl⟩ := Option.map_eq_some_iff.mp stepped
        constructor
        · exact Chronicle.accounted_perform held.accounted performed
        · intro par there
          obtain ⟨before, known, rfl⟩ := Option.map_eq_some_iff.mp there
          exact (held.kept before known).hear answer
        · intro par scope there inside
          obtain ⟨before, known, rfl⟩ := Option.map_eq_some_iff.mp there
          rw [known, Option.any_some] at free
          have within : before.scope = some scope := by
            rw [← inside]
            exact (Par.scope_hear before answer).symm
          refine Staffed.hear (Staffed.elsewhere (held.staffed before scope known within)
            held.accounted performed ?_ ?_) answer
          · rintro parent name rfl
            simp [Par.claims, within] at free
          · rintro chunk member ended rfl
            refine free ?_
            rw [Par.claims, Bool.or_eq_true]
            exact .inl (List.any_eq_true.mpr ⟨chunk, member, by simp⟩)
  | call me items start =>
    change (if _ then _ else _) = some next at stepped
    split at stepped
    · cases stepped
    · exact held_call held.accounted stepped
  | fill task value =>
    obtain ⟨par, there, stepped⟩ := Option.bind_eq_some_iff.mp stepped
    obtain ⟨chunk, found, stepped⟩ := Option.bind_eq_some_iff.mp stepped
    have member := List.mem_of_find?_eq_some found
    have picked := List.find?_some found
    obtain rfl : chunk.task = task := of_decide_eq_true picked
    split at stepped
    · next may =>
        obtain ⟨running, _, left, gives⟩ := may
        cases stepped
        constructor
        · exact held.accounted
        · rintro _ ⟨⟩
          refine (held.kept par there).store member left fun item listed => ?_
          rw [listed, Option.any_some] at gives
          exact gives
        · rintro _ scope ⟨⟩ inside
          exact (held.staffed par scope there inside).store held.accounted running value
    · cases stepped
  | finish task ended =>
    obtain ⟨par, there, stepped⟩ := Option.bind_eq_some_iff.mp stepped
    obtain ⟨chunk, found, stepped⟩ := Option.bind_eq_some_iff.mp stepped
    obtain ⟨tcb, living, stepped⟩ := Option.bind_eq_some_iff.mp stepped
    have member := List.mem_of_find?_eq_some found
    have picked := List.find?_some found
    obtain rfl : chunk.task = task := of_decide_eq_true picked
    split at stepped
    · cases stepped
    · next may =>
        have ends : par.mayEnd f chunk tcb.killed ended = true := by
          by_contra refused
          exact may (.inr refused)
        split at stepped
        · obtain ⟨⟨answer, later⟩, performed, rfl⟩ := Option.map_eq_some_iff.mp stepped
          constructor
          · exact Chronicle.accounted_perform held.accounted performed
          · rintro _ ⟨⟩
            exact (held.kept par there).hear answer
          · rintro _ scope ⟨⟩ inside
            rw [Par.scope_hear] at inside
            exact ((held.staffed par scope there inside).finish held.accounted
              (held.kept par there) member ends performed).hear answer
        · split at stepped
          · cases stepped
          · next alone _ =>
              cases stepped
              constructor
              · exact held.accounted
              · rintro _ ⟨⟩
                refine (held.kept par there).answer fun values made => ?_
                split at made
                · exact made
                · cases made
              · rintro _ scope ⟨⟩ inside
                exact absurd (Option.isSome_iff_exists.mpr ⟨scope, inside⟩) alone
  | join =>
    obtain ⟨par, there, stepped⟩ := Option.bind_eq_some_iff.mp stepped
    obtain ⟨scope, inside, stepped⟩ := Option.bind_eq_some_iff.mp stepped
    have answers : ∀ ended : TaskEnd Data,
        some { floor with par := some (par.answered (.error ended)) } = some next →
          next.Held f := by
      intro ended made
      cases made
      constructor
      · exact held.accounted
      · rintro _ ⟨⟩
        exact (held.kept par there).answer nofun
      · rintro _ scope ⟨⟩ inside
        exact (held.staffed par scope there inside).answered (.error ended)
    split at stepped
    · cases stepped
    · split at stepped
      · exact answers _ stepped
      · exact answers _ stepped
      · obtain ⟨⟨answer, later⟩, performed, rfl⟩ := Option.map_eq_some_iff.mp stepped
        have staffed : ∀ scope, par.scope = some scope → Staffed later par scope :=
          fun scope inside => (held.staffed par scope there inside).elsewhere held.accounted
            performed (by simp) (by simp)
        have accounts := Chronicle.accounted_perform held.accounted performed
        cases answer with
        | joined failures =>
          constructor
          · exact accounts
          · rintro _ ⟨⟩
            refine (held.kept par there).answer fun values made => ?_
            cases failures with
            | nil => exact made
            | cons failure failures => cases made
          · rintro _ scope ⟨⟩ inside
            exact (staffed scope inside).answered _
        | _ =>
          constructor
          · exact accounts
          · rintro _ ⟨⟩
            exact (held.kept par there).hear _
          · rintro _ scope ⟨⟩ inside
            rw [Par.scope_hear] at inside
            exact (staffed scope inside).hear _

theorem held_run (chooser : Chooser) (ops : List (ParOp Data))
    (run : exec (step workers f) (initial chooser) ops = some floor) : floor.Held f :=
  inv_of_exec (Held f) (held_initial chooser) (fun _ _ _ held stepped => held_step held stepped) run

end Floor

/-! ## What a call answers -/

/-- The end of a chunk that is neither a value nor a failure that a join reports. -/
def Completion.lost (completion : Completion Data) : Bool :=
  !completion.valued && completion.failure.isNone

/-- The chunks tile the list evenly, no two of them write one slot, a list answered holds an answer
of the fn value for every element, and a join without a failure finds every slot filled. -/
structure Par.Sound (f : Value Data → Invoked Data → Bool) (chronicle : Chronicle Data)
    (par : Par Data) : Prop where
  tiles : Tiles 0 (par.chunks.map Chunk.toShare) par.items.length
  even : ∀ first ∈ par.chunks, ∀ second ∈ par.chunks,
    first.hi - first.lo ≤ second.hi - second.lo + 1
  apart : ∀ first ∈ par.writes, ∀ second ∈ par.writes, first.2 = second.2 → first.1 = second.1
  listed : ∀ values, par.answer = some (.ok values) → values.length = par.items.length ∧
    ∀ (index : Nat) item value, par.items[index]? = some item → values[index]? = some value →
      f item (.ok value) = true
  filled : par.joins = true → ∀ scope later, par.scope = some scope →
    chronicle.perform (.joinScope par.me scope) = some (.joined [], later) →
      ∀ index < par.items.length, par.Filled index

namespace Floor

variable {f : Value Data → Invoked Data → Bool} {floor next : Floor Data} {workers : Nat}

def Sound (f : Value Data → Invoked Data → Bool) (floor : Floor Data) : Prop :=
  ∀ par, floor.par = some par → par.Sound f floor.chronicle

/-- When the join reports no failure, no chunk has been lost. -/
def NoneLost (floor : Floor Data) : Prop :=
  ∀ par scope later, floor.par = some par → par.joins = true → par.scope = some scope →
    floor.chronicle.perform (.joinScope par.me scope) = some (.joined [], later) →
      ∀ completion ∈ floor.chronicle.past, completion.scope = some scope →
        completion.lost = false

/-- A chunk does not end with an error value when it has been cancelled or killed, and is not killed
before it is through. -/
def KeepsChunk (floor : Floor Data) : ParOp Data → Prop
  | .finish task (.error ..) => ∀ tcb, floor.sched.tasks[task]? = some tcb →
      tcb.cancelled = false ∧ tcb.killed = false
  | .finish _ .killed => False
  | _ => True

theorem Held.joined (held : floor.Held f) {par : Par Data} (there : floor.par = some par)
    {scope : ScopeId} (inside : par.scope = some scope) {later : Chronicle Data}
    (performed : floor.chronicle.perform (.joinScope par.me scope) = some (.joined [], later)) :
    (∀ completion ∈ floor.chronicle.past, completion.scope = some scope →
      completion.failure = none) ∧ ∀ chunk ∈ par.chunks, ∃ completion ∈ floor.chronicle.past,
      completion.task = chunk.task ∧ completion.scope = some scope := by
  obtain ⟨entry, known, quiet, beyond⟩ := Chronicle.joined_spec performed
  have rolled : floor.sched.rollOf scope = some (entry.children, entry.failures) := by
    change (floor.chronicle.sched.scopes[scope]?).map _ = _
    rw [known]
    rfl
  constructor
  · intro completion member within
    have ledger := held.accounted.ledger scope _ rolled
    rw [← quiet] at ledger
    have none_ := List.filterMap_eq_nil_iff.mp ledger.symm
    exact none_ completion (List.mem_filter.mpr ⟨member, by simpa using within⟩)
  · intro chunk member
    obtain ⟨tcb, found, placed⟩ := ((held.staffed par scope there inside).children chunk.task).mpr
      (List.mem_map_of_mem member)
    have listed := (held.accounted.children scope _ rolled chunk.task).mpr ⟨tcb, found, placed⟩
    have done := of_decide_eq_true (List.all_eq_true.mp beyond chunk.task listed)
    rw [State.stateOf, found] at done
    obtain ⟨completion, entered, same⟩ :=
      List.mem_map.mp (held.accounted.done chunk.task tcb found done)
    obtain ⟨tcb', found', _, scope'⟩ := held.accounted.ended completion entered
    rw [same, found] at found'
    cases found'
    exact ⟨completion, entered, same, scope'.symm.trans placed⟩

/-- What holds of a call in every state: all but that a join without a failure finds the slots
filled. -/
theorem Held.sound (held : floor.Held f) {par : Par Data} (there : floor.par = some par)
    (filled : par.joins = true → ∀ scope later, par.scope = some scope →
      floor.chronicle.perform (.joinScope par.me scope) = some (.joined [], later) →
        ∀ index < par.items.length, par.Filled index) : par.Sound f floor.chronicle := by
  have kept := held.kept par there
  refine ⟨kept.tiles, kept.even, ?_, ?_, filled⟩
  · intro first member second other same
    exact congrArg Prod.fst (List.inj_on_of_nodup_map kept.once member other same)
  · intro values answered
    have full := Par.collect_eq_ok.mp (kept.answered values answered)
    constructor
    · rw [← kept.length, full, List.length_map]
    · intro index item value found given
      refine kept.right index item value found ?_
      rw [full, List.getElem?_map, given]
      rfl

/-- A call is sound just when no chunk is lost before a join without a failure. -/
theorem Held.sound_iff (held : floor.Held f) : floor.Sound f ↔ floor.NoneLost := by
  constructor
  · intro sound par scope later there joins inside performed completion member within
    have kept := held.kept par there
    obtain ⟨quiet, _⟩ := held.joined there inside performed
    have staffed := held.staffed par scope there inside
    obtain ⟨tcb, found, _, placed⟩ := held.accounted.ended completion member
    obtain ⟨chunk, listed, same⟩ := List.mem_map.mp
      ((staffed.children completion.task).mp ⟨tcb, found, placed.trans within⟩)
    have through : par.next chunk.task = chunk.hi := by
      by_contra short
      have left := Nat.lt_of_le_of_ne (kept.started chunk listed).2 short
      obtain ⟨_, below, free⟩ := kept.next_free listed left
      exact free ((sound par there).filled joins scope later inside performed _ below)
    have valued := (staffed.ends completion member chunk listed same).mpr through
    rw [Completion.lost, valued]
    rfl
  · intro none_ par there
    have kept := held.kept par there
    refine held.sound there fun joins scope later inside performed index below => ?_
    obtain ⟨share, listed, has⟩ := kept.tiles.exists_share (Nat.zero_le _) below
    obtain ⟨chunk, member, rfl⟩ := List.mem_map.mp listed
    obtain ⟨quiet, ended⟩ := held.joined there inside performed
    obtain ⟨completion, entered, same, within⟩ := ended chunk member
    have kept_ := none_ par scope later there joins inside performed completion entered within
    have valued : completion.valued = true := by
      rw [Completion.lost, quiet completion entered within] at kept_
      simpa using kept_
    have through := ((held.staffed par scope there inside).ends completion entered chunk member
      same.symm).mp valued
    exact (kept.filled chunk member index has).mpr (through.symm ▸ has.2)

/-- No chunk that has ended is lost. -/
def Intact (floor : Floor Data) : Prop :=
  ∀ par scope, floor.par = some par → par.scope = some scope →
    ∀ completion ∈ floor.chronicle.past, completion.scope = some scope → completion.lost = false

theorem Intact.noneLost (intact : floor.Intact) : floor.NoneLost :=
  fun par scope _ there _ inside _ => intact par scope there inside

/-- A call begins in a scope of its own, before any of its chunks ends. -/
theorem call_spec {chronicle : Chronicle Data} (accounted : chronicle.Accounted) {me : TaskId}
    {items : List (Value Data)} {start : Nat}
    (called : call workers chronicle me items start = some next) :
    next.chronicle.past = chronicle.past ∧
      ∀ par scope, next.par = some par → par.scope = some scope →
        scope = chronicle.sched.scopes.length := by
  unfold call at called
  dsimp only at called
  split at called
  · cases called
    refine ⟨rfl, ?_⟩
    rintro par scope ⟨⟩ ⟨⟩
  · split at called
    · next scope opened performed =>
        obtain ⟨⟨chunks, last⟩, spawned, made⟩ := Option.map_eq_some_iff.mp called
        subst made
        obtain ⟨told, past, _⟩ := Chronicle.opened accounted performed
        obtain ⟨_, same, _⟩ := spawnChunks_spec scope
          (Chronicle.accounted_perform accounted performed) spawned
        refine ⟨same.trans past, ?_⟩
        rintro par scope ⟨⟩ ⟨⟩
        cases told
        rfl
    · cases called

/-- A step that loses no chunk leaves none lost. -/
theorem intact_step {op : ParOp Data} (held : floor.Held f) (intact : floor.Intact)
    (keeps : floor.KeepsChunk op) (stepped : step workers f floor op = some next) :
    next.Intact := by
  cases op with
  | door op =>
    change (if _ then _ else _) = some next at stepped
    split at stepped
    · cases stepped
    · next free =>
        obtain ⟨⟨answer, later⟩, performed, rfl⟩ := Option.map_eq_some_iff.mp stepped
        intro par scope there inside completion member within
        obtain ⟨before, known, rfl⟩ := Option.map_eq_some_iff.mp there
        rw [Par.scope_hear] at inside
        obtain ⟨⟨_, world⟩, _, answered⟩ := Option.map_eq_some_iff.mp performed
        obtain ⟨_, rfl⟩ := Prod.mk.inj answered
        rcases List.mem_append.mp member with earlier | now
        · exact intact before scope known inside completion earlier within
        · cases op with
          | endTask me ended =>
            obtain ⟨tcb, found, rfl⟩ := Option.map_eq_some_iff.mp (Option.mem_toList.mp now)
            have listed := ((held.staffed before scope known inside).children me).mp
              ⟨tcb, found, within⟩
            obtain ⟨chunk, mine, rfl⟩ := List.mem_map.mp listed
            rw [known, Option.any_some] at free
            refine absurd ?_ free
            rw [Par.claims, Bool.or_eq_true]
            exact .inl (List.any_eq_true.mpr ⟨chunk, mine, by simp⟩)
          | _ => cases now
  | call me items start =>
    change (if _ then _ else _) = some next at stepped
    split at stepped
    · cases stepped
    · obtain ⟨same, fresh⟩ := call_spec held.accounted stepped
      intro par scope there inside completion member within
      obtain rfl := fresh par scope there inside
      rw [same] at member
      obtain ⟨tcb, found, _, placed⟩ := held.accounted.ended completion member
      have enrolled := held.accounted.enrolled _ tcb _ found (placed.trans within)
      rw [State.rollOf, List.getElem?_eq_none (Nat.le_refl _)] at enrolled
      cases enrolled
  | fill task value =>
    obtain ⟨par, there, stepped⟩ := Option.bind_eq_some_iff.mp stepped
    obtain ⟨chunk, _, stepped⟩ := Option.bind_eq_some_iff.mp stepped
    split at stepped
    · cases stepped
      rintro _ scope ⟨⟩ inside
      exact intact par scope there inside
    · cases stepped
  | finish task ended =>
    obtain ⟨par, there, stepped⟩ := Option.bind_eq_some_iff.mp stepped
    obtain ⟨chunk, _, stepped⟩ := Option.bind_eq_some_iff.mp stepped
    obtain ⟨tcb, living, stepped⟩ := Option.bind_eq_some_iff.mp stepped
    split at stepped
    · cases stepped
    · next may =>
        split at stepped
        · obtain ⟨⟨answer, later⟩, performed, rfl⟩ := Option.map_eq_some_iff.mp stepped
          rintro _ scope ⟨⟩ inside completion member within
          rw [Par.scope_hear] at inside
          obtain ⟨⟨_, world⟩, _, answered⟩ := Option.map_eq_some_iff.mp performed
          obtain ⟨_, rfl⟩ := Prod.mk.inj answered
          rcases List.mem_append.mp member with earlier | now
          · exact intact par scope there inside completion earlier within
          · obtain ⟨tcb', found, rfl⟩ := Option.map_eq_some_iff.mp (Option.mem_toList.mp now)
            obtain rfl := Option.eq_some_unique living found
            cases ended with
            | error tag payload =>
              obtain ⟨uncancelled, unkilled⟩ := keeps tcb living
              simp [Completion.lost, Completion.failure, uncancelled, unkilled]
            | killed => exact keeps.elim
            | cancelled => exact absurd (.inr (by simp [Par.mayEnd])) may
            | _ => rfl
        · next alone =>
            split at stepped
            · cases stepped
            · cases stepped
              rintro _ scope ⟨⟩ inside
              exact absurd (Option.isSome_iff_exists.mpr ⟨scope, inside⟩) alone
  | join =>
    obtain ⟨par, there, stepped⟩ := Option.bind_eq_some_iff.mp stepped
    obtain ⟨scope, _, stepped⟩ := Option.bind_eq_some_iff.mp stepped
    split at stepped
    · cases stepped
    · split at stepped
      · cases stepped
        rintro _ scope ⟨⟩ inside
        exact intact par scope there inside
      · cases stepped
        rintro _ scope ⟨⟩ inside
        exact intact par scope there inside
      · obtain ⟨⟨answer, later⟩, performed, rfl⟩ := Option.map_eq_some_iff.mp stepped
        obtain ⟨⟨_, world⟩, _, answered⟩ := Option.map_eq_some_iff.mp performed
        obtain ⟨_, rfl⟩ := Prod.mk.inj answered
        rw [completionOf_other _ (by simp), List.append_nil]
        cases answer with
        | joined failures =>
          rintro _ scope ⟨⟩ inside
          exact intact par scope there inside
        | _ =>
          rintro _ scope ⟨⟩ inside
          rw [Par.scope_hear] at inside
          exact intact par scope there inside

/-- In a run that loses no chunk every state is sound, and a state of any run is sound just when
no chunk has been lost before a join without a failure. Callers keep to their contract. -/
theorem par_fills_iff (workers : Nat) (f : Value Data → Invoked Data → Bool) (chooser : Chooser)
    (ops : List (ParOp Data)) :
    (Guarded (step workers f) KeepsChunk (initial chooser) ops →
      Always (step workers f) (Sound f) (initial chooser) ops) ∧
    Always (step workers f) (fun floor => floor.Sound f ↔ floor.NoneLost)
    (initial chooser) ops := by
  constructor
  · intro guarded front rest state split run
    have kept := inv_of_guarded (fun floor => Held f floor ∧ floor.Intact) KeepsChunk
      ⟨held_initial chooser, fun _ _ called => nomatch called⟩
      (fun before op after both keeps stepped =>
        ⟨held_step both.1 stepped, intact_step both.1 both.2 keeps stepped⟩)
      (guarded.left split) run
    exact kept.1.sound_iff.mpr kept.2.noneLost
  · intro front rest state _ run
    exact (held_run chooser front run).sound_iff

/-- Does the join report no failure while the first slot is empty? -/
def joinsUnfilled (floor : Floor Data) : Bool :=
  floor.par.any fun par => par.joins && par.scope.any fun scope =>
    (match floor.chronicle.perform (.joinScope par.me scope) with
      | some (.joined [], _) => true
      | _ => false) &&
    decide (0 < par.items.length) && (par.slots[0]?).any Option.isNone

theorem not_sound_of_joinsUnfilled (unfilled : floor.joinsUnfilled = true) : ¬ floor.Sound f := by
  intro sound
  obtain ⟨par, there, unfilled⟩ := (Option.any_eq_true _ _).mp unfilled
  obtain ⟨joins, unfilled⟩ := (Bool.and_eq_true _ _).mp unfilled
  obtain ⟨scope, inside, unfilled⟩ := (Option.any_eq_true _ _).mp unfilled
  obtain ⟨unfilled, empty⟩ := (Bool.and_eq_true _ _).mp unfilled
  obtain ⟨clean, some_⟩ := (Bool.and_eq_true _ _).mp unfilled
  split at clean
  · next later performed =>
      obtain ⟨value, full⟩ := (sound par there).filled joins scope later inside performed 0
        (of_decide_eq_true some_)
      rw [full] at empty
      cases empty
  · cases clean

/-- A fn value that answers the same error value for every element. -/
def alwaysFails : Value Unit → Invoked Unit → Bool
  | _, .error (.error "Kaboom" []) => true
  | _, _ => false

/-- A sibling of the caller fails while the chunks wait, so that their own errors do not count. -/
def cancelledCaller : List (ParOp Unit) :=
  [.door (.openScope 0), .door (.spawnTask 0 (some 0) "failing"), .call 0 [.unit, .unit] 0, .join,
    .door (.endTask 1 (.error "Kaboom" [])), .door .dispatchNext,
    .finish 2 (.error "Kaboom" []), .door .dispatchNext,
    .finish 3 (.error "Kaboom" []), .door .dispatchNext]

theorem par_not_filled : ¬ ∀ (workers : Nat) (f : Value Unit → Invoked Unit → Bool)
    (chooser : Chooser) (ops : List (ParOp Unit)),
      Always (step workers f) (Sound f) (initial chooser) ops := by
  intro claimed
  obtain ⟨floor, run, unfilled⟩ : ∃ floor : Floor Unit,
      exec (step 4 alwaysFails) (initial (.seeded 0 1)) cancelledCaller = some floor ∧
        floor.joinsUnfilled = true :=
    Option.map_eq_some_iff.mp (show Option.map joinsUnfilled _ = some true by decide)
  exact not_sound_of_joinsUnfilled unfilled
    (claimed 4 alwaysFails (.seeded 0 1) cancelledCaller cancelledCaller [] floor
      (List.append_nil _).symm run)

end Floor

end WolfInterp.Sched
