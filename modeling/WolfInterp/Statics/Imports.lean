import Mathlib.Data.List.Chain
import Mathlib.Data.List.Perm.Subperm
import WolfInterp.Lib.Visits
import WolfInterp.Syntax.Ast

/-!
# Import cycles

Imports between modules must form a DAG. The check walks depth first from the root, along the names
that `use` declarations bind; an import of an item binds the item's name, which names no module.
-/

namespace WolfInterp.Statics.Imports

open Relation (ReflTransGen TransGen)
open WolfInterp.Lex (Text)
open WolfInterp.Syntax (UseDecl)
open Visits (Leads Passes)

/-! ## Loaded modules -/

/-- A name that a `use` declaration binds, with the path of what it is bound to. -/
structure UseRef where
  name : Text
  segments : List Text

/-- The bindings of the source's `collect_use`. -/
def collectUse (decl : UseDecl) : List UseRef :=
  let segments := decl.path.segments
  if decl.list.isEmpty then
    ((decl.alias_ <|> segments.getLast?).map fun bound => ⟨bound, segments⟩).toList
  else
    decl.list.map fun item => ⟨item, segments ++ [item]⟩

/-- One file of a module. -/
structure FileScope where
  file : String
  decls : List UseDecl

structure Module where
  scopes : List FileScope
  items : List Text

/-- The bindings of a module's files, each with the file it stands in. -/
def Module.uses (module : Module) : List (String × UseRef) :=
  module.scopes.flatMap fun scope => (scope.decls.flatMap collectUse).map fun used =>
    (scope.file, used)

/-- The loaded modules under their names; the root has the empty one. -/
structure Program where
  modules : List (Text × Module)

def Program.get (program : Program) (name : Text) : Option Module := program.modules.lookup name

def Program.loaded (program : Program) (name : Text) : Bool := (program.get name).isSome

/-! ## The check -/

inductive Mark where
  | white | gray | black
  deriving DecidableEq

/-- What E0303 reports: the walk from the module it came back to, and the `use` that closes it. -/
structure Cycle where
  chain : List Text
  closing : Text
  file : String
  deriving DecidableEq

def Cycle.message (cycle : Cycle) : String :=
  let chain := " → ".intercalate (cycle.chain.map fun at_ => s!"`{String.ofList at_}`")
  s!"this import completes a cycle: {chain} → `{String.ofList cycle.closing}` " ++
    s!"(in `{cycle.file}`); " ++
    "imports between modules must form a DAG (D32)"

/-- Why a walk ends early; that its fuel runs out is ruled out below. -/
inductive Halt where
  | reports (cycle : Cycle)
  | starved

/-- The marks of the modules, and the modules the walk is in. -/
structure Trail where
  marks : Text → Mark
  path : List Text

/-- The loop over the bindings of a module; `enter` is the walk into another one. -/
def follow (program : Program) (enter : Text → Trail → Except Halt Trail) :
    List (String × UseRef) → Trail → Except Halt Trail
  | [], trail => .ok trail
  | (file, used) :: rest, trail =>
    -- The ambient prelude is no directory.
    if !program.loaded used.name then follow program enter rest trail
    else match trail.marks used.name with
      | .gray =>
        let start := (trail.path.idxOf? used.name).getD 0
        .error (.reports ⟨trail.path.drop start, used.name, file⟩)
      | .black => follow program enter rest trail
      | .white =>
        match enter used.name trail with
        | .ok trail => follow program enter rest trail
        | .error halt => .error halt

def walk (program : Program) : Nat → Text → Trail → Except Halt Trail
  | 0, _, _ => .error .starved
  | fuel + 1, name, trail =>
    let entered : Trail := ⟨Function.update trail.marks name .gray, trail.path ++ [name]⟩
    match program.get name with
    | none => .ok entered
    | some module =>
      match follow program (walk program fuel) module.uses entered with
      | .ok left => .ok ⟨Function.update left.marks name .black, left.path.dropLast⟩
      | .error halt => .error halt

def cycleCheck (program : Program) : Except Halt Trail :=
  walk program (program.modules.length + 1) [] ⟨fun _ => .white, []⟩

/-! ## The graph of imports -/

/-- The module a `use` imports, or imports an item of. -/
def importOf (program : Program) (used : UseRef) : Option Text :=
  if program.loaded used.name then some used.name
  else match used.segments with
    | head :: item :: more => (program.get head).bind fun module =>
      if (more.getLastD item) ∈ module.items then some head else none
    | _ => none

/-- The modules a module imports, or imports items of. -/
def imports (program : Program) (name : Text) : List Text :=
  ((program.get name).elim [] Module.uses).filterMap fun (_, used) => importOf program used

/-- The modules whose names a module binds. -/
def boundModules (program : Program) (name : Text) : List Text :=
  (((program.get name).elim [] Module.uses).map fun (_, used) => used.name).filter program.loaded

/-- A cycle can be reached from the root. -/
def Circular (next : Text → List Text) : Prop :=
  ∃ name, ReflTransGen (Leads next) [] name ∧ TransGen (Leads next) name name

/-- The chain starts at the module that the closing `use` names, and each step of it is an
import. -/
structure Cycle.Real (next : Text → List Text) (cycle : Cycle) : Prop where
  reached : ReflTransGen (Leads next) [] cycle.closing
  starts : cycle.chain.head? = some cycle.closing
  steps : (cycle.chain ++ [cycle.closing]).IsChain (Leads next)

/-- The check ends, reports exactly when a cycle can be reached, and reports a cycle. -/
structure Exact (program : Program) : Prop where
  ends : cycleCheck program ≠ .error .starved
  reports : (∃ cycle, cycleCheck program = .error (.reports cycle)) ↔ Circular (imports program)
  real : ∀ cycle, cycleCheck program = .error (.reports cycle) → cycle.Real (imports program)

variable {program : Program} {name : Text} {trail : Trail} {finished : List Text}

theorem imports_of_bound {target : Text} (leads : Leads (boundModules program) name target) :
    Leads (imports program) name target := by
  obtain ⟨member, loaded⟩ := List.mem_filter.mp leads
  obtain ⟨⟨file, used⟩, among, rfl⟩ := List.mem_map.mp member
  exact List.mem_filterMap.mpr ⟨_, among, if_pos loaded⟩

theorem Cycle.Real.mono {next wider : Text → List Text} {cycle : Cycle} (real : cycle.Real next)
    (widens : ∀ {name target}, Leads next name target → Leads wider name target) :
    cycle.Real wider where
  reached := ReflTransGen.mono (fun _ _ => widens) _ _ real.reached
  starts := real.starts
  steps := real.steps.imp fun _ _ => widens

theorem Cycle.Real.circular {next : Text → List Text} {cycle : Cycle} (real : cycle.Real next) :
    Circular next := by
  refine ⟨cycle.closing, real.reached, ?_⟩
  obtain ⟨rest, chain⟩ := List.head?_eq_some_iff.mp real.starts
  have steps := real.steps
  rw [chain, List.cons_append] at steps
  cases rest with
  | nil => exact .single (List.isChain_pair.mp steps)
  | cons second rest =>
    obtain ⟨first, later⟩ := List.isChain_cons_cons.mp steps
    have back : ReflTransGen (Leads next) second cycle.closing :=
      List.relationReflTransGen_of_exists_isChain_cons _ later (by simp)
    exact .head' first back

/-! ## What the walk does -/

/-- A trail that has finished some modules: the gray ones are those it is in, one import after
another, and the black ones those it has finished. -/
structure Trail.Sound (program : Program) (trail : Trail) (finished : List Text) : Prop where
  nodup : trail.path.Nodup
  loaded : ∀ name ∈ trail.path, program.loaded name
  gray : ∀ name, trail.marks name = .gray ↔ name ∈ trail.path
  black : ∀ name, trail.marks name = .black ↔ name ∈ finished

/-- The walk may go on from the end of a path to a module. -/
structure Entrance (program : Program) (path : List Text) (name : Text) : Prop where
  loaded : program.loaded name
  steps : (path ++ [name]).IsChain (Leads (boundModules program))
  reached : ReflTransGen (Leads (boundModules program)) [] name

/-- What the walk over some modules answers, from a trail that has finished some. -/
def Meets (program : Program) (trail : Trail) (finished nodes : List Text) :
    Except Halt Trail → Prop
  | .ok left => left.path = trail.path ∧ ∃ last, left.Sound program last ∧
      Passes (boundModules program) (fun _ => False) False nodes finished last
  | .error (.reports cycle) => cycle.Real (boundModules program)
  | .error .starved => False

/-- A `use` of a module that the walk is in closes a cycle. -/
theorem real_of_gray {path : List Text} {file : String} (inside : name ∈ path)
    (entrance : Entrance program path name) :
    (Cycle.mk (path.drop ((path.idxOf? name).getD 0)) name file).Real (boundModules program) := by
  have found : path.idxOf? name ≠ none := fun absent => List.idxOf?_eq_none_iff.mp absent inside
  obtain ⟨start, found⟩ := Option.ne_none_iff_exists'.mp found
  obtain ⟨bound, there, -⟩ := List.idxOf?_eq_some_iff.mp found
  refine ⟨entrance.reached, ?_, ?_⟩
  · simp [found, List.head?_drop, bound, there]
  · have steps := entrance.steps.drop start
    rw [List.drop_append_of_le_length bound.le] at steps
    simpa [found] using steps

theorem Meets.imp {before : Trail} {earlier nodes more : List Text} {outcome : Except Halt Trail}
    (meets : Meets program trail finished nodes outcome) (same : trail.path = before.path)
    (passes : ∀ {last}, Passes (boundModules program) (fun _ => False) False nodes finished last →
      Passes (boundModules program) (fun _ => False) False more earlier last) :
    Meets program before earlier more outcome := by
  match outcome, meets with
  | .ok _, ⟨still, last, sound, passed⟩ => exact ⟨still.trans same, last, sound, passes passed⟩
  | .error (.reports _), real => exact real

theorem follow_meets {enter : Text → Trail → Except Halt Trail} {path : List Text}
    (enters : ∀ {name trail finished}, trail.path = path → trail.Sound program finished →
      trail.marks name = .white → Entrance program path name →
        Meets program trail finished [name] (enter name trail)) (uses : List (String × UseRef))
    (here : trail.path = path) (sound : trail.Sound program finished)
    (leads : ∀ use ∈ uses, program.loaded use.2.name → Entrance program path use.2.name) :
    Meets program trail finished ((uses.map (·.2.name)).filter program.loaded)
      (follow program enter uses trail) := by
  induction uses generalizing trail finished with
  | nil => exact ⟨rfl, finished, sound, .done⟩
  | cons use rest induction =>
    obtain ⟨file, used⟩ := use
    obtain ⟨entrance, leads⟩ := List.forall_mem_cons.mp leads
    cases loaded : program.loaded used.name with
    | false => simpa [follow, loaded] using induction here sound leads
    | true =>
      simp only [follow, loaded, Bool.not_true, Bool.false_eq_true, if_false, List.map_cons,
        List.filter_cons, if_true]
      cases mark : trail.marks used.name with
      | gray =>
        subst here
        exact real_of_gray ((sound.gray _).mp mark) (entrance loaded)
      | black =>
        have known := (sound.black _).mp mark
        exact (induction here sound leads).imp rfl (.known known)
      | white =>
        have inner := enters here sound mark (entrance loaded)
        match enter used.name trail, inner with
        | .error (.reports _), real => exact real
        | .ok middle, ⟨same, between, soundly, passed⟩ =>
          exact (induction (same.trans here) soundly leads).imp same passed.append

theorem mem_names (loaded : program.loaded name) : name ∈ program.modules.map Prod.fst := by
  by_contra absent
  have : program.get name = none := List.lookup_eq_none_iff.mpr (by grind)
  simp [Program.loaded, this] at loaded

theorem Trail.Sound.short (sound : trail.Sound program finished) :
    trail.path.length ≤ program.modules.length := by
  have within := (List.Nodup.subperm sound.nodup fun inside member =>
    mem_names (sound.loaded inside member)).length_le
  simpa using within

theorem Trail.Sound.outside (sound : trail.Sound program finished)
    (fresh : trail.marks name = .white) : name ∉ trail.path ∧ name ∉ finished := by
  simp [← sound.gray, ← sound.black, fresh]

theorem Trail.Sound.enter (sound : trail.Sound program finished) (fresh : trail.marks name = .white)
    (loaded : program.loaded name) :
    (Trail.mk (Function.update trail.marks name .gray) (trail.path ++ [name])).Sound program
      finished := by
  obtain ⟨outside, unfinished⟩ := sound.outside fresh
  refine ⟨List.nodup_append.mpr ⟨sound.nodup, by simp, by grind⟩, ?_, fun other => ?_, fun other =>
    ?_⟩
  · simpa [or_imp, forall_and] using ⟨sound.loaded, loaded⟩
  · by_cases same : other = name <;> simp [same, sound.gray]
  · by_cases same : other = name <;> simp [same, sound.black, unfinished]

/-- The walk into a module, with fuel for the modules it is not in. -/
theorem walk_meets (fuel : Nat) (room : program.modules.length ≤ fuel + trail.path.length)
    (sound : trail.Sound program finished) (fresh : trail.marks name = .white)
    (entrance : Entrance program trail.path name) :
    Meets program trail finished [name] (walk program fuel name trail) := by
  have enters := sound.enter fresh entrance.loaded
  induction fuel generalizing name trail finished with
  | zero =>
    have short := enters.short
    simp only [List.length_append, List.length_singleton] at short
    omega
  | succ fuel induction =>
    obtain ⟨module, got⟩ := Option.isSome_iff_exists.mp entrance.loaded
    obtain ⟨outside, -⟩ := sound.outside fresh
    let entered : Trail := ⟨Function.update trail.marks name .gray, trail.path ++ [name]⟩
    have bound : boundModules program name =
        (module.uses.map (·.2.name)).filter program.loaded := by simp [boundModules, got]
    have leads : ∀ use ∈ module.uses, program.loaded use.2.name →
        Entrance program entered.path use.2.name := by
      intro use member there
      have step : Leads (boundModules program) name use.2.name := by
        rw [Leads, bound]
        exact List.mem_filter.mpr ⟨List.mem_map_of_mem member, there⟩
      refine ⟨there, List.isChain_append.mpr ⟨entrance.steps, by simp, ?_⟩,
        entrance.reached.tail step⟩
      simpa [entered] using step
    have inner : Meets program entered finished (boundModules program name)
        (follow program (walk program fuel) module.uses entered) := by
      rw [bound]
      refine follow_meets ?_ module.uses rfl enters leads
      intro next trail finished here sound fresh entrance
      have room : program.modules.length ≤ fuel + trail.path.length := by
        simp only [here, entered, List.length_append, List.length_singleton]
        omega
      exact induction room sound fresh (here ▸ entrance) (sound.enter fresh entrance.loaded)
    simp only [walk, got]
    match follow program (walk program fuel) module.uses entered, inner with
    | .error (.reports _), real => exact real
    | .ok left, ⟨same, last, soundly, passed⟩ =>
      have back : left.path.dropLast = trail.path := by simp [same, entered]
      have inside : ∀ other, other ∈ left.path ↔ other ∈ trail.path ∨ other = name := by
        simp [same, entered]
      refine ⟨back, name :: last, ⟨?_, ?_, fun other => ?_, fun other => ?_⟩,
        .enters (fun _ _ => id) passed .done⟩
      · exact back.symm ▸ sound.nodup
      · exact back.symm ▸ sound.loaded
      · by_cases named : other = name
        · simp [named, back, outside]
        · simp [named, back, soundly.gray, inside]
      · by_cases named : other = name <;> simp [named, soundly.black]

/-! ## Exactness -/

/-- The walk ends, with a cycle of the names the modules bind or because there is none. -/
theorem cycleCheck_spec (program : Program) :
    (∃ cycle, cycleCheck program = .error (.reports cycle) ∧ cycle.Real (boundModules program)) ∨
    ((∃ left, cycleCheck program = .ok left) ∧ ¬ Circular (boundModules program)) := by
  cases root : program.get [] with
  | none =>
    refine .inr ⟨⟨_, by rw [cycleCheck, walk, root]⟩, ?_⟩
    have none_bound : ∀ target, ¬ Leads (boundModules program) [] target := by
      simp [Leads, boundModules, root]
    rintro ⟨name, way, cycle⟩
    obtain rfl | ⟨target, step, -⟩ := way.cases_head
    · obtain ⟨target, step, -⟩ := TransGen.head'_iff.mp cycle
      exact none_bound target step
    · exact none_bound target step
  | some module =>
    have outset : (Trail.mk (fun _ => .white) []).Sound program [] := by
      constructor <;> simp
    have met : Meets program _ _ [[]] (cycleCheck program) :=
      walk_meets (program.modules.length + 1) (by simp) outset rfl
        ⟨by simp [Program.loaded, root], by simp, .refl⟩
    match cycleCheck program, met with
    | .error (.reports cycle), real => exact .inl ⟨cycle, rfl, real⟩
    | .ok left, ⟨_, _, _, passes⟩ =>
      refine .inr ⟨⟨left, rfl⟩, ?_⟩
      rintro ⟨name, way, cycle⟩
      exact Visits.faultless_of_passes not_false passes [] (by simp) ⟨name, way, .inr cycle⟩

/-- The check is exact if no cycle of imports depends on the import of an item. -/
theorem cycleCheck_exact (program : Program) :
    Exact program ↔ (Circular (imports program) → Circular (boundModules program)) := by
  obtain ⟨cycle, outcome, real⟩ | ⟨⟨left, outcome⟩, none⟩ := cycleCheck_spec program
  · have imported := real.mono imports_of_bound
    refine ⟨fun _ _ => real.circular, fun _ => ⟨by simp [outcome], ?_, ?_⟩⟩
    · simpa [outcome] using imported.circular
    · intro other same
      cases outcome.symm.trans same
      exact imported
  · constructor
    · intro whole circular
      obtain ⟨cycle, reported⟩ := whole.reports.mpr circular
      cases outcome.symm.trans reported
    · intro covers
      refine ⟨by simp [outcome], ?_, by simp [outcome]⟩
      simpa [outcome] using mt covers none

/-- Two modules that import an item of each other. -/
def itemRing : Program where
  modules :=
    let using_ (file : String) (path : List Text) : FileScope := ⟨file, [⟨⟨path⟩, [], none⟩]⟩
    [([], ⟨[using_ "main.lu" ["a".toList]], []⟩),
      ("a".toList, ⟨[using_ "a/a.lu" ["b".toList, "x".toList]], ["y".toList]⟩),
      ("b".toList, ⟨[using_ "b/b.lu" ["a".toList, "y".toList]], ["x".toList]⟩)]

theorem itemRing_inexact : ¬ Exact itemRing := by
  intro whole
  have first : "a".toList ∈ imports itemRing [] := by decide
  have there : "b".toList ∈ imports itemRing "a".toList := by decide
  have back : "a".toList ∈ imports itemRing "b".toList := by decide
  obtain ⟨cycle, reported⟩ :=
    whole.reports.mpr ⟨_, .single first, .tail (.single there) back⟩
  have passed : (cycleCheck itemRing).isOk = true := by decide
  rw [reported] at passed
  cases passed

end WolfInterp.Statics.Imports
