import WolfInterp.Eval.Captures
import WolfInterp.Lib.Visits

/-!
# Initializers

A module item's initializer may name the module's other items, but no `var`, and not its own item,
by itself or by way of others. The check walks from item to item along the names the initializers
use.
-/

namespace WolfInterp.Statics

open Relation (TransGen)
open WolfInterp.Eval (patternNames)
open WolfInterp.Lex (Text)
open WolfInterp.Syntax (Kind Node Expr Pattern)

/-! ## The names an expression uses -/

/-- A name that is bound around an expression: by a `let` of that name alone, or by any other
pattern or form. -/
structure Binder where
  name : Text
  plain : Bool

/-- A name where it is used, with the binders around it. -/
structure Use where
  name : Text
  around : List Binder

def Use.bound (use : Use) : Bool := use.around.any fun binder => binder.name = use.name

/-- A `let` of the name alone is around its use. -/
def Use.plainlyBound (use : Use) : Bool :=
  use.around.any fun binder => binder.plain && binder.name = use.name

/-- The binders of a pattern, a `let` of one name apart. -/
def patternBinders (pattern : Pattern) : List Binder :=
  (patternNames pattern).map fun name => { name, plain := false }

/-- What a statement binds for those after it. -/
def binders : {kind : Kind} → Node kind → List Binder
  | _, .stmt _ kind => binders kind
  | _, .bindingStmt binding => binders binding
  | _, .binding _ (.bindingPat name) _ _ => [{ name, plain := true }]
  | _, .binding _ pattern _ _ => patternBinders pattern
  | _, .cons head tail => binders tail ++ binders head
  | _, _ => []

/-- The names an expression uses where the comptime engine reads it, in evaluation order. A
closure's body runs later, and `unsafe` is outside the engine's subset. -/
def uses : {kind : Kind} → Node kind → List Binder → List Use
  | _, .path ⟨name :: _⟩, around => [{ name, around }]
  | _, .block stmts tail, around => uses stmts around ++ uses tail (binders stmts ++ around)
  | _, .cons head tail, around => uses head around ++ uses tail (binders head ++ around)
  | _, .some value, around => uses value around
  | _, .stmt _ kind, around => uses kind around
  | _, .bindingStmt binding, around => uses binding around
  | _, .binding _ _ _ value, around => uses value around
  | _, .exprStmt expr, around => uses expr around
  | _, .defer _ expr, around => uses expr around
  | _, .assign place _ value _, around => uses place around ++ uses value around
  | _, .str literal, around => uses literal around
  | _, .strLit _ parts, around => uses parts around
  | _, .strInterp interpolation, around => uses interpolation around
  | _, .interpolation expr format, around => uses expr around ++ uses format around
  | _, .fmtInterp expr, around => uses expr around
  | _, .structLit _ fields, around => uses fields around
  | _, .fieldInit _ value, around => uses value around
  | _, .tuple items, around => uses items around
  | _, .list items, around => uses items around
  | _, .group expr, around => uses expr around
  | _, .try_ expr, around => uses expr around
  | _, .fromEnd expr, around => uses expr around
  | _, .freeze expr, around => uses expr around
  | _, .unary _ operand, around => uses operand around
  | _, .cast expr _, around => uses expr around
  | _, .member base _, around => uses base around
  | _, .modedReceiver _ place, around => uses place around
  | _, .blockExpr block, around => uses block around
  | _, .binary _ lhs rhs, around => uses lhs around ++ uses rhs around
  | _, .call callee args, around => uses callee around ++ uses args around
  | _, .arg _ expr, around => uses expr around
  | _, .bracketApply base args _, around => uses base around ++ uses args around
  | _, .valueArg arg, around => uses arg around
  | _, .range start stop _, around => uses start around ++ uses stop around
  | _, .elseDefault expr handler, around => uses expr around ++ uses handler around
  | _, .elseBlock block, around => uses block around
  | _, .elseExpr expr, around => uses expr around
  | _, .elseHandler pattern body, around => uses body (patternBinders pattern ++ around)
  | _, .if_ cond then_ otherwise, around =>
    uses cond around ++ uses then_ around ++ uses otherwise around
  | _, .match_ scrutinee arms, around => uses scrutinee around ++ uses arms around
  | _, .matchArm pattern guard body _, around =>
    let inner := patternBinders pattern ++ around
    uses guard inner ++ uses body inner
  | _, .for_ pattern iter body, around =>
    uses iter around ++ uses body (patternBinders pattern ++ around)
  | _, .while_ cond body, around => uses cond around ++ uses body around
  | _, .loop body, around => uses body around
  | _, .scope name body, around =>
    uses body (name.toList.map (fun name => { name, plain := false }) ++ around)
  | _, .regionSugar name cap _ body, around =>
    uses cap around ++ uses body (name.toList.map (fun name => { name, plain := false }) ++ around)
  | _, .in_ region body, around => uses region around ++ uses body around
  | _, .when_ operands body, around => uses operands around ++ uses body around
  | _, .return_ value, around => uses value around
  | _, .break_ value, around => uses value around
  | _, .spawnProc _ args, around => uses args around
  | _, .select arms, around => uses arms around
  | _, .selectArm (.recv pattern channel) body _, around =>
    uses channel around ++ uses body (patternBinders pattern ++ around)
  | _, .selectArm (.timeout deadline) body _, around => uses deadline around ++ uses body around
  | _, .asm _ operands, around => uses operands around
  | _, .asmOperand _ _ _ value, around => uses value around
  | _, .borrow place source, around => uses place around ++ uses source around
  | _, _, _ => []

/-- The names the check follows: those that no plain `let` around them shadows. -/
def references (expr : Expr) : List Text :=
  ((uses expr []).filter fun use => !use.plainlyBound).map Use.name

/-- The names an initializer reads from its module by the language's scoping. -/
def reads (expr : Expr) : List Text := ((uses expr []).filter fun use => !use.bound).map Use.name

/-! ## The walk -/

/-- A module's bindings: each name that one of them defines, and all their names in declaration
order. -/
structure Module where
  items : Text → Option Syntax.Binding
  bindings : List Text
  listed : ∀ name, (items name).isSome → name ∈ bindings

def bindingValue : Syntax.Binding → Expr
  | .binding _ _ _ value => value

def isVar : Syntax.Binding → Bool
  | .binding kind _ _ _ => kind = .var

/-- The items whose evaluation ended well, and the references that are E0705. -/
structure InitWalk where
  good : List Text := []
  out : List Text := []

/-- The references of one initializer, until one fails. -/
def visitAll (module : Module) (inside : List Text) (visit : Text → InitWalk → Bool × InitWalk) :
    List Text → InitWalk → Bool × InitWalk
  | [], walk => (true, walk)
  | target :: rest, walk =>
    match module.items target with
    | none => visitAll module inside visit rest walk
    | some other =>
      if isVar other || target ∈ inside then
        (false, { walk with out := walk.out ++ [target] })
      else
        match visit target walk with
        | (true, walk) => visitAll module inside visit rest walk
        | (false, walk) => (false, walk)

/-- One item's evaluation inside the `inside` ones, with `room` for as many more: past 256 open
items the walk stops judging. -/
def visit (module : Module) : (room : Nat) → (inside : List Text) → Text → InitWalk →
    Bool × InitWalk
  | 0, _, _, walk => (true, walk)
  | room + 1, inside, name, walk =>
    if name ∈ walk.good then (true, walk)
    else
      match module.items name with
      | none => (true, walk)
      | some binding =>
        let inside := name :: inside
        match visitAll module inside (visit module room inside)
            (references (bindingValue binding)) walk with
        | (true, walk) => (true, { walk with good := name :: walk.good })
        | (false, walk) => (false, walk)

/-- The references of a module's initializers that are E0705. -/
def initCheck (module : Module) : List Text :=
  (module.bindings.foldl (fun walk name => (visit module 257 [] name walk).2) {}).out

/-! ## What the check is for -/

section Scoping

variable (module : Module)

def Module.Item (name : Text) : Prop := (module.items name).isSome

instance (name : Text) : Decidable (module.Item name) := inferInstanceAs (Decidable (_ = true))

def Module.Var (name : Text) : Prop := ∃ binding, module.items name = some binding ∧ isVar binding

/-- An item's initializer reads another. -/
def Module.Reads (item target : Text) : Prop :=
  module.Item target ∧
    ∃ binding, module.items item = some binding ∧ target ∈ reads (bindingValue binding)

/-- What E0705 is for: an initializer reads a `var`, or an item reads itself by way of others. -/
def Module.Faults : Prop :=
  (∃ item target, module.Reads item target ∧ module.Var target) ∨
    ∃ item, TransGen module.Reads item item

/-- No use of an item's name is bound by a pattern other than a plain `let` alone. -/
def Module.Plain : Prop :=
  ∀ item binding, module.items item = some binding → ∀ use ∈ uses (bindingValue binding) [],
    module.Item use.name → use.bound → use.plainlyBound

/-- No 258 items form a chain in which each is read by the next. -/
def Module.Shallow : Prop :=
  ∀ chain : List Text, chain.Nodup → chain.IsChain (fun read reader => module.Reads reader read) →
    chain.length ≤ 257

/-- A module of at most 257 bindings is shallow. -/
theorem Module.shallow_of_few {module : Module} (few : module.bindings.length ≤ 257) :
    module.Shallow := by
  have items : ∀ read reader rest,
      (read :: reader :: rest).IsChain (fun read reader => module.Reads reader read) →
        read :: reader :: rest ⊆ module.bindings := by
    intro read reader rest reads
    obtain ⟨first, onward⟩ := List.isChain_cons_cons.mp reads
    have reading : module.Item reader := Option.isSome_iff_exists.mpr ⟨_, first.2.choose_spec.1⟩
    have begun : read ∈ module.bindings := module.listed read first.1
    induction rest generalizing read reader with
    | nil =>
      exact List.forall_mem_cons.mpr
        ⟨begun, List.forall_mem_singleton.mpr (module.listed _ reading)⟩
    | cons next rest induction =>
      obtain ⟨second, later⟩ := List.isChain_cons_cons.mp onward
      exact List.forall_mem_cons.mpr ⟨begun, induction reader next onward second later
        (Option.isSome_iff_exists.mpr ⟨_, second.2.choose_spec.1⟩) (module.listed reader second.1)⟩
  intro chain distinct reads
  rcases chain with _ | ⟨first, _ | ⟨second, rest⟩⟩
  · exact Nat.zero_le _
  · exact Nat.succ_le_succ (Nat.zero_le _)
  · exact (distinct.subperm (items first second rest reads)).length_le.trans few

/-- The items an initializer's walk follows. -/
def follows (item : Text) : List Text :=
  match module.items item with
  | none => []
  | some binding => (references (bindingValue binding)).filter fun name => module.Item name

end Scoping

section Walks

open Visits (Faulty Passes Stops)

variable {module : Module} {room : Nat} {inside : List Text} {name : Text} {walk after : InitWalk}
  {answer : Bool}

theorem mem_follows (plain : module.Plain) {item target : Text} :
    target ∈ follows module item ↔ module.Reads item target := by
  rw [follows, Module.Reads]
  cases found : module.items item with
  | none => simp
  | some binding =>
    have same : ∀ use ∈ uses (bindingValue binding) [], module.Item use.name →
        use.plainlyBound = use.bound := by
      intro use member item_
      rw [Bool.eq_iff_iff]
      refine ⟨fun bound => ?_, plain item binding found use member item_⟩
      obtain ⟨binder, among, also⟩ := List.any_eq_true.mp bound
      exact List.any_eq_true.mpr ⟨binder, among, (Bool.and_eq_true _ _ ▸ also).2⟩
    simp only [List.mem_filter, references, reads, List.mem_map, Option.some.injEq,
      exists_eq_left', decide_eq_true_eq, Bool.not_eq_true']
    constructor
    · rintro ⟨⟨use, ⟨member, free⟩, rfl⟩, item_⟩
      exact ⟨item_, use, ⟨member, same use member item_ ▸ free⟩, rfl⟩
    · rintro ⟨item_, use, ⟨member, free⟩, rfl⟩
      exact ⟨⟨use, ⟨member, (same use member item_).trans free⟩, rfl⟩, item_⟩

/-- What a part of the walk comes to: it reports nothing and passes over the items, blind to some
only in a module that is not shallow, or it reports and has stopped. -/
def Comes (module : Module) (items : List Text) (stopped : Prop) (walk : InitWalk)
    (ended : Bool × InitWalk) : Prop :=
  (ended.1 = true ∧ ended.2.out = walk.out ∧
      Passes (follows module) module.Var (¬ module.Shallow) items walk.good ended.2.good) ∨
    (ended.1 = false ∧ ended.2.out ≠ [] ∧ stopped)

/-- The walk over some of an item's references comes to no more than the visits of them. -/
theorem visitAll_comes {visit : Text → InitWalk → Bool × InitWalk}
    (visits : ∀ target ∈ follows module name, target ∉ name :: inside → ∀ walk,
      Comes module [target] (Stops (follows module) module.Var (name :: inside) target) walk
        (visit target walk))
    {targets : List Text}
    (led : ∀ target ∈ targets, module.Item target → target ∈ follows module name)
    (walk : InitWalk) :
    let ended := visitAll module (name :: inside) visit targets walk
    Comes module (targets.filter fun target => module.Item target)
        (Stops (follows module) module.Var inside name) walk ended ∧
      (ended.1 = true → ∀ target ∈ targets, ¬ module.Var target) := by
  induction targets generalizing walk with
  | nil => exact ⟨.inl ⟨rfl, rfl, .done⟩, nofun⟩
  | cons target rest induction =>
    have later := induction fun other member => led other (List.mem_cons_of_mem _ member)
    rw [visitAll]
    cases found : module.items target with
    | none =>
      have absent : ¬ module.Item target := by simp [Module.Item, found]
      have still : ¬ module.Var target := by
        rintro ⟨binding, same, -⟩
        rw [found] at same
        cases same
      rw [List.filter_cons_of_neg (by simpa using absent)]
      exact ⟨(later walk).1, fun ended => List.forall_mem_cons.mpr ⟨still, (later walk).2 ended⟩⟩
    | some other =>
      have item : module.Item target := by simp [Module.Item, found]
      have leads := led target List.mem_cons_self item
      rw [List.filter_cons_of_pos (by simpa using item)]
      dsimp only
      by_cases bad : (isVar other || decide (target ∈ name :: inside)) = true
      · rw [if_pos bad]
        refine ⟨.inr ⟨rfl, by simp, ?_⟩, nofun⟩
        rcases Bool.or_eq_true_iff.mp bad with var | within
        · exact .bars leads ⟨other, found, var⟩
        · exact .again leads (of_decide_eq_true within)
      · rw [if_neg bad]
        rw [Bool.not_eq_true, Bool.or_eq_false_iff, decide_eq_false_iff_not] at bad
        have still : ¬ module.Var target := by
          rintro ⟨binding, same, var⟩
          rw [found] at same
          cases same
          rw [bad.1] at var
          cases var
        have came := visits target leads bad.2 walk
        cases visited : visit target walk with
        | mk answer after =>
          rw [visited] at came
          rcases came with ⟨passed, silent, passes⟩ | ⟨failed, spoke, stops⟩
          · cases passed
            obtain ⟨rest_, clear⟩ := later after
            refine ⟨?_, fun ended => List.forall_mem_cons.mpr ⟨still, clear ended⟩⟩
            rcases rest_ with ⟨passed, silent', passes'⟩ | failed
            · exact .inl ⟨passed, silent'.trans silent, passes.append passes'⟩
            · exact .inr failed
          · cases failed
            exact ⟨.inr ⟨rfl, spoke, .inside leads stops⟩, nofun⟩

/-- A visit of an item that fails has stopped, and one that does not has passed over it. The walk
runs out of room at a chain of 258 items only. -/
theorem visit_comes (plain : module.Plain)
    (deep : inside.length + room = 257) (item : module.Item name)
    (distinct : (name :: inside).Nodup)
    (chain : (name :: inside).IsChain fun read reader => module.Reads reader read)
    (walk : InitWalk) :
    Comes module [name] (Stops (follows module) module.Var inside name) walk
      (visit module room inside name walk) := by
  induction room generalizing inside name walk with
  | zero =>
    refine .inl ⟨rfl, rfl, .skips (fun shallow => ?_) .done⟩
    have short := shallow _ distinct chain
    rw [List.length_cons] at short
    omega
  | succ room induction =>
    rw [visit]
    by_cases member : name ∈ walk.good
    · rw [if_pos member]
      exact .inl ⟨rfl, rfl, .known member .done⟩
    obtain ⟨binding, found⟩ := Option.isSome_iff_exists.mp item
    have leads : follows module name =
        (references (bindingValue binding)).filter fun name => module.Item name := by
      rw [follows, found]
    rw [if_neg member, found]
    dsimp only
    have visits : ∀ target ∈ follows module name, target ∉ name :: inside → ∀ walk,
        Comes module [target] (Stops (follows module) module.Var (name :: inside) target) walk
          (visit module room (name :: inside) target walk) := by
      intro target leads apart walk
      have read := (mem_follows plain).mp leads
      exact induction (by rw [List.length_cons]; omega) read.1
        (List.nodup_cons.mpr ⟨apart, distinct⟩) (List.isChain_cons_cons.mpr ⟨read, chain⟩) walk
    have led : ∀ target ∈ references (bindingValue binding), module.Item target →
        target ∈ follows module name := fun target member item =>
      leads ▸ List.mem_filter.mpr ⟨member, by simpa using item⟩
    obtain ⟨came, clear⟩ := visitAll_comes visits led walk
    rw [← leads] at came
    cases visited : visitAll module (name :: inside) (visit module room (name :: inside))
        (references (bindingValue binding)) walk with
    | mk answer after =>
      rw [visited] at came clear
      rcases came with ⟨passed, silent, passes⟩ | ⟨failed, spoke, stops⟩
      · cases passed
        refine .inl ⟨rfl, silent, .enters (fun target leads_ => ?_) passes .done⟩
        exact clear rfl target (List.mem_filter.mp (leads ▸ leads_)).1
      · cases failed
        exact .inr ⟨rfl, spoke, stops⟩

theorem mem_good_of_visit (item : module.Item name)
    (ended : (visit module (room + 1) inside name walk).1 = true) :
    name ∈ (visit module (room + 1) inside name walk).2.good := by
  obtain ⟨binding, found⟩ := Option.isSome_iff_exists.mp item
  rw [visit] at ended ⊢
  by_cases member : name ∈ walk.good
  · rw [if_pos member]
    exact member
  · rw [if_neg member, found] at ended ⊢
    dsimp only at ended ⊢
    cases visited : visitAll module (name :: inside) (visit module room (name :: inside))
        (references (bindingValue binding)) walk with
    | mk answer after =>
      rw [visited] at ended
      cases answer with
      | false => cases ended
      | true => exact List.mem_cons_self

/-- No item that the walk is done with reads a `var`. -/
def Sober (module : Module) (good : List Text) : Prop :=
  ∀ item ∈ good, ∀ target ∈ follows module item, ¬ module.Var target

/-- The whole walk reports nothing, passes over every item and is done with it, or it reports and
some visit of an item stopped. -/
theorem initCheck_comes (plain : module.Plain) (names : List Text) (walk : InitWalk) :
    let final := names.foldl (fun walk name => (visit module 257 [] name walk).2) walk
    (final.out = walk.out ∧
        Passes (follows module) module.Var (¬ module.Shallow)
          (names.filter fun name => module.Item name) walk.good final.good ∧
        (Sober module walk.good → ∀ name ∈ names, module.Item name → name ∈ final.good)) ∨
      final.out ≠ [] ∧ (walk.out ≠ [] ∨ ∃ name, Stops (follows module) module.Var [] name) := by
  induction names generalizing walk with
  | nil => exact .inl ⟨rfl, .done, fun _ _ => nofun⟩
  | cons name rest induction =>
    rw [List.foldl_cons]
    by_cases item : module.Item name
    · rw [List.filter_cons_of_pos (by simpa using item)]
      have deep : ([] : List Text).length + 257 = 257 := rfl
      rcases visit_comes plain deep item (List.nodup_singleton name) (.singleton name) walk
        with ⟨ended, silent, passes⟩ | ⟨-, spoke, stops⟩
      · rcases induction (visit module 257 [] name walk).2 with
          ⟨silent', passes', met⟩ | ⟨spoke, early⟩
        · refine .inl ⟨silent'.trans silent, passes.append passes', fun sober => ?_⟩
          have still := (passes.clear sober).1
          refine List.forall_mem_cons.mpr ⟨fun _ => ?_, met still⟩
          exact (passes'.clear still).2 name (mem_good_of_visit item ended)
        · exact .inr ⟨spoke, silent ▸ early⟩
      · refine .inr ⟨?_, .inr ⟨name, stops⟩⟩
        rcases induction (visit module 257 [] name walk).2 with ⟨silent, -⟩ | ⟨spoke, -⟩
        · exact silent ▸ spoke
        · exact spoke
    · have same : visit module 257 [] name walk = (true, walk) := by
        rw [visit, Option.not_isSome_iff_eq_none.mp item]
        exact ite_self _
      rw [List.filter_cons_of_neg (by simpa using item), same]
      rcases induction walk with ⟨silent, passes, met⟩ | spoke
      · exact .inl ⟨silent, passes, fun sober =>
          List.forall_mem_cons.mpr ⟨fun is => absurd is item, met sober⟩⟩
      · exact .inr spoke

/-- What E0705 is reported for is so, in a module of any depth. -/
theorem initCheck_sound (plain : module.Plain) (spoke : initCheck module ≠ []) : module.Faults := by
  have leads : Visits.Leads (follows module) = module.Reads := by
    funext item target
    exact propext (mem_follows plain)
  rcases initCheck_comes plain module.bindings {} with ⟨silent, -⟩ | ⟨-, early⟩
  · exact absurd silent spoke
  · obtain ⟨name, stops⟩ := early.resolve_left fun spoken => spoken rfl
    obtain ⟨item, -, ⟨target, led, var⟩ | cycle⟩ := Visits.faulty_of_stops stops .refl nofun
    · exact .inl ⟨item, target, (mem_follows plain).mp led, var⟩
    · exact .inr ⟨item, leads ▸ cycle⟩

theorem Module.Reads.item {item target : Text} (read : module.Reads item target) :
    module.Item item :=
  Option.isSome_iff_exists.mpr ⟨_, read.2.choose_spec.1⟩

/-- A read of a `var` is E0705, in a module of any depth. -/
theorem initCheck_var (plain : module.Plain) {item target : Text} (read : module.Reads item target)
    (var : module.Var target) : initCheck module ≠ [] := by
  have none_good : Sober module [] := fun _ member => absurd member List.not_mem_nil
  rcases initCheck_comes plain module.bindings {} with ⟨-, passes, met⟩ | ⟨spoke, -⟩
  · have finished := met none_good item (module.listed item read.item) read.item
    exact absurd var
      ((passes.clear none_good).1 item finished target ((mem_follows plain).mpr read))
  · exact spoke

/-- E0705 is reported exactly where an initializer reads a `var` or its own item. -/
theorem initCheck_iff (plain : module.Plain) (shallow : module.Shallow) :
    initCheck module ≠ [] ↔ module.Faults := by
  refine ⟨initCheck_sound plain, ?_⟩
  rintro (⟨item, target, read, var⟩ | ⟨item, cycle⟩) silent
  · exact initCheck_var plain read var silent
  have leads : Visits.Leads (follows module) = module.Reads := by
    funext item target
    exact propext (mem_follows plain)
  rcases initCheck_comes plain module.bindings {} with ⟨-, passes, -⟩ | ⟨spoke, -⟩
  · obtain ⟨target, first, -⟩ := TransGen.head'_iff.mp cycle
    have met : item ∈ module.bindings.filter fun name => module.Item name :=
      List.mem_filter.mpr ⟨module.listed item first.item, decide_eq_true first.item⟩
    exact Visits.faultless_of_passes (not_not_intro shallow) passes item met
      ⟨item, .refl, .inr (leads ▸ cycle)⟩
  · exact spoke silent

end Walks

/-! ## The conditions -/

/-- `var n = 0` and `const k = match 0 { n => n }`, whose arm reads its own binder. -/
def shadowed : Module where
  items name :=
    if name = ['n'] then some (.binding .var (.bindingPat ['n']) .none (.int ['0']))
    else if name = ['k'] then
      some (.binding .const (.bindingPat ['k']) .none (.match_ (.int ['0'])
        (Node.ofList [.matchArm (.bindingPat ['n']) .none (.path ⟨[['n']]⟩) false])))
    else none
  bindings := [['n'], ['k']]
  listed name item := by
    by_cases first : name = ['n'] <;> by_cases second : name = ['k'] <;> simp_all

theorem shadowed_reads (item target : Text) : ¬ shadowed.Reads item target := by
  rintro ⟨-, binding, found, read⟩
  simp only [shadowed] at found
  split at found
  · cases found
    cases read
  · split at found
    · cases found
      cases read
    · cases found

/-- The name of a place in a ring of constants. -/
def link (size place : Nat) : Text := List.replicate (place % size) 'k'

/-- Each constant of the ring reads the next. -/
def ring (size : Nat) : Module where
  items name :=
    if name.length < size ∧ name = link size name.length then
      some (.binding .const (.bindingPat name) .none (.path ⟨[link size (name.length + 1)]⟩))
    else none
  bindings := (List.range size).map (link size)
  listed name item := by
    by_cases same : name.length < size ∧ name = link size name.length
    · rw [same.2]
      exact List.mem_map_of_mem (List.mem_range.mpr same.1)
    · simp [same] at item

section Rings

variable {size place other : Nat}

theorem link_inj (same : link size place = link size other) : place % size = other % size := by
  simpa [link] using congrArg List.length same

theorem ring_items (positive : 0 < size) (place : Nat) : (ring size).items (link size place) =
      some (.binding .const (.bindingPat (link size place)) .none
        (.path ⟨[link size (place + 1)]⟩)) := by
  have length : (link size place).length = place % size := List.length_replicate
  have same : link size place = link size (place % size) := by rw [link, link, Nat.mod_mod]
  have next : link size (place % size + 1) = link size (place + 1) := by
    rw [link, Nat.mod_add_mod, link]
  have holds : place % size < size ∧ link size place = link size (place % size) :=
    ⟨Nat.mod_lt _ positive, same⟩
  simp only [ring, length, next, if_pos holds]

theorem ring_reads (positive : 0 < size) (place : Nat) :
    (ring size).Reads (link size place) (link size (place + 1)) :=
  ⟨by rw [Module.Item, ring_items positive]; rfl, _, ring_items positive place,
    List.mem_singleton.mpr rfl⟩

theorem ring_plain (size : Nat) : (ring size).Plain := by
  intro item binding found use member _ bound
  simp only [ring] at found
  split at found
  · cases found
    cases List.mem_singleton.mp member
    cases bound
  · cases found

end Rings

/-- `const a = { let c = b; c }`, `const b = c` and `const c = a`. -/
def knot : Module where
  items name :=
    if name = ['a'] then
      some (.binding .const (.bindingPat ['a']) .none (.blockExpr (.block
        (Node.ofList [.stmt .nil (.bindingStmt (.binding .let_ (.bindingPat ['c']) .none
          (.path ⟨[['b']]⟩)))]) (.some (.path ⟨[['c']]⟩)))))
    else if name = ['b'] then some (.binding .const (.bindingPat ['b']) .none (.path ⟨[['c']]⟩))
    else if name = ['c'] then some (.binding .const (.bindingPat ['c']) .none (.path ⟨[['a']]⟩))
    else none
  bindings := [['a'], ['b'], ['c']]
  listed name item := by
    by_cases first : name = ['a'] <;> by_cases second : name = ['b'] <;>
      by_cases third : name = ['c'] <;> simp_all

theorem knot_plain : knot.Plain := by
  intro item binding found use member _ bound
  simp only [knot] at found
  split at found
  · cases found
    have either : use ∈ [⟨['b'], []⟩, ⟨['c'], [⟨['c'], true⟩]⟩] := member
    rcases List.mem_pair.mp either with rfl | rfl
    · cases bound
    · rfl
  · split at found
    · cases found
      cases List.mem_singleton.mp member
      cases bound
    · split at found
      · cases found
        cases List.mem_singleton.mp member
        cases bound
      · cases found

/-- A ring of three items is E0705, and a `let` of one item's name in it is no read of the item. -/
theorem knot_refused : initCheck knot ≠ [] ↔ knot.Faults :=
  initCheck_iff knot_plain (Module.shallow_of_few (by decide))

/-- A visit of a constant of the ring is one of the next. -/
theorem ring_visit (room place : Nat) (inside : List Text) {walk after : InitWalk}
    (new : link 258 place ∉ walk.good) (apart : link 258 (place + 1) ∉ link 258 place :: inside)
    (next : visit (ring 258) room (link 258 place :: inside) (link 258 (place + 1)) walk =
      (true, after)) :
    visit (ring 258) (room + 1) inside (link 258 place) walk =
      (true, { after with good := link 258 place :: after.good }) := by
  have followed : references (bindingValue (.binding .const (.bindingPat (link 258 place)) .none
      (.path ⟨[link 258 (place + 1)]⟩))) = [link 258 (place + 1)] := rfl
  have items := ring_items (show 0 < 258 by decide)
  rw [visit, if_neg new, items]
  simp only [followed, visitAll, items, isVar, apart, reduceCtorEq, decide_false,
    Bool.or_false, Bool.false_eq_true, if_false, next]

/-- The walk around the ring stops judging before it closes. -/
theorem ring_around {room place : Nat} {inside : List Text} (deep : place + room = 257)
    (before : ∀ other ∈ inside, ∃ less < place, other = link 258 less) :
    visit (ring 258) room inside (link 258 place) {} =
      (true, { good := (List.range' place room).map (link 258) }) := by
  induction room generalizing place inside with
  | zero => rfl
  | succ room induction =>
    have earlier : ∀ other ∈ link 258 place :: inside,
        ∃ less < place + 1, other = link 258 less := by
      refine List.forall_mem_cons.mpr ⟨⟨place, by omega, rfl⟩, fun other member => ?_⟩
      obtain ⟨less, lt, same⟩ := before other member
      exact ⟨less, by omega, same⟩
    refine ring_visit room place inside List.not_mem_nil (fun member => ?_)
      (induction (by omega) earlier)
    obtain ⟨less, lt, same⟩ := earlier _ member
    have := link_inj same
    omega

theorem ring_silent : initCheck (ring 258) = [] := by
  let walk : InitWalk := { good := (List.range' 0 257).map (link 258) }
  have first : visit (ring 258) 257 [] (link 258 0) {} = (true, walk) := ring_around rfl nofun
  have known (place : Nat) (lt : place < 257) : link 258 place ∈ walk.good :=
    List.mem_map_of_mem (List.mem_range'_1.mpr (by omega))
  have good (places : Nat) (le : places < 257) :
      ((List.range (places + 1)).map (link 258)).foldl
        (fun walk name => (visit (ring 258) 257 [] name walk).2) {} = walk := by
    induction places with
    | zero =>
      rw [Nat.zero_add, List.range_one, List.map_singleton, List.foldl_cons, first]
      rfl
    | succ places induction =>
      rw [List.range_succ, List.map_append, List.foldl_append, induction (by omega),
        List.map_singleton, List.foldl_cons, visit, if_pos (known _ le)]
      rfl
  have order : (ring 258).bindings =
      (List.range (256 + 1)).map (link 258) ++ [link 258 257] := by
    rw [← List.map_singleton, ← List.map_append, ← List.range_succ]
    rfl
  have new : link 258 257 ∉ walk.good := by
    intro member
    obtain ⟨place, among, same⟩ := List.mem_map.mp member
    have := link_inj same
    rw [List.mem_range'_1] at among
    omega
  have apart : link 258 258 ∉ [link 258 257] := fun member => by
    have := link_inj (List.mem_singleton.mp member)
    omega
  have around : link 258 258 = link 258 0 := congrArg (List.replicate · 'k') (by decide)
  have closed : visit (ring 258) 256 [link 258 257] (link 258 258) walk = (true, walk) := by
    rw [around, visit, if_pos (known 0 (by decide))]
  rw [initCheck, order, List.foldl_append, good 256 (by decide), List.foldl_cons,
    ring_visit 256 257 [] new apart closed]
  rfl

/-- A ring of 258 items is no E0705, and a match arm's own binder is one. -/
theorem initCheck_differs : ((ring 258).Plain ∧ ¬ (initCheck (ring 258) ≠ [] ↔ (ring 258).Faults)) ∧
      shadowed.Shallow ∧ ¬ (initCheck shadowed ≠ [] ↔ shadowed.Faults) := by
  refine ⟨⟨ring_plain 258, fun exact_ => ?_⟩, ?_, fun exact_ => ?_⟩
  · have around (steps : Nat) :
        TransGen (ring 258).Reads (link 258 0) (link 258 (steps + 1)) := by
      induction steps with
      | zero => exact .single (ring_reads (by decide) 0)
      | succ steps induction => exact induction.tail (ring_reads (by decide) (steps + 1))
    exact exact_.mpr (.inr ⟨link 258 0, around 257⟩) ring_silent
  · intro chain _ reads
    match chain with
    | [] | [_] => simp
    | first :: second :: rest =>
      exact absurd (List.isChain_cons_cons.mp reads).1 (shadowed_reads _ _)
  · rcases exact_.mp (by decide) with ⟨item, target, read, -⟩ | ⟨item, cycle⟩
    · exact shadowed_reads item target read
    · obtain ⟨target, first, -⟩ := TransGen.head'_iff.mp cycle
      exact shadowed_reads item target first

end WolfInterp.Statics
