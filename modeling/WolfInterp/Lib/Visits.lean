import Mathlib.Logic.Relation

/-!
# Visits

A depth-first walk over a graph that remembers the nodes it has finished, and fails on an edge to a
barred node or to one it is still in. A walk that ends well has met every node it could reach, and
no fault, unless it was blind to some; one that fails has met a fault.
-/

namespace Visits

open Relation (ReflTransGen TransGen)

variable {Node : Type*}

def Leads (next : Node → List Node) (source target : Node) : Prop := target ∈ next source

/-- From a node there is a way to an edge to a barred node, or into a cycle. -/
def Faulty (next : Node → List Node) (barred : Node → Prop) (start : Node) : Prop :=
  ∃ node, ReflTransGen (Leads next) start node ∧
    ((∃ target ∈ next node, barred target) ∨ TransGen (Leads next) node node)

/-- A walk over some nodes that ends well, with the nodes finished before and after it. Where it may
be blind it passes a node by, without finishing it. -/
inductive Passes (next : Node → List Node) (barred : Node → Prop) (blind : Prop) :
    List Node → List Node → List Node → Prop
  | done {finished : List Node} : Passes next barred blind [] finished finished
  | known {node : Node} {rest finished last : List Node} (member : node ∈ finished)
      (later : Passes next barred blind rest finished last) :
      Passes next barred blind (node :: rest) finished last
  | enters {node : Node} {rest finished inner last : List Node}
      (clear : ∀ target ∈ next node, ¬ barred target)
      (inside : Passes next barred blind (next node) finished inner)
      (later : Passes next barred blind rest (node :: inner) last) :
      Passes next barred blind (node :: rest) finished last
  | skips {node : Node} {rest finished last : List Node} (unseen : blind)
      (later : Passes next barred blind rest finished last) :
      Passes next barred blind (node :: rest) finished last

/-- A walk in a node that fails, with the nodes it was in before. -/
inductive Stops (next : Node → List Node) (barred : Node → Prop) : List Node → Node → Prop
  | bars {entered : List Node} {node target : Node} (leads : target ∈ next node)
      (bars : barred target) : Stops next barred entered node
  | again {entered : List Node} {node target : Node} (leads : target ∈ next node)
      (inside : target ∈ node :: entered) : Stops next barred entered node
  | inside {entered : List Node} {node target : Node} (leads : target ∈ next node)
      (stops : Stops next barred (node :: entered) target) : Stops next barred entered node

/-- Each finished node leads to nodes finished before it, and to none that is barred. -/
def Settled (next : Node → List Node) (barred : Node → Prop) : List Node → Prop
  | [] => True
  | node :: rest =>
    (∀ target ∈ next node, target ∈ rest ∧ ¬ barred target) ∧ Settled next barred rest

variable {next : Node → List Node} {barred : Node → Prop} {blind : Prop}

theorem Passes.append {nodes more finished inner last : List Node}
    (passes : Passes next barred blind nodes finished inner)
    (later : Passes next barred blind more inner last) :
    Passes next barred blind (nodes ++ more) finished last := by
  induction passes with
  | done => exact later
  | known member _ induction => exact .known member (induction later)
  | enters clear inside _ _ induction => exact .enters clear inside (induction later)
  | skips unseen _ induction => exact .skips unseen (induction later)

/-- Nodes stay finished, and none that is finished on the way leads to a barred one. -/
theorem Passes.clear {nodes finished last : List Node}
    (passes : Passes next barred blind nodes finished last)
    (before : ∀ node ∈ finished, ∀ target ∈ next node, ¬ barred target) :
    (∀ node ∈ last, ∀ target ∈ next node, ¬ barred target) ∧ ∀ node ∈ finished, node ∈ last := by
  induction passes with
  | done => exact ⟨before, fun _ member => member⟩
  | known _ _ induction => exact induction before
  | enters clear _ _ inside later =>
    obtain ⟨within, keeps⟩ := inside before
    obtain ⟨after, kept⟩ := later (List.forall_mem_cons.mpr ⟨clear, within⟩)
    exact ⟨after, fun node member => kept node (List.mem_cons_of_mem _ (keeps node member))⟩
  | skips _ _ induction => exact induction before

theorem Passes.settled {nodes finished last : List Node} (sees : ¬ blind)
    (passes : Passes next barred blind nodes finished last)
    (settled : Settled next barred finished) :
    Settled next barred last ∧ (∀ node ∈ finished, node ∈ last) ∧ ∀ node ∈ nodes, node ∈ last := by
  induction passes with
  | done => exact ⟨settled, fun _ member => member, nofun⟩
  | known member _ induction =>
    obtain ⟨after, kept, met⟩ := induction settled
    exact ⟨after, kept, List.forall_mem_cons.mpr ⟨kept _ member, met⟩⟩
  | enters clear _ _ inside later =>
    obtain ⟨within, keeps, meets⟩ := inside settled
    obtain ⟨after, kept, met⟩ :=
      later ⟨fun target leads => ⟨meets target leads, clear target leads⟩, within⟩
    exact ⟨after, fun node member => kept node (List.mem_cons_of_mem _ (keeps node member)),
      List.forall_mem_cons.mpr ⟨kept _ List.mem_cons_self, met⟩⟩
  | skips unseen => exact absurd unseen sees

theorem Settled.faultless {finished : List Node} (settled : Settled next barred finished) :
    ∀ node ∈ finished, ¬ Faulty next barred node := by
  induction finished with
  | nil => nofun
  | cons first rest induction =>
    obtain ⟨leads, before⟩ := settled
    have inner := induction before
    refine List.forall_mem_cons.mpr ⟨?_, inner⟩
    rintro ⟨node, way, fault⟩
    rcases way.cases_head with rfl | ⟨target, step, onward⟩
    · rcases fault with ⟨target, member, bars⟩ | cycle
      · exact (leads target member).2 bars
      · obtain ⟨target, step, back⟩ := TransGen.head'_iff.mp cycle
        exact inner target (leads target step).1
          ⟨target, .refl, .inr (TransGen.tail' back step)⟩
    · exact inner target (leads target step).1 ⟨node, onward, fault⟩

/-- A walk that ends well finds no fault because there is none. -/
theorem faultless_of_passes {nodes last : List Node} (sees : ¬ blind)
    (passes : Passes next barred blind nodes [] last) :
    ∀ node ∈ nodes, ¬ Faulty next barred node := by
  obtain ⟨settled, -, met⟩ := passes.settled sees trivial
  exact fun node member => settled.faultless node (met node member)

/-- A walk that fails has met a fault. -/
theorem faulty_of_stops {start node : Node} {entered : List Node}
    (stops : Stops next barred entered node) (way : ReflTransGen (Leads next) start node)
    (above : ∀ other ∈ entered, TransGen (Leads next) other node) : Faulty next barred start := by
  induction stops with
  | bars leads bars => exact ⟨_, way, .inl ⟨_, leads, bars⟩⟩
  | again leads inside =>
    refine ⟨_, way, .inr ?_⟩
    rcases List.mem_cons.mp inside with rfl | member
    · exact .single leads
    · exact .head leads (above _ member)
  | inside leads _ induction =>
    refine induction (way.tail leads) ?_
    exact List.forall_mem_cons.mpr
      ⟨.single leads, fun other member => (above other member).tail leads⟩

end Visits
