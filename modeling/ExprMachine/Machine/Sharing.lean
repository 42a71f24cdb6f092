/-
  ExprMachine.Machine.Sharing

  Machines over shared registries. Registries lie in places. A machine borrows the
  shared registry that it is built over, up to its first registration: this copies the
  registry to a new place, which belongs to the machine, and all its registrations go
  there.
-/
import ExprMachine.Machine.Run

namespace ExprMachine

/-! ## Machines -/

/-- Where the operators of a machine lie. -/
inductive Holding where
  /-- In a shared place. -/
  | borrowed (place : Nat)
  /-- In a place that belongs to the machine. -/
  | owned (place : Nat)
deriving DecidableEq, Repr

/-- The place itself. -/
def Holding.place : Holding → Nat
  | .borrowed place | .owned place => place

/-- A machine: a chunk, the environment that it runs in, and where its operators lie. -/
structure Runner where
  chunk : Chunk
  environment : Value
  holding : Holding

/-- Registries in their places, of which the first ones are shared, and the machines in
    the order in which they were built. -/
structure Workshop where
  shared : Nat
  registries : List Registry
  runners : List Runner

namespace Workshop

/-- Shared registries, and no machines yet. -/
def start (registries : List Registry) : Workshop :=
  ⟨registries.length, registries, []⟩

/-- The registry in a place. There is none outside, which counts as an empty one. -/
def registryAt (workshop : Workshop) (place : Nat) : Registry :=
  workshop.registries[place]?.getD .empty

/-! ## Looking at a machine -/

/-- What a machine runs, and what it runs it in. -/
def prepared? (workshop : Workshop) (host : Host) (index : Nat) : Option (Context × Chunk) :=
  workshop.runners[index]?.map fun runner =>
    (⟨host, workshop.registryAt runner.holding.place, runner.environment⟩, runner.chunk)

/-- Runs a machine. This changes nothing, and can be done any number of times. -/
def run? (workshop : Workshop) (host : Host) (index : Nat) : Option (Except RunError Value) :=
  (workshop.prepared? host index).map fun (context, chunk) => Machine.run context chunk

/-- The overloads that a machine has for a symbol. -/
def overloads? (workshop : Workshop) (index : Nat) (symbol : String) : Option (List Overload) :=
  workshop.runners[index]?.map fun runner =>
    (workshop.registryAt runner.holding.place).overloads symbol

/-! ## Building and registering -/

/-- Builds a machine over a shared registry. -/
def build (workshop : Workshop) (place : Nat) (chunk : Chunk) (environment : Value) : Workshop :=
  if place < workshop.shared then
    { workshop with runners := workshop.runners ++ [⟨chunk, environment, .borrowed place⟩] }
  else workshop

/-- Builds a machine with an empty registry of its own. -/
def buildBare (workshop : Workshop) (chunk : Chunk) (environment : Value) : Workshop :=
  { workshop with
    registries := workshop.registries ++ [.empty]
    runners := workshop.runners ++ [⟨chunk, environment, .owned workshop.registries.length⟩] }

/-- Lets a machine own a registry, and gives its place. A borrowed registry is copied. -/
def own (workshop : Workshop) (index : Nat) (runner : Runner) : Workshop × Nat :=
  match runner.holding with
  | .owned place => (workshop, place)
  | .borrowed place =>
    let copy := workshop.registries.length
    ({ workshop with
       registries := workshop.registries ++ [workshop.registryAt place]
       runners := workshop.runners.set index { runner with holding := .owned copy } }, copy)

/-- Registers an overload on a machine. -/
def register (workshop : Workshop) (index : Nat) (symbol : String) (overload : Overload) :
    Workshop :=
  match workshop.runners[index]? with
  | none => workshop
  | some runner =>
    let (workshop, place) := workshop.own index runner
    { workshop with
      registries := workshop.registries.modify place (·.register symbol overload) }

/-! ## Actions -/

/-- What can be done in a workshop. -/
inductive Action where
  /-- Builds a machine over a shared registry. -/
  | build (place : Nat) (chunk : Chunk) (environment : Value)
  /-- Builds a machine with an empty registry of its own. -/
  | buildBare (chunk : Chunk) (environment : Value)
  /-- Registers an overload on a machine. -/
  | register (index : Nat) (symbol : String) (overload : Overload)

/-- Carries out an action. -/
def perform (workshop : Workshop) : Action → Workshop
  | .build place chunk environment => workshop.build place chunk environment
  | .buildBare chunk environment => workshop.buildBare chunk environment
  | .register index symbol overload => workshop.register index symbol overload

/-- Carries out some actions, one after the other. -/
def performAll (workshop : Workshop) (actions : List Action) : Workshop :=
  actions.foldl perform workshop

end Workshop

end ExprMachine
