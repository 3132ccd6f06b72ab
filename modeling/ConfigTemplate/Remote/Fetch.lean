/-
Fetching configurations with bounded concurrency.

Names are requested in the order of a list, and at most a fixed number of
requests is in flight, that is, made and not yet delivered.  Requests complete in
any order, which is the business of a schedule, but they are delivered in the
order they were made.  The first failure delivered ends the fetch.

Design notes: a `Window` is the state of a fetch.  A turn makes a request if there
is room, or delivers the oldest if it has completed, or else lets a request
complete.  Every name takes three turns, so their number bounds the run.
-/
import ConfigTemplate.Tree.Basic

namespace ConfigTemplate

/-- What a name leads to at a client: a tree, or the client's words of refusal. -/
abbrev Client := Text → Except Text Tree

/-- A client that has the configurations it is given, the last of each name. -/
def Client.ofList (configs : List (Text × Tree)) : Client := fun name =>
  match (Entries.putAll [] configs).get? name with
  | some t => .ok t
  | none => .error ("no config named '".toList ++ name ++ ['\''])

/-- A request that failed, and the reason that the client gave. -/
structure FetchFault where
  name : Text
  reason : Text
  deriving DecidableEq, Repr

/-- The wording of a failed request. -/
def FetchFault.message (f : FetchFault) : Text :=
  "Failed to fetch remote config '".toList ++ f.name ++ "': ".toList ++ f.reason

namespace Fetch

/-- The state of a fetch. -/
structure Window where
  waiting : List Text
  /-- The names in flight, oldest first, and whether each has completed. -/
  flying : List (Text × Bool)
  delivered : List Tree
  /-- The most requests that have been in flight at once. -/
  peak : Nat

/-- The outcome of a fetch, and the most requests that were in flight at once. -/
structure Report where
  outcome : Except FetchFault (List Tree)
  peak : Nat

/-- Let the request complete that `pick` others in flight precede. -/
def complete : (pick : Nat) → List (Text × Bool) → List (Text × Bool)
  | _, [] => []
  | pick, (name, true) :: rest => (name, true) :: complete pick rest
  | pick, (name, false) :: rest =>
    if pick = 0 || rest.all (·.2) then (name, true) :: rest
    else (name, false) :: complete (pick - 1) rest

/-- One turn: the next state, or the outcome when there is nothing left to do. -/
def turn (client : Client) (limit pick : Nat) (w : Window) :
    Window ⊕ Except FetchFault (List Tree) :=
  match w.waiting, w.flying with
  | name :: names, flying =>
    if flying.length < limit then
      .inl { w with
        waiting := names
        flying := flying ++ [(name, false)]
        peak := max w.peak (flying.length + 1) }
    else deliver flying
  | [], flying => deliver flying
where
  /-- Deliver the oldest request in flight, or let one complete. -/
  deliver : List (Text × Bool) → Window ⊕ Except FetchFault (List Tree)
    | [] => .inr (.ok w.delivered)
    | (name, true) :: rest =>
      match client name with
      | .ok t => .inl { w with flying := rest, delivered := w.delivered ++ [t] }
      | .error reason => .inr (.error ⟨name, reason⟩)
    | (name, false) :: rest => .inl { w with flying := complete pick ((name, false) :: rest) }

/-- Take turns, each with the next pick of the schedule. -/
def run (client : Client) (limit : Nat) : (turns : Nat) → (schedule : Nat → Nat) → Window → Report
  | 0, _, w => ⟨.ok w.delivered, w.peak⟩
  | turns + 1, schedule, w =>
    match turn client limit (schedule 0) w with
    | .inl next => run client limit turns (fun n => schedule (n + 1)) next
    | .inr outcome => ⟨outcome, w.peak⟩

/-- The state before the first request. -/
def start (names : List Text) : Window := ⟨names, [], [], 0⟩

end Fetch

/-- Fetch the names with at most `concurrency` requests in flight, and at least
one. -/
def fetch (client : Client) (concurrency : Nat) (schedule : Nat → Nat) (names : List Text) :
    Fetch.Report :=
  Fetch.run client (max concurrency 1) (3 * names.length + 1) schedule (Fetch.start names)

end ConfigTemplate
