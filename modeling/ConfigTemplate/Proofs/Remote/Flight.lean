/-
Fetching under any schedule.

A `Flight` is the state of a fetch of which no more is known than that names are
requested in the order of the list, that a bounded number of requests is in flight, and
that they are delivered in the order they were made, up to the first that failed.  When
the next request is made, and when and in which order requests complete, is open:
`Flight.Step` allows all of it.

* `Invariant.step`, `exists_invariant`: the requests delivered, in flight and waiting are
  always all of them, in order;
* `outcome_eq_settled`: so a fetch that has ended has come to what asking for one name
  after the other comes to;
* `exists_step`, `exists_not_step`: a fetch that has not ended goes on, and it ends;
* `Reachable.faithful`: what follows for the order of requests and for failures.

Design notes: requests carry their place in the list, because a name may be asked for
more than once.  What the client will answer is fixed beforehand, place by place, so that
an answer does not depend on the schedule.
-/
import Mathlib.Logic.Relation
import ConfigTemplate.Remote.Fetch

namespace ConfigTemplate

/-- A request and the answer that it comes to. -/
structure Request where
  /-- The place in the list of names. -/
  place : Nat
  name : Text
  answer : Except Text Tree

/-- A name and what the client answers when it is asked for it. -/
abbrev Exchange := Text × Except Text Tree

namespace Request

/-- The name and the answer of a request, without its place in the list. -/
def exchange (r : Request) : Exchange :=
  (r.name, r.answer)

/-- The requests for a list of names. -/
def all (asked : List Exchange) : List Request :=
  asked.zipIdx.map fun x => ⟨x.2, x.1.1, x.1.2⟩

@[simp] theorem length_all (asked : List Exchange) : (all asked).length = asked.length := by
  simp [all]

theorem map_exchange_all (asked : List Exchange) : (all asked).map exchange = asked := by
  have hfst : exchange ∘ (fun x : Exchange × Nat => (⟨x.2, x.1.1, x.1.2⟩ : Request)) =
      Prod.fst := rfl
  rw [all, List.map_map, hfst, List.zipIdx_map_fst]

theorem map_place_all (asked : List Exchange) :
    (all asked).map place = List.range asked.length := by
  have hsnd : place ∘ (fun x : Exchange × Nat => (⟨x.2, x.1.1, x.1.2⟩ : Request)) =
      Prod.snd := rfl
  rw [all, List.map_map, hsnd, List.zipIdx_map_snd, List.range_eq_range']

end Request

/-- The state of a fetch. -/
structure Flight where
  /-- The requests that have not been made. -/
  waiting : List Request
  /-- The requests that have not been delivered, oldest first, and whether each has
  completed. -/
  flying : List (Request × Bool)
  delivered : List Tree
  /-- The places of the requests that have been made, in order. -/
  requested : List Nat
  /-- What the fetch has come to, once it has ended. -/
  outcome : Option (Except FetchFault (List Tree))

namespace Flight

/-- The state before the first request. -/
def start (asked : List Exchange) : Flight :=
  ⟨Request.all asked, [], [], [], none⟩

/-- One step of a fetch with at most `limit` requests in flight. -/
inductive Step (limit : Nat) : Flight → Flight → Prop
  /-- Make the next request, if there is room for it. -/
  | request {r : Request} {waiting : List Request} {flying : List (Request × Bool)}
      {delivered : List Tree} {requested : List Nat} (room : flying.length < limit) :
      Step limit ⟨r :: waiting, flying, delivered, requested, none⟩
        ⟨waiting, flying ++ [(r, false)], delivered, requested ++ [r.place], none⟩
  /-- Any request in flight completes. -/
  | complete {r : Request} {waiting : List Request} {older newer : List (Request × Bool)}
      {delivered : List Tree} {requested : List Nat} :
      Step limit ⟨waiting, older ++ (r, false) :: newer, delivered, requested, none⟩
        ⟨waiting, older ++ (r, true) :: newer, delivered, requested, none⟩
  /-- Deliver the oldest request. -/
  | deliver {r : Request} {t : Tree} {waiting : List Request} {flying : List (Request × Bool)}
      {delivered : List Tree} {requested : List Nat} (answer : r.answer = .ok t) :
      Step limit ⟨waiting, (r, true) :: flying, delivered, requested, none⟩
        ⟨waiting, flying, delivered ++ [t], requested, none⟩
  /-- The oldest request has failed, which ends the fetch. -/
  | fail {r : Request} {reason : Text} {waiting : List Request}
      {flying : List (Request × Bool)} {delivered : List Tree} {requested : List Nat}
      (answer : r.answer = .error reason) :
      Step limit ⟨waiting, (r, true) :: flying, delivered, requested, none⟩
        ⟨waiting, (r, true) :: flying, delivered, requested, some (.error ⟨r.name, reason⟩)⟩
  /-- Everything has been delivered. -/
  | finish {delivered : List Tree} {requested : List Nat} :
      Step limit ⟨[], [], delivered, requested, none⟩
        ⟨[], [], delivered, requested, some (.ok delivered)⟩

/-- The states that a fetch of a list of names can be in. -/
def Reachable (limit : Nat) (asked : List Exchange) : Flight → Prop :=
  Relation.ReflTransGen (Step limit) (start asked)

/-! ### Asking for one name after the other -/

/-- What asking for one name after the other comes to, up to the first failure. -/
def settled : List Exchange → Except FetchFault (List Tree)
  | [] => .ok []
  | (_, .ok t) :: rest => (settled rest).map (t :: ·)
  | (name, .error reason) :: _ => .error ⟨name, reason⟩

theorem settled_append {done : List Exchange} {ts : List Tree}
    (h : done.map Prod.snd = ts.map .ok) (rest : List Exchange) :
    settled (done ++ rest) = (settled rest).map (ts ++ ·) := by
  induction done generalizing ts with
  | nil =>
    obtain rfl : ts = [] := by simpa using h.symm
    rcases hs : settled rest with f | us <;> simp [Except.map, hs]
  | cons x done ih =>
    obtain ⟨name, answer⟩ := x
    rcases ts with _ | ⟨t, ts⟩
    · simp at h
    · rw [List.map_cons, List.map_cons, List.cons.injEq] at h
      obtain ⟨rfl, hrest⟩ : answer = .ok t ∧ _ := h
      rw [List.cons_append, settled, ih hrest]
      rcases settled rest with f | us <;> rfl

theorem settled_of_ok {asked : List Exchange} {ts : List Tree}
    (h : asked.map Prod.snd = ts.map .ok) : settled asked = .ok ts := by
  have hs := settled_append h []
  rw [List.append_nil] at hs
  simpa [settled, Except.map] using hs

/-- The first name that fails settles what the others come to. -/
theorem settled_of_error {asked : List Exchange} {i : Nat} {name reason : Text}
    (hi : asked[i]? = some (name, .error reason))
    (hbefore : ∀ j < i, ∃ n t, asked[j]? = some (n, .ok t)) :
    settled asked = .error ⟨name, reason⟩ := by
  induction asked generalizing i with
  | nil => simp at hi
  | cons x asked ih =>
    rcases i with _ | i
    · obtain rfl : x = (name, .error reason) := by simpa using hi
      rfl
    · obtain ⟨n, t, h0⟩ := hbefore 0 (Nat.succ_pos i)
      obtain rfl : x = (n, .ok t) := by simpa using h0
      have hrest := ih (by simpa using hi) fun j hj => by
        simpa using hbefore (j + 1) (Nat.succ_lt_succ hj)
      rw [settled, hrest]
      rfl

/-! ### What every step keeps -/

/-- What holds of a fetch that has delivered the requests `done`. -/
structure Invariant (limit : Nat) (asked : List Exchange) (done : List Request) (s : Flight) :
    Prop where
  room : s.flying.length ≤ limit
  /-- No request is lost or overtaken. -/
  order : Request.all asked = done ++ s.flying.map Prod.fst ++ s.waiting
  delivered : done.map Request.answer = s.delivered.map .ok
  requested : s.requested = (done ++ s.flying.map Prod.fst).map Request.place
  succeeded : ∀ ts, s.outcome = some (.ok ts) → s.flying = [] ∧ s.waiting = [] ∧ ts = s.delivered
  failed : ∀ f, s.outcome = some (.error f) → ∃ r flying reason,
    s.flying = (r, true) :: flying ∧ r.answer = .error reason ∧ f = ⟨r.name, reason⟩

section

variable {limit : Nat} {asked : List Exchange} {done : List Request} {s s' : Flight}

theorem invariant_start (limit : Nat) (asked : List Exchange) :
    Invariant limit asked [] (start asked) where
  room := Nat.zero_le _
  order := rfl
  delivered := rfl
  requested := rfl
  succeeded := by simp [start]
  failed := by simp [start]

theorem Invariant.step (h : Invariant limit asked done s) (hstep : Step limit s s') :
    ∃ done', Invariant limit asked done' s' := by
  cases hstep with
  | request room =>
    have hrequested := h.requested
    refine ⟨done, by simpa using Nat.succ_le_of_lt room, by simpa using h.order, h.delivered, ?_,
      by simp, by simp⟩
    simp only [List.map_append, List.map_cons, List.map_nil, ← List.append_assoc] at hrequested ⊢
    rw [hrequested]
  | complete =>
    refine ⟨done, by simpa using h.room, ?_, h.delivered, ?_, by simp, by simp⟩
    · simpa using h.order
    · simpa using h.requested
  | @deliver r t waiting flying delivered requested answer =>
    -- The oldest request in flight follows those that have been delivered.
    refine ⟨done ++ [r], ?_, ?_, ?_, ?_, by simp, by simp⟩
    · exact Nat.le_of_succ_le (by simpa using h.room)
    · simpa using h.order
    · simp [h.delivered, answer]
    · simpa using h.requested
  | @fail r reason waiting flying delivered requested answer =>
    refine ⟨done, h.room, h.order, h.delivered, h.requested, by simp, fun f hf => ?_⟩
    exact ⟨r, flying, reason, rfl, answer, by simpa using hf.symm⟩
  | finish =>
    refine ⟨done, h.room, h.order, h.delivered, h.requested, fun ts hts => ?_, by simp⟩
    exact ⟨rfl, rfl, by simpa using hts.symm⟩

/-- **Every state of a fetch is in order.** -/
theorem exists_invariant (h : Reachable limit asked s) : ∃ done, Invariant limit asked done s := by
  induction h with
  | refl => exact ⟨[], invariant_start limit asked⟩
  | tail _ hstep ih =>
    obtain ⟨done, hinv⟩ := ih
    exact hinv.step hstep

theorem Invariant.asked_eq (h : Invariant limit asked done s) :
    asked = done.map Request.exchange ++
      (s.flying.map Prod.fst ++ s.waiting).map Request.exchange := by
  have hmap := congrArg (List.map Request.exchange) h.order
  rwa [Request.map_exchange_all, List.append_assoc, List.map_append] at hmap

theorem Invariant.map_snd (h : Invariant limit asked done s) :
    (done.map Request.exchange).map Prod.snd = s.delivered.map .ok := by
  rw [← h.delivered, List.map_map]
  rfl

/-- The requests that have been made are the first of the list. -/
theorem Invariant.requested_eq_range (h : Invariant limit asked done s) :
    s.requested = List.range (done.length + s.flying.length) := by
  have hplaces := congrArg (List.map Request.place) h.order
  rw [Request.map_place_all, List.map_append, ← h.requested] at hplaces
  have hlength : s.requested.length = done.length + s.flying.length := by
    simp [h.requested]
  have htake : s.requested = (List.range asked.length).take s.requested.length := by
    rw [hplaces, List.take_left]
  have hle : s.requested.length ≤ asked.length := by
    have := congrArg List.length hplaces
    simp only [List.length_range, List.length_append] at this
    omega
  rw [htake, hlength, List.take_range, Nat.min_eq_left (hlength ▸ hle)]

/-- A request that fails is never delivered. -/
theorem Invariant.length_le_of_error (h : Invariant limit asked done s) {i : Nat}
    {name reason : Text} (hi : asked[i]? = some (name, .error reason)) : done.length ≤ i := by
  refine Nat.le_of_not_lt fun hlt => ?_
  have hanswer : (s.delivered.map Except.ok)[i]? = some (Except.error reason) := by
    rw [← h.map_snd, List.getElem?_map]
    rw [h.asked_eq, List.getElem?_append_left (by simpa using hlt)] at hi
    rw [hi]
    rfl
  rw [List.getElem?_map, Option.map_eq_some_iff] at hanswer
  obtain ⟨t, -, ht⟩ := hanswer
  simp at ht

/-- **A fetch that has ended** has come to what asking for one name after the other comes
to. -/
theorem outcome_eq_settled (h : Reachable limit asked s) {r : Except FetchFault (List Tree)}
    (hr : s.outcome = some r) : r = settled asked := by
  obtain ⟨done, hinv⟩ := exists_invariant h
  rw [hinv.asked_eq, settled_append hinv.map_snd]
  rcases r with f | ts
  · obtain ⟨x, flying, reason, hflying, hanswer, rfl⟩ := hinv.failed f hr
    have hx : x.exchange = (x.name, .error reason) := by rw [Request.exchange, hanswer]
    simp [hflying, hx, settled, Except.map]
  · obtain ⟨hflying, hwaiting, rfl⟩ := hinv.succeeded ts hr
    simp [hflying, hwaiting, settled, Except.map]

/-- When a fetch has delivered everything, it has requested every place once. -/
theorem requested_of_ok (h : Reachable limit asked s) {ts : List Tree}
    (hr : s.outcome = some (.ok ts)) : s.requested = List.range asked.length := by
  obtain ⟨done, hinv⟩ := exists_invariant h
  obtain ⟨hflying, hwaiting, -⟩ := hinv.succeeded ts hr
  have hlength := congrArg List.length hinv.asked_eq
  simp [hflying, hwaiting] at hlength
  rw [hinv.requested_eq_range, hlength, hflying]
  rfl

/-! ### A fetch ends -/

/-- A fetch that has not ended goes on. -/
theorem exists_step (hlimit : 0 < limit) (h : s.outcome = none) : ∃ s', Step limit s s' := by
  obtain ⟨waiting, flying, delivered, requested, outcome⟩ := s
  obtain rfl : outcome = none := h
  rcases flying with _ | ⟨⟨r, completed⟩, flying⟩
  · rcases waiting with _ | ⟨r, waiting⟩
    · exact ⟨_, .finish⟩
    · exact ⟨_, .request hlimit⟩
  · rcases completed with _ | _
    · exact ⟨_, @Step.complete limit r waiting [] flying delivered requested⟩
    · rcases ha : r.answer with reason | t
      · exact ⟨_, .fail ha⟩
      · exact ⟨_, .deliver ha⟩

/-- How many steps a fetch can take at most. -/
def remaining (s : Flight) : Nat :=
  3 * s.waiting.length + s.flying.length + s.flying.countP (!·.2) +
    if s.outcome.isNone then 1 else 0

theorem remaining_lt (h : Step limit s s') : s'.remaining < s.remaining := by
  cases h with
  | @request r waiting flying delivered requested _ =>
    have hcount : (flying ++ [(r, false)]).countP (!·.2) = flying.countP (!·.2) + 1 := by simp
    simp only [remaining, List.length_append, List.length_cons, List.length_nil, hcount]
    omega
  | complete => simp [remaining]
  | deliver _ => simp [remaining]
  | fail _ => simp [remaining]
  | finish => simp [remaining]

/-- No fetch goes on for ever. -/
theorem exists_not_step (limit : Nat) (run : Nat → Flight) :
    ∃ n, ¬ Step limit (run n) (run (n + 1)) := by
  refine Classical.byContradiction fun hnone => ?_
  have hall : ∀ n, Step limit (run n) (run (n + 1)) := fun n =>
    Classical.byContradiction fun hn => hnone ⟨n, hn⟩
  -- After `n` steps the first state has had at least `n` left.
  have hleft : ∀ n, (run n).remaining + n ≤ (run 0).remaining := by
    intro n
    induction n with
    | zero => exact Nat.le_refl _
    | succ n ih =>
      have hlt := remaining_lt (hall n)
      omega
  have := hleft ((run 0).remaining + 1)
  omega

end

/-! ### What a fetch promises -/

/-- What is promised of a state of a fetch, whatever the schedule. -/
structure Faithful (limit : Nat) (asked : List Exchange) (s : Flight) : Prop where
  bounded : s.flying.length ≤ limit
  once : s.requested.Nodup
  /-- A fetch ends with an outcome only. -/
  goes_on : s.outcome = none → ∃ s', Step limit s s'
  /-- When no name fails, everything is requested once and delivered in order. -/
  succeeded : ∀ settings, asked.map Prod.snd = settings.map .ok → ∀ r, s.outcome = some r →
    r = .ok settings ∧ s.requested = List.range asked.length
  /-- Otherwise the first place that fails is reported, and fewer than `limit` places beyond
  it are requested. -/
  failed : ∀ i name reason, asked[i]? = some (name, .error reason) →
    (∀ j < i, ∃ n t, asked[j]? = some (n, .ok t)) →
    (∀ r, s.outcome = some r → r = .error ⟨name, reason⟩) ∧ ∀ j ∈ s.requested, j < i + limit

theorem Reachable.faithful {limit : Nat} {asked : List Exchange} {s : Flight} (hlimit : 0 < limit)
    (h : Reachable limit asked s) : Faithful limit asked s := by
  obtain ⟨done, hinv⟩ := exists_invariant h
  refine ⟨hinv.room, ?_, exists_step hlimit, fun settings hsettings r hr => ?_,
    fun i name reason hi hbefore => ⟨fun r hr => ?_, fun j hj => ?_⟩⟩
  · rw [hinv.requested_eq_range]
    exact List.nodup_range
  · obtain rfl : r = .ok settings := by
      rw [outcome_eq_settled h hr, settled_of_ok hsettings]
    exact ⟨rfl, requested_of_ok h hr⟩
  · rw [outcome_eq_settled h hr, settled_of_error hi hbefore]
  · -- Requests that are delivered precede the failing one, and few are in flight.
    rw [hinv.requested_eq_range, List.mem_range] at hj
    have hdone := hinv.length_le_of_error hi
    have hroom := hinv.room
    omega

end Flight

end ConfigTemplate
