/-
The result of a fetch does not depend on its schedule.

`fetch` takes turns by a schedule of its own; here every turn is found among the steps of
a `Flight`, so that what holds of every flight holds of `fetch` too.

* `exists_flight_run`: a run of `fetch` is the run of a flight to its end;
* `fetch_outcome`, `resolveConfig_eq_settled`: its outcome, and the configuration made
  from it, is the one of asking for one name after the other;
* `fetch_order_faithful`: the bound on requests in flight, the order, and which failure is
  reported, for every schedule.
-/
import ConfigTemplate.Proofs.Remote.Flight
import ConfigTemplate.Remote.Resolve

namespace ConfigTemplate

/-- What the names lead to at a client. -/
def Client.exchanges (client : Client) (names : List Text) : List Exchange :=
  names.map fun name => (name, client name)

namespace Fetch

/-- What a window shows of the requests in flight. -/
def shown (flying : List (Request × Bool)) : List (Text × Bool) :=
  flying.map fun x => (x.1.name, x.2)

@[simp] theorem shown_nil : shown [] = [] :=
  rfl

@[simp] theorem shown_cons (r : Request) (completed : Bool) (flying : List (Request × Bool)) :
    shown ((r, completed) :: flying) = (r.name, completed) :: shown flying :=
  rfl

@[simp] theorem shown_append (older newer : List (Request × Bool)) :
    shown (older ++ newer) = shown older ++ shown newer :=
  List.map_append

@[simp] theorem length_shown (flying : List (Request × Bool)) :
    (shown flying).length = flying.length :=
  List.length_map _

@[simp] theorem all_shown (flying : List (Request × Bool)) :
    (shown flying).all (·.2) = flying.all (·.2) :=
  List.all_map

/-- `complete` completes one request, if there is one that has not completed. -/
theorem exists_complete (pick : Nat) {flying : List (Request × Bool)}
    (h : flying.all (·.2) = false) :
    ∃ older r newer, flying = older ++ (r, false) :: newer ∧
      complete pick (shown flying) = shown (older ++ (r, true) :: newer) := by
  induction flying generalizing pick with
  | nil => simp at h
  | cons x rest ih =>
    obtain ⟨q, completed⟩ := x
    cases completed with
    | true =>
      obtain ⟨older, r, newer, rfl, hcomplete⟩ := ih pick (by simpa using h)
      exact ⟨(q, true) :: older, r, newer, rfl, by rw [shown_cons, complete, hcomplete]; rfl⟩
    | false =>
      by_cases hpick : (pick = 0 || rest.all (·.2)) = true
      · refine ⟨[], q, rest, rfl, ?_⟩
        rw [shown_cons, complete, all_shown, if_pos hpick]
        rfl
      · obtain ⟨older, r, newer, rfl, hcomplete⟩ := ih (pick - 1) (by simp_all)
        refine ⟨(q, false) :: older, r, newer, rfl, ?_⟩
        rw [shown_cons, complete, all_shown, if_neg hpick, hcomplete]
        rfl

/-- The window of a fetch shows the state of a flight to the client. -/
inductive Shows (client : Client) (limit : Nat) : Window → Flight → Prop
  | intro {waiting : List Request} {flying : List (Request × Bool)} {delivered : List Tree}
      {requested : List Nat} {peak : Nat}
      (answers : ∀ r ∈ waiting ++ flying.map Prod.fst, r.answer = client r.name)
      (peak_le : peak ≤ limit) :
      Shows client limit ⟨waiting.map Request.name, shown flying, delivered, peak⟩
        ⟨waiting, flying, delivered, requested, none⟩

theorem shows_start (client : Client) (limit : Nat) (names : List Text) :
    Shows client limit (start names) (Flight.start (client.exchanges names)) := by
  have hnames : (Request.all (client.exchanges names)).map Request.name = names := by
    have hname : Request.name = Prod.fst ∘ Request.exchange := rfl
    rw [hname, ← List.map_map, Request.map_exchange_all, Client.exchanges, List.map_map]
    exact List.map_id names
  have hshows : Shows client limit
      ⟨(Request.all (client.exchanges names)).map Request.name, shown [], [], 0⟩
      (Flight.start (client.exchanges names)) := by
    refine .intro (fun r hr => ?_) (Nat.zero_le _)
    have hexchange : r.exchange ∈ client.exchanges names := by
      rw [← Request.map_exchange_all (client.exchanges names)]
      exact List.mem_map_of_mem (by simpa using hr)
    obtain ⟨name, -, hname⟩ := List.mem_map.mp hexchange
    obtain ⟨rfl, hanswer⟩ := Prod.mk.inj hname
    exact hanswer.symm
  rwa [hnames] at hshows

/-- What a turn comes to is what some step of the flight comes to. -/
def Follows (client : Client) (limit : Nat) (s : Flight) :
    Window ⊕ Except FetchFault (List Tree) → Prop
  | .inl w => ∃ s', Flight.Step limit s s' ∧ Shows client limit w s'
  | .inr r => ∃ s', Flight.Step limit s s' ∧ s'.outcome = some r

section

variable {client : Client} {limit : Nat} {w : Window} {s : Flight}

theorem Shows.follows_deliver (h : Shows client limit w s) (pick : Nat)
    (hidle : w.flying = [] → w.waiting = []) :
    Follows client limit s (turn.deliver client pick w w.flying) := by
  obtain @⟨waiting, flying, delivered, requested, peak, hanswers, hpeak⟩ := h
  rcases flying with _ | ⟨⟨r, completed⟩, flying⟩
  · obtain rfl : waiting = [] := by simpa using hidle
    exact ⟨_, .finish, rfl⟩
  · have hanswer : r.answer = client r.name := hanswers r (by simp)
    rw [shown_cons]
    cases completed with
    | true =>
      rcases hclient : client r.name with reason | t
      · simp only [turn.deliver, hclient]
        exact ⟨_, .fail (hanswer.trans hclient), rfl⟩
      · simp only [turn.deliver, hclient]
        refine ⟨_, .deliver (hanswer.trans hclient), .intro (fun x hx => hanswers x ?_) hpeak⟩
        exact List.mem_append.mpr ((List.mem_append.mp hx).imp id (.tail _))
    | false =>
      -- The schedule picks one of the requests in flight that have not completed.
      obtain ⟨older, q, newer, hpicked, hcomplete⟩ :=
        @exists_complete pick ((r, false) :: flying) rfl
      rw [hpicked] at hanswers ⊢
      rw [shown_cons] at hcomplete
      rw [turn.deliver, hcomplete]
      exact ⟨_, .complete, .intro (by simpa using hanswers) hpeak⟩

theorem turn_of_room (client : Client) (pick : Nat) {flying : List (Text × Bool)}
    (hroom : flying.length < limit) (name : Text) (names : List Text) (delivered : List Tree)
    (peak : Nat) :
    turn client limit pick ⟨name :: names, flying, delivered, peak⟩ =
      .inl ⟨names, flying ++ [(name, false)], delivered, max peak (flying.length + 1)⟩ :=
  if_pos hroom

theorem turn_of_no_room (client : Client) (pick : Nat)
    (h : w.waiting = [] ∨ limit ≤ w.flying.length) :
    turn client limit pick w = turn.deliver client pick w w.flying := by
  rcases hwaiting : w.waiting with _ | ⟨name, names⟩
  · rw [turn, hwaiting]
  · rw [turn, hwaiting]
    exact if_neg (Nat.not_lt.mpr (h.resolve_left (by simp [hwaiting])))

/-- **Every turn is a step** of the flight that the window shows. -/
theorem Shows.follows_turn (hlimit : 0 < limit) (h : Shows client limit w s) (pick : Nat) :
    Follows client limit s (turn client limit pick w) := by
  by_cases hbusy : w.waiting = [] ∨ limit ≤ w.flying.length
  · rw [turn_of_no_room client pick hbusy]
    refine h.follows_deliver pick fun hidle => hbusy.resolve_right ?_
    rw [hidle]
    exact Nat.not_le.mpr hlimit
  · obtain @⟨waiting, flying, delivered, requested, peak, hanswers, hpeak⟩ := h
    obtain ⟨hwaiting, hfull⟩ := not_or.mp hbusy
    have hroom : (shown flying).length < limit := Nat.lt_of_not_le hfull
    rcases waiting with _ | ⟨r, waiting⟩
    · exact absurd rfl hwaiting
    · rw [List.map_cons, turn_of_room client pick hroom,
        show [(r.name, false)] = shown [(r, false)] from rfl, ← shown_append]
      refine ⟨_, .request (by simpa using hroom), .intro (fun q hq => hanswers q ?_) ?_⟩
      · rw [List.map_append, ← List.append_assoc] at hq
        exact List.mem_cons.mpr (List.mem_append.mp hq |>.symm.imp List.mem_singleton.mp id)
      · exact Nat.max_le.mpr ⟨hpeak, hroom⟩

theorem Shows.exists_flight_run (hlimit : 0 < limit) {turns : Nat} (schedule : Nat → Nat)
    (h : Shows client limit w s) (hturns : s.remaining ≤ turns) :
    ∃ s', Relation.ReflTransGen (Flight.Step limit) s s' ∧
      s'.outcome = some (run client limit turns schedule w).outcome ∧
      (run client limit turns schedule w).peak ≤ limit := by
  -- A turn takes one of the steps that remain, so the turns do not run out before the end.
  induction turns generalizing schedule w s with
  | zero =>
    cases h
    simp [Flight.remaining] at hturns
  | succ turns ih =>
    have hfollows := h.follows_turn hlimit (schedule 0)
    rw [run]
    rcases hturn : turn client limit (schedule 0) w with w' | r <;> rw [hturn] at hfollows
    · obtain ⟨s', hstep, hshows⟩ := hfollows
      have hlt := Flight.remaining_lt hstep
      obtain ⟨last, hrun, hlast⟩ := ih (fun n => schedule (n + 1)) hshows (by omega)
      exact ⟨last, .head hstep hrun, hlast⟩
    · obtain ⟨s', hstep, hs'⟩ := hfollows
      have hpeak : w.peak ≤ limit := by
        cases h with
        | intro _ hpeak => exact hpeak
      exact ⟨s', .single hstep, hs', hpeak⟩

end

end Fetch

section

variable (client : Client) (concurrency : Nat) (schedule : Nat → Nat) (names : List Text)

/-- **A fetch is a flight** that has ended. -/
theorem exists_flight_fetch :
    ∃ s, Flight.Reachable (max concurrency 1) (client.exchanges names) s ∧
      s.outcome = some (fetch client concurrency schedule names).outcome ∧
      (fetch client concurrency schedule names).peak ≤ max concurrency 1 := by
  have hremaining :
      (Flight.start (client.exchanges names)).remaining = 3 * names.length + 1 := by
    simp [Flight.remaining, Flight.start, Client.exchanges]
  exact (Fetch.shows_start client (max concurrency 1) names).exists_flight_run
    (Nat.le_max_right _ _) schedule (Nat.le_of_eq hremaining)

theorem fetch_outcome :
    (fetch client concurrency schedule names).outcome =
      Flight.settled (client.exchanges names) := by
  obtain ⟨s, hreachable, houtcome, -⟩ := exists_flight_fetch client concurrency schedule names
  exact Flight.outcome_eq_settled hreachable houtcome

end

/-- The last request fails first, and yet the failure before it is the one reported. -/
example :
    (fetch (fun name => .error name) 2 (fun _ => 1) ["a".toList, "b".toList]).outcome =
      .error ⟨"a".toList, "a".toList⟩ := by
  rfl

theorem resolveConfig_eq_settled (client : Client) (schedule : Nat → Nat)
    (options : ConfigOptions) :
    (resolveConfig client schedule options).1 =
      (Flight.settled (client.exchanges options.names)).map fun fetched =>
        Tree.merge (options.layers fetched) := by
  rw [resolveConfig, fetch_outcome]

/-- **Fetching keeps the order under every schedule.**  At most `max concurrency 1` requests
are in flight in any state, every run ends, and all runs with any bound come to the same; `fetch`
is one of these runs, so neither it nor the configuration made from it depends on the
concurrency or the schedule. -/
theorem fetch_order_faithful (asked : List Exchange) (concurrency : Nat) :
    (∀ s, Flight.Reachable (max concurrency 1) asked s →
      Flight.Faithful (max concurrency 1) asked s) ∧
    (∀ run : Nat → Flight, ∃ n, ¬ Flight.Step (max concurrency 1) (run n) (run (n + 1))) ∧
    (∀ limit s s' r r', Flight.Reachable (max concurrency 1) asked s →
      Flight.Reachable limit asked s' → s.outcome = some r → s'.outcome = some r' → r = r') ∧
    ∀ client schedule,
      (∀ names, asked = client.exchanges names →
        ∃ s, Flight.Reachable (max concurrency 1) asked s ∧
          s.outcome = some (fetch client concurrency schedule names).outcome ∧
          (fetch client concurrency schedule names).peak ≤ max concurrency 1) ∧
      (∀ names concurrency' schedule',
        (fetch client concurrency schedule names).outcome =
          (fetch client concurrency' schedule' names).outcome) ∧
      ∀ options schedule',
        (resolveConfig client schedule { options with concurrency := concurrency }).1 =
          (resolveConfig client schedule' options).1 := by
  have hlimit : 0 < max concurrency 1 := Nat.le_max_right _ _
  refine ⟨fun s hs => hs.faithful hlimit, Flight.exists_not_step _,
    fun limit s s' r r' hs hs' hr hr' => ?_,
    fun client schedule => ⟨fun names hasked => ?_, fun names concurrency' schedule' => ?_,
      fun options schedule' => ?_⟩⟩
  · rw [Flight.outcome_eq_settled hs hr, Flight.outcome_eq_settled hs' hr']
  · subst hasked
    exact exists_flight_fetch client concurrency schedule names
  · rw [fetch_outcome, fetch_outcome]
  · rw [resolveConfig_eq_settled, resolveConfig_eq_settled]
    rfl

end ConfigTemplate
