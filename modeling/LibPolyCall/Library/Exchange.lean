import LibPolyCall.Library.Runs
import Mathlib.Logic.Function.Basic

/-!
# Parties that exchange packets

Each party is a machine of its own (`Runs`), and sends packets to one other party, its peer. The
network keeps what was sent to a party and hands over any of it, in any order, and as often as it
likes: a packet that is never handed over is lost.

When a party that is handed a packet stays in its state, the parties do not get in each other's
way: each of them comes to the state that its own inputs lead to (`state_final`), and sends what it
sends alone (`sent_final`). What is handed to a party is then what its peer has sent by the end, at
the places that the network picks (`handed_eq`).
-/

/-- The states of the parties, and the packets that were sent to each of them. -/
structure Exchange (κ σ π : Type*) where
  state : κ → σ
  sent : κ → List π

namespace Exchange

/-- A party takes an input, or the network hands over the packet that was sent to it as number
`place`. -/
inductive Event (κ ι : Type*) where
  | act (party : κ) (input : ι)
  | deliver (party : κ) (place : ℕ)

variable {κ σ ι ω π : Type*} [DecidableEq κ]

/-- The parties before anything was sent. -/
def start (state : κ → σ) : Exchange κ σ π := ⟨state, fun _ => []⟩

/-- The inputs of a party. -/
def own (party : κ) (events : List (Event κ ι)) : List ι :=
  events.filterMap fun
    | .act other input => if other = party then some input else none
    | .deliver _ _ => none

/-- The place from which an event hands a packet to the party. -/
def places (party : κ) (x : Exchange κ σ π) : Event κ ι → List ℕ
  | .act _ _ => []
  | .deliver other place =>
    if other = party ∧ place < (x.sent other).length then [place] else []

/-- The packet that an event hands to the party. -/
def handed (party : κ) (x : Exchange κ σ π) : Event κ ι → List π
  | .act _ _ => []
  | .deliver other place => if other = party then (x.sent other)[place]?.toList else []

/-- What a party takes as its own input, the party is made to take. -/
theorem act_mem_of_mem_own {party : κ} {events : List (Event κ ι)} {input : ι}
    (h : input ∈ own party events) : .act party input ∈ events := by
  obtain ⟨event, hevent, heq⟩ := List.mem_filterMap.1 h
  cases event with
  | act other other_input =>
    dsimp only at heq
    split at heq
    · next hother =>
      rw [hother, Option.some.inj heq] at hevent
      exact hevent
    · cases heq
  | deliver other place => cases heq

section Step

variable (step : σ → ι → σ × ω) (emits : σ → ι → List π) (receive : σ → π → σ) (peer : κ → κ)

/-- What an event makes of the parties and the network. It gives the packet that is handed over. -/
def next (x : Exchange κ σ π) : Event κ ι → Exchange κ σ π × Option π
  | .act party input =>
    (⟨Function.update x.state party (step (x.state party) input).1,
      Function.update x.sent (peer party)
        (x.sent (peer party) ++ emits (x.state party) input)⟩, none)
  | .deliver party place =>
    match (x.sent party)[place]? with
    | none => (x, none)
    | some packet =>
      (⟨Function.update x.state party (receive (x.state party) packet), x.sent⟩, some packet)

/-- What was sent to a party stays sent. -/
theorem sent_prefix (x : Exchange κ σ π) (events : List (Event κ ι)) (party : κ) :
    x.sent party <+: (Runs.final (next step emits receive peer) x events).sent party := by
  refine (Runs.rel_final_of_step (R := fun x y => x.sent party <+: y.sent party)
    (fun _ => List.prefix_rfl) (fun _ _ _ => List.IsPrefix.trans) (fun x event => ?_) x events).1
  cases event with
  | act other input =>
    by_cases hpeer : party = peer other
    · simp [next, hpeer]
    · simp [next, hpeer]
  | deliver other place =>
    simp only [next]
    split <;> exact List.prefix_rfl

/-- What is handed to a party was sent to it by the end, at the places that the network picks. -/
theorem handed_eq (party : κ) : ∀ (x : Exchange κ σ π) (events : List (Event κ ι)),
    (∀ place ∈ Runs.outputs (next step emits receive peer) (places party) x events,
        place < ((Runs.final (next step emits receive peer) x events).sent party).length) ∧
      Runs.outputs (next step emits receive peer) (handed party) x events =
        (Runs.outputs (next step emits receive peer) (places party) x events).filterMap fun place =>
          ((Runs.final (next step emits receive peer) x events).sent party)[place]?
  | x, [] => by simp
  | x, event :: events => by
    obtain ⟨hplaces, hhanded⟩ := handed_eq party (next step emits receive peer x event).1 events
    have hprefix := sent_prefix step emits receive peer x (event :: events) party
    rw [Runs.final_cons] at hprefix ⊢
    rw [Runs.outputs_cons, Runs.outputs_cons, hhanded, List.filterMap_append]
    cases event with
    | act other input => exact ⟨hplaces, rfl⟩
    | deliver other place =>
      -- The packet at this place was sent already, and later ones come behind it.
      by_cases hplace : other = party ∧ place < (x.sent other).length
      · obtain ⟨rfl, hplace⟩ := hplace
        have hsent := hprefix.getElem hplace
        have hlast := Nat.lt_of_lt_of_le hplace hprefix.length_le
        simp only [places, handed, hplace, and_self, if_true]
        refine ⟨fun p hp => ?_, ?_⟩
        · rw [List.singleton_append, List.mem_cons] at hp
          rcases hp with rfl | hp
          · exact hlast
          · exact hplaces p hp
        · simp [List.getElem?_eq_getElem hlast, List.getElem?_eq_getElem hplace, hsent]
      · -- A place that nothing was sent to yet hands over nothing.
        have hnone : handed party x (.deliver other place : Event κ ι) = [] := by
          simp only [handed]
          split
          · next hother =>
            rw [List.getElem?_eq_none (Nat.not_lt.1 fun h => hplace ⟨hother, h⟩),
              Option.toList_none]
          · rfl
        rw [places, if_neg hplace, hnone]
        exact ⟨hplaces, rfl⟩

variable {receive}

section Quiet

variable (hquiet : ∀ s packet, receive s packet = s)
include hquiet

/-- A packet that is handed over leaves every party as it was. -/
theorem next_deliver (x : Exchange κ σ π) (party : κ) (place : ℕ) :
    (next step emits receive peer x (.deliver party place : Event κ ι)).1 = x := by
  simp only [next]
  split
  · rfl
  · rw [hquiet, Function.update_eq_self]

/-- A party comes to the state that its own inputs lead to. -/
theorem state_final (party : κ) : ∀ (x : Exchange κ σ π) (events : List (Event κ ι)),
    (Runs.final (next step emits receive peer) x events).state party =
      Runs.final step (x.state party) (own party events)
  | x, [] => rfl
  | x, event :: events => by
    rw [Runs.final_cons, state_final party]
    cases event with
    | act other input =>
      by_cases hother : other = party
      · subst hother
        simp [own, next]
      · simp [own, next, hother, Function.update_of_ne (Ne.symm hother)]
    | deliver other place =>
      rw [next_deliver step emits peer hquiet]
      rfl

/-- What was sent to the peer of a party is what the party sends alone. -/
theorem sent_final (hpeer : Function.Injective peer) (party : κ) :
    ∀ (x : Exchange κ σ π) (events : List (Event κ ι)),
      (Runs.final (next step emits receive peer) x events).sent (peer party) =
        x.sent (peer party) ++ Runs.outputs step emits (x.state party) (own party events)
  | x, [] => by simp [own]
  | x, event :: events => by
    rw [Runs.final_cons, sent_final hpeer party]
    cases event with
    | act other input =>
      by_cases hother : other = party
      · subst hother
        simp [own, next]
      · have hne : peer party ≠ peer other := fun h => hother (hpeer h).symm
        simp [own, next, hother, Function.update_of_ne (Ne.symm hother),
          Function.update_of_ne hne]
    | deliver other place =>
      rw [next_deliver step emits peer hquiet]
      rfl

end Quiet

end Step

/-- The elements at the first places, in order. -/
theorem filterMap_range {α : Type*} (l : List α) :
    ∀ n, (List.range n).filterMap (l[·]?) = l.take n
  | 0 => by simp
  | n + 1 => by
    rw [List.range_succ, List.filterMap_append, filterMap_range l n, List.take_add_one]
    cases h : l[n]? <;> simp [h]

end Exchange
