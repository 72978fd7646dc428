import EngineerLinux.Lib.Machine

/-!
# Hand-over through one place

The purpose of a one-place channel, with no word about how it is built: a sender fills the place
and publishes it, some receiver takes what was published, and only after that receiver has
released the place may the sender fill it again.

`Handoff.Inv`, which every move keeps, ties the place to what has been sent and received: every
item is received at most once, in the order sent, and at most one item is on its way
(`Handoff.Inv.order`, `Handoff.Inv.no_omission`). A program that is simulated by this machine
inherits both.
-/

universe u v

/-- The place: empty, being filled, published, or held by the receiver that took it. -/
inductive Place (ι : Type u) (π : Type v) where
  | empty
  | filling (p : π)
  | full (p : π)
  | held (j : ι) (p : π)

/-- The place, and what has been sent and received so far. -/
structure Handoff (ι : Type u) (π : Type v) where
  place : Place ι π
  sent : List π
  received : List (ι × π)

namespace Handoff

variable {ι : Type u} {π : Type v}

/-- The moves: the sender begins and publishes, receiver `j` takes, the holder releases. -/
inductive Move (ι : Type u) (π : Type v) where
  | start (p : π)
  | publish
  | take (j : ι)
  | release

def step (h : Handoff ι π) : Move ι π → Option (Handoff ι π)
  | .start p =>
    match h.place with
    | .empty => some { h with place := .filling p }
    | _ => none
  | .publish =>
    match h.place with
    | .filling p => some { h with place := .full p, sent := h.sent ++ [p] }
    | _ => none
  | .take j =>
    match h.place with
    | .full p => some { h with place := .held j p, received := h.received ++ [(j, p)] }
    | _ => none
  | .release =>
    match h.place with
    | .held _ _ => some { h with place := .empty }
    | _ => none

/-- The one-place channel, at first empty. -/
def machine (ι : Type u) (π : Type v) : Machine (Handoff ι π) (Move ι π) where
  init := fun h => h = ⟨.empty, [], []⟩
  next := step

/-- What is published and not yet taken. -/
def outstanding (h : Handoff ι π) : List π :=
  match h.place with
  | .full p => [p]
  | _ => []

/-- Everything sent has been received in order, except what is outstanding; the holder is the
last that received. -/
structure Inv (h : Handoff ι π) : Prop where
  sent_eq : h.sent = h.received.map Prod.snd ++ h.outstanding
  last : ∀ j p, h.place = .held j p → h.received.getLast? = some (j, p)

theorem inv_init : Inv (⟨.empty, [], []⟩ : Handoff ι π) := ⟨rfl, nofun⟩

/-- Each move keeps the invariant. -/
theorem Inv.step {h h' : Handoff ι π} {m : Move ι π} (hi : Inv h) (hs : h.step m = some h') :
    Inv h' := by
  obtain ⟨place, sent, received⟩ := h
  have hsent := hi.sent_eq
  cases m with
  | start p =>
    cases place with
    | empty =>
      obtain rfl := Option.some.inj hs
      exact ⟨hsent, nofun⟩
    | _ => cases hs
  | publish =>
    cases place with
    | filling p =>
      obtain rfl := Option.some.inj hs
      refine ⟨?_, nofun⟩
      simp only [outstanding, List.append_nil] at hsent ⊢
      rw [hsent]
    | _ => cases hs
  | take j =>
    cases place with
    | full p =>
      obtain rfl := Option.some.inj hs
      refine ⟨?_, fun j' p' hp => ?_⟩
      · simp only [outstanding, List.append_nil, List.map_append, List.map_cons,
          List.map_nil] at hsent ⊢
        exact hsent
      · cases hp
        exact List.getLast?_concat
    | _ => cases hs
  | release =>
    cases place with
    | held j p =>
      obtain rfl := Option.some.inj hs
      exact ⟨hsent, nofun⟩
    | _ => cases hs

/-- Items are received in the order they were sent. -/
theorem Inv.order {h : Handoff ι π} (hi : Inv h) : h.received.map Prod.snd <+: h.sent :=
  ⟨h.outstanding, hi.sent_eq.symm⟩

theorem Inv.length_sent {h : Handoff ι π} (hi : Inv h) :
    h.sent.length = h.received.length + h.outstanding.length := by
  rw [hi.sent_eq, List.length_append, List.length_map]

/-- At most one item is sent and not received. -/
theorem Inv.no_omission {h : Handoff ι π} (hi : Inv h) :
    h.sent.length ≤ h.received.length + 1 := by
  have hlen : h.outstanding.length ≤ 1 := by
    unfold outstanding
    split <;> simp
  rw [hi.length_sent]
  omega

end Handoff
