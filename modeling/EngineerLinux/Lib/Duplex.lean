import Mathlib.Data.List.Infix
import Mathlib.Logic.Function.Basic
import Mathlib.Logic.Function.Iterate

/-!
# Endpoints and their boxes

Endpoints `ι`, paired off by `peer`, exchange messages `μ` through first-in first-out boxes `κ`:
endpoint `i` reads from `box i` and writes to the box of its peer. Nothing says that different
endpoints have different boxes, and whether they do decides whether messages reach only the peer.

- `Duplex.Inv`: what endpoint `i` has received, followed by what its peer has written and is still
  in the box, is what the peer has written;
- `Duplex.Inv.send`, `Duplex.Inv.take`: a write keeps it, and so does a read that takes a message
  of the peer;
- `Duplex.Inv.routed`: then every endpoint has received a prefix of what its peer wrote;
- `Duplex.not_routed_of_mem`: once it has received any other message this is false;
- `Duplex.FromPeer.send`, `Duplex.FromPeer.take`: with a box of its own for each endpoint, no
  other message is ever there to be taken.
-/

universe u v w

/-- The boxes, each message with its writer; what was written; what was received. -/
structure Duplex (ι : Type u) (κ : Type v) (μ : Type w) where
  content : κ → List (ι × μ)
  sent : ι → List μ
  received : ι → List (ι × μ)

namespace Duplex

variable {ι : Type u} {κ : Type v} {μ : Type w} [DecidableEq ι] [DecidableEq κ]
  (peer : ι → ι) (box : ι → κ)

/-- Endpoint `i` writes `m`. -/
def send (d : Duplex ι κ μ) (i : ι) (m : μ) : Duplex ι κ μ where
  content := Function.update d.content (box (peer i)) (d.content (box (peer i)) ++ [(i, m)])
  sent := Function.update d.sent i (d.sent i ++ [m])
  received := d.received

/-- Endpoint `i` receives `e`, and `rest` is left in its box. -/
def take (d : Duplex ι κ μ) (i : ι) (e : ι × μ) (rest : List (ι × μ)) : Duplex ι κ μ where
  content := Function.update d.content (box i) rest
  sent := d.sent
  received := Function.update d.received i (d.received i ++ [e])

/-- Every endpoint has received a prefix of what its peer wrote, and nothing else. -/
def Routed (d : Duplex ι κ μ) : Prop :=
  ∀ i, d.received i <+: (d.sent (peer i)).map fun m => (peer i, m)

/-- Received, and written by the peer and still in the box: together, all the peer wrote. -/
def Inv (d : Duplex ι κ μ) : Prop :=
  ∀ i, d.received i ++ (d.content (box i)).filter (fun e => e.1 = peer i) =
    (d.sent (peer i)).map fun m => (peer i, m)

variable {peer box} {d : Duplex ι κ μ} {i : ι}

omit [DecidableEq κ] in
theorem Inv.routed (h : Inv peer box d) : Routed peer d := fun i => ⟨_, h i⟩

/-- A write keeps the invariant. -/
theorem Inv.send (hpeer : Function.Involutive peer) (h : Inv peer box d) (m : μ) :
    Inv peer box (d.send peer box i m) := by
  intro j
  have hj := h j
  show d.received j ++ (Function.update d.content (box (peer i))
      (d.content (box (peer i)) ++ [(i, m)]) (box j)).filter _ =
    (Function.update d.sent i (d.sent i ++ [m]) (peer j)).map _
  by_cases hij : peer j = i
  · -- `j` is the peer of the writer
    have hji : j = peer i := by rw [← hij, hpeer j]
    subst hji
    rw [Function.update_self, hpeer i, Function.update_self, List.filter_append, List.map_append,
      ← List.append_assoc]
    rw [hpeer i] at hj
    rw [hj]
    simp
  · rw [Function.update_of_ne hij]
    by_cases hbox : box j = box (peer i)
    · rw [hbox, Function.update_self, List.filter_append]
      rw [hbox] at hj
      rw [← hj]
      simp [Ne.symm hij]
    · rw [Function.update_of_ne hbox]
      exact hj

/-- A read that takes a message of the peer keeps the invariant. -/
theorem Inv.take (hpeer : Function.Involutive peer) (h : Inv peer box d) {e : ι × μ}
    {rest : List (ι × μ)} (hbox : d.content (box i) = e :: rest) (he : e.1 = peer i) :
    Inv peer box (d.take box i e rest) := by
  intro j
  have hj := h j
  show Function.update d.received i (d.received i ++ [e]) j ++
      (Function.update d.content (box i) rest (box j)).filter _ = _
  by_cases hij : j = i
  · subst hij
    rw [hbox, List.filter_cons_of_pos (by simpa using he)] at hj
    rw [Function.update_self, Function.update_self, List.append_assoc]
    exact hj
  · rw [Function.update_of_ne hij]
    by_cases hsame : box j = box i
    · -- the message taken is not for `j`, whose peer is another
      have hne : e.1 ≠ peer j := fun hej => hij (hpeer.injective (hej.symm.trans he))
      rw [hsame, hbox, List.filter_cons_of_neg (by simpa using hne)] at hj
      rw [hsame, Function.update_self]
      exact hj
    · rw [Function.update_of_ne hsame]
      exact hj

omit [DecidableEq ι] [DecidableEq κ] in
/-- An endpoint that has received a message not written by its peer is not routed. -/
theorem not_routed_of_mem {e : ι × μ} (hmem : e ∈ d.received i) (he : e.1 ≠ peer i) :
    ¬ Routed peer d := by
  intro hrouted
  obtain ⟨m, -, rfl⟩ := List.mem_map.mp ((hrouted i).subset hmem)
  exact he rfl

/-! ## A box for each endpoint -/

/-- What is in an endpoint's box was written by its peer. -/
def FromPeer (peer : ι → ι) (box : ι → κ) (d : Duplex ι κ μ) : Prop :=
  ∀ i, ∀ e ∈ d.content (box i), e.1 = peer i

theorem FromPeer.send (hbox : Function.Injective box) (hpeer : Function.Involutive peer)
    (h : FromPeer peer box d) (m : μ) : FromPeer peer box (d.send peer box i m) := by
  intro j e he
  replace he : e ∈ Function.update d.content (box (peer i))
    (d.content (box (peer i)) ++ [(i, m)]) (box j) := he
  by_cases hij : j = peer i
  · subst hij
    rw [Function.update_self] at he
    rcases List.mem_append.mp he with he | he
    · exact h _ e he
    · rw [List.mem_singleton.mp he, hpeer i]
  · rw [Function.update_of_ne (fun hb => hij (hbox hb))] at he
    exact h j e he

theorem FromPeer.take (h : FromPeer peer box d) {e : ι × μ} {rest : List (ι × μ)}
    (hbox : d.content (box i) = e :: rest) : FromPeer peer box (d.take box i e rest) := by
  intro j e' he'
  replace he' : e' ∈ Function.update d.content (box i) rest (box j) := he'
  by_cases hsame : box j = box i
  · rw [hsame, Function.update_self] at he'
    refine h j e' ?_
    rw [hsame, hbox]
    exact List.mem_cons_of_mem _ he'
  · rw [Function.update_of_ne hsame] at he'
    exact h j e' he'

end Duplex
